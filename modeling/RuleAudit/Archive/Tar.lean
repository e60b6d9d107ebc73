import RuleAudit.Text.Utf8

/-!
# Tar archives

An archive of one file: a header block, the bytes of the file padded to whole blocks, and two empty
blocks at the end.
-/

namespace RuleAudit.Tar

/-- Archives consist of blocks of this many bytes. -/
def blockSize : Nat := 512

def zeros (n : Nat) : List UInt8 := List.replicate n 0

/-- Bytes padded with zeros to a width. -/
def field (width : Nat) (bytes : List UInt8) : List UInt8 :=
  bytes.take width ++ zeros (width - bytes.length)

/-- A number in octal digits and a zero byte, padded with the digit zero to a width. -/
def octal (width n : Nat) : List UInt8 :=
  let digits := Nat.toDigits 8 n
  Utf8.encode (List.replicate (width - 1 - digits.length) '0' ++ digits) ++ [0]

/-- The part of a header before its checksum: name, mode, owner, group, size and time. -/
def headerStart (name : Text) (size : Nat) : List UInt8 :=
  field 100 (Utf8.encode name) ++ octal 8 0o644 ++ zeros 8 ++ zeros 8 ++ octal 12 size ++ octal 12 0

/-- The part of a header after its checksum: the kind of a regular file, which is zero, no link, and
the format mark. -/
def headerEnd : List UInt8 :=
  zeros 1 ++ zeros 100 ++ Utf8.encode "ustar  ".toList ++ zeros 1 ++ zeros 247

/-- The sum of the bytes of a header, of which the checksum counts as eight blanks. -/
def checksum (name : Text) (size : Nat) : Nat :=
  (headerStart name size ++ List.replicate 8 32 ++ headerEnd).foldl
    (fun (n : Nat) (b : UInt8) => n + b.toNat) 0

def header (name : Text) (size : Nat) : List UInt8 :=
  headerStart name size ++ octal 8 (checksum name size) ++ headerEnd

/-- The number of zeros after a file. -/
def padding (size : Nat) : Nat := (blockSize - size % blockSize) % blockSize

def ofFile (name : Text) (body : List UInt8) : List UInt8 :=
  header name body.length ++ body ++ zeros (padding body.length) ++ zeros (2 * blockSize)

end RuleAudit.Tar
