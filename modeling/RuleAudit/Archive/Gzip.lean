/-!
# Gzip streams

Bytes wrapped as a gzip stream whose blocks are stored as they are.
-/

namespace RuleAudit.Gzip

def shiftBit (c : UInt32) : UInt32 := if c &&& 1 == 1 then (c >>> 1) ^^^ 0xEDB88320 else c >>> 1

/-- One more byte in a checksum. -/
def crcByte (c : UInt32) (b : UInt8) : UInt32 :=
  shiftBit (shiftBit (shiftBit (shiftBit (shiftBit (shiftBit (shiftBit (shiftBit
    (c ^^^ b.toUInt32))))))))

/-- The cyclic redundancy check of some bytes. -/
def crc (bytes : List UInt8) : UInt32 := (bytes.foldl crcByte 0xFFFFFFFF) ^^^ 0xFFFFFFFF

/-- A number in some bytes, the lowest first. -/
def littleEndian : Nat → Nat → List UInt8
  | 0, _ => []
  | count + 1, n => n.toUInt8 :: littleEndian count (n / 256)

/-- The most bytes of a stored block. -/
def maxBlock : Nat := 65535

/-- A stored block; the last one is marked. -/
def storedBlock (last : Bool) (bytes : List UInt8) : List UInt8 :=
  (if last then 1 else 0) :: littleEndian 2 bytes.length ++
    littleEndian 2 (maxBlock - bytes.length) ++ bytes

/-- Bytes cut into stored blocks. With one block more than full blocks nothing is left over. -/
def blocks : Nat → List UInt8 → List UInt8
  | 0, bytes => storedBlock true bytes
  | count + 1, bytes =>
    if bytes.length ≤ maxBlock then storedBlock true bytes
    else storedBlock false (bytes.take maxBlock) ++ blocks count (bytes.drop maxBlock)

/-- The gzip stream of some bytes, without a name and a time. -/
def wrap (bytes : List UInt8) : List UInt8 :=
  [0x1F, 0x8B, 8, 0, 0, 0, 0, 0, 0, 255] ++ blocks (bytes.length / maxBlock) bytes ++
    littleEndian 4 (crc bytes).toNat ++ littleEndian 4 bytes.length

end RuleAudit.Gzip
