/-!
# Text

Text is a list of characters, so that every operation on it is a recursion on the list.
-/

namespace RuleAudit

/-- Text is the list of its characters. -/
abbrev Text := List Char

namespace Text

/-! ## Blanks -/

/-- The characters with the Unicode property White_Space. -/
def isBlank (c : Char) : Bool :=
  let n := c.toNat
  (9 ≤ n && n ≤ 13) || n == 0x20 || n == 0x85 || n == 0xA0 || n == 0x1680 ||
    (0x2000 ≤ n && n ≤ 0x200A) || n == 0x2028 || n == 0x2029 || n == 0x202F ||
    n == 0x205F || n == 0x3000

/-- Leading blanks removed. -/
def trimStart (s : Text) : Text := s.dropWhile isBlank

/-- Trailing blanks removed. -/
def trimEnd (s : Text) : Text := (s.reverse.dropWhile isBlank).reverse

/-- Blanks removed at both ends. -/
def trim (s : Text) : Text := trimEnd (trimStart s)

@[simp] theorem trim_nil : trim [] = [] := rfl

/-! ## Splitting -/

section Splitting

variable {α : Type} [DecidableEq α]

/-- The pieces of a sequence between the occurrences of `sep`; one more piece than occurrences. -/
def splitOn (sep : α) : List α → List (List α)
  | [] => [[]]
  | c :: rest =>
    if c = sep then [] :: splitOn sep rest
    else
      match splitOn sep rest with
      | [] => [[c]]
      | piece :: pieces => (c :: piece) :: pieces

@[simp] theorem splitOn_ne_nil (sep : α) (s : List α) : splitOn sep s ≠ [] := by
  cases s with
  | nil => simp [splitOn]
  | cons c rest =>
    rw [splitOn]
    split
    · simp
    · split <;> simp

/-- The pieces joined by the separator give the text back, so that nothing is lost. -/
theorem intercalate_splitOn (sep : α) (s : List α) :
    List.intercalate [sep] (splitOn sep s) = s := by
  induction s with
  | nil => rfl
  | cons c rest ih =>
    rw [splitOn]
    cases h : splitOn sep rest with
    | nil => exact absurd h (splitOn_ne_nil sep rest)
    | cons piece pieces =>
      rw [h] at ih
      split
      · subst c
        cases pieces <;> simp_all [List.intercalate, List.intersperse]
      · cases pieces <;> simp_all [List.intercalate, List.intersperse]

/-- What stands before the first `sep` and what stands after it. -/
def splitFirst? (sep : α) : List α → Option (List α × List α)
  | [] => none
  | c :: rest =>
    if c = sep then some ([], rest)
    else (splitFirst? sep rest).map fun (before, after) => (c :: before, after)

end Splitting

/-- The lines of a text, each with the newline that ends it; a text that ends in a newline has no
empty last line. -/
def linesKept : Text → List Text
  | [] => []
  | c :: rest =>
    if c = '\n' then ['\n'] :: linesKept rest
    else
      match linesKept rest with
      | [] => [[c]]
      | line :: lines => (c :: line) :: lines

/-- The lines put one after the other give the text back. -/
theorem flatten_linesKept (s : Text) : (linesKept s).flatten = s := by
  induction s with
  | nil => rfl
  | cons c rest ih =>
    rw [linesKept]
    split
    · simp_all
    · cases h : linesKept rest <;> simp_all

/-! ## Searching and replacing -/

/-- Whether `needle` occurs in the text. -/
def hasInfix (needle : Text) : Text → Bool
  | [] => needle.isEmpty
  | c :: rest => needle.isPrefixOf (c :: rest) || hasInfix needle rest

/-- `skip` characters are left out, then each occurrence of the nonempty `old` is replaced. -/
def replaceFrom (old new : Text) : Nat → Text → Text
  | _, [] => []
  | 0, c :: rest =>
    if old.isPrefixOf (c :: rest) then new ++ replaceFrom old new (old.length - 1) rest
    else c :: replaceFrom old new 0 rest
  | skip + 1, _ :: rest => replaceFrom old new skip rest

/-- `new` at the start, and again after each character. -/
def weave (new : Text) : Text → Text
  | [] => new
  | c :: rest => new ++ c :: weave new rest

/-- Every occurrence of `old` replaced by `new`, from the left and without overlaps. The empty text
occurs at the start and after each character. -/
def replaceAll (old new s : Text) : Text :=
  if old.isEmpty then weave new s else replaceFrom old new 0 s

/-! ## Numbers and padding -/

/-- The decimal digits of a number. -/
def ofNat (n : Nat) : Text := Nat.toDigits 10 n

/-- The decimal digits of an integer, with a sign when it is negative. -/
def ofInt (i : Int) : Text :=
  if i < 0 then '-' :: ofNat i.natAbs else ofNat i.natAbs

/-- Blanks added on the right until the text has `width` characters. -/
def padRight (width : Nat) (s : Text) : Text := s ++ List.replicate (width - s.length) ' '

/-- A list of numbers as `[1, 2]`. -/
def ofNats (ns : List Nat) : Text :=
  '[' :: List.intercalate [',', ' '] (ns.map ofNat) ++ [']']

end Text

end RuleAudit
