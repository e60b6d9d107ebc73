import RuleAudit.Diff.Script
import RuleAudit.Text.Basic

/-!
# Unified differences

The differences of two texts, line by line and without context: two header lines, then for each
changed region its place and size in both texts, the lines that went and the lines that came.
-/

namespace RuleAudit

/-- A changed region: the lines removed from the old list and the lines inserted in their place. -/
structure Hunk (α : Type) where
  /-- The number of old lines before the region. -/
  oldStart : Nat
  newStart : Nat
  removed : List α
  inserted : List α
  deriving DecidableEq, Repr

namespace Hunk

variable {α : Type}

/-- The region without lines at a place. -/
def start (oldStart newStart : Nat) : Hunk α := ⟨oldStart, newStart, [], []⟩

/-- The region and those after it; a region without lines is none. -/
def consTo (h : Hunk α) (later : List (Hunk α)) : List (Hunk α) :=
  if h.removed.isEmpty && h.inserted.isEmpty then later else h :: later

/-- The region that may start one line after the end of this one. -/
def next (h : Hunk α) : Hunk α :=
  start (h.oldStart + h.removed.length + 1) (h.newStart + h.inserted.length + 1)

/-- The regions of the rest of a script, of which `h` is being read. -/
def gather (h : Hunk α) : List Edit → List α → List α → List (Hunk α)
  | [], _, _ => h.consTo []
  | .keep :: steps, old, new => h.consTo (gather h.next steps old.tail new.tail)
  | .remove :: steps, old, new =>
    gather { h with removed := h.removed ++ old.head?.toList } steps old.tail new
  | .insert :: steps, old, new =>
    gather { h with inserted := h.inserted ++ new.head?.toList } steps old new.tail

/-- The changed regions of a script from `old` to `new`. -/
def ofScript (script : List Edit) (old new : List α) : List (Hunk α) :=
  gather (start 0 0) script old new

/-- The place and size of a region in one text: the number of the first line and the number of
lines; the latter is left out when it is one, and before an empty region stands the number of lines
before it. -/
def range (start length : Nat) : Text :=
  match length with
  | 0 => Text.ofNat start ++ [',', '0']
  | 1 => Text.ofNat (start + 1)
  | n => Text.ofNat (start + 1) ++ ',' :: Text.ofNat n

def header (h : Hunk α) : Text :=
  "@@ -".toList ++ range h.oldStart h.removed.length ++ " +".toList ++
    range h.newStart h.inserted.length ++ " @@".toList

/-- The lines that show a region: its header, then the lines, each trimmed after its sign. -/
def render (h : Hunk Text) : List Text :=
  h.header :: h.removed.map (fun line => Text.trim ('-' :: line)) ++
    h.inserted.map fun line => Text.trim ('+' :: line)

end Hunk

/-- The lines of the difference from `old` to `new` under two labels. Lines are compared with their
terminators. -/
def diffLines (old new oldLabel newLabel : Text) : List Text :=
  let oldLines := Text.linesKept old
  let newLines := Text.linesKept new
  match Hunk.ofScript (Edit.script oldLines newLines) oldLines newLines with
  | [] => []
  | hunks =>
    Text.trim ("--- ".toList ++ oldLabel) :: Text.trim ("+++ ".toList ++ newLabel) ::
      hunks.flatMap Hunk.render

end RuleAudit
