import RuleAudit.Path.Suffix

/-!
# Relative paths

The way from one path to another, found by looking at the texts alone.
-/

namespace RuleAudit.Path

/-- The components that lead from `base` to `target` when `done` are known. A `..` of the base that
has not been matched leads to an unknown place. -/
def wayFrom (done : List Component) : List Component → List Component → Option (List Component)
  | [], [] => some done
  | a :: target, [] => some (done ++ a :: target)
  | [], _ :: base => wayFrom (done ++ [.up]) [] base
  | a :: target, b :: base =>
    if done.isEmpty && a == b then wayFrom done target base
    else if b = .here then wayFrom (done ++ [a]) target base
    else if b = .up then none
    else some (done ++ .up :: base.map (fun _ => .up) ++ a :: target)

/-- The path from `base` to `target`. An absolute target needs no base, and no path leads from an
absolute base to a relative target. -/
def relative? (target base : Path) : Option Path :=
  if target.isAbsolute && !base.isAbsolute then some target
  else if !target.isAbsolute && base.isAbsolute then none
  else (wayFrom [] target.components base.components).map ofComponents

/-- Whether two children, each below its own parent, name the same test once the suffixes of their
names are left out. -/
def samePlace (parent child parent' child' : Path) : Bool :=
  match child.relative? parent, child'.relative? parent' with
  | some way, some way' => way.withoutSuffixes.same way'.withoutSuffixes
  | _, _ => false

end RuleAudit.Path
