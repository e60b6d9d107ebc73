import RuleAudit.Path.Basic
import Mathlib.Data.List.Basic

/-!
# Spellings of a path

A path may be spelled in several ways. Paths that compare equal are exactly those with the same components.
-/

namespace RuleAudit

theorem map_toNat_injective : Function.Injective (List.map UInt8.toNat) :=
  List.map_injective_iff.2 fun _ _ h => UInt8.toNat_inj.1 h

theorem Component.key_injective : Function.Injective Component.key := by
  intro a b h
  cases a <;> cases b <;> simp only [key, List.cons.injEq] at h <;> try simp at h
  · rfl
  · rfl
  · rfl
  · rw [map_toNat_injective h]

instance : Std.LawfulEqOrd Name where
  eq_of_compare h := Name.ext (map_toNat_injective (Std.LawfulEqOrd.eq_of_compare h))

namespace Path

theorem compare_eq_iff {p q : Path} : compare p q = .eq ↔ p.same q = true := by
  have hkey : compare p q = compare p.key q.key := rfl
  rw [hkey, Std.LawfulEqOrd.compare_eq_iff_eq, same, beq_iff_eq, key, key,
    (List.map_injective_iff.2 Component.key_injective).eq_iff]

theorem same_iff {p q : Path} : p.same q = true ↔ p.components = q.components := by
  rw [same, beq_iff_eq]

@[simp] theorem same_self (p : Path) : p.same p = true := same_iff.2 rfl

theorem same_comm (p q : Path) : p.same q = q.same p := Bool.beq_comm

theorem same_trans {p q r : Path} (h : p.same q = true) (h' : q.same r = true) :
    p.same r = true :=
  same_iff.2 ((same_iff.1 h).trans (same_iff.1 h'))

theorem same_congr_left {p q : Path} (h : p.same q = true) (r : Path) : p.same r = q.same r := by
  rw [same, same, same_iff.1 h]

theorem same_congr_right {p q : Path} (h : p.same q = true) (r : Path) : r.same p = r.same q := by
  rw [same, same, same_iff.1 h]

end Path

end RuleAudit
