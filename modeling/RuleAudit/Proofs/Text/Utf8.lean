import Mathlib.Data.List.Basic
import RuleAudit.Text.Utf8

/-!
# Decoding and encoding

Decoding undoes encoding, and encoding undoes decoding where there was no fault. A sequence is followed
from its first byte, whose class tells how many bytes are due and the bounds of the second one.
-/

namespace RuleAudit.Utf8

/-! ## First bytes -/

theorem start_one {b : Nat} (h : b < 0x80) : start b = ([some (Char.ofNat b)], .idle) := by
  rw [start, if_pos h]

theorem start_two {b : Nat} (hlow : 0xC2 ≤ b) (hhigh : b ≤ 0xDF) :
    start b = ([], .pending 0 (b - 0xC0) 0x80 0xBF) := by
  rw [start, if_neg (by omega), if_pos (by simp; omega)]

theorem start_three {b : Nat} (hlow : 0xE0 ≤ b) (hhigh : b ≤ 0xEF) :
    start b = ([], .pending 1 (b - 0xE0) (if b = 0xE0 then 0xA0 else 0x80)
      (if b = 0xED then 0x9F else 0xBF)) := by
  rw [start, if_neg (by omega), if_neg (by simp; omega)]
  by_cases hfirst : b = 0xE0
  · subst hfirst
    rfl
  · by_cases hsurrogates : b = 0xED
    · subst hsurrogates
      rfl
    · rw [if_neg (by simpa using hfirst), if_neg (by simpa using hsurrogates),
        if_pos (by simp; omega), if_neg hfirst, if_neg hsurrogates]

theorem start_four {b : Nat} (hlow : 0xF0 ≤ b) (hhigh : b ≤ 0xF4) :
    start b = ([], .pending 2 (b - 0xF0) (if b = 0xF0 then 0x90 else 0x80)
      (if b = 0xF4 then 0x8F else 0xBF)) := by
  obtain rfl | rfl | rfl | rfl | rfl : b = 0xF0 ∨ b = 0xF1 ∨ b = 0xF2 ∨ b = 0xF3 ∨ b = 0xF4 := by omega
  all_goals rfl

theorem start_fault {b : Nat} (h : 0x80 ≤ b ∧ b < 0xC2 ∨ 0xF4 < b) : start b = ([none], .idle) := by
  simp only [start, Bool.and_eq_true, decide_eq_true_eq, beq_iff_eq]
  repeat rw [if_neg (by omega)]

/-! ## Following bytes -/

theorem unitsFrom_idle (b : UInt8) (rest : List UInt8) :
    unitsFrom .idle (b :: rest) = (start b.toNat).1 ++ unitsFrom (start b.toNat).2 rest := rfl

/-- The last byte of a sequence completes its character. -/
theorem unitsFrom_last {value low high : Nat} {b : UInt8} (h : low ≤ b.toNat ∧ b.toNat ≤ high)
    (rest : List UInt8) : unitsFrom (.pending 0 value low high) (b :: rest) =
      some (Char.ofNat (value * 64 + (b.toNat - 0x80))) :: unitsFrom .idle rest := by
  simp [unitsFrom, feed, h]

/-- Another byte of a sequence adds its bits. -/
theorem unitsFrom_more {missing value low high : Nat} {b : UInt8}
    (h : low ≤ b.toNat ∧ b.toNat ≤ high) (rest : List UInt8) :
    unitsFrom (.pending (missing + 1) value low high) (b :: rest) =
      unitsFrom (.pending missing (value * 64 + (b.toNat - 0x80)) 0x80 0xBF) rest := by
  simp [unitsFrom, feed, h]

/-- A sequence that is no fault goes on with a byte within the bounds. -/
theorem exists_of_pending {missing value low high : Nat} {bytes : List UInt8}
    (h : none ∉ unitsFrom (.pending missing value low high) bytes) :
    ∃ b rest, bytes = b :: rest ∧ low ≤ b.toNat ∧ b.toNat ≤ high := by
  cases bytes with
  | nil => simp [unitsFrom] at h
  | cons b rest =>
    refine ⟨b, rest, rfl, ?_⟩
    by_contra hbounds
    simp [unitsFrom, feed, hbounds] at h

/-! ## Sequences -/

theorem units_one {a : UInt8} (ha : a.toNat < 0x80) (rest : List UInt8) :
    units (a :: rest) = some (Char.ofNat a.toNat) :: units rest := by
  rw [units, unitsFrom_idle, start_one ha]
  rfl

theorem units_two {a b : UInt8} (ha : 0xC2 ≤ a.toNat ∧ a.toNat ≤ 0xDF)
    (hb : 0x80 ≤ b.toNat ∧ b.toNat ≤ 0xBF) (rest : List UInt8) :
    units (a :: b :: rest) =
      some (Char.ofNat ((a.toNat - 0xC0) * 64 + (b.toNat - 0x80))) :: units rest := by
  rw [units, unitsFrom_idle, start_two ha.1 ha.2]
  exact unitsFrom_last hb rest

theorem units_three {a b c : UInt8} (ha : 0xE0 ≤ a.toNat ∧ a.toNat ≤ 0xEF)
    (hb : (if a.toNat = 0xE0 then 0xA0 else 0x80) ≤ b.toNat ∧
      b.toNat ≤ if a.toNat = 0xED then 0x9F else 0xBF) (hc : 0x80 ≤ c.toNat ∧ c.toNat ≤ 0xBF)
    (rest : List UInt8) :
    units (a :: b :: c :: rest) = some (Char.ofNat
      (((a.toNat - 0xE0) * 64 + (b.toNat - 0x80)) * 64 + (c.toNat - 0x80))) :: units rest := by
  rw [units, unitsFrom_idle, start_three ha.1 ha.2, List.nil_append, unitsFrom_more hb]
  exact unitsFrom_last hc rest

theorem units_four {a b c d : UInt8} (ha : 0xF0 ≤ a.toNat ∧ a.toNat ≤ 0xF4)
    (hb : (if a.toNat = 0xF0 then 0x90 else 0x80) ≤ b.toNat ∧
      b.toNat ≤ if a.toNat = 0xF4 then 0x8F else 0xBF) (hc : 0x80 ≤ c.toNat ∧ c.toNat ≤ 0xBF)
    (hd : 0x80 ≤ d.toNat ∧ d.toNat ≤ 0xBF) (rest : List UInt8) :
    units (a :: b :: c :: d :: rest) = some (Char.ofNat
      ((((a.toNat - 0xF0) * 64 + (b.toNat - 0x80)) * 64 + (c.toNat - 0x80)) * 64 +
        (d.toNat - 0x80))) :: units rest := by
  rw [units, unitsFrom_idle, start_four ha.1 ha.2, List.nil_append, unitsFrom_more hb,
    unitsFrom_more hc]
  exact unitsFrom_last hd rest

/-! ## Characters -/

theorem toNat_ofNat {n : Nat} (h : n < 0xD800 ∨ 0xDFFF < n ∧ n < 0x110000) :
    (Char.ofNat n).toNat = n := by
  have hvalid : n.isValidChar := h
  rw [Char.ofNat, dif_pos hvalid]
  rfl

theorem encodeChar_one {a : UInt8} (ha : a.toNat < 0x80) : encodeChar (Char.ofNat a.toNat) = [a] := by
  simp only [encodeChar]
  rw [toNat_ofNat (by omega), if_pos ha]
  simp

theorem encodeChar_two {a b : UInt8} (ha : 0xC2 ≤ a.toNat ∧ a.toNat ≤ 0xDF)
    (hb : 0x80 ≤ b.toNat ∧ b.toNat ≤ 0xBF) :
    encodeChar (Char.ofNat ((a.toNat - 0xC0) * 64 + (b.toNat - 0x80))) = [a, b] := by
  simp only [encodeChar]
  rw [toNat_ofNat (by omega), if_neg (by omega), if_pos (by omega)]
  simp only [List.cons.injEq, and_true, ← UInt8.toNat_inj, Nat.toUInt8, UInt8.toNat_ofNat']
  omega

theorem encodeChar_three {a b c : UInt8} (ha : 0xE0 ≤ a.toNat ∧ a.toNat ≤ 0xEF)
    (hb : (if a.toNat = 0xE0 then 0xA0 else 0x80) ≤ b.toNat ∧
      b.toNat ≤ if a.toNat = 0xED then 0x9F else 0xBF) (hc : 0x80 ≤ c.toNat ∧ c.toNat ≤ 0xBF) :
    encodeChar (Char.ofNat (((a.toNat - 0xE0) * 64 + (b.toNat - 0x80)) * 64 + (c.toNat - 0x80))) =
      [a, b, c] := by
  have hbounds : 0x80 ≤ b.toNat ∧ b.toNat ≤ 0xBF ∧ (a.toNat = 0xE0 → 0xA0 ≤ b.toNat) ∧
      (a.toNat = 0xED → b.toNat ≤ 0x9F) := by split at hb <;> split at hb <;> omega
  clear hb
  simp only [encodeChar]
  rw [toNat_ofNat (by omega), if_neg (by omega), if_neg (by omega), if_pos (by omega)]
  simp only [List.cons.injEq, and_true, ← UInt8.toNat_inj, Nat.toUInt8, UInt8.toNat_ofNat']
  omega

theorem encodeChar_four {a b c d : UInt8} (ha : 0xF0 ≤ a.toNat ∧ a.toNat ≤ 0xF4)
    (hb : (if a.toNat = 0xF0 then 0x90 else 0x80) ≤ b.toNat ∧
      b.toNat ≤ if a.toNat = 0xF4 then 0x8F else 0xBF) (hc : 0x80 ≤ c.toNat ∧ c.toNat ≤ 0xBF)
    (hd : 0x80 ≤ d.toNat ∧ d.toNat ≤ 0xBF) :
    encodeChar (Char.ofNat ((((a.toNat - 0xF0) * 64 + (b.toNat - 0x80)) * 64 + (c.toNat - 0x80)) * 64 +
      (d.toNat - 0x80))) = [a, b, c, d] := by
  have hbounds : 0x80 ≤ b.toNat ∧ b.toNat ≤ 0xBF ∧ (a.toNat = 0xF0 → 0x90 ≤ b.toNat) ∧
      (a.toNat = 0xF4 → b.toNat ≤ 0x8F) := by split at hb <;> split at hb <;> omega
  clear hb
  simp only [encodeChar]
  rw [toNat_ofNat (by omega), if_neg (by omega), if_neg (by omega), if_neg (by omega)]
  simp only [List.cons.injEq, and_true, ← UInt8.toNat_inj, Nat.toUInt8, UInt8.toNat_ofNat']
  omega

/-- What is read first of bytes without a fault is a character, and it is read from the bytes it is
encoded in. -/
theorem exists_first_char {a : UInt8} {bytes : List UInt8} (h : none ∉ units (a :: bytes)) :
    ∃ c rest, a :: bytes = encodeChar c ++ rest ∧ units (a :: bytes) = some c :: units rest := by
  by_cases hone : a.toNat < 0x80
  · exact ⟨_, bytes, by rw [encodeChar_one hone]; rfl, units_one hone bytes⟩
  rw [units, unitsFrom_idle] at h
  by_cases htwo : 0xC2 ≤ a.toNat ∧ a.toNat ≤ 0xDF
  · rw [start_two htwo.1 htwo.2, List.nil_append] at h
    obtain ⟨b, rest, rfl, hb⟩ := exists_of_pending h
    exact ⟨_, rest, by rw [encodeChar_two htwo hb]; rfl, units_two htwo hb rest⟩
  by_cases hthree : 0xE0 ≤ a.toNat ∧ a.toNat ≤ 0xEF
  · rw [start_three hthree.1 hthree.2, List.nil_append] at h
    obtain ⟨b, bytes, rfl, hb⟩ := exists_of_pending h
    rw [unitsFrom_more hb] at h
    obtain ⟨c, rest, rfl, hc⟩ := exists_of_pending h
    exact ⟨_, rest, by rw [encodeChar_three hthree hb hc]; rfl, units_three hthree hb hc rest⟩
  by_cases hfour : 0xF0 ≤ a.toNat ∧ a.toNat ≤ 0xF4
  · rw [start_four hfour.1 hfour.2, List.nil_append] at h
    obtain ⟨b, bytes, rfl, hb⟩ := exists_of_pending h
    rw [unitsFrom_more hb] at h
    obtain ⟨c, bytes, rfl, hc⟩ := exists_of_pending h
    rw [unitsFrom_more hc] at h
    obtain ⟨d, rest, rfl, hd⟩ := exists_of_pending h
    exact ⟨_, rest, by rw [encodeChar_four hfour hb hc hd]; rfl, units_four hfour hb hc hd rest⟩
  · rw [start_fault (by omega)] at h
    simp at h

theorem toNat_toUInt8 {n : Nat} (h : n < 256) : n.toUInt8.toNat = n := by
  rw [Nat.toUInt8, UInt8.toNat_ofNat', Nat.mod_eq_of_lt h]

/-- The bytes of a character are read as it. -/
theorem units_encodeChar (c : Char) (rest : List UInt8) :
    units (encodeChar c ++ rest) = some c :: units rest := by
  have hvalid : c.toNat < 0xD800 ∨ 0xDFFF < c.toNat ∧ c.toNat < 0x110000 := c.valid
  have hread : ∀ n, n = c.toNat → some (Char.ofNat n) :: units rest = some c :: units rest := by
    rintro n rfl
    rw [Char.ofNat_toNat]
  simp only [encodeChar]
  split
  · have ha := toNat_toUInt8 (n := c.toNat) (by omega)
    rw [List.cons_append, units_one (by omega)]
    exact hread _ ha
  split
  · have ha := toNat_toUInt8 (n := 0xC0 + c.toNat / 64) (by omega)
    have hb := toNat_toUInt8 (n := 0x80 + c.toNat % 64) (by omega)
    refine (units_two (by omega) (by omega) rest).trans (hread _ ?_)
    omega
  split
  · have ha := toNat_toUInt8 (n := 0xE0 + c.toNat / 4096) (by omega)
    have hb := toNat_toUInt8 (n := 0x80 + c.toNat / 64 % 64) (by omega)
    have hc := toNat_toUInt8 (n := 0x80 + c.toNat % 64) (by omega)
    refine (units_three (by omega) (by split <;> split <;> omega) (by omega) rest).trans (hread _ ?_)
    omega
  · have ha := toNat_toUInt8 (n := 0xF0 + c.toNat / 262144) (by omega)
    have hb := toNat_toUInt8 (n := 0x80 + c.toNat / 4096 % 64) (by omega)
    have hc := toNat_toUInt8 (n := 0x80 + c.toNat / 64 % 64) (by omega)
    have hd := toNat_toUInt8 (n := 0x80 + c.toNat % 64) (by omega)
    refine (units_four (by omega) (by split <;> split <;> omega) (by omega) (by omega) rest).trans
      (hread _ ?_)
    omega

/-! ## Texts -/

theorem units_encode (s : Text) : units (encode s) = s.map some := by
  induction s with
  | nil => rfl
  | cons c s ih =>
    rw [encode, List.flatMap_cons, units_encodeChar, List.map_cons]
    exact congrArg _ ih

/-- **The bytes of a text** are read as that text. -/
theorem decodeLossy_encode (s : Text) : decodeLossy (encode s) = s := by
  rw [decodeLossy, units_encode, List.map_map]
  exact List.map_id s

theorem encode_append (s t : Text) : encode (s ++ t) = encode s ++ encode t := List.flatMap_append

theorem encodeChar_ne_nil (c : Char) : encodeChar c ≠ [] := by
  simp only [encodeChar]
  split
  · simp
  split
  · simp
  split <;> simp

/-- **Bytes without a fault** are the bytes of the text that is read. -/
theorem encode_decodeLossy {bytes : List UInt8} (h : none ∉ units bytes) :
    encode (decodeLossy bytes) = bytes := by
  -- A character takes at least one byte, so the induction is on the number of bytes.
  induction hlength : bytes.length using Nat.strongRecOn generalizing bytes with
  | ind length ih =>
    cases bytes with
    | nil => rfl
    | cons a bytes =>
      obtain ⟨c, rest, hbytes, hunits⟩ := exists_first_char h
      have hshorter : rest.length < length := by
        have hpos := List.length_pos_iff.2 (encodeChar_ne_nil c)
        rw [← hlength, hbytes, List.length_append]
        omega
      rw [hunits, List.mem_cons, not_or] at h
      rw [decodeLossy, hunits, List.map_cons, encode, List.flatMap_cons, hbytes]
      exact congrArg _ (ih rest.length hshorter h.2 rfl)

theorem none_not_mem_units {bytes : List UInt8} (h : '\uFFFD' ∉ decodeLossy bytes) :
    none ∉ units bytes :=
  fun hfault => h (List.mem_map.2 ⟨none, hfault, rfl⟩)

/-- Bytes that are read as a text without replacement characters are the bytes of that text. -/
theorem eq_encode_of_decodeLossy {bytes : List UInt8} {s : Text} (h : decodeLossy bytes = s)
    (hs : '\uFFFD' ∉ s) : bytes = encode s := by
  subst h
  exact (encode_decodeLossy (none_not_mem_units hs)).symm

/-! ## Bytes of ASCII characters -/

/-- A sequence that has begun is none of an ASCII character: its value is too large already, or the bound on
its second byte makes it so. -/
def Progress.IsWide : Progress → Prop
  | .idle => True
  | .pending missing value low _ =>
    0x80 ≤ low ∧ (2 ≤ value ∨ 0 < missing ∧ (1 ≤ value ∨ 0x82 ≤ low))

theorem isWide_start (b : Nat) : (start b).2.IsWide := by
  by_cases hone : b < 0x80
  · rw [start_one hone]
    exact trivial
  by_cases htwo : 0xC2 ≤ b ∧ b ≤ 0xDF
  · rw [start_two htwo.1 htwo.2]
    exact ⟨Nat.le_refl _, .inl (by omega)⟩
  by_cases hthree : 0xE0 ≤ b ∧ b ≤ 0xEF
  · rw [start_three hthree.1 hthree.2]
    show 0x80 ≤ (if b = 0xE0 then 0xA0 else 0x80) ∧
      (2 ≤ b - 0xE0 ∨ 0 < 1 ∧ (1 ≤ b - 0xE0 ∨ 0x82 ≤ (if b = 0xE0 then 0xA0 else 0x80)))
    split <;> omega
  by_cases hfour : 0xF0 ≤ b ∧ b ≤ 0xF4
  · rw [start_four hfour.1 hfour.2]
    show 0x80 ≤ (if b = 0xF0 then 0x90 else 0x80) ∧
      (2 ≤ b - 0xF0 ∨ 0 < 2 ∧ (1 ≤ b - 0xF0 ∨ 0x82 ≤ (if b = 0xF0 then 0x90 else 0x80)))
    split <;> omega
  · rw [start_fault (by omega)]
    exact trivial

/-- A byte that completes a character at once is that character. -/
theorem lt_of_mem_start {b : Nat} {c : Char} (h : some c ∈ (start b).1) :
    b < 0x80 ∧ c = Char.ofNat b := by
  by_cases hone : b < 0x80
  · rw [start_one hone, List.mem_singleton, Option.some.injEq] at h
    exact ⟨hone, h⟩
  · have hnone : (start b).1 = [] ∨ (start b).1 = [none] := by
      simp only [start, hone, if_false]
      split_ifs <;> simp
    rcases hnone with hnone | hnone <;> simp [hnone] at h

theorem toNat_ofNat_of_ne {n : Nat} (h : Char.ofNat n ≠ '\x00') : (Char.ofNat n).toNat = n := by
  refine toNat_ofNat ?_
  by_contra hinvalid
  refine h (dif_neg fun hvalid => hinvalid ?_)
  rcases hvalid with hvalid | hvalid
  · exact .inl hvalid
  · exact .inr hvalid

/-- An ASCII character comes from its own byte. -/
theorem mem_of_mem_unitsFrom {c : Char} (hzero : c ≠ '\x00') (hascii : c.toNat < 0x80)
    {progress : Progress} (hwide : progress.IsWide) {bytes : List UInt8}
    (h : some c ∈ unitsFrom progress bytes) : c.toNat.toUInt8 ∈ bytes := by
  induction bytes generalizing progress with
  | nil => cases progress <;> simp [unitsFrom] at h
  | cons b rest ih =>
    -- What a byte does that begins a sequence of its own.
    have hstart : some c ∈ (start b.toNat).1 ++ unitsFrom (start b.toNat).2 rest →
        c.toNat.toUInt8 ∈ b :: rest := by
      intro hmem
      rcases List.mem_append.1 hmem with hmem | hmem
      · obtain ⟨-, rfl⟩ := lt_of_mem_start hmem
        rw [toNat_ofNat_of_ne hzero]
        simp
      · exact List.mem_cons_of_mem _ (ih (isWide_start _) hmem)
    cases progress with
    | idle => exact hstart h
    | pending missing value low high =>
      obtain ⟨hlow, hvalue⟩ := hwide
      by_cases hbounds : low ≤ b.toNat ∧ b.toNat ≤ high
      · cases missing with
        | zero =>
          rw [unitsFrom_last hbounds] at h
          rcases List.mem_cons.1 h with h | h
          · have hvalue' : c.toNat = value * 64 + (b.toNat - 0x80) := by
              rw [Option.some.inj h] at hzero ⊢
              exact toNat_ofNat_of_ne hzero
            omega
          · have hidle : Progress.idle.IsWide := trivial
            exact List.mem_cons_of_mem _ (ih hidle h)
        | succ missing =>
          rw [unitsFrom_more hbounds] at h
          have hmore : (Progress.pending missing (value * 64 + (b.toNat - 0x80)) 0x80 0xBF).IsWide :=
            ⟨Nat.le_refl _, .inl (by omega)⟩
          exact List.mem_cons_of_mem _ (ih hmore h)
      · have hfault : unitsFrom (.pending missing value low high) (b :: rest) =
            none :: ((start b.toNat).1 ++ unitsFrom (start b.toNat).2 rest) := by
          simp [unitsFrom, feed, hbounds]
        rw [hfault] at h
        exact hstart (by simpa using h)

/-- **An ASCII character of the text** that is read is a byte of what it is read from. -/
theorem mem_of_mem_decodeLossy {c : Char} (hzero : c ≠ '\x00') (hascii : c.toNat < 0x80)
    {bytes : List UInt8} (h : c ∈ decodeLossy bytes) : c.toNat.toUInt8 ∈ bytes := by
  obtain ⟨unit, hunit, hc⟩ := List.mem_map.1 h
  cases unit with
  | none =>
    obtain rfl : '\uFFFD' = c := hc
    exact absurd hascii (by decide)
  | some d =>
    obtain rfl : d = c := hc
    have hidle : Progress.idle.IsWide := trivial
    exact mem_of_mem_unitsFrom hzero hascii hidle hunit

/-- The bytes of other characters are not those of ASCII characters. -/
theorem mem_of_mem_encode {c : Char} (hascii : c.toNat < 0x80) {s : Text}
    (h : c.toNat.toUInt8 ∈ encode s) : c ∈ s := by
  obtain ⟨d, hd, hmem⟩ := List.mem_flatMap.1 h
  have hbyte : c.toNat.toUInt8.toNat = c.toNat := toNat_toUInt8 (by omega)
  have hall : ∀ b ∈ encodeChar d, b.toNat < 0x80 → b.toNat = d.toNat := by
    have hvalid : d.toNat < 0xD800 ∨ 0xDFFF < d.toNat ∧ d.toNat < 0x110000 := d.valid
    intro b hb hsmall
    simp only [encodeChar] at hb
    split at hb
    · rw [List.mem_singleton.1 hb, toNat_toUInt8 (by omega)]
    all_goals
      exfalso
      split at hb <;> try split at hb
      all_goals
        simp only [List.mem_cons, List.not_mem_nil, or_false] at hb
        rcases hb with rfl | rfl | rfl | rfl <;>
          rw [toNat_toUInt8 (by omega)] at hsmall <;> omega
  have hsame := hall _ hmem (by omega)
  rw [hbyte] at hsame
  obtain rfl : c = d := Char.ext (UInt32.toNat_inj.1 hsame)
  exact hd

/-! ## Valid bytes -/

theorem encode_injective : Function.Injective encode := by
  intro s t h
  rw [← decodeLossy_encode s, h, decodeLossy_encode]

theorem isValid_iff {bytes : List UInt8} : isValid bytes = true ↔ none ∉ units bytes := by
  rw [isValid, decode?]
  generalize units bytes = l
  induction l with
  | nil => simp
  | cons unit rest ih =>
    cases unit with
    | none => simp
    | some c =>
      have hrest : (rest.mapM id).isSome = true ↔ none ∉ rest := ih
      rw [List.mapM_cons]
      cases hmap : rest.mapM id with
      | none => simpa [hmap] using hrest
      | some t => simpa [hmap] using hrest

/-- **Valid bytes** are those of the text that is read. -/
theorem encode_decodeLossy_of_isValid {bytes : List UInt8} (h : isValid bytes = true) :
    encode (decodeLossy bytes) = bytes := encode_decodeLossy (isValid_iff.1 h)

@[simp] theorem isValid_encode (s : Text) : isValid (encode s) = true := by
  rw [isValid_iff, units_encode]
  simp

/-! ## Bytes and then a text -/

/-- The next byte of a sequence that has begun is none with which a character starts. -/
def Progress.IsBounded : Progress → Prop
  | .idle => True
  | .pending _ _ low high => 0x80 ≤ low ∧ high ≤ 0xBF

theorem isBounded_start (b : Nat) : (start b).2.IsBounded := by
  simp only [start]
  split_ifs <;> simp [Progress.IsBounded]

theorem isBounded_feed {progress : Progress} (h : progress.IsBounded) (b : Nat) :
    (feed progress b).2.IsBounded := by
  cases progress with
  | idle => exact isBounded_start b
  | pending missing value low high =>
    rw [feed]
    split
    · cases missing <;> simp [Progress.IsBounded]
    · exact isBounded_start b

/-- The first byte of a character continues no sequence. -/
theorem exists_first_byte (c : Char) : ∃ b rest, encodeChar c = b :: rest ∧
    (b.toNat < 0x80 ∨ 0xBF < b.toNat) := by
  have hvalid : c.toNat < 0xD800 ∨ 0xDFFF < c.toNat ∧ c.toNat < 0x110000 := c.valid
  simp only [encodeChar]
  split
  · exact ⟨_, _, rfl, .inl (by rw [toNat_toUInt8 (by omega)]; omega)⟩
  split
  · exact ⟨_, _, rfl, .inr (by rw [toNat_toUInt8 (by omega)]; omega)⟩
  split
  · exact ⟨_, _, rfl, .inr (by rw [toNat_toUInt8 (by omega)]; omega)⟩
  · exact ⟨_, _, rfl, .inr (by rw [toNat_toUInt8 (by omega)]; omega)⟩

/-- A sequence that is open where a new one starts is a fault. -/
theorem unitsFrom_append {progress : Progress} (h : progress.IsBounded) (bytes : List UInt8)
    {rest : List UInt8} (hrest : ∀ b ∈ rest.head?, b.toNat < 0x80 ∨ 0xBF < b.toNat) :
    unitsFrom progress (bytes ++ rest) = unitsFrom progress bytes ++ units rest := by
  induction bytes generalizing progress with
  | nil =>
    cases progress with
    | idle => rfl
    | pending missing value low high =>
      cases rest with
      | nil => rfl
      | cons b rest =>
        have hbounds : ¬(low ≤ b.toNat ∧ b.toNat ≤ high) := by
          have hlow : 0x80 ≤ low := h.1
          have hhigh : high ≤ 0xBF := h.2
          have hfirst := hrest b rfl
          omega
        rw [units, unitsFrom_idle, List.nil_append]
        simp [unitsFrom, feed, hbounds]
  | cons b more ih =>
    have hstep : ∀ more, unitsFrom progress (b :: more) =
        (feed progress b.toNat).1 ++ unitsFrom (feed progress b.toNat).2 more := by
      intro more
      cases progress <;> rfl
    rw [List.cons_append, hstep, hstep, ih (isBounded_feed h _), List.append_assoc]

theorem decodeLossy_append (bytes : List UInt8) {rest : List UInt8}
    (hrest : ∀ b ∈ rest.head?, b.toNat < 0x80 ∨ 0xBF < b.toNat) :
    decodeLossy (bytes ++ rest) = decodeLossy bytes ++ decodeLossy rest := by
  have hidle : Progress.idle.IsBounded := trivial
  rw [decodeLossy, units, unitsFrom_append hidle bytes hrest, List.map_append]
  rfl

/-- **A text after any bytes** is read as it is. -/
theorem decodeLossy_append_encode (bytes : List UInt8) (t : Text) :
    decodeLossy (bytes ++ encode t) = decodeLossy bytes ++ t := by
  rw [decodeLossy_append, decodeLossy_encode]
  cases t with
  | nil => simp [encode]
  | cons c t =>
    obtain ⟨b, rest, hb, hfirst⟩ := exists_first_byte c
    rw [encode, List.flatMap_cons, hb]
    rintro _ ⟨⟩
    exact hfirst

/-! ## Bytes made valid -/

/-- The bytes of the text that bytes read as. -/
def viaText (bytes : List UInt8) : List UInt8 := encode (decodeLossy bytes)

theorem viaText_eq_self_iff {bytes : List UInt8} : viaText bytes = bytes ↔ isValid bytes = true := by
  constructor
  · intro h
    rw [← h, viaText, isValid_encode]
  · exact encode_decodeLossy_of_isValid

theorem viaText_viaText (bytes : List UInt8) : viaText (viaText bytes) = viaText bytes :=
  viaText_eq_self_iff.2 (isValid_encode _)

/-- An ASCII character stays where it is. -/
theorem viaText_append_cons (bytes : List UInt8) {b : UInt8} (hascii : b.toNat < 0x80)
    (rest : List UInt8) : viaText (bytes ++ b :: rest) = viaText bytes ++ b :: viaText rest := by
  have hunit : decodeLossy (b :: rest) = Char.ofNat b.toNat :: decodeLossy rest := by
    rw [decodeLossy, units_one hascii]
    rfl
  have hfirst : ∀ c ∈ (b :: rest).head?, c.toNat < 0x80 ∨ 0xBF < c.toNat := by
    rintro _ ⟨⟩
    exact .inl hascii
  have hbyte : encode (Char.ofNat b.toNat :: decodeLossy rest) = b :: encode (decodeLossy rest) := by
    rw [encode, List.flatMap_cons, encodeChar_one hascii]
    rfl
  rw [viaText, decodeLossy_append bytes hfirst, encode_append, hunit, hbyte]
  rfl

/-- ASCII bytes come from themselves only. -/
theorem mem_of_mem_viaText {b : UInt8} (hzero : b ≠ 0) (hascii : b.toNat < 0x80) {bytes : List UInt8}
    (h : b ∈ viaText bytes) : b ∈ bytes := by
  have hchar : (Char.ofNat b.toNat).toNat = b.toNat := toNat_ofNat (.inl (by omega))
  have hbyte : (Char.ofNat b.toNat).toNat.toUInt8 = b := by
    rw [hchar]
    exact UInt8.toNat_inj.1 (toNat_toUInt8 (by omega))
  have hne : Char.ofNat b.toNat ≠ '\x00' := by
    intro h0
    have hnat := congrArg Char.toNat h0
    rw [hchar] at hnat
    exact hzero (UInt8.toNat_inj.1 hnat)
  have hmem := mem_of_mem_encode (by omega) (hbyte ▸ h)
  exact hbyte ▸ mem_of_mem_decodeLossy hne (by omega) hmem

theorem eq_encode_of_viaText {bytes : List UInt8} {t : Text} (h : viaText bytes = encode t)
    (ht : '\uFFFD' ∉ t) : bytes = encode t :=
  eq_encode_of_decodeLossy (encode_injective h) ht

end RuleAudit.Utf8
