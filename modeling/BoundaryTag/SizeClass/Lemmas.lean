import BoundaryTag.SizeClass.Bits
import Mathlib.Algebra.Ring.Nat
import Mathlib.Order.Bounds.Basic
import Mathlib.Order.Fin.Basic

/-!
What sizes and classes are.

The size of a block is the least that its request leaves room for. A main class is known by the
largest size in it: a size is in class `c` or below exactly if it is no larger, from which the bounds
of each class and their order follow. Words compute the same sizes and classes, and wrap around
nowhere.
-/

namespace BoundaryTag

/-- The sizes that a block for `n` bytes can have. -/
def roomFor (n : Nat) : Set Nat := {b | b % alignment = 0 ∧ minBlock ≤ b ∧ n + wordSize ≤ b}

section Sizes

variable {m n b : Nat}

/-- **The size of a block** is the least that its request leaves room for. -/
lemma isLeast_roomFor (n : Nat) : IsLeast (roomFor n) (max minBlock (roundUp (n + wordSize) alignment)) := by
  have hpos : 0 < alignment := by decide
  refine ⟨⟨?_, le_max_left _ _, ?_⟩, ?_⟩
  · rcases le_total minBlock (roundUp (n + wordSize) alignment) with h | h
    · rw [max_eq_right h]
      exact roundUp_mod _ _
    · rw [max_eq_left h]
      rfl
  · exact (le_roundUp hpos).trans (le_max_right _ _)
  · rintro b ⟨hmod, hmin, hle⟩
    exact max_le hmin (roundUp_le hpos hle hmod)

/-- There is a block for a request unless its size is too large for an address. -/
lemma blockSize?_of_isLeast (h : IsLeast (roomFor n) b) :
    blockSize? n = if b < addressSpace then some b else none := by
  obtain rfl := h.unique (isLeast_roomFor n)
  unfold blockSize?
  refine if_congr ?_ rfl rfl
  unfold roundUp roundDown minBlock alignment wordSize addressSpace
  omega

lemma isLeast_of_blockSize? (h : blockSize? n = some b) : IsLeast (roomFor n) b ∧ b < addressSpace := by
  have hleast := isLeast_roomFor n
  rw [blockSize?_of_isLeast hleast, Option.ite_none_right_eq_some, Option.some.injEq] at h
  obtain ⟨hlt, rfl⟩ := h
  exact ⟨hleast, hlt⟩

/-- A smaller request needs no larger block. -/
lemma blockSize?_mono (h : m ≤ n) (hb : blockSize? n = some b) : ∃ a, blockSize? m = some a ∧ a ≤ b := by
  obtain ⟨⟨⟨hmod, hmin, hroom⟩, -⟩, hlt⟩ := isLeast_of_blockSize? hb
  have hleast := isLeast_roomFor m
  have hle := hleast.2 ⟨hmod, hmin, (Nat.add_le_add_right h wordSize).trans hroom⟩
  exact ⟨_, by rw [blockSize?_of_isLeast hleast, if_pos (hle.trans_lt hlt)], hle⟩

end Sizes

section Classes

variable {c s : Nat}

/-- **The largest size in a class**, the last class apart. -/
lemma mainClass_le_iff (hc : c + 1 < mainLists) : (mainClass s).val ≤ c ↔ s ≤ alignment * 2 ^ (c + 1) := by
  have hpow : alignment * 2 ^ (c + 1) = 2 ^ (c + 5) := by
    rw [alignment, show c + 5 = 4 + (c + 1) by omega, Nat.pow_add 2 4]
  rw [hpow]
  unfold mainClass
  split
  · next hs =>
    have hsmall : 2 ^ 5 ≤ 2 ^ (c + 5) := Nat.pow_le_pow_right (by decide) (Nat.le_add_left 5 c)
    exact iff_of_true (Nat.zero_le c) (hs.trans hsmall)
  · next hs =>
    have hne : s - 1 ≠ 0 := by
      unfold minBlock at hs
      omega
    calc min ((s - 1).log2 + 1 - 5) (mainLists - 1) ≤ c
      _ ↔ (s - 1).log2 < c + 5 := by omega
      _ ↔ s - 1 < 2 ^ (c + 5) := Nat.log2_lt hne
      _ ↔ s ≤ 2 ^ (c + 5) := by omega

lemma lt_mainClass_iff (hc : c + 1 < mainLists) : c < (mainClass s).val ↔ alignment * 2 ^ (c + 1) < s := by
  rw [← not_le, ← not_le, mainClass_le_iff hc]

/-- **Classes are in the order of the sizes.** -/
lemma mainClass_mono : Monotone mainClass := by
  intro m n h
  rw [Fin.le_def]
  by_cases hc : (mainClass n).val + 1 < mainLists
  · exact (mainClass_le_iff hc).mpr (h.trans ((mainClass_le_iff hc).mp le_rfl))
  · have hlast := (mainClass m).isLt
    omega

lemma mainClass_eq_zero_iff : (mainClass s).val = 0 ↔ s ≤ minBlock := by
  rw [← Nat.le_zero]
  exact mainClass_le_iff (by decide)

/-- A class between the first and the last holds the sizes between two powers of two. -/
lemma mainClass_eq_succ_iff (hc : c + 2 < mainLists) :
    (mainClass s).val = c + 1 ↔ alignment * 2 ^ (c + 1) < s ∧ s ≤ alignment * 2 ^ (c + 2) := by
  rw [← lt_mainClass_iff (by omega), ← mainClass_le_iff hc]
  omega

lemma mainClass_eq_last_iff : (mainClass s).val = mainLists - 1 ↔ 8192 < s := by
  have hlt : (mainClass s).val < 10 := (mainClass s).isLt
  calc (mainClass s).val = 9
    _ ↔ 8 < (mainClass s).val := by omega
    _ ↔ 8192 < s := lt_mainClass_iff (by decide)

end Classes

/-! ### On words -/

namespace Bits

variable {w : UInt64}

/-- A mask that leaves the low bits out rounds down. -/
lemma toNat_and_not_lowBits (w : UInt64) : (w &&& ~~~lowBits).toNat = roundDown w.toNat alignment := by
  have hmask : (~~~lowBits).toNat = 2 ^ 64 - (2 ^ 4 - 1 + 1) := rfl
  apply Nat.eq_of_testBit_eq
  intro i
  rw [UInt64.toNat_and, hmask, Nat.testBit_and, Nat.testBit_two_pow_sub_succ (by decide), roundDown,
    show alignment = 2 ^ 4 from rfl, Nat.testBit_mul_two_pow, Nat.testBit_div_two_pow,
    Nat.testBit_two_pow_sub_one]
  by_cases hlow : 4 ≤ i
  · by_cases hhigh : i < 64
    · simp [hlow, hhigh]
    · have hw : w.toNat.testBit i = false := by
        refine Nat.testBit_lt_two_pow (w.toNat_lt.trans_le ?_)
        exact Nat.pow_le_pow_right (by decide) (by omega)
      simp [hlow, hw]
  · have hlt : i < 4 := by omega
    simp [hlow, hlt]

/-- What leading zeros leave of a word is the logarithm and one. -/
lemma toNat_width (h : w ≠ 0) : (width w).toNat = w.toNat.log2 + 1 := by
  have hne : w.toBitVec ≠ 0#64 := fun he => h (UInt64.toBitVec_inj.mp he)
  have hlow := BitVec.two_pow_sub_clz_le_toNat_of_ne_zero (by decide) hne
  have hhigh := BitVec.toNat_lt_two_pow_sub_clz (x := w.toBitVec)
  have hclz : w.toBitVec.clz.toNat < 64 := by
    have := BitVec.lt_def.mp (BitVec.clz_lt_iff_ne_zero.mpr hne)
    simpa using this
  have hlog : w.toNat.log2 = 63 - w.toBitVec.clz.toNat := by
    rw [Nat.log2_eq_iff (by simpa [← UInt64.toNat_inj] using h)]
    refine ⟨hlow, ?_⟩
    rw [show 63 - w.toBitVec.clz.toNat + 1 = 64 - w.toBitVec.clz.toNat by omega]
    exact hhigh
  rw [hlog, width, UInt64.toNat_sub]
  simp
  omega

/-- **Words have the sizes of blocks.** -/
lemma toNat_blockSize? (n : UInt64) : (blockSize? n).map UInt64.toNat = BoundaryTag.blockSize? n.toNat := by
  unfold blockSize? BoundaryTag.blockSize?
  rcases hsum : sum? n (.ofNat (wordSize + (alignment - 1))) with _ | padded
  · have hover : ¬ n.toNat + wordSize + (alignment - 1) < addressSpace := by
      rw [sum?, ite_eq_right_iff] at hsum
      exact fun h => Option.some_ne_none _ (hsum h)
    rw [if_neg hover]
    rfl
  · have hpadded : n.toNat + wordSize + (alignment - 1) = padded.toNat := sum?_eq_some.mp hsum
    have hlt : padded.toNat < addressSpace := padded.toNat_lt
    have hmin : (UInt64.ofNat minBlock).toNat = minBlock := rfl
    rw [if_pos (hpadded ▸ hlt), Option.map_some, Option.map_some, roundUp, hpadded, ← toNat_and_not_lowBits]
    simp only [UInt64.lt_iff_toNat_lt, hmin, Option.some.injEq]
    split <;> omega

/-- **Words have the quick lists.** -/
lemma toNat_quickClass? (s : UInt64) :
    (quickClass? s).map UInt64.toNat = (BoundaryTag.quickClass? s.toNat).map Fin.val := by
  have hmin : (UInt64.ofNat minBlock).toNat = minBlock := rfl
  have hmax : (UInt64.ofNat maxQuickBlock).toNat = maxQuickBlock := rfl
  have halign : (UInt64.ofNat alignment).toNat = alignment := rfl
  have hmod : s % .ofNat alignment ≠ 0 ↔ s.toNat % alignment ≠ 0 := by
    rw [ne_eq, ← UInt64.toNat_inj, UInt64.toNat_mod, halign]
    rfl
  unfold quickClass? BoundaryTag.quickClass?
  simp only [UInt64.lt_iff_toNat_lt, hmin, hmax, hmod]
  by_cases h : minBlock ≤ s.toNat ∧ s.toNat ≤ maxQuickBlock ∧ s.toNat % alignment = 0
  · have hle : UInt64.ofNat minBlock ≤ s := UInt64.le_iff_toNat_le.mpr h.1
    rw [dif_pos h, if_neg (by omega), Option.map_some, Option.map_some, UInt64.toNat_div,
      UInt64.toNat_sub_of_le _ _ hle, hmin, halign]
  · rw [dif_neg h, if_pos (by omega)]
    rfl

/-- **Words have the main classes.** -/
lemma toNat_mainClass (s : UInt64) : (mainClass s).toNat = BoundaryTag.mainClass s.toNat := by
  have hmin : (UInt64.ofNat minBlock).toNat = minBlock := rfl
  have hlast : (UInt64.ofNat (mainLists - 1)).toNat = mainLists - 1 := rfl
  unfold mainClass BoundaryTag.mainClass
  simp only [UInt64.le_iff_toNat_le, UInt64.lt_iff_toNat_lt, hmin, hlast]
  by_cases hs : s.toNat ≤ minBlock
  · rw [if_pos hs, if_pos hs]
    rfl
  · -- the difference does not wrap around, and neither does the width less five
    have hbig : 32 < s.toNat := Nat.lt_of_not_le hs
    have hpred : (s - 1).toNat = s.toNat - 1 :=
      UInt64.toNat_sub_of_le s 1 (UInt64.le_iff_toNat_le.mpr (show 1 ≤ s.toNat by omega))
    have hge : 2 ^ 5 ≤ s.toNat - 1 := by omega
    have hne : s - 1 ≠ 0 := fun h => by
      rw [← UInt64.toNat_inj, hpred, UInt64.toNat_zero] at h
      omega
    have hwidth := toNat_width hne
    rw [hpred] at hwidth
    have hlog := (Nat.le_log2 (by omega)).mpr hge
    have hoctave : (width (s - 1) - 5).toNat = (s.toNat - 1).log2 + 1 - 5 := by
      rw [UInt64.toNat_sub_of_le _ _ (UInt64.le_iff_toNat_le.mpr ?_), hwidth]
      · rfl
      · rw [hwidth]
        exact hlog.trans (Nat.le_succ _)
    rw [if_neg hs, if_neg hs, hoctave]
    split <;> simp only [hoctave, hlast] <;> omega

end Bits

end BoundaryTag
