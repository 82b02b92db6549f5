import BoundaryTag.Memory
import Mathlib.Algebra.Ring.Nat

/-!
What writes do to the bytes of a memory.

A write changes the bytes that it names, and what is read back there is what was written. It leaves
every other byte alone, so numbers that do not overlap it read as before.
-/

namespace BoundaryTag

namespace Memory

/-! ### Single bytes -/

theorem byte_of_lt {m : Memory} {a : Nat} (h : a < m.base) : m.byte a = 0 := by
  simp [byte, h]

theorem base_setByte (m : Memory) (a : Nat) (v : UInt8) : (m.setByte a v).base = m.base := by
  unfold setByte
  split <;> rfl

theorem extent_setByte (m : Memory) (a : Nat) (v : UInt8) :
    (m.setByte a v).extent = m.extent := by
  unfold setByte
  split <;> rfl

/-- **One byte written**: it reads back, and every other byte reads as before. -/
theorem byte_setByte {m : Memory} {a : Nat} (h : m.base ≤ a) (v : UInt8) (x : Nat) :
    (m.setByte a v).byte x = if x = a then v else m.byte x := by
  by_cases hx : m.base ≤ x
  · have hsub : x - m.base = a - m.base ↔ x = a := by omega
    simp only [setByte, byte, Nat.not_lt.mpr h, Nat.not_lt.mpr hx, if_false, ByteTree.get_set, hsub]
  · have hxa : x ≠ a := by omega
    rw [if_neg hxa, byte_of_lt (by rw [base_setByte]; omega), byte_of_lt (by omega)]

/-! ### Numbers -/

theorem base_setNumber (m : Memory) (a : Nat) (w : UInt64) (n : Nat) :
    (m.setNumber a w n).base = m.base := by
  induction n generalizing m a w with
  | zero => rfl
  | succ n ih => rw [setNumber, ih, base_setByte]

theorem extent_setNumber (m : Memory) (a : Nat) (w : UInt64) (n : Nat) :
    (m.setNumber a w n).extent = m.extent := by
  induction n generalizing m a w with
  | zero => rfl
  | succ n ih => rw [setNumber, ih, extent_setByte]

theorem byte_setNumber_of_outside {m : Memory} {a : Nat} (h : m.base ≤ a) (w : UInt64) {n x : Nat}
    (hx : x < a ∨ a + n ≤ x) : (m.setNumber a w n).byte x = m.byte x := by
  induction n generalizing m a w with
  | zero => rfl
  | succ n ih =>
    rw [setNumber, ih (by rw [base_setByte]; omega) _ (by omega), byte_setByte h, if_neg (by omega)]

theorem number_congr {m m' : Memory} {a n : Nat}
    (h : ∀ x, a ≤ x → x < a + n → m'.byte x = m.byte x) : m'.number a n = m.number a n := by
  induction n generalizing a with
  | zero => rfl
  | succ n ih =>
    rw [number, number, h a (by omega) (by omega), ih fun x h1 h2 => h x (by omega) (by omega)]

theorem number_setNumber_of_disjoint {m : Memory} {a : Nat} (h : m.base ≤ a) (w : UInt64)
    {n b k : Nat} (hd : b + k ≤ a ∨ a + n ≤ b) : (m.setNumber a w n).number b k = m.number b k :=
  number_congr fun _ _ _ => byte_setNumber_of_outside h w (by omega)

theorem toNat_number_lt (m : Memory) (a : Nat) {n : Nat} (hn : n ≤ 8) :
    (m.number a n).toNat < 256 ^ n := by
  induction n generalizing a with
  | zero => simp [number]
  | succ n ih =>
    have hb := (m.byte a).toNat_lt
    have hr := ih (a + 1) (by omega)
    have hp : 256 ^ (n + 1) = 256 * 256 ^ n := by rw [Nat.pow_succ, Nat.mul_comm]
    simp only [number, UInt64.toNat_add, UInt64.toNat_mul, UInt8.toNat_toUInt64, hp]
    refine Nat.lt_of_le_of_lt (Nat.mod_le _ _) ?_
    refine Nat.lt_of_le_of_lt (Nat.add_le_add_left (Nat.mod_le _ _) _) ?_
    have : (256 : UInt64).toNat = 256 := rfl
    rw [this]
    omega

/-- **A number written** reads back, as far as its low bytes go. -/
theorem toNat_number_setNumber {m : Memory} {a : Nat} (h : m.base ≤ a) (w : UInt64) {n : Nat}
    (hn : n ≤ 8) : ((m.setNumber a w n).number a n).toNat = w.toNat % 256 ^ n := by
  induction n generalizing m a w with
  | zero => simp [number, Nat.mod_one]
  | succ n ih =>
    have hrest := ih (m := m.setByte a w.toUInt8) (a := a + 1) (by rw [base_setByte]; omega)
      (w / 256) (by omega)
    have hbyte : ((m.setByte a w.toUInt8).setNumber (a + 1) (w / 256) n).byte a = w.toUInt8 := by
      rw [byte_setNumber_of_outside (by rw [base_setByte]; omega) _ (by omega), byte_setByte h,
        if_pos rfl]
    have hlt := toNat_number_lt ((m.setByte a w.toUInt8).setNumber (a + 1) (w / 256) n) (a + 1)
      (n := n) (by omega)
    have hpow : 256 ^ n ≤ 256 ^ 7 := Nat.pow_le_pow_right (by omega) (by omega)
    have hp : 256 ^ (n + 1) = 256 * 256 ^ n := by rw [Nat.pow_succ, Nat.mul_comm]
    have h256 : (256 : UInt64).toNat = 256 := rfl
    rw [setNumber, number, hbyte]
    simp only [UInt64.toNat_add, UInt64.toNat_mul, UInt8.toNat_toUInt64, hrest, h256, hp,
      UInt64.toNat_toUInt8, UInt64.toNat_div, Nat.mod_mul] at *
    omega

theorem base_setWord (m : Memory) (a : Nat) (w : UInt64) : (m.setWord a w).base = m.base := by
  unfold setWord
  exact base_setNumber ..

theorem extent_setWord (m : Memory) (a : Nat) (w : UInt64) :
    (m.setWord a w).extent = m.extent := by
  unfold setWord
  exact extent_setNumber ..

theorem word_setWord_self {m : Memory} {a : Nat} (h : m.base ≤ a) (w : UInt64) :
    (m.setWord a w).word a = w := by
  apply UInt64.toNat_inj.mp
  unfold word setWord
  rw [toNat_number_setNumber h w (by decide)]
  exact Nat.mod_eq_of_lt w.toNat_lt

theorem word_setWord_of_disjoint {m : Memory} {a b : Nat} (h : m.base ≤ a) (w : UInt64)
    (hd : b + wordSize ≤ a ∨ a + wordSize ≤ b) : (m.setWord a w).word b = m.word b := by
  unfold word setWord
  exact number_setNumber_of_disjoint h w hd

theorem byte_setWord_of_outside {m : Memory} {a x : Nat} (h : m.base ≤ a) (w : UInt64)
    (hx : x < a ∨ a + wordSize ≤ x) : (m.setWord a w).byte x = m.byte x := by
  unfold setWord
  exact byte_setNumber_of_outside h w hx

theorem word_congr {m m' : Memory} {a : Nat}
    (h : ∀ x, a ≤ x → x < a + wordSize → m'.byte x = m.byte x) : m'.word a = m.word a := by
  unfold word
  exact number_congr h

/-- A number tells its bytes. -/
theorem byte_of_number {m m' : Memory} {a n x : Nat} (hn : n ≤ 8) (h : m'.number a n = m.number a n)
    (h1 : a ≤ x) (h2 : x < a + n) : m'.byte x = m.byte x := by
  induction n generalizing a with
  | zero => omega
  | succ n ih =>
    have hlt := toNat_number_lt m (a + 1) (n := n) (by omega)
    have hlt' := toNat_number_lt m' (a + 1) (n := n) (by omega)
    have hb := (m.byte a).toNat_lt
    have hb' := (m'.byte a).toNat_lt
    have hpow : 256 ^ n ≤ 256 ^ 7 := Nat.pow_le_pow_right (by omega) (by omega)
    have h256 : (256 : UInt64).toNat = 256 := rfl
    have hsum := congrArg UInt64.toNat h
    simp only [number, UInt64.toNat_add, UInt64.toNat_mul, UInt8.toNat_toUInt64, h256] at hsum
    have hlow : (m'.byte a).toNat = (m.byte a).toNat := by omega
    have hrest : (m'.number (a + 1) n).toNat = (m.number (a + 1) n).toNat := by omega
    by_cases hx : x = a
    · rw [hx]
      exact UInt8.toNat_inj.mp hlow
    · exact ih (by omega) (UInt64.toNat_inj.mp hrest) (by omega) (by omega)

theorem byte_of_word {m m' : Memory} {a x : Nat} (h : m'.word a = m.word a) (h1 : a ≤ x)
    (h2 : x < a + wordSize) : m'.byte x = m.byte x := by
  unfold word at h
  exact byte_of_number (show wordSize ≤ 8 by decide) h h1 h2

/-! ### Stretches -/

theorem base_setBytes (m : Memory) (a : Nat) (f : Nat → UInt8) (n : Nat) :
    (m.setBytes a f n).base = m.base := by
  induction n generalizing m with
  | zero => rfl
  | succ n ih => rw [setBytes, ih, base_setByte]

theorem extent_setBytes (m : Memory) (a : Nat) (f : Nat → UInt8) (n : Nat) :
    (m.setBytes a f n).extent = m.extent := by
  induction n generalizing m with
  | zero => rfl
  | succ n ih => rw [setBytes, ih, extent_setByte]

theorem byte_setBytes {m : Memory} {a : Nat} (h : m.base ≤ a) (f : Nat → UInt8) (n x : Nat) :
    (m.setBytes a f n).byte x = if a ≤ x ∧ x < a + n then f (x - a) else m.byte x := by
  induction n generalizing m with
  | zero => rw [setBytes, if_neg (by omega)]
  | succ n ih =>
    rw [setBytes, ih (by rw [base_setByte]; omega), byte_setByte (by omega)]
    by_cases hx : x = a + n
    · subst hx
      rw [if_neg (by omega), if_pos rfl, if_pos (by omega), Nat.add_sub_cancel_left]
    · rw [if_neg hx]
      by_cases hin : a ≤ x ∧ x < a + n
      · rw [if_pos hin, if_pos (by omega)]
      · rw [if_neg hin, if_neg (by omega)]

theorem base_copy (m : Memory) (src dst n : Nat) : (m.copy src dst n).base = m.base :=
  base_setBytes ..

theorem extent_copy (m : Memory) (src dst n : Nat) : (m.copy src dst n).extent = m.extent :=
  extent_setBytes ..

theorem byte_copy {m : Memory} {dst : Nat} (h : m.base ≤ dst) (src n x : Nat) :
    (m.copy src dst n).byte x =
      if dst ≤ x ∧ x < dst + n then m.byte (src + (x - dst)) else m.byte x :=
  byte_setBytes h _ n x

theorem slice_succ (m : Memory) (a n : Nat) : m.slice a (n + 1) = m.byte a :: m.slice (a + 1) n := by
  simp [slice, List.range_succ_eq_map, Nat.add_assoc, Nat.add_comm 1]

end Memory

end BoundaryTag
