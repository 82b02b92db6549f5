import BoundaryTag.Memory.Lemmas
import BoundaryTag.Shared.Setting
import Mathlib.Data.Nat.Digits.Defs

/-!
What settings say.

A string is read as the number that its digits make, if it is nothing but digits and the number fits into a word.
The scan gives up at the first digit with which the number does not fit, and that is right, since with more digits
it only grows; zeros in front do not let it grow. At each digit the number is exact: no product and no sum wraps
around.
-/

namespace BoundaryTag

/-! ### Strings in memory -/

namespace Memory.Spells

variable {m : Memory} {a : Nat} {b : UInt8} {u v w : List UInt8}

lemma nil (h : m.Spells a []) : (m.base ≤ a ∧ a < m.base + m.extent) ∧ m.byte a = 0 := by
  obtain ⟨hin, hbytes⟩ := h
  exact ⟨hin, by simpa [slice] using hbytes⟩

/-- Behind its first byte a string goes on. -/
lemma cons (h : m.Spells a (b :: v)) :
    (m.base ≤ a ∧ a < m.base + m.extent) ∧ m.byte a = b ∧ m.Spells (a + 1) v := by
  obtain ⟨hin, hbytes⟩ := h
  rw [List.length_cons, slice_succ, List.cons_append, List.cons.injEq] at hbytes
  rw [List.length_cons] at hin
  exact ⟨by omega, hbytes.1, by omega, hbytes.2⟩

lemma append (h : m.Spells a (u ++ w)) : m.Spells (a + u.length) w := by
  induction u generalizing a with
  | nil => exact h
  | cons b rest ih =>
    obtain ⟨-, -, hrest⟩ := h.cons
    rw [List.length_cons, Nat.add_comm rest.length, ← Nat.add_assoc]
    exact ih hrest

end Memory.Spells

namespace Setting

/-- The number that the digits of a string make. -/
def value (v : List UInt8) : Nat := Nat.ofDigits 10 (v.map digit).reverse

/-- A string that says how many pages: digits, whose number is a word and not zero. -/
structure Names (v : List UInt8) : Prop where
  nonempty : v ≠ []
  digits : ∀ b ∈ v, isDigit b = true
  positive : 1 ≤ value v
  fits : value v ≤ 2 ^ 64 - 1

variable {n k : UInt64} {b : UInt8} {u v w : List UInt8} {m : Memory} {a : Nat}

lemma value_cons : value (b :: v) = digit b * 10 ^ v.length + value v := by
  rw [value, List.map_cons, Nat.ofDigits_reverse_cons, List.length_map, Nat.add_comm, Nat.mul_comm]
  rfl

/-! ### One digit -/

lemma toNat_digit (b : UInt8) : (UInt64.ofNat (digit b)).toNat = digit b := by
  have hb := b.toNat_lt
  apply UInt64.toNat_ofNat_of_lt'
  unfold digit
  exact lt_of_le_of_lt (Nat.sub_le _ _) (hb.trans (by decide))

/-- **One digit**: the number with the digit behind it, if that is a word. -/
lemma push?_eq_some : push? n b = some k ↔ isDigit b = true ∧ n.toNat * 10 + digit b = k.toNat := by
  have hdigit := toNat_digit b
  rw [push?, Option.ite_none_right_eq_some, Option.bind_eq_some_iff]
  refine and_congr_right fun _ => ⟨?_, fun h => ?_⟩
  · rintro ⟨tens, hproduct, hsum⟩
    rw [product?_eq_some] at hproduct
    rw [sum?_eq_some, hdigit, ← hproduct] at hsum
    exact hsum
  · -- the product is no larger than the sum, so it fits too
    have hlt := k.toNat_lt
    have htens : (UInt64.ofNat (n.toNat * 10)).toNat = n.toNat * 10 :=
      UInt64.toNat_ofNat_of_lt' (show n.toNat * 10 < 2 ^ 64 by omega)
    exact ⟨.ofNat (n.toNat * 10), product?_eq_some.mpr htens.symm, sum?_eq_some.mpr (by rw [htens, hdigit, h])⟩

/-- Where the number with the digit behind it is a word, the product and the sum that make it did not wrap
around. -/
lemma push?_exact (h : push? n b = some k) : (n * 10).toNat = n.toNat * 10 ∧
    k = n * 10 + .ofNat (digit b) ∧ k.toNat = n.toNat * 10 + digit b := by
  obtain ⟨-, hk⟩ := push?_eq_some.mp h
  have hlt := k.toNat_lt
  have htens : (n * 10).toNat = n.toNat * 10 := by
    rw [UInt64.toNat_mul]
    exact Nat.mod_eq_of_lt (show n.toNat * 10 < 2 ^ 64 by omega)
  refine ⟨htens, ?_, hk.symm⟩
  rw [← UInt64.toNat_inj, UInt64.toNat_add, htens, toNat_digit, hk]
  exact (Nat.mod_eq_of_lt hlt).symm

/-! ### All digits -/

/-- **All digits**: a string is read exactly if it is digits only and its number is a word. -/
lemma decimalFrom?_eq_some : decimalFrom? n v = some k ↔
    (∀ b ∈ v, isDigit b = true) ∧ n.toNat * 10 ^ v.length + value v = k.toNat := by
  induction v generalizing n with
  | nil => simp [decimalFrom?, value, UInt64.toNat_inj]
  | cons b rest ih =>
    have hstep : decimalFrom? n (b :: rest) = some k ↔ ∃ t, push? n b = some t ∧ decimalFrom? t rest = some k :=
      Option.bind_eq_some_iff
    have hsum : n.toNat * 10 ^ (b :: rest).length + value (b :: rest) =
        (n.toNat * 10 + digit b) * 10 ^ rest.length + value rest := by
      rw [value_cons, List.length_cons]
      ring
    rw [hstep, hsum, List.forall_mem_cons]
    constructor
    · rintro ⟨t, hpush, hrest⟩
      obtain ⟨hb, ht⟩ := push?_eq_some.mp hpush
      obtain ⟨hdigits, hk⟩ := ih.mp hrest
      exact ⟨⟨hb, hdigits⟩, by rw [ht, hk]⟩
    · rintro ⟨⟨hb, hdigits⟩, hk⟩
      -- with the digits that follow the number only grows, so it fits here if it fits in the end
      have hgrow : n.toNat * 10 + digit b ≤ k.toNat := by
        calc n.toNat * 10 + digit b
          _ ≤ (n.toNat * 10 + digit b) * 10 ^ rest.length := Nat.le_mul_of_pos_right _ (Nat.pow_pos (by decide))
          _ ≤ (n.toNat * 10 + digit b) * 10 ^ rest.length + value rest := Nat.le_add_right _ _
          _ = k.toNat := hk
      have ht : (UInt64.ofNat (n.toNat * 10 + digit b)).toNat = n.toNat * 10 + digit b :=
        UInt64.toNat_ofNat_of_lt' (lt_of_le_of_lt hgrow k.toNat_lt)
      exact ⟨.ofNat (n.toNat * 10 + digit b), push?_eq_some.mpr ⟨hb, ht.symm⟩, ih.mpr ⟨hdigits, by rw [ht, hk]⟩⟩

lemma decimalFrom?_zero : decimalFrom? 0 v = some k ↔ (∀ b ∈ v, isDigit b = true) ∧ value v = k.toNat := by
  rw [decimalFrom?_eq_some, UInt64.toNat_zero, Nat.zero_mul, Nat.zero_add]

lemma decimalFrom?_append (hu : decimalFrom? n u = some k) : decimalFrom? n (u ++ w) = decimalFrom? k w := by
  unfold decimalFrom? at hu ⊢
  rw [List.foldlM_append, hu]
  rfl

/-! ### The pages -/

lemma pagesFor_some : pagesFor (some k) = if 0 < k.toNat then k.toNat else defaultPages := by
  unfold pagesFor
  rw [Option.filter_some]
  simp only [UInt64.lt_iff_toNat_lt, UInt64.toNat_zero, decide_eq_true_eq]
  split <;> rfl

/-- **A string that names pages** gets them. -/
lemma Names.pages (h : Names v) : pages (some v) = value v := by
  have hfits := h.fits
  have hk : (UInt64.ofNat (value v)).toNat = value v :=
    UInt64.toNat_ofNat_of_lt' (show value v < 2 ^ 64 by omega)
  have hread : decimalFrom? 0 v = some (.ofNat (value v)) := decimalFrom?_zero.mpr ⟨h.digits, hk.symm⟩
  rw [Setting.pages, Option.bind_some, hread, pagesFor_some, hk, if_pos (Nat.lt_of_succ_le h.positive)]

/-- **A string that names none** is ignored. -/
lemma pages_of_not_names (h : ¬ Names v) : pages (some v) = defaultPages := by
  rw [Setting.pages, Option.bind_some]
  rcases hread : decimalFrom? 0 v with _ | k
  · rfl
  · obtain ⟨hdigits, hk⟩ := decimalFrom?_zero.mp hread
    rw [pagesFor_some, if_neg]
    intro hpos
    have hlt := k.toNat_lt
    refine h ⟨?_, hdigits, by omega, by omega⟩
    rintro rfl
    exact absurd (hk.trans_gt hpos) (Nat.lt_irrefl 0)

/-! ### The scan -/

/-- **A string in memory** is read up to the zero byte behind it, and nothing else is. -/
lemma readFrom_eq (h : m.Spells a v) (h0 : 0 ∉ v) : readFrom m n a = .ok (decimalFrom? n v) := by
  induction v generalizing n a with
  | nil =>
    obtain ⟨hin, hzero⟩ := h.nil
    rw [readFrom, dif_pos hin, if_pos hzero]
    rfl
  | cons b rest ih =>
    obtain ⟨hin, hbyte, hrest⟩ := h.cons
    rw [readFrom, dif_pos hin, hbyte, if_neg (List.ne_of_not_mem_cons h0).symm]
    rcases hpush : push? n b with _ | k
    · simp [decimalFrom?, hpush]
    · simp [decimalFrom?, hpush, ih hrest (List.not_mem_of_not_mem_cons h0)]

/-- Behind digits that were read the scan goes on with their number. -/
lemma readFrom_append (h : m.Spells a (u ++ w)) (h0 : 0 ∉ u ++ w) (hu : decimalFrom? n u = some k) :
    readFrom m n a = readFrom m k (a + u.length) := by
  have h0w : 0 ∉ w := fun hmem => h0 (List.mem_append_right u hmem)
  rw [readFrom_eq h h0, readFrom_eq h.append h0w, decimalFrom?_append hu]

lemma pagesAt_eq (ha : a ≠ 0) (h : m.Spells a v) (h0 : 0 ∉ v) : pagesAt m a = .ok (pages (some v)) := by
  rw [pagesAt, if_neg ha, readFrom_eq h h0]
  rfl

/-- **The setting is read exactly.** Let a string without a zero byte be given, of any length. If it is digits only,
with or without zeros in front, and their number is from `1` to `2 ^ 64 - 1`, that many pages are reserved;
otherwise, and if there is no setting, `defaultPages`. It is read so wherever it is in memory with a zero byte
behind it, whatever else is there or not. And at each byte the scan has the very number of the digits before it; if
it goes on with one more digit, neither the product nor the sum has wrapped around. -/
theorem setting_read_exactly :
    pages none = defaultPages ∧ (∀ m, pagesAt m 0 = .ok defaultPages) ∧
    ∀ v : List UInt8, 0 ∉ v →
      (Names v → pages (some v) = value v) ∧ (¬ Names v → pages (some v) = defaultPages) ∧
      ∀ m a, a ≠ 0 → m.Spells a v → pagesAt m a = .ok (pages (some v)) ∧
        ∀ u b w k, v = u ++ b :: w → decimalFrom? 0 u = some k →
          readFrom m 0 a = readFrom m k (a + u.length) ∧ k.toNat = value u ∧
          ∀ t, push? k b = some t →
            (k * 10).toNat = k.toNat * 10 ∧ t = k * 10 + .ofNat (digit b) ∧
            t.toNat = k.toNat * 10 + digit b := by
  refine ⟨rfl, fun m => rfl, fun v h0 => ⟨Names.pages, pages_of_not_names, fun m a ha h => ⟨pagesAt_eq ha h h0, ?_⟩⟩⟩
  rintro u b w k rfl hu
  exact ⟨readFrom_append h h0 hu, (decimalFrom?_zero.mp hu).2.symm, fun t ht => push?_exact ht⟩

/-- The largest number there is, with zeros in front, at the end of a memory; and the scan of it before its last
digit, which only just fits. -/
theorem setting_read_exactly_largest : ∃ (m : Memory) (a : Nat) (u : List UInt8) (k : UInt64),
    m.base + m.extent = a + 24 ∧ m.Spells a (u ++ [53]) ∧ u.take 4 = [48, 48, 48, 49] ∧
    pagesAt m a = .ok 18446744073709551615 ∧
    readFrom m 0 a = readFrom m k (a + 22) ∧ k.toNat = 1844674407370955161 := by
  let u : List UInt8 := [48, 48, 48, 49, 56, 52, 52, 54, 55, 52, 52, 48, 55, 51, 55, 48, 57, 53, 53, 49, 54, 49]
  let m := (Memory.zeroed 4096 28).setBytes 4100 (fun i => (u ++ [53]).getD i 0) 23
  have hspells : m.Spells 4100 (u ++ [53]) := ⟨by decide +kernel, by decide +kernel⟩
  have hnames : Names (u ++ [53]) := ⟨by decide, by decide +kernel, by decide +kernel, by decide +kernel⟩
  have hread : decimalFrom? 0 u = some 1844674407370955161 := by decide +kernel
  obtain ⟨-, -, hall⟩ := setting_read_exactly
  obtain ⟨hpages, -, hmem⟩ := hall (u ++ [53]) (by decide)
  obtain ⟨hat, hscan⟩ := hmem m 4100 (by decide) hspells
  obtain ⟨hon, -⟩ := hscan u 53 [] _ rfl hread
  refine ⟨m, 4100, u, _, by decide +kernel, hspells, rfl, ?_, hon, rfl⟩
  rw [hat, hpages hnames]
  decide +kernel

end Setting

end BoundaryTag
