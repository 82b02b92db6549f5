/-!
Addresses and sizes of a 64-bit machine, as natural numbers.

Every address and every size is below `addressSpace`, and address `0` is the null pointer.
`wrapAdd` and `wrapSub` are the sum and the difference of the machine, which wrap around; the bounds
that keep a sum from wrapping are stated in `Nat`, where they do not. `sum?` and `product?` are for
words that come from outside: they have no result where the machine's would wrap around.
-/

namespace BoundaryTag

/-- The number of addresses, two to the 64. -/
def addressSpace : Nat := 0x10000000000000000

/-- Bytes in a word. -/
def wordSize : Nat := 8

def wrapAdd (a b : Nat) : Nat := (a + b) % addressSpace

def wrapSub (a b : Nat) : Nat := (a + (addressSpace - b % addressSpace)) % addressSpace

theorem wrapAdd_of_lt {a b : Nat} (h : a + b < addressSpace) : wrapAdd a b = a + b :=
  Nat.mod_eq_of_lt h

theorem wrapSub_of_le {a b : Nat} (hba : b ≤ a) (ha : a < addressSpace) : wrapSub a b = a - b := by
  simp only [wrapSub, addressSpace] at *
  omega

/-- The sum of two words. There is none where it is too large for a word. -/
def sum? (a b : UInt64) : Option UInt64 :=
  if a.toNat + b.toNat < addressSpace then some (a + b) else none

/-- The product of two words. There is none where it is too large for a word. -/
def product? (a b : UInt64) : Option UInt64 :=
  if a.toNat * b.toNat < addressSpace then some (a * b) else none

section

variable {a b c : UInt64}

/-- A sum that there is did not wrap around. -/
theorem sum?_eq_some : sum? a b = some c ↔ a.toNat + b.toNat = c.toNat := by
  have hc := c.toNat_lt
  rw [sum?, Option.ite_none_right_eq_some, Option.some.injEq, ← UInt64.toNat_inj, UInt64.toNat_add]
  simp only [addressSpace]
  omega

/-- A product that there is did not wrap around. -/
theorem product?_eq_some : product? a b = some c ↔ a.toNat * b.toNat = c.toNat := by
  have hc := c.toNat_lt
  rw [product?, Option.ite_none_right_eq_some, Option.some.injEq, ← UInt64.toNat_inj, UInt64.toNat_mul]
  simp only [addressSpace]
  omega

end

/-- The greatest multiple of `unit` that is at most `n`. -/
def roundDown (n unit : Nat) : Nat := n / unit * unit

/-- The least multiple of `unit` that is at least `n`. -/
def roundUp (n unit : Nat) : Nat := roundDown (n + (unit - 1)) unit

theorem roundDown_mod (n unit : Nat) : roundDown n unit % unit = 0 := Nat.mul_mod_left _ _

theorem roundUp_mod (n unit : Nat) : roundUp n unit % unit = 0 := roundDown_mod _ _

theorem roundDown_le (n unit : Nat) : roundDown n unit ≤ n := Nat.div_mul_le_self n unit

theorem lt_roundDown_add {n unit : Nat} (h : 0 < unit) : n < roundDown n unit + unit := by
  have hdiv := Nat.div_add_mod n unit
  have hmod := Nat.mod_lt n h
  rw [roundDown, Nat.mul_comm]
  omega

theorem le_roundUp {n unit : Nat} (h : 0 < unit) : n ≤ roundUp n unit := by
  have := lt_roundDown_add (n := n + (unit - 1)) h
  rw [roundUp]
  omega

theorem roundUp_lt {n unit : Nat} (h : 0 < unit) : roundUp n unit < n + unit := by
  have := roundDown_le (n + (unit - 1)) unit
  rw [roundUp]
  omega

/-- A multiple that is not below `n` is not below the least one. -/
theorem roundUp_le {n b unit : Nat} (h : 0 < unit) (hle : n ≤ b) (hb : b % unit = 0) :
    roundUp n unit ≤ b := by
  have hmul := Nat.div_mul_cancel (Nat.dvd_of_mod_eq_zero hb)
  have hdiv : (n + (unit - 1)) / unit ≤ b / unit := by
    refine Nat.le_of_lt_succ ((Nat.div_lt_iff_lt_mul h).mpr ?_)
    rw [Nat.succ_mul, hmul]
    omega
  calc roundUp n unit ≤ b / unit * unit := Nat.mul_le_mul_right unit hdiv
    _ = b := hmul

/-- A number in lower-case hexadecimal, without leading zeros. -/
def hex (n : Nat) : String := "0x" ++ String.ofList (Nat.toDigits 16 n)

end BoundaryTag
