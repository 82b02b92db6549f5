import BoundaryTag.Error
import BoundaryTag.Memory

/-!
The setting that says how many pages the process-wide heap reserves.

It is a decimal number. A setting that is absent, not a number, zero or out of range is ignored. The
number is built in one word, digit by digit, and each step says whether it still fits. The process
keeps the setting in memory, with a zero byte at its end.
-/

namespace BoundaryTag

/-- The bytes `v` are in memory from `a` on, and a zero byte is behind them. -/
structure Memory.Spells (m : Memory) (a : Nat) (v : List UInt8) : Prop where
  inside : m.base ≤ a ∧ a + v.length < m.base + m.extent
  bytes : m.slice a (v.length + 1) = v ++ [0]

namespace Setting

/-- 64 MB. -/
def defaultPages : Nat := 16 * 1024

def isDigit (b : UInt8) : Bool := 48 ≤ b.toNat && b.toNat ≤ 57

def digit (b : UInt8) : Nat := b.toNat - 48

/-- The number `n` with one more digit behind it. There is none if `b` is no digit, or if the number
does not fit into a word. -/
def push? (n : UInt64) (b : UInt8) : Option UInt64 :=
  if isDigit b then (product? n 10).bind fun tens => sum? tens (.ofNat (digit b)) else none

/-- The number that a string of digits makes behind the digits of `n`. -/
def decimalFrom? (n : UInt64) (v : List UInt8) : Option UInt64 := v.foldlM push? n

/-- The pages to reserve for a number that was read. -/
def pagesFor (number : Option UInt64) : Nat :=
  (number.filter (0 < ·)).elim defaultPages UInt64.toNat

/-- The pages to reserve. -/
def pages (setting : Option (List UInt8)) : Nat := pagesFor (setting.bind (decimalFrom? 0))

/-- The number that the string at `a` makes behind the digits of `n`, read byte after byte up to the
zero byte. -/
def readFrom (m : Memory) (n : UInt64) (a : Nat) : Except Halt (Option UInt64) :=
  if _ : m.base ≤ a ∧ a < m.base + m.extent then
    if m.byte a = 0 then .ok (some n)
    else
      match push? n (m.byte a) with
      | some k => readFrom m k (a + 1)
      | none => .ok none
  else .error (.outside a)
termination_by m.base + m.extent - a
decreasing_by omega

/-- The pages to reserve for the setting at an address, which is `0` if there is none. -/
def pagesAt (m : Memory) (a : Nat) : Except Halt Nat :=
  if a = 0 then .ok defaultPages else (readFrom m 0 a).map pagesFor

end Setting

end BoundaryTag
