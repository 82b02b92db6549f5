import BoundaryTag.ByteTree
import BoundaryTag.Word

/-!
A stretch of byte-addressed memory.

The bytes exist from `base` on, and are zero until they are written. Everything else is said through
`byte`: a write changes the bytes it names and no other. Words are little-endian.
-/

namespace BoundaryTag

structure Memory where
  /-- The first address. -/
  base : Nat
  /-- The number of bytes. -/
  extent : Nat
  /-- The bytes by their distance from `base`. -/
  bytes : ByteTree

namespace Memory

/-- Memory that holds only zeros. -/
def zeroed (base : Nat) (extent : Nat) : Memory := ⟨base, extent, .zeros⟩

/-- Whether the `n` bytes from `a` on all exist. -/
def maps (m : Memory) (a n : Nat) : Bool := m.base ≤ a && a + n ≤ m.base + m.extent

/-- The byte at an address; zero below `base`. -/
def byte (m : Memory) (a : Nat) : UInt8 :=
  if a < m.base then 0 else m.bytes.get (a - m.base)

/-- Stores one byte. Below `base` there is nothing to store it in. -/
def setByte (m : Memory) (a : Nat) (v : UInt8) : Memory :=
  if a < m.base then m else { m with bytes := m.bytes.set (a - m.base) v }

/-- The `n` bytes from `a` on, read as a little-endian number. -/
def number (m : Memory) (a : Nat) : Nat → UInt64
  | 0 => 0
  | n + 1 => (m.byte a).toUInt64 + 256 * m.number (a + 1) n

/-- Stores the low `n` bytes of a number from `a` on. -/
def setNumber (m : Memory) (a : Nat) (w : UInt64) : Nat → Memory
  | 0 => m
  | n + 1 => (m.setByte a w.toUInt8).setNumber (a + 1) (w / 256) n

@[irreducible]
def word (m : Memory) (a : Nat) : UInt64 := m.number a wordSize

@[irreducible]
def setWord (m : Memory) (a : Nat) (w : UInt64) : Memory := m.setNumber a w wordSize

/-- Stores `f 0`, `f 1`, …, `f (n - 1)` from `a` on. -/
def setBytes (m : Memory) (a : Nat) (f : Nat → UInt8) : Nat → Memory
  | 0 => m
  | n + 1 => (m.setByte (a + n) (f n)).setBytes a f n

/-- Copies `n` bytes from `src` to `dst`. All are read before the first is written, so the two
stretches may overlap. -/
def copy (m : Memory) (src dst n : Nat) : Memory := m.setBytes dst (fun i => m.byte (src + i)) n

/-- The `n` bytes from `a` on. -/
def slice (m : Memory) (a n : Nat) : List UInt8 := (List.range n).map fun i => m.byte (a + i)

end Memory

end BoundaryTag
