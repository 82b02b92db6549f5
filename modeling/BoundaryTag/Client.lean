import BoundaryTag.Heap.Basic

/-!
A client's own reads and writes.

A `Window` is the stretch of memory that a client has. What it does outside has no result.
-/

namespace BoundaryTag

structure Window where
  start : Nat
  stop : Nat

namespace Window

def covers (w : Window) (a n : Nat) : Bool := w.start ≤ a && a + n ≤ w.stop

def readBytes (w : Window) (m : Memory) (a n : Nat) : Option (List UInt8) :=
  if w.covers a n then some (m.slice a n) else none

def readWords (w : Window) (m : Memory) (a n : Nat) : Option (List UInt64) :=
  if w.covers a (n * wordSize) then
    some ((List.range n).map fun i => m.word (a + i * wordSize))
  else none

/-- Stores `f 0`, `f 1`, …, `f (n - 1)` from `a` on. -/
def writeBytes (w : Window) (m : Memory) (a n : Nat) (f : Nat → UInt8) : Option Memory :=
  if w.covers a n then some (m.setBytes a f n) else none

def writeWord (w : Window) (m : Memory) (a : Nat) (v : UInt64) : Option Memory :=
  if w.covers a wordSize then some (m.setWord a v) else none

end Window

/-- All memory there is. -/
def Memory.window (m : Memory) : Window := ⟨m.base, m.base + m.extent⟩

/-- The region that the arena has handed out. -/
def Arena.window (a : Arena) : Window := ⟨a.start, a.stop⟩

end BoundaryTag
