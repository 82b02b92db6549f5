import BoundaryTag.Heap.Release

/-!
The process-wide heap: one heap for all threads, behind a lock.

The heap is made by the first call that gets to it. It serves the allocator that everything else
uses, so a call made by the thread that is inside already must not wait for the lock: it is turned
away by the thread's own mark `entered`.
-/

namespace BoundaryTag

structure Shared where
  /-- Where the region will be mapped. -/
  base : Nat
  /-- Pages to reserve. -/
  pages : Nat
  key : UInt64
  /-- The system that is asked to map them. -/
  mapper : Mapper := .ample
  heap : Option Heap := none
  locked : Bool := false
  /-- Whether this thread is inside a call. The thread has one mark for all heaps of its process, which here
  has one heap. -/
  entered : Bool := false

/-- A run on the process-wide heap, in one thread. -/
abbrev SharedM := StateT Shared (Except Halt)

namespace Shared

def new (base pages : Nat) (key : UInt64) : Shared := { base, pages, key }

/-- The heap as its first call finds it. It is muted, since writing a record may allocate. -/
def freshHeap (s : Shared) : Heap :=
  let arena := Arena.reserveFrom s.mapper s.base s.pages s.key
  { Heap.new arena (.zeroed s.base (arena.supply.limit * pageSize)) with
    journal := { muted := true } }

/-- The heap as the next call finds it. -/
def current (s : Shared) : Heap := s.heap.getD s.freshHeap

end Shared

namespace SharedM

/-- Waits for the lock and takes it. A thread that waits for itself waits forever. -/
def lock : SharedM Unit := fun s =>
  if s.locked then .error .endless else .ok ((), { s with locked := true })

def unlock : SharedM Unit := modify fun s => { s with locked := false }

def setEntered (entered : Bool) : SharedM Unit := modify fun s => { s with entered }

/-- Makes the heap unless it is there. -/
def prepare : SharedM Unit :=
  modify fun s => { s with heap := some (s.heap.getD s.freshHeap) }

/-- Runs `body` with the lock held; not at all when the thread is inside a call already. -/
def withHeap {α : Type} (body : SharedM α) : SharedM (Option α) := do
  if (← get).entered then return none
  setEntered true
  lock
  prepare
  let a ← body
  unlock
  setEntered false
  return some a

/-- Runs `act` on the heap, which is there inside `withHeap`. -/
def onHeap {α : Type} (act : HeapM α) : SharedM α := fun s =>
  match act (s.heap.getD s.freshHeap) with
  | .ok (a, h) => .ok (a, { s with heap := some h })
  | .error e => .error e

/-- A program stores a byte of its own. -/
def store (addr : Nat) (byte : UInt8) : SharedM Unit :=
  onHeap (modify fun h => { h with memory := h.memory.setByte addr byte })

end SharedM

end BoundaryTag
