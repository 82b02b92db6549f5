import BoundaryTag.Shared.Basic
import BoundaryTag.Shared.Layout

/-!
Allocating by layout from the process-wide heap.

Each call answers a block, or none when it fails. A layout without bytes gets a block too. The heap
places blocks at multiples of `alignment`; greater alignments take the aligned calls, and a block
with one is never resized in place.
-/

namespace BoundaryTag

namespace SharedM

open RequestM

/-- The block of a call that was neither turned away nor failed. -/
def granted : Option (Except AllocError (Option Nat)) → Option Nat
  | some (.ok p) => p
  | _ => none

def request (act : RequestM (Option Nat)) : SharedM (Option Nat) :=
  return granted (← withHeap (onHeap act.run))

/-- The request that serves a layout. -/
def requestFor (l : Layout) : RequestM (Option Nat) :=
  if l.align ≤ alignment then allocate (max l.size 1)
  else allocateAligned (max l.size 1) (max l.align minBlock)

def alloc (l : Layout) : SharedM (Option Nat) := request (requestFor l)

/-- A block whose bytes are zero. -/
def allocZeroed (l : Layout) : SharedM (Option Nat) := do
  let ptr ← alloc l
  if let some p := ptr then onHeap (HeapM.storeBytes p l.size fun _ => 0)
  return ptr

/-- Returns a block. A call that is turned away leaks it. -/
def dealloc (ptr : Nat) : SharedM Unit := do
  let _ ← withHeap (onHeap (HeapM.release ptr))

/-- Moves a block to a new one. -/
def reallocMoving (ptr : Nat) (old new : Layout) : SharedM (Option Nat) := do
  match ← alloc new with
  | none => return none
  | some fresh =>
    onHeap (HeapM.copyBytes ptr fresh (min old.size new.size))
    dealloc ptr
    return some fresh

/-- Resizes a block from one layout to another of the same alignment. On failure the block stays. -/
def realloc (ptr : Nat) (old new : Layout) : SharedM (Option Nat) :=
  if alignment < old.align then reallocMoving ptr old new
  else request (resize ptr (max new.size 1))

end SharedM

end BoundaryTag
