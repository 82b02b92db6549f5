import BoundaryTag.Heap.FreeList

/-!
Merging free blocks.

A block that becomes free is merged with its free neighbours, which leave their lists. The
predecessor is found through its footer, the successor through the size in the header. No two free
blocks stay next to each other.
-/

namespace BoundaryTag

namespace HeapM

/-- The size of the block at `next`, if it lies in the heap and is free. -/
def freeSize? (next : Nat) : HeapM (Option Nat) := do
  if next < (← stop) then
    let t ← tagAt next
    return if t.allocated then none else some t.size
  else return none

/-- A free block about to be written. -/
structure FreeRun where
  block : Nat
  size : Nat
  prevAllocated : Bool

/-- Takes a free successor of `size?` bytes at `next` off its list; the size with it. -/
def absorbNext (size next : Nat) : Option Nat → HeapM Nat
  | none => return size
  | some more => do
    removeFree next
    sum size more

/-- Takes a free predecessor of `block` off its list, then a free successor. -/
def absorbPrev (block size next : Nat) (nextSize : Option Nat) : HeapM FreeRun := do
  let prev ← difference block (← reading (·.footerBefore block)).size
  let t ← tagAt prev
  removeFree prev
  let size ← absorbNext size next nextSize
  return ⟨prev, ← sum size t.size, t.prevAllocated⟩

/-- Merges a free block that is on no list with its free neighbours: the merged block, which is on
no list either. -/
def coalesce (block : Nat) : HeapM Nat := do
  let t ← tagAt block
  assume (!t.allocated)
  let next ← sum block t.size
  let nextSize ← freeSize? next
  let run ←
    if t.prevAllocated then pure ⟨block, ← absorbNext t.size next nextSize, true⟩
    else absorbPrev block t.size next nextSize
  if run.block ≠ block || run.size ≠ t.size then
    writeFree run.block (.make run.size false run.prevAllocated)
  noteLast run.block run.size
  return run.block

end HeapM

end BoundaryTag
