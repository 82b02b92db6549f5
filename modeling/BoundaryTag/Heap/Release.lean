import BoundaryTag.Heap.Allocate
import BoundaryTag.Heap.Validate

/-!
Releasing and resizing blocks.

Both validate their pointer first, and end the run if it is not valid. A block is resized in place
unless it has to grow; then its bytes are copied to a new block.
-/

namespace BoundaryTag

namespace HeapM

/-- Returns a client's block to the heap. -/
def release (ptr : Nat) : HeapM Unit := do
  demandValid ptr
  releaseBlock ptr

end HeapM

namespace RequestM

open HeapM

/-- A larger block with the contents of `block`, which is released. -/
def moveTo (block current need size : Nat) : RequestM Nat := do
  let fresh ← orOutOfMemory size (← allocateBlock need)
  copyBytes block fresh (min (← difference current wordSize) size)
  releaseBlock block
  return fresh

/-- A block of at least `size` bytes with the contents of the client's block, as far as they fit. A
resize to nothing is a release. -/
def resize (ptr size : Nat) : RequestM (Option Nat) := do
  demandValid ptr
  if size = 0 then
    releaseBlock ptr
    return none
  let need ← orOutOfMemory size (blockSize? size)
  let current := (← tagAt ptr).size
  if current < need then return some (← moveTo ptr current need size)
  if need < current then place ptr need
  return some ptr

end RequestM

end BoundaryTag
