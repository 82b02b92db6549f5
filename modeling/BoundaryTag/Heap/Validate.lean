import BoundaryTag.Heap.QuickList

/-!
Validating pointers.

A pointer that a client hands back is checked against the heap before anything is done with it: its
place, the size and the flags in its header, and, if its predecessor claims to be free, the tags of
that. The bounds are checked before the header is read.
-/

namespace BoundaryTag

namespace Heap

/-- Whether a size is none that a block can have. -/
def badSize (size : Nat) : Bool := size < minBlock || size % alignment != 0

/-- Whether the word before the header of `block` is the footer of a free block. -/
def prevIsFree (h : Heap) (block : Nat) : Except Halt Bool := do
  -- the first block has no predecessor
  if block ≤ h.firstPayload then return false
  let footer ← h.footerBefore block
  if badSize footer.size then return false
  if block < h.firstPayload + footer.size then return false
  let t ← h.tagAt (block - footer.size)
  return !t.allocated && t == footer

/-- Whether `list` is the quick list of some size and holds `block`. -/
def isQuickListed (h : Heap) (block size : Nat) : Except Halt Bool :=
  match quickClass? size with
  | none => .ok false
  | some list => h.quickHolds list block

/-- What the header of `block`, which lies in the heap, says against it. -/
def validateHeader (h : Heap) (block : Nat) : ExceptT InvalidPointer (Except Halt) Unit := do
  let t ← h.tagAt block
  if badSize t.size then throw (.badSize t.size)
  if h.arena.stop < block + t.size then throw .pastHeap
  if !t.allocated then throw .notAllocated
  if ← h.isQuickListed block t.size then throw .notAllocated
  if !t.prevAllocated then
    if !(← h.prevIsFree block) then throw .prevAllocMismatch

/-- Refuses a pointer that is not the payload of an allocated block, as far as its surroundings
tell. -/
def validate (h : Heap) (ptr : Nat) : ExceptT InvalidPointer (Except Halt) Unit := do
  if ptr = 0 then throw .null
  if ptr % alignment ≠ 0 then throw .misaligned
  if ptr < h.arena.start + wordSize then throw .beforeHeap
  if h.arena.stop ≤ ptr then throw .pastHeap
  h.validateHeader ptr

/-- Validates a pointer for the client. -/
def check (h : Heap) (ptr : Nat) : ExceptT AllocError (Except Halt) Unit := do
  match ← (h.validate ptr).run with
  | .ok () => return
  | .error reason => throw (.invalidPointer ptr reason)

/-- The bytes that the client may use at an allocated pointer. -/
def usableSize (h : Heap) (ptr : Nat) : ExceptT AllocError (Except Halt) Nat := do
  h.check ptr
  h.difference (← h.tagAt ptr).size wordSize

end Heap

namespace HeapM

/-- Ends the run if the pointer is not valid. -/
def demandValid (ptr : Nat) : HeapM Unit := do
  match ← reading fun h => (h.validate ptr).run with
  | .ok () => return
  | .error reason => throw (.invalidPointer ptr reason)

end HeapM

end BoundaryTag
