import BoundaryTag.Heap.QuickList

/-!
Allocating blocks.

A request is served from the quick list of its size, else from the first fit in the lowest main
class that has one. If no block fits, the arena grows by a page and the main lists are searched
again. The room of the arena bounds the number of searches.
-/

namespace BoundaryTag

/-- A run on a heap that can fail with the heap intact. -/
abbrev RequestM := ExceptT AllocError HeapM

namespace HeapM

def requestPage : HeapM (Option Nat) := fun h =>
  let (page, arena) := h.arena.grow
  .ok (page, { h with arena })

/-- Gets the first page and makes one free block of it. -/
def setUp : HeapM Bool := do
  modify fun h =>
    { h with
      heads := emptyHeads, quick := .replicate quickLists emptySlot, key := h.arena.key }
  match ← requestPage with
  | none =>
    note .firstPageRefused
    return false
  | some page =>
    assume (page % alignment = 0)
    -- the first word is filler, so that payloads are aligned
    let block ← sum page (2 * wordSize)
    writeFree block (.make firstBlock false true)
    insertFree block
    modify fun h => { h with last := block, ready := true }
    note (.ready page)
    return true

/-- Adds a page, merged with the last block if that is free. -/
def grow : HeapM Bool := do
  let oldStop ← stop
  match ← requestPage with
  | none =>
    note (.exhausted (← get).pages)
    return false
  | some page =>
    assume (page = oldStop)
    let prevAllocated := (← tagAt (← get).last).allocated
    -- the word that closed the heap becomes the header
    writeFree page (.make pageSize false prevAllocated)
    insertFree (← coalesce page)
    note (.grew (← get).pages)
    return true

/-- The main lists that can hold a block of `need` bytes, from the lowest class up. -/
def listsFor (need : Nat) : List (Fin mainLists) := (List.finRange mainLists).drop (mainClass need)

/-- The first fit on the first of these lists that has one. -/
def lowestFit (need : Nat) : List (Fin mainLists) → HeapM (Option Nat)
  | [] => return none
  | list :: rest => do
    match ← reading (·.findFit list need) with
    | some block => return some block
    | none => lowestFit need rest

/-- Takes a block of `need` bytes from the main lists. -/
def takeFit (need : Nat) : HeapM (Option Nat) := do
  match ← lowestFit need (listsFor need) with
  | none => return none
  | some block =>
    removeFree block
    place block need
    return some block

/-- Takes a block from the main lists of a heap whose arena has room for at most that many pages. It
grows until a block fits or a page is refused, which without room it is. -/
def takeGrowing (need : Nat) : (room : Nat) → HeapM (Option Nat)
  | 0 => do
    match ← takeFit need with
    | some block => return some block
    | none =>
      let _ ← grow
      return none
  | room + 1 => do
    match ← takeFit need with
    | some block => return some block
    | none => if ← grow then takeGrowing need room else return none

/-- An allocated block of at least `need` bytes. -/
def allocateBlock (need : Nat) : HeapM (Option Nat) := do
  if !(← get).ready then
    if !(← setUp) then return none
  if let some list := quickClass? need then
    if let some block ← popQuick list need then return some block
  takeGrowing need (← get).arena.room

end HeapM

namespace RequestM

open HeapM

/-- What was found for a request of `size` bytes, or its failure. -/
def orOutOfMemory (size : Nat) : Option Nat → RequestM Nat
  | some a => pure a
  | none => throw (.outOfMemory size)

/-- At least `size` bytes at a multiple of `alignment`; none for an empty request. -/
def allocate (size : Nat) : RequestM (Option Nat) := do
  if size = 0 then return none
  let need ← orOutOfMemory size (blockSize? size)
  return some (← orOutOfMemory size (← allocateBlock need))

/-- The same, with the bytes asked for set to zero. -/
def allocateZeroed (size : Nat) : RequestM (Option Nat) := do
  match ← allocate size with
  | none => return none
  | some p =>
    storeBytes p size fun _ => 0
    return some p

/-- Where the aligned block begins: at `block` itself, or at the first multiple of `align` that leaves
room for a block before it. -/
def alignedTarget (block align : Nat) : HeapM Nat := do
  if block % align = 0 then return block
  let target := roundDown (← sum block (align - 1)) align
  if (← difference target block) < minBlock then sum target align else return target

/-- Frees the first `lead` bytes of an allocated block: what remains of it. -/
def releaseLead (block lead : Nat) : HeapM Nat := do
  let t ← tagAt block
  let aligned ← sum block lead
  note (.leadReleased aligned lead)
  setHeader aligned (.make (← difference t.size lead) true false)
  writeFree block (.make lead false t.prevAllocated)
  insertFree (← coalesce block)
  return aligned

/-- The size of a block in which `size` bytes can be moved up to a multiple of `align`. -/
def paddedSize? (size align : Nat) : Option Nat :=
  if size + align + minBlock < addressSpace then blockSize? (size + align + minBlock) else none

/-- At least `size` bytes at a multiple of `align`; none for an empty request. -/
def allocateAligned (size align : Nat) : RequestM (Option Nat) := do
  if ¬ align.isPowerOfTwo ∨ align < minBlock then throw (.invalidAlignment align)
  if size = 0 then return none
  let need ← orOutOfMemory size (blockSize? size)
  let padded ← orOutOfMemory size (paddedSize? size align)
  let block ← orOutOfMemory size (← allocateBlock padded)
  let lead ← difference (← alignedTarget block align) block
  let aligned ← if lead = 0 then pure block else releaseLead block lead
  place aligned need
  assume (aligned % align = 0)
  return some aligned

end RequestM

end BoundaryTag
