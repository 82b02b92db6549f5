import BoundaryTag.Heap.Coalesce

/-!
Taking blocks from the main lists, and returning them.

`place` marks a block allocated and cuts off what is not needed; `freeToMain` marks it free. Either
way the free part is merged with its neighbours and put in front of the list of its class.
-/

namespace BoundaryTag

namespace HeapM

/-- Merges a free block with its neighbours, tells the block after it, and lists it. -/
def settle (block : Nat) : HeapM Unit := do
  let merged ← coalesce block
  setSuccessorFlag merged (← tagAt merged).size false
  insertFree merged

/-- Marks an unlisted block allocated with `need` bytes. What is left over is cut off if it can stand
as a block of its own. -/
def place (block need : Nat) : HeapM Unit := do
  let t ← tagAt block
  assume (need ≤ t.size)
  let rest ← difference t.size need
  if rest < minBlock then
    setHeader block (.make t.size true t.prevAllocated)
    setSuccessorFlag block t.size true
    noteLast block t.size
  else
    note (.split block t.size need rest)
    let tail ← sum block need
    setHeader block (.make need true t.prevAllocated)
    writeFree tail (.make rest false true)
    settle tail

/-- Frees an allocated block into the main lists. -/
def freeToMain (block : Nat) : HeapM Unit := do
  let t ← tagAt block
  writeFree block (.make t.size false t.prevAllocated)
  settle block

end HeapM

end BoundaryTag
