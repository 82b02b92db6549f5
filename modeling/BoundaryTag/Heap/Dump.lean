import BoundaryTag.Heap.Walk

/-!
Dumping the layout of a heap into its journal.
-/

namespace BoundaryTag

namespace HeapM

open Heap

/-- Notes the extent of the heap, its blocks, and the lists that are not empty. -/
def dumpAll : HeapM Unit := do
  let h ← get
  note (.extent h.arena.start h.arena.stop h.pages)
  for b in ← reading (·.blocks) do
    note (.block b)
  for list in List.finRange quickLists do
    let len := (h.quick.get list).len
    if 0 < len then note (.quickList list len (quickSize list))
  for list in List.finRange mainLists do
    let len ← reading (·.listLen list)
    if 0 < len then note (.freeList list len)

/-- Notes the layout of the heap, if its journal keeps that. -/
def dump : HeapM Unit := do
  if (← get).journal.keeps .debug then dumpAll

end HeapM

end BoundaryTag
