import BoundaryTag.Heap.Placement

/-!
The quick lists.

A freed block of a small size goes in front of the quick list of that size. It stays marked
allocated, so its neighbours leave it alone. A list that is full is flushed into the main lists
before it takes another block.
-/

namespace BoundaryTag

namespace Heap

/-- The number of blocks that a quick list counts, none for one that does not exist. -/
def quickListLen (h : Heap) (n : Nat) : Nat := (h.quick[n]?.getD emptySlot).len

def holdsFrom (h : Heap) (block : Nat) : Nat → Nat → Except Halt Bool
  | 0, _ => .ok false
  | fuel + 1, cur => do
    if cur = 0 then return false
    if cur = block then return true
    h.holdsFrom block fuel (← h.loadAddr cur)

/-- Whether a block is among the first `quickDepth` of a quick list. A link is read wherever the one before
leads, as by a machine that reads a word at any address. Only links to blocks keep to the addresses at which
reads must be aligned. -/
def quickHolds (h : Heap) (list : Fin quickLists) (block : Nat) : Except Halt Bool :=
  h.holdsFrom block quickDepth (h.quick.get list).first

end Heap

namespace HeapM

def setSlot (list : Fin quickLists) (s : QuickSlot) : HeapM Unit :=
  modify fun h => { h with quick := h.quick.set list s list.isLt }

def slot (list : Fin quickLists) : HeapM QuickSlot := reading fun h => .ok (h.quick.get list)

def freeChain : Nat → Nat → HeapM Unit
  | 0, _ => throw .endless
  | fuel + 1, cur => do
    if cur = 0 then return
    -- freeing the block overwrites its link
    let next ← loadAddr cur
    freeToMain cur
    freeChain fuel next

/-- Moves the blocks of a quick list to the main lists. -/
def flush (list : Fin quickLists) : HeapM Unit := do
  let s ← slot list
  setSlot list emptySlot
  note (.flushing list s.len)
  freeChain (← get).patience s.first

def pushQuick (list : Fin quickLists) (block : Nat) : HeapM Unit := do
  if (← slot list).len = quickDepth then flush list
  let s ← slot list
  storeAddr block s.first
  setSlot list ⟨← sum s.len 1, block⟩

def popFrom (list : Fin quickLists) (size : Nat) :
    Nat → Option Nat → Nat → HeapM (Option Nat)
  | 0, _, _ => throw .endless
  | fuel + 1, prev, cur => do
    if cur = 0 then return none
    let next ← loadAddr cur
    if size ≤ (← tagAt cur).size then
      let s ← slot list
      let len ← difference s.len 1
      match prev with
      | none => setSlot list ⟨len, next⟩
      | some p =>
        storeAddr p next
        setSlot list { s with len }
      return some cur
    popFrom list size fuel (some cur) next

/-- Takes the first block of at least `size` bytes off a quick list. -/
def popQuick (list : Fin quickLists) (size : Nat) : HeapM (Option Nat) := do
  popFrom list size (← get).patience none (← slot list).first

/-- Returns an allocated block to the heap. -/
def releaseBlock (block : Nat) : HeapM Unit := do
  match quickClass? (← tagAt block).size with
  | some list => pushQuick list block
  | none => freeToMain block

end HeapM

end BoundaryTag
