import BoundaryTag.Heap.Basic

/-!
The main free lists.

Each class has a circular doubly linked list of free blocks. Its head is kept in the heap, all
other links in the blocks themselves. Blocks are put in front, and searched from the front.
-/

namespace BoundaryTag

namespace Heap

def nextOf (h : Heap) : Link → Except Halt Link
  | .head list => .ok (h.heads.get list).next
  | .block a => return .ofWord (← h.load a)

def prevOf (h : Heap) : Link → Except Halt Link
  | .head list => .ok (h.heads.get list).prev
  | .block a => return .ofWord (← h.load (wrapAdd a wordSize))

/-- The block that a link leads to. -/
def blockOf (h : Heap) (l : Link) : Except Halt Nat := do
  if let .head _ := l then h.assume false
  return l.addr

def firstFit (h : Heap) (list : Fin mainLists) (size : Nat) : Nat → Link → Except Halt (Option Nat)
  | 0, _ => .error .endless
  | fuel + 1, l => do
    if l = .head list then return none
    let block ← h.blockOf l
    if size ≤ (← h.tagAt block).size then return some block
    h.firstFit list size fuel (← h.nextOf l)

/-- The first block on a list that has at least `size` bytes. -/
def findFit (h : Heap) (list : Fin mainLists) (size : Nat) : Except Halt (Option Nat) := do
  h.firstFit list size h.patience (← h.nextOf (.head list))

def countFrom (h : Heap) (list : Fin mainLists) : Nat → Link → Except Halt Nat
  | 0, _ => .error .endless
  | fuel + 1, l => do
    if l = .head list then return 0
    return (← h.countFrom list fuel (← h.nextOf l)) + 1

def listLen (h : Heap) (list : Fin mainLists) : Except Halt Nat := do
  h.countFrom list h.patience (← h.nextOf (.head list))

/-- The number of blocks on a main list, none on one that does not exist. -/
def freeListLen (h : Heap) (n : Nat) : Except Halt Nat :=
  if hn : n < mainLists then h.listLen ⟨n, hn⟩ else .ok 0

end Heap

namespace HeapM

def setHead (list : Fin mainLists) (l : Links) : HeapM Unit :=
  modify fun h => { h with heads := h.heads.set list l list.isLt }

def setNext : Link → Link → HeapM Unit
  | .head list, target => do setHead list { (← get).heads.get list with next := target }
  | .block a, target => store a target.word

def setPrev : Link → Link → HeapM Unit
  | .head list, target => do setHead list { (← get).heads.get list with prev := target }
  | .block a, target => store (wrapAdd a wordSize) target.word

/-- Puts a free block in front of the list of its class. -/
def insertFree (block : Nat) : HeapM Unit := do
  let list := mainClass (← tagAt block).size
  let first ← reading (·.nextOf (.head list))
  store block first.word
  store (wrapAdd block wordSize) (Link.head list).word
  setPrev first (.block block)
  setNext (.head list) (.block block)

/-- Takes a block out of its list. -/
def removeFree (block : Nat) : HeapM Unit := do
  let next := Link.ofWord (← load block)
  let prev := Link.ofWord (← load (wrapAdd block wordSize))
  setNext prev next
  setPrev next prev

end HeapM

end BoundaryTag
