import BoundaryTag.Arena
import BoundaryTag.Journal
import BoundaryTag.Memory

/-!
The state of a heap, and its accesses to memory.

A block is named by the address of its payload. Its header is the word before the payload; the
footer of a free block is its last word, just before the next header. The first two words of a free
block's payload link it into a main list; the first word of a quick-listed block links it to the
next one.

`HeapM` is a run on a heap that may end in a `Halt`. A strict heap halts as soon as an access leaves
the arena, a sum leaves the range of a word or an internal assumption fails. A heap that is not
strict behaves as the machine does: it reaches all memory that is there, and sums wrap around.
-/

namespace BoundaryTag

/-- Where a link of a main list leads: to the head of a list, or to a free block. In memory a head
is written as its number, which is no block's address. -/
inductive Link
  | head (list : Fin mainLists)
  | block (addr : Nat)
deriving DecidableEq

namespace Link

def ofWord (w : UInt64) : Link :=
  if h : w.toNat < mainLists then head ⟨w.toNat, h⟩ else block w.toNat

/-- The number that stands for the link in memory. -/
def addr : Link → Nat
  | head list => list
  | block a => a

def word (l : Link) : UInt64 := .ofNat l.addr

end Link

/-- The two ends of a main list, or the links of a block on it. -/
structure Links where
  next : Link
  prev : Link
deriving DecidableEq

/-- A quick list: how many blocks it counts, and the first of them, `0` if there is none. -/
structure QuickSlot where
  len : Nat
  first : Nat
deriving DecidableEq

/-- The heads of empty main lists lead to themselves. -/
def emptyHeads : Vector Links mainLists := .ofFn fun list => ⟨.head list, .head list⟩

def emptySlot : QuickSlot := ⟨0, 0⟩

structure Heap where
  arena : Arena
  memory : Memory
  /-- Mask of the tags. It is taken from the arena with the first page. -/
  key : UInt64
  heads : Vector Links mainLists
  quick : Vector QuickSlot quickLists
  /-- The block that ends where the arena ends. -/
  last : Nat
  /-- Whether the first page is there. -/
  ready : Bool
  strict : Bool
  journal : Journal

/-- A run on a heap. -/
abbrev HeapM := StateT Heap (Except Halt)

namespace Heap

/-- A heap over an arena that has handed out nothing. -/
def new (arena : Arena) (memory : Memory) : Heap where
  arena := arena
  memory := memory
  key := 0
  heads := emptyHeads
  quick := .replicate quickLists emptySlot
  last := 0
  ready := false
  strict := false
  journal := {}

def pages (h : Heap) : Nat := h.arena.pages

/-- Payload of the first block. -/
def firstPayload (h : Heap) : Nat := h.arena.start + 2 * wordSize

/-! ### Reading -/

/-- Whether the heap may touch the `n` bytes from `a` on. No bytes are anywhere. -/
def reaches (h : Heap) (a n : Nat) : Bool :=
  n == 0 || h.memory.maps a n && (!h.strict || h.arena.contains a n)

def load (h : Heap) (a : Nat) : Except Halt UInt64 :=
  if h.reaches a wordSize then .ok (h.memory.word a) else .error (.outside a)

def loadAddr (h : Heap) (a : Nat) : Except Halt Nat := return (← h.load a).toNat

/-- The sum of two addresses or sizes. -/
def sum (h : Heap) (a b : Nat) : Except Halt Nat :=
  if a + b < addressSpace then .ok (a + b)
  else if h.strict then .error .overflow else .ok (wrapAdd a b)

/-- The difference of two addresses or sizes. -/
def difference (h : Heap) (a b : Nat) : Except Halt Nat :=
  if b ≤ a then .ok (a - b)
  else if h.strict then .error .overflow else .ok (wrapSub a b)

/-- Halts a strict heap if `holds` is false. -/
def assume (h : Heap) (holds : Bool) : Except Halt Unit :=
  if h.strict && !holds then .error .assumption else .ok ()

/-- The header of a block. -/
def tagAt (h : Heap) (block : Nat) : Except Halt Tag :=
  return .decode (← h.load (wrapSub block wordSize)) h.key

/-- The footer before a header, which ends the block before. -/
def footerBefore (h : Heap) (block : Nat) : Except Halt Tag :=
  return .decode (← h.load (wrapSub block (2 * wordSize))) h.key

/-- Where the footer of a block of `size` bytes is. -/
def footerAddr (h : Heap) (block size : Nat) : Except Halt Nat := do
  h.sum block (← h.difference size (2 * wordSize))

/-- How many steps a walk along links can take before it repeats itself: more than there are bytes
for the links to stand at, and heads. -/
def patience (h : Heap) : Nat := h.memory.extent + mainLists + 1

end Heap

/-! ### Writing -/

namespace HeapM

/-- Runs a computation that only reads. -/
def reading {α : Type} (f : Heap → Except Halt α) : HeapM α := fun h =>
  match f h with
  | .ok a => .ok (a, h)
  | .error e => .error e

def load (a : Nat) : HeapM UInt64 := reading (·.load a)

def loadAddr (a : Nat) : HeapM Nat := reading (·.loadAddr a)

def store (a : Nat) (w : UInt64) : HeapM Unit := fun h =>
  if h.reaches a wordSize then .ok ((), { h with memory := h.memory.setWord a w })
  else .error (.outside a)

def storeAddr (a target : Nat) : HeapM Unit := store a (.ofNat target)

/-- Stores `f 0`, `f 1`, …, `f (n - 1)` from `a` on. -/
def storeBytes (a n : Nat) (f : Nat → UInt8) : HeapM Unit := fun h =>
  if h.reaches a n then .ok ((), { h with memory := h.memory.setBytes a f n })
  else .error (.outside a)

def copyBytes (src dst n : Nat) : HeapM Unit := fun h =>
  if !h.reaches src n then .error (.outside src)
  else if !h.reaches dst n then .error (.outside dst)
  else .ok ((), { h with memory := h.memory.copy src dst n })

def sum (a b : Nat) : HeapM Nat := reading (·.sum a b)

def difference (a b : Nat) : HeapM Nat := reading (·.difference a b)

def assume (holds : Bool) : HeapM Unit := reading (·.assume holds)

def tagAt (block : Nat) : HeapM Tag := reading (·.tagAt block)

def stop : HeapM Nat := reading fun h => .ok h.arena.stop

def setHeader (block : Nat) (t : Tag) : HeapM Unit := do
  store (wrapSub block wordSize) (t.encode (← get).key)

def setFooter (block : Nat) (t : Tag) : HeapM Unit := do
  store (← reading (·.footerAddr block t.size)) (t.encode (← get).key)

/-- Writes both tags of a free block. -/
def writeFree (block : Nat) (t : Tag) : HeapM Unit := do
  assume (!t.allocated)
  setHeader block t
  setFooter block t

def note (e : Event) : HeapM Unit := modify fun h => { h with journal := h.journal.add e }

def setLast (block : Nat) : HeapM Unit := modify fun h => { h with last := block }

/-- Keeps track of the last block: the one that ends where the arena does. -/
def noteLast (block size : Nat) : HeapM Unit := do
  if (← sum block size) = (← stop) then setLast block

/-- Tells the block after `block`, if there is one, whether its predecessor is allocated. -/
def setSuccessorFlag (block size : Nat) (allocated : Bool) : HeapM Unit := do
  let next ← sum block size
  if next < (← stop) then
    let t := (← tagAt next).withPrevAllocated allocated
    setHeader next t
    if !t.allocated then setFooter next t

end HeapM

end BoundaryTag
