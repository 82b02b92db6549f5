import BoundaryTag.Heap.Walk

/-!
Verifying a heap.

The verifier walks over the blocks and then along all lists, and reports the first broken rule. It
makes no assumption on the memory: each step is checked before the next is taken.
-/

namespace BoundaryTag

/-- A check of a heap that can find it corrupt. -/
abbrev CheckM := ExceptT Corruption (Except Halt)

namespace Heap

/-- What the walk has seen so far. -/
structure Survey where
  /-- Free blocks. -/
  free : Nat := 0
  last : Option BlockInfo := none

namespace Survey

def add (s : Survey) (b : BlockInfo) : Survey := ⟨if b.allocated then s.free else s.free + 1, some b⟩

/-- Whether the next block must say that its predecessor is allocated. The first block must. -/
def expectsAllocated (s : Survey) : Bool := s.last.all (·.allocated)

end Survey

/-- Checks one block against the walk before it. -/
def surveyBlock (h : Heap) (s : Survey) (b : BlockInfo) : CheckM Unit := do
  if badSize b.size then throw (.badSize b.payload b.size)
  if h.overruns b then throw (.overrun b.payload)
  if b.prevAllocated ≠ s.expectsAllocated then throw (.stalePrevAlloc b.payload)
  if !b.allocated then
    let footer ← h.footerBefore (b.payload + b.size)
    if footer ≠ (← h.tagAt b.payload) then throw (.footerMismatch b.payload)
    if let some prev := s.last then
      if !prev.allocated then throw (.uncoalesced prev.payload b.payload)

def surveyFrom (h : Heap) (s : Survey) (cursor : Nat) : CheckM Survey :=
  if _ : cursor < h.arena.stop then do
    let b ← h.blockAt cursor
    h.surveyBlock s b
    if _ : 0 < b.size then h.surveyFrom (s.add b) (cursor + b.size) else return s.add b
  else return s
termination_by h.arena.stop - cursor
decreasing_by omega

/-- Checks the blocks, and that the last one is known. -/
def survey (h : Heap) : CheckM Survey := do
  let s ← h.surveyFrom {} h.walkStart
  if let some b := s.last then
    if b.payload ≠ h.last then throw (.staleLast h.last b.payload)
  return s

/-- Whether an address is none that a block of this heap can have. -/
def misplaced (h : Heap) (block : Nat) : Bool :=
  block % alignment != 0 || block < h.firstPayload || h.arena.stop ≤ block

/-- Checks the block that the link `cur` leads to, which follows `prev` on a main list. -/
def checkListed (h : Heap) (list : Fin mainLists) (prev cur : Link) : CheckM Unit := do
  if h.misplaced cur.addr then throw (.misfiled list cur.addr)
  let t ← h.tagAt (← h.blockOf cur)
  if t.allocated || mainClass t.size ≠ list then throw (.misfiled list cur.addr)
  if (← h.prevOf cur) ≠ prev then throw (.misfiled list cur.addr)

/-- Checks that the last link of a main list leads back to `prev`. -/
def checkClosed (h : Heap) (list : Fin mainLists) (prev : Link) : CheckM Unit := do
  if (← h.prevOf (.head list)) ≠ prev then throw (.misfiled list prev.addr)

/-- Checks a main list from the link `cur` on, which follows `prev`: the number of blocks listed by
then. So far `listed` are, and `quota` more may be. -/
def checkListFrom (h : Heap) (free : Nat) (list : Fin mainLists) :
    (quota listed : Nat) → (prev cur : Link) → CheckM Nat
  | 0, listed, prev, cur => do
    if cur = .head list then
      h.checkClosed list prev
      return listed
    h.checkListed list prev cur
    throw (.lostBlock (listed + 1) free)
  | quota + 1, listed, prev, cur => do
    if cur = .head list then
      h.checkClosed list prev
      return listed
    h.checkListed list prev cur
    h.checkListFrom free list quota (listed + 1) cur (← h.nextOf cur)

def checkList (h : Heap) (free listed : Nat) (list : Fin mainLists) : CheckM Nat := do
  h.checkListFrom free list (free - listed) listed (.head list) (← h.nextOf (.head list))

/-- Checks that the main lists hold as many free blocks as there are. -/
def checkLists (h : Heap) (free : Nat) : CheckM Unit := do
  let listed ← (List.finRange mainLists).foldlM (h.checkList free) 0
  if listed ≠ free then throw (.lostBlock listed free)

/-- Checks a block on a quick list. -/
def checkQuickListed (h : Heap) (list : Fin quickLists) (cur : Nat) : CheckM Unit := do
  if h.misplaced cur then throw (.misfiledQuick list cur)
  let t ← h.tagAt cur
  if !t.allocated || t.size ≠ quickSize list then throw (.misfiledQuick list cur)

/-- Checks a quick list from `cur` on: the number of blocks there, which may be up to `quota`. -/
def checkQuickFrom (h : Heap) (list : Fin quickLists) : (quota : Nat) → (cur : Nat) → CheckM Nat
  | 0, cur => if cur = 0 then return 0 else throw (.misfiledQuick list cur)
  | quota + 1, cur => do
    if cur = 0 then return 0
    h.checkQuickListed list cur
    return (← h.checkQuickFrom list quota (← h.loadAddr cur)) + 1

def checkQuick (h : Heap) (list : Fin quickLists) : CheckM Unit := do
  let slot := h.quick.get list
  let linked ← h.checkQuickFrom list quickDepth slot.first
  if linked ≠ slot.len then throw (.quickLength list slot.len linked)

/-- Checks every rule of the heap. A heap without pages has none to break. -/
def verify (h : Heap) : CheckM Unit := do
  if !h.ready then return
  let s ← h.survey
  h.checkLists s.free
  (List.finRange quickLists).forM h.checkQuick

end Heap

end BoundaryTag
