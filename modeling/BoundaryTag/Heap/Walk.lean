import BoundaryTag.Heap.Validate

/-!
Walking over the blocks.

A walk starts at the first block and goes on by the sizes in the headers. `blocks` trusts any size
but zero; `soundBlocks` stops after the first block that cannot be one, so it always ends.
-/

namespace BoundaryTag

namespace Heap

def blockAt (h : Heap) (block : Nat) : Except Halt BlockInfo :=
  return .ofTag block (← h.tagAt block)

/-- Where a walk starts: nowhere in a heap without pages. -/
def walkStart (h : Heap) : Nat := if h.ready then h.firstPayload else h.arena.stop

/-- Where a walk goes on. A size of zero would lead nowhere, so it ends the walk. -/
def walkNext (h : Heap) (b : BlockInfo) : Nat :=
  if b.size = 0 then h.arena.stop else wrapAdd b.payload b.size

def blocksFrom (h : Heap) : Nat → Nat → Except Halt (List BlockInfo)
  | 0, _ => .error .endless
  | fuel + 1, cursor => do
    if h.arena.stop ≤ cursor then return []
    let b ← h.blockAt cursor
    return b :: (← h.blocksFrom fuel (h.walkNext b))

/-- The blocks of the heap, in the order of the walk. -/
def blocks (h : Heap) : Except Halt (List BlockInfo) := h.blocksFrom h.patience h.walkStart

/-- Whether a block runs past the end of the heap. -/
def overruns (h : Heap) (b : BlockInfo) : Bool := h.arena.stop < b.payload + b.size

def soundBlocksFrom (h : Heap) (cursor : Nat) : Except Halt (List BlockInfo) :=
  if _ : cursor < h.arena.stop then do
    let b ← h.blockAt cursor
    if badSize b.size || h.overruns b then return [b]
    if _ : 0 < b.size then return b :: (← h.soundBlocksFrom (cursor + b.size))
    else return [b]
  else return []
termination_by h.arena.stop - cursor
decreasing_by omega

/-- The blocks of the heap up to the first that cannot be one. -/
def soundBlocks (h : Heap) : Except Halt (List BlockInfo) := h.soundBlocksFrom h.walkStart

end Heap

end BoundaryTag
