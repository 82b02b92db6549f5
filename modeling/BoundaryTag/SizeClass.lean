import BoundaryTag.Word

/-!
Block sizes and the lists that hold them.

A block is a header word and a payload. Its size is a multiple of `alignment` and at least
`minBlock`. Small sizes have a quick list each; all sizes share `mainLists` main lists, where class
`0` holds blocks of `minBlock` bytes, class `i` sizes in `(16 * 2 ^ i, 32 * 2 ^ i]`, and the last
class all that is larger.
-/

namespace BoundaryTag

/-- Every payload address is a multiple of this. -/
def alignment : Nat := 16

/-- Room for a header, two list links and a footer. -/
def minBlock : Nat := 32

/-- Bytes that an arena hands out at a time. -/
def pageSize : Nat := 4096

/-- Quick lists, one per size from `minBlock` up in steps of `alignment`. -/
def quickLists : Nat := 10

/-- Blocks that one quick list holds before it is flushed. -/
def quickDepth : Nat := 5

def mainLists : Nat := 10

def maxQuickBlock : Nat := minBlock + (quickLists - 1) * alignment

/-- Size of the block on the first page, between the filler word at its start and the word at its
end that becomes the header of the next page. -/
def firstBlock : Nat := pageSize - 2 * wordSize

/-- The size of the block that serves a request for `n` bytes: with its header, rounded up. There
is none for a request near the end of the address space. -/
def blockSize? (n : Nat) : Option Nat :=
  if n + wordSize + (alignment - 1) < addressSpace then
    some (max minBlock (roundUp (n + wordSize) alignment))
  else none

/-- The quick list of blocks of exactly `size` bytes. -/
def quickClass? (size : Nat) : Option (Fin quickLists) :=
  if h : minBlock ≤ size ∧ size ≤ maxQuickBlock ∧ size % alignment = 0 then
    some ⟨(size - minBlock) / alignment, by
      simp only [minBlock, maxQuickBlock, quickLists, alignment] at *
      omega⟩
  else none

/-- The size of the blocks on a quick list. -/
def quickSize (list : Fin quickLists) : Nat := minBlock + list * alignment

/-- The main list that holds free blocks of `size` bytes. -/
def mainClass (size : Nat) : Fin mainLists :=
  if size ≤ minBlock then ⟨0, by decide⟩
  else ⟨min ((size - 1).log2 + 1 - 5) (mainLists - 1), by
    have : min ((size - 1).log2 + 1 - 5) (mainLists - 1) ≤ mainLists - 1 := Nat.min_le_right ..
    simp only [mainLists] at *
    omega⟩

theorem quickClass?_quickSize (list : Fin quickLists) : quickClass? (quickSize list) = some list := by
  revert list
  decide

end BoundaryTag
