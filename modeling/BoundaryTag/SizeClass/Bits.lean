import BoundaryTag.SizeClass

/-!
Sizes and classes as a machine computes them.

On words, a size is rounded with a mask, the one sum that may be too large is checked, and the class
is read off the width of the size, which is what its leading zeros leave of a word.
-/

namespace BoundaryTag

namespace Bits

/-- The bits of a size that alignment leaves zero. -/
def lowBits : UInt64 := .ofNat (alignment - 1)

/-- The number of bits of a word from its highest one on. -/
def width (w : UInt64) : UInt64 := 64 - .ofBitVec w.toBitVec.clz

/-- The size of the block that serves a request for `n` bytes. -/
def blockSize? (n : UInt64) : Option UInt64 :=
  (sum? n (.ofNat (wordSize + (alignment - 1)))).map fun padded =>
    let rounded := padded &&& ~~~lowBits
    if rounded < .ofNat minBlock then .ofNat minBlock else rounded

/-- The quick list of blocks of exactly `size` bytes. -/
def quickClass? (size : UInt64) : Option UInt64 :=
  if size < .ofNat minBlock ∨ .ofNat maxQuickBlock < size ∨ size % .ofNat alignment ≠ 0 then none
  else some ((size - .ofNat minBlock) / .ofNat alignment)

/-- The main list that holds free blocks of `size` bytes. -/
def mainClass (size : UInt64) : UInt64 :=
  if size ≤ .ofNat minBlock then 0
  else
    let octave := width (size - 1) - 5
    if octave < .ofNat (mainLists - 1) then octave else .ofNat (mainLists - 1)

end Bits

end BoundaryTag
