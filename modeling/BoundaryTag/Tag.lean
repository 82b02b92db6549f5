import BoundaryTag.Word

/-!
Boundary tags: the header of a block and the footer of a free one.

A tag is one word. Its upper 61 bits are the size, bit 2 says whether the block is allocated, bit 1
whether the block before it is; bit 0 is unused, but two tags are equal only if it agrees too. In
memory a tag is masked with the key of the heap.
-/

namespace BoundaryTag

structure Tag where
  word : UInt64
deriving DecidableEq

namespace Tag

/-- The tag with these fields. Of the size, the part that is a multiple of eight is kept. -/
def make (size : Nat) (allocated prevAllocated : Bool) : Tag :=
  ⟨.ofNat (size / 8 * 8 + (if allocated then 4 else 0) + (if prevAllocated then 2 else 0))⟩

def size (t : Tag) : Nat := t.word.toNat / 8 * 8

def allocated (t : Tag) : Bool := t.word.toNat / 4 % 2 == 1

def prevAllocated (t : Tag) : Bool := t.word.toNat / 2 % 2 == 1

/-- The same block after its predecessor was allocated or freed. -/
def withPrevAllocated (t : Tag) (prevAllocated : Bool) : Tag :=
  make t.size t.allocated prevAllocated

def encode (t : Tag) (key : UInt64) : UInt64 := t.word ^^^ key

def decode (word key : UInt64) : Tag := ⟨word ^^^ key⟩

theorem decode_encode (t : Tag) (key : UInt64) : decode (t.encode key) key = t := by
  simp only [encode, decode, UInt64.xor_assoc, UInt64.xor_self, UInt64.xor_zero]

theorem encode_decode (word key : UInt64) : (decode word key).encode key = word := by
  simp only [encode, decode, UInt64.xor_assoc, UInt64.xor_self, UInt64.xor_zero]

section

variable {s : Nat} (hs : s % 8 = 0) (hlt : s < addressSpace) (a p : Bool)

include hs hlt in
theorem toNat_word_make :
    (make s a p).word.toNat = s + (if a then 4 else 0) + (if p then 2 else 0) := by
  simp only [make, UInt64.toNat_ofNat', addressSpace] at *
  cases a <;> cases p <;> simp <;> omega

include hs hlt in
theorem size_make : (make s a p).size = s := by
  rw [size, toNat_word_make hs hlt]
  cases a <;> cases p <;> simp <;> omega

include hs hlt in
theorem allocated_make : (make s a p).allocated = a := by
  rw [allocated, toNat_word_make hs hlt]
  cases a <;> cases p <;> simp <;> omega

include hs hlt in
theorem prevAllocated_make : (make s a p).prevAllocated = p := by
  rw [prevAllocated, toNat_word_make hs hlt]
  cases a <;> cases p <;> simp <;> omega

end

end Tag

end BoundaryTag
