import BoundaryTag.Word

/-!
Layouts of allocations: a size and an alignment.
-/

namespace BoundaryTag

/-- Sizes that an allocation can have are below this, two to the 63. -/
def layoutLimit : Nat := 0x8000000000000000

structure Layout where
  size : Nat
  align : Nat
  isPowerOfTwo_align : align.isPowerOfTwo
  /-- The size stays in range when it is rounded up to the alignment. -/
  roundUp_lt_limit : roundUp size align < layoutLimit

namespace Layout

/-- The layout with this size and alignment, if it is one. -/
def of? (size align : Nat) : Option Layout :=
  if h : align.isPowerOfTwo ∧ roundUp size align < layoutLimit then
    some ⟨size, align, h.1, h.2⟩
  else none

end Layout

end BoundaryTag
