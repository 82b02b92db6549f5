import BoundaryTag.Tag

/-!
A block as a walk over the heap sees it.
-/

namespace BoundaryTag

structure BlockInfo where
  payload : Nat
  size : Nat
  allocated : Bool
  prevAllocated : Bool
deriving DecidableEq

namespace BlockInfo

def ofTag (payload : Nat) (t : Tag) : BlockInfo :=
  ⟨payload, t.size, t.allocated, t.prevAllocated⟩

def state (allocated : Bool) : String := if allocated then "allocated" else "free"

/-- The size stands right-aligned in six columns. -/
def text (b : BlockInfo) : String :=
  let digits := toString b.size
  let blanks := String.ofList (List.replicate (6 - digits.length) ' ')
  s!"{hex b.payload} {blanks}{digits} bytes {state b.allocated} (prev {state b.prevAllocated})"

end BlockInfo

end BoundaryTag
