import BoundaryTag.Heap.Release

/-!
Requests to a heap, as data, and the sessions of its clients.

A session is a heap together with what its clients hold. They may release and resize what they hold,
and write to the usable bytes of it, which are all of a block but its header.
-/

namespace BoundaryTag

inductive Request
  | allocate (size : Nat)
  | allocateZeroed (size : Nat)
  | allocateAligned (size align : Nat)
  | release (ptr : Nat)
  | resize (ptr size : Nat)
  /-- A client stores a byte. -/
  | write (addr : Nat) (byte : UInt8)

/-- A block, nothing, or why there is none. -/
abbrev Answer := Except AllocError (Option Nat)

namespace Request

def serve : Request → HeapM Answer
  | allocate size => (RequestM.allocate size).run
  | allocateZeroed size => (RequestM.allocateZeroed size).run
  | allocateAligned size align => (RequestM.allocateAligned size align).run
  | release ptr => do
    HeapM.release ptr
    return .ok none
  | resize ptr size => (RequestM.resize ptr size).run
  | write addr byte => do
    modify fun h => { h with memory := h.memory.setByte addr byte }
    return .ok none

/-- The bytes that a granted request asks for. -/
def size : Request → Nat
  | allocate size => size
  | allocateZeroed size => size
  | allocateAligned size _ => size
  | release _ => 0
  | resize _ size => size
  | write _ _ => 0

/-- The block that a request hands back, if it is served. -/
def returns : Request → Option Nat
  | release ptr => some ptr
  | resize ptr _ => some ptr
  | _ => none

end Request

/-- A block that a client holds, and the bytes that it asked for. -/
structure Holding where
  ptr : Nat
  requested : Nat
deriving DecidableEq

structure Session where
  heap : Heap
  held : List Holding

namespace Session

/-- The usable bytes of the block at `p`. -/
def usable (s : Session) (p : Nat) : Nat :=
  match s.heap.tagAt p with
  | .ok t => t.size - wordSize
  | .error _ => 0

def holds (s : Session) (p : Nat) : Prop := ∃ b ∈ s.held, b.ptr = p

/-- What clients may ask for: they hand back only what they hold, and write only there. -/
def Allows (s : Session) : Request → Prop
  | .release ptr => s.holds ptr
  | .resize ptr _ => s.holds ptr
  | .write addr _ => ∃ b ∈ s.held, b.ptr ≤ addr ∧ addr < b.ptr + s.usable b.ptr
  | _ => True

/-- What is held after an answer. A failed request hands nothing back. -/
def heldAfter (held : List Holding) (r : Request) : Answer → List Holding
  | .error _ => held
  | .ok none => held.filter fun b => r.returns ≠ some b.ptr
  | .ok (some p) => ⟨p, r.size⟩ :: held.filter fun b => r.returns ≠ some b.ptr

def step (s : Session) (r : Request) : Except Halt (Answer × Session) :=
  match r.serve s.heap with
  | .ok (a, h) => .ok (a, ⟨h, heldAfter s.held r a⟩)
  | .error e => .error e

instance (s : Session) (p : Nat) : Decidable (s.holds p) :=
  inferInstanceAs (Decidable (∃ b ∈ s.held, b.ptr = p))

instance (s : Session) (r : Request) : Decidable (s.Allows r) :=
  match r with
  | .release ptr => inferInstanceAs (Decidable (∃ b ∈ s.held, b.ptr = ptr))
  | .resize ptr _ => inferInstanceAs (Decidable (∃ b ∈ s.held, b.ptr = ptr))
  | .write addr _ =>
    inferInstanceAs (Decidable (∃ b ∈ s.held, b.ptr ≤ addr ∧ addr < b.ptr + s.usable b.ptr))
  | .allocate _ => inferInstanceAs (Decidable True)
  | .allocateZeroed _ => inferInstanceAs (Decidable True)
  | .allocateAligned _ _ => inferInstanceAs (Decidable True)

/-- Serves requests one after the other, if clients may make them. -/
def serveAll (s : Session) : List Request → Option (List Answer × Session)
  | [] => some ([], s)
  | r :: rs =>
    if s.Allows r then
      match s.step r with
      | .ok (a, s') =>
        match s'.serveAll rs with
        | some (as, t) => some (a :: as, t)
        | none => none
      | .error _ => none
    else none

/-- A heap over an arena, of which clients hold nothing yet. -/
def start (arena : Arena) (memory : Memory) (strict : Bool) : Session :=
  ⟨{ Heap.new arena memory with strict }, []⟩

/-- Requests that clients may make one after the other, and their answers. -/
inductive Run : Session → List Request → List Answer → Session → Prop
  | nil (s : Session) : Run s [] [] s
  | cons {s s' t : Session} {r : Request} {rs : List Request} {a : Answer} {as : List Answer} :
    s.Allows r → s.step r = .ok (a, s') → Run s' rs as t → Run s (r :: rs) (a :: as) t

theorem Run.of_serveAll {s t : Session} {rs : List Request} {as : List Answer}
    (h : s.serveAll rs = some (as, t)) : s.Run rs as t := by
  induction rs generalizing s as with
  | nil =>
    cases h
    exact .nil _
  | cons r rs ih =>
    unfold serveAll at h
    split at h
    · next hr =>
      split at h
      · next a s' hstep =>
        split at h
        · next as' t' hrest =>
          cases h
          exact .cons hr hstep (ih hrest)
        · cases h
      · cases h
    · cases h

end Session

/-- The arena has handed out no page, and keeps its contract: its region is aligned, and all pages that
it may hand out are memory, below the last address. -/
structure Arena.Fresh (arena : Arena) (memory : Memory) : Prop where
  pages : arena.pages = 0
  aligned : arena.base % alignment = 0
  bounded : arena.base + arena.supply.limit * pageSize < addressSpace
  base_le : memory.base ≤ arena.base
  stop_le : arena.base + arena.supply.limit * pageSize ≤ memory.base + memory.extent

/-- A session that a run on a new heap ends in. The memory may have held anything. -/
def Session.Reachable (s : Session) : Prop :=
  ∃ arena memory strict rs as, arena.Fresh memory ∧ (start arena memory strict).Run rs as s

end BoundaryTag
