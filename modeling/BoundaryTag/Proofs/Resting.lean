import BoundaryTag.Proofs.Session
import BoundaryTag.Shared.Allocator

/-!
Calls to the process-wide heap, one after the other.

The heap is at rest when no call is under way. A call then finds the heap, makes it if it is the first, and
leaves it at rest.
-/

namespace BoundaryTag

namespace Shared

/-- No call is under way. -/
structure AtRest (s : Shared) : Prop where
  unlocked : s.locked = false
  outside : s.entered = false

/-- What the system may map lies at an aligned address, and ends below the last one. -/
structure Sited (s : Shared) : Prop where
  aligned : s.base % alignment = 0
  bounded : s.base + s.freshHeap.arena.supply.limit * pageSize < addressSpace

variable {s : Shared}

lemma AtRest.reheap (hrest : s.AtRest) (h : Heap) : ({ s with heap := some h } : Shared).AtRest :=
  ⟨hrest.unlocked, hrest.outside⟩

lemma AtRest.eq_unmarked (hrest : s.AtRest) : { s with locked := false, entered := false } = s := by
  obtain ⟨hlocked, hentered⟩ := hrest
  cases s
  simp_all

lemma Sited.conforms (hs : s.Sited) : s.freshHeap.arena.Conforms s.freshHeap.memory :=
  ⟨rfl, hs.aligned, hs.bounded, fun _ h1 h2 => ⟨h1, h2⟩⟩

/-- The heap that the first call finds has no blocks. -/
lemma Sited.has_freshHeap (hs : s.Sited) :
    (⟨s.freshHeap, []⟩ : Session).Has (.new s.freshHeap.arena) :=
  Session.has_fresh hs.conforms rfl rfl rfl

end Shared

namespace SharedM

variable {s : Shared} {α : Type} {act : HeapM α} {a : α} {h : Heap}

lemma onHeap_run (e : act s.current = .ok (a, h)) : onHeap act s = .ok (a, { s with heap := some h }) := by
  unfold onHeap
  rw [show s.heap.getD s.freshHeap = s.current from rfl, e]

lemma store_run {addr : Nat} {byte : UInt8} {h : Heap}
    (hh : h = { s.current with memory := s.current.memory.setByte addr byte }) :
    store addr byte s = .ok ((), { s with heap := some h }) := by
  subst hh
  exact onHeap_run rfl

/-- **A call from outside** runs its body with the lock held and the thread marked, and clears both. -/
lemma withHeap_outside (body : SharedM α) (hrest : s.AtRest) :
    withHeap body s = match body { s with heap := some s.current, locked := true, entered := true } with
      | .ok (a, t) => .ok (some a, { t with locked := false, entered := false })
      | .error e => .error e := by
  set s1 : Shared := { s with heap := some s.current, locked := true, entered := true } with hs1
  have hget : (MonadState.get : SharedM Shared) s = .ok (s, s) := rfl
  have hmark : setEntered true s = .ok ((), { s with entered := true }) := rfl
  have hlock : lock { s with entered := true } = .ok ((), { s with entered := true, locked := true }) := by
    rw [lock, if_neg (by simp [hrest.unlocked])]
  have hprepare : prepare { s with entered := true, locked := true } = .ok ((), s1) := rfl
  unfold withHeap
  rw [run_bind hget, if_neg (by simp [hrest.outside]), run_bind hmark, run_bind hlock, run_bind hprepare]
  rcases hbody : body s1 with e | ⟨a, t⟩
  · exact run_bind_error hbody
  · rw [run_bind hbody]
    rfl

/-- **A call to the heap at rest** does what it does on the heap, and leaves it at rest. -/
lemma withHeap_run (hrest : s.AtRest) (e : act s.current = .ok (a, h)) :
    withHeap (onHeap act) s = .ok (some a, { s with heap := some h }) := by
  have hrun : onHeap act { s with heap := some s.current, locked := true, entered := true } =
      .ok (a, { s with heap := some h, locked := true, entered := true }) := onHeap_run e
  rw [withHeap_outside _ hrest, hrun]
  exact congrArg (fun s => Except.ok (some a, s)) (hrest.reheap h).eq_unmarked

lemma request_run {req : RequestM (Option Nat)} {ans : Answer} (hrest : s.AtRest)
    (e : req.run s.current = .ok (ans, h)) :
    request req s = .ok (granted (some ans), { s with heap := some h }) := by
  rw [request, run_bind (withHeap_run hrest e)]
  rfl

end SharedM

end BoundaryTag
