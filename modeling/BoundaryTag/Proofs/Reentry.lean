import BoundaryTag.Proofs.Resting
import BoundaryTag.Shared.Program

/-!
Calls from inside of a call.

A thread that is inside of the process-wide heap is marked, and a marked thread is turned away before it gets to
the lock. So a nested call answers nothing and does nothing, of whatever parts it is made, and a program is what
it is without its nested calls. Each call from outside finds the lock open and leaves it open, and the mark with
it, so that no part of a program leaves them other than it found them.
-/

namespace BoundaryTag

namespace SharedM

variable {α β : Type} {s : Shared}

/-! ### Turned away -/

section Entered

variable (hs : s.entered = true)

include hs

/-- A closure is not run by a thread that is inside. -/
lemma withHeap_entered (body : SharedM α) : withHeap body s = .ok (none, s) := by
  have hget : (MonadState.get : SharedM Shared) s = .ok (s, s) := rfl
  unfold withHeap
  rw [run_bind hget, if_pos hs]
  rfl

lemma request_entered (act : RequestM (Option Nat)) : request act s = .ok (none, s) := by
  rw [request, run_bind (withHeap_entered hs _)]
  rfl

lemma alloc_entered (l : Layout) : alloc l s = .ok (none, s) := request_entered hs _

lemma dealloc_entered (ptr : Nat) : dealloc ptr s = .ok ((), s) := by
  rw [dealloc, run_bind (withHeap_entered hs _)]
  rfl

/-- Without a new block nothing is copied, and nothing is handed back. -/
lemma reallocMoving_entered (ptr : Nat) (old new : Layout) : reallocMoving ptr old new s = .ok (none, s) := by
  rw [reallocMoving, run_bind (alloc_entered hs new)]
  rfl

/-- **A nested call** answers nothing and changes nothing. -/
lemma serve_entered (c : LayoutCall) (hc : c.enters = true) : c.serve s = .ok (none, s) := by
  cases c with
  | alloc l => exact alloc_entered hs l
  | allocZeroed l =>
    show allocZeroed l s = _
    rw [allocZeroed, run_bind (alloc_entered hs l)]
    rfl
  | dealloc ptr l =>
    show (dealloc ptr >>= fun _ => pure none) s = _
    rw [run_bind (dealloc_entered hs ptr)]
    rfl
  | realloc ptr old new =>
    show realloc ptr old new s = _
    unfold realloc
    split
    · exact reallocMoving_entered hs ptr old new
    · exact request_entered hs _
  | write addr byte => cases hc

end Entered

/-! ### Lock and mark -/

/-- Work that leaves the lock and the mark as it found them, where it comes to an end. -/
def Restores (m : SharedM α) : Prop :=
  ∀ ⦃s : Shared⦄ ⦃a : α⦄ ⦃t : Shared⦄, m s = .ok (a, t) →
    t.locked = s.locked ∧ t.entered = s.entered

lemma Restores.bind {m : SharedM α} {f : α → SharedM β} (hm : Restores m) (hf : ∀ a, Restores (f a)) :
    Restores (m >>= f) := by
  intro s b u e
  obtain ⟨a, t, e1, e2⟩ := of_run_bind e
  obtain ⟨h1, h2⟩ := hm e1
  obtain ⟨h3, h4⟩ := hf a e2
  exact ⟨h3.trans h1, h4.trans h2⟩

lemma restores_pure (a : α) : Restores (pure a) := by
  intro s b t e
  cases e
  exact ⟨rfl, rfl⟩

lemma restores_onHeap (act : HeapM α) : Restores (onHeap act) := by
  intro s a t e
  unfold onHeap at e
  split at e
  · cases e
    exact ⟨rfl, rfl⟩
  · cases e

/-- A thread that waits for itself does so forever. -/
lemma withHeap_locked (body : SharedM α) (ho : s.entered = false) (hl : s.locked = true) :
    withHeap body s = .error .endless := by
  have hget : (MonadState.get : SharedM Shared) s = .ok (s, s) := rfl
  have hmark : setEntered true s = .ok ((), { s with entered := true }) := rfl
  have hlock : lock { s with entered := true } = .error .endless := if_pos hl
  unfold withHeap
  rw [run_bind hget, if_neg (by simp [ho]), run_bind hmark, run_bind_error hlock]

/-- Whatever a closure does to them, lock and mark are after the call what they were before. -/
lemma restores_withHeap (body : SharedM α) : Restores (withHeap body) := by
  intro s a t e
  by_cases hs : s.entered = true
  · rw [withHeap_entered hs] at e
    cases e
    exact ⟨rfl, rfl⟩
  replace hs : s.entered = false := Bool.eq_false_iff.mpr hs
  rcases hl : s.locked
  · rw [withHeap_outside body ⟨hl, hs⟩] at e
    split at e <;> cases e
    exact ⟨rfl, hs.symm⟩
  · rw [withHeap_locked body hs hl] at e
    cases e

lemma restores_request (act : RequestM (Option Nat)) : Restores (request act) :=
  (restores_withHeap _).bind fun _ => restores_pure _

lemma restores_dealloc (ptr : Nat) : Restores (dealloc ptr) :=
  (restores_withHeap _).bind fun _ => restores_pure _

lemma restores_serve (c : LayoutCall) : Restores c.serve := by
  cases c with
  | alloc l => exact restores_request _
  | allocZeroed l =>
    refine (restores_request _).bind fun ptr => ?_
    cases ptr with
    | none => exact restores_pure none
    | some p => exact (restores_onHeap _).bind fun _ => restores_pure _
  | dealloc ptr l => exact (restores_dealloc ptr).bind fun _ => restores_pure none
  | realloc ptr old new =>
    show Restores (realloc ptr old new)
    unfold realloc
    split
    · refine (restores_request _).bind fun fresh => ?_
      cases fresh with
      | none => exact restores_pure none
      | some p => exact (restores_onHeap _).bind fun _ => (restores_dealloc ptr).bind fun _ => restores_pure _
    · exact restores_request _
  | write addr byte => exact (restores_onHeap _).bind fun _ => restores_pure none

/-! ### Erasure -/

/-- Two runs are one that begin alike and go on alike. -/
lemma run_bind_congr {m m' : SharedM α} {f f' : α → SharedM β} (hm : m s = m' s)
    (hf : ∀ a t, m s = .ok (a, t) → f a t = f' a t) : (m >>= f) s = (m' >>= f') s := by
  rcases e : m s with x | ⟨a, t⟩
  · rw [run_bind_error e, run_bind_error (hm.symm.trans e)]
  · rw [run_bind e, run_bind (hm.symm.trans e), hf a t e]

/-- What a closure does counts only as far as a thread that is inside does it. -/
lemma withHeap_congr {body body' : SharedM α} (ho : s.entered = false)
    (h : ∀ t : Shared, t.entered = true → body t = body' t) : withHeap body s = withHeap body' s := by
  rcases hl : s.locked
  · rw [withHeap_outside body ⟨hl, ho⟩, withHeap_outside body' ⟨hl, ho⟩, h _ rfl]
  · rw [withHeap_locked body ho hl, withHeap_locked body' ho hl]

end SharedM

namespace Program

open SharedM

variable {inside : Bool} {α : Type} {s : Shared}

lemma restores_run (p : Program inside α) : Restores p.run := by
  induction p with
  | done a => exact restores_pure a
  | work act next ih => exact (restores_onHeap act).bind ih
  | call c next ih => exact (restores_serve c).bind ih
  | enter body next _ ih => exact (restores_withHeap body.run).bind ih

/-- **A program is what it is without its nested calls.** -/
lemma run_erase (p : Program inside α) (hs : s.entered = inside) : p.run s = p.erase.run s := by
  induction p generalizing s with
  | done a => rfl
  | work act next ih =>
    exact run_bind_congr rfl fun b t e => ih b ((restores_onHeap act e).2.trans hs)
  | @call inside _ c next ih =>
    have hcall : (call c next).run s = (call c fun a => (next a).erase).run s :=
      run_bind_congr rfl fun a t e => ih a ((restores_serve c e).2.trans hs)
    cases inside with
    | false => exact hcall
    | true =>
      unfold erase
      split
      · next hc => exact (run_bind (serve_entered hs c hc)).trans (ih none hs)
      · exact hcall
  | @enter inside _ _ body next ihb ih =>
    cases inside with
    | false =>
      exact run_bind_congr (withHeap_congr hs fun t ht => ihb ht) fun b t e =>
        ih b ((restores_withHeap body.run e).2.trans hs)
    | true => exact (run_bind (withHeap_entered hs body.run)).trans (ih none hs)

/-- A program that is done without its nested calls has made none of them. -/
lemma run_of_erase_eq_done {p : Program true α} {a : α} (hs : s.entered = true) (hp : p.erase = .done a) :
    p.run s = .ok (a, s) := by
  rw [p.run_erase hs, hp]
  rfl

end Program

/-- Between its calls a program finds the heap at rest. -/
lemma Shared.Reachable.atRest {s : Shared} (hs : s.Reachable) : s.AtRest := by
  obtain ⟨base, pages, key, mapper, α, p, a, hrun⟩ := hs
  obtain ⟨hlocked, hentered⟩ := p.restores_run hrun
  exact ⟨hlocked, hentered⟩

open SharedM

/-- **Nested calls do no harm.** A closure is run with the lock held and the thread marked. To a thread that is
marked, each call answers nothing, leaves the state as it is and does not wait for the lock, no closure that it
enters with is run, and so on through any sequence of such calls. So from every state that a program comes to, a
program that goes on there has the same result, ends in the same state, or fails alike, if its closures make no
nested calls; and when it ends, the lock is open and the thread is not marked. -/
theorem nested_calls_harmless {s : Shared} (hs : s.Reachable) {α : Type} (p : Program false α) :
    (∀ (β : Type) (body : SharedM β), withHeap body s =
      match body { s with heap := some s.current, locked := true, entered := true } with
      | .ok (b, t) => .ok (some b, { t with locked := false, entered := false })
      | .error e => .error e) ∧
    (∀ t : Shared, t.entered = true →
      (∀ c : LayoutCall, c.enters = true → c.serve t = .ok (none, t)) ∧
      (∀ (β : Type) (inner : SharedM β), withHeap inner t = .ok (none, t)) ∧
      ∀ (β : Type) (calls : Program true β) (b : β), calls.erase = .done b → calls.run t = .ok (b, t)) ∧
    p.run s = p.erase.run s ∧
    ∀ a t, p.run s = .ok (a, t) → t.locked = false ∧ t.entered = false := by
  have hrest := hs.atRest
  refine ⟨fun _ body => withHeap_outside body hrest, fun t ht => ⟨serve_entered ht, fun _ => withHeap_entered ht,
    fun _ _ _ => Program.run_of_erase_eq_done ht⟩, p.run_erase hrest.outside, fun a t e => ?_⟩
  obtain ⟨h1, h2⟩ := p.restores_run e
  exact ⟨h1.trans hrest.unlocked, h2.trans hrest.outside⟩

/-- A closure hands a block back, has it moved, asks for another one and enters again, and tells whether nothing of
that succeeded. After that the block is moved indeed. -/
def Program.nesting (ptr : Nat) (a b : Layout) : Program false (Option Bool × Option Nat) :=
  enter (call (.dealloc ptr a) fun _ => call (.realloc ptr a b) fun q => call (.alloc b) fun r =>
    enter (done ()) fun x => done (q.isNone && r.isNone && x.isNone)) fun refused =>
  call (.realloc ptr a b) fun q => done (refused, q)

/-- The block is live when the closure has ended, since to hand it back was in vain. -/
theorem nested_calls_harmless_leak : ∃ (a b : Layout) (s t : Shared), a.align = 64 ∧ s.Reachable ∧
    (Program.nesting 65600 a b).run s = .ok ((some true, some 65792), t) ∧
    (Program.nesting 65600 a b).erase.run s = .ok ((some true, some 65792), t) ∧
    t.locked = false ∧ t.entered = false := by
  let a : Layout := ⟨100, 64, ⟨6, rfl⟩, by decide⟩
  let b : Layout := ⟨300, 64, ⟨6, rfl⟩, by decide⟩
  let start : Shared := Shared.new 65536 2 7
  have hend : ((LayoutCall.alloc a).serve start).toOption.map (fun x =>
      ((Program.nesting 65600 a b).run x.2).toOption.map Prod.fst) =
        some (some (some true, some 65792)) := by
    decide +kernel
  rcases hfirst : (LayoutCall.alloc a).serve start with e | ⟨x, s⟩ <;> rw [hfirst] at hend
  · cases hend
  have hs : s.Reachable := ⟨65536, 2, 7, .ample, _, .call (.alloc a) .done, x, run_bind hfirst⟩
  rcases hrun : (Program.nesting 65600 a b).run s with e | ⟨y, t⟩
  · rw [Except.toOption, Option.map_some, hrun] at hend
    cases hend
  rw [Except.toOption, Option.map_some, hrun] at hend
  obtain rfl : y = (some true, some 65792) := Option.some.inj (Option.some.inj hend)
  obtain ⟨-, -, herase, hafter⟩ := nested_calls_harmless hs (Program.nesting 65600 a b)
  obtain ⟨hlocked, hentered⟩ := hafter _ t hrun
  exact ⟨a, b, s, t, rfl, hs, hrun, herase.symm.trans hrun, hlocked, hentered⟩

end BoundaryTag
