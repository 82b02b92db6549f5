import BoundaryTag.Request
import BoundaryTag.Proofs.Heap.Guard

/-!
Requests under guard.

What a request does under guard it does without. The guard is looked at nowhere but where memory is
accessed and sums are taken, so this follows the program, one lemma for each of its functions; a search
with fuel is gone through by induction on that.
-/

namespace BoundaryTag

namespace HeapM

open Heap

namespace Transparent

/-! ### Main lists -/

lemma setHead (list : Fin mainLists) (l : Links) : Transparent (setHead list l) :=
  modify (fun _ => ⟨rfl, rfl, rfl, rfl, rfl⟩) fun _ => rfl

lemma setNext (l target : Link) : Transparent (setNext l target) := by
  cases l with
  | head list => exact get (fun _ => rfl) fun _ => setHead list _
  | block a => exact store a _

lemma setPrev (l target : Link) : Transparent (setPrev l target) := by
  cases l with
  | head list => exact get (fun _ => rfl) fun _ => setHead list _
  | block a => exact store _ _

lemma insertFree (block : Nat) : Transparent (insertFree block) :=
  .bind (tagAt block) fun _ => .bind (reading (.nextOf _)) fun first =>
    .bind (store block _) fun _ => .bind (store _ _) fun _ => .bind (setPrev first _) fun _ =>
      setNext _ _

lemma removeFree (block : Nat) : Transparent (removeFree block) :=
  .bind (load block) fun _ => .bind (load _) fun _ => .bind (setNext _ _) fun _ => setPrev _ _

/-! ### Merging and placing -/

lemma freeSize? (next : Nat) : Transparent (freeSize? next) :=
  .bind stop fun _ => .ite (.bind (tagAt next) fun _ => pure _) (pure _)

lemma absorbNext (size next : Nat) (nextSize : Option Nat) : Transparent (absorbNext size next nextSize) := by
  cases nextSize with
  | none => exact pure size
  | some more => exact .bind (removeFree next) fun _ => sum size more

lemma absorbPrev (block size next : Nat) (nextSize : Option Nat) :
    Transparent (absorbPrev block size next nextSize) :=
  .bind (reading (.footerBefore block)) fun _ => .bind (difference _ _) fun prev =>
    .bind (tagAt prev) fun _ => .bind (removeFree prev) fun _ =>
      .bind (absorbNext size next nextSize) fun _ => .bind (sum _ _) fun _ => pure _

lemma coalesce (block : Nat) : Transparent (coalesce block) := by
  have hwrite (t : Tag) (run : FreeRun) : Transparent (do
      if run.block ≠ block || run.size ≠ t.size then
        HeapM.writeFree run.block (.make run.size false run.prevAllocated)
      HeapM.noteLast run.block run.size
      return run.block) :=
    .ite_bind (writeFree _ _) fun _ => .bind (noteLast _ _) fun _ => pure _
  exact .bind (tagAt block) fun t => .bind (assume _) fun _ => .bind (sum _ _) fun next =>
    .bind (freeSize? next) fun nextSize =>
      .ite (.bind (absorbNext t.size next nextSize) fun _ => hwrite t _)
        (.bind (absorbPrev block t.size next nextSize) (hwrite t))

lemma settle (block : Nat) : Transparent (settle block) :=
  .bind (coalesce block) fun merged => .bind (tagAt merged) fun _ =>
    .bind (setSuccessorFlag merged _ false) fun _ => insertFree merged

lemma place (block need : Nat) : Transparent (place block need) :=
  .bind (tagAt block) fun _ => .bind (assume _) fun _ => .bind (difference _ _) fun _ =>
    .ite (.bind (setHeader block _) fun _ => .bind (setSuccessorFlag block _ true) fun _ =>
        noteLast block _)
      (.bind (note _) fun _ => .bind (sum block need) fun tail => .bind (setHeader block _) fun _ =>
        .bind (writeFree tail _) fun _ => settle tail)

lemma freeToMain (block : Nat) : Transparent (freeToMain block) :=
  .bind (tagAt block) fun _ => .bind (writeFree block _) fun _ => settle block

/-! ### Quick lists -/

lemma setSlot (list : Fin quickLists) (s : QuickSlot) : Transparent (setSlot list s) :=
  modify (fun _ => ⟨rfl, rfl, rfl, rfl, rfl⟩) fun _ => rfl

lemma freeChain (fuel cur : Nat) : Transparent (freeChain fuel cur) := by
  induction fuel generalizing cur with
  | zero => exact throw _
  | succ fuel ih =>
    unfold HeapM.freeChain
    exact .ite (pure _) (.bind (loadAddr cur) fun next => .bind (freeToMain cur) fun _ => ih next)

lemma flush (list : Fin quickLists) : Transparent (flush list) :=
  .bind (slot list) fun _ => .bind (setSlot list _) fun _ => .bind (note _) fun _ =>
    get (fun _ => rfl) fun _ => freeChain _ _

lemma pushQuick (list : Fin quickLists) (block : Nat) : Transparent (pushQuick list block) :=
  .bind (slot list) fun _ => .ite_bind (flush list) fun _ => .bind (slot list) fun _ =>
    .bind (storeAddr block _) fun _ => .bind (sum _ _) fun _ => setSlot list _

lemma popFrom (list : Fin quickLists) (size fuel : Nat) (prev : Option Nat) (cur : Nat) :
    Transparent (popFrom list size fuel prev cur) := by
  induction fuel generalizing prev cur with
  | zero => exact throw _
  | succ fuel ih =>
    unfold HeapM.popFrom
    refine .ite (pure _) (.bind (loadAddr cur) fun next => .bind (tagAt cur) fun _ => .ite ?_ (ih _ next))
    refine .bind (slot list) fun _ => .bind (difference _ _) fun _ => ?_
    cases prev with
    | none => exact .bind (setSlot list _) fun _ => pure _
    | some p => exact .bind (storeAddr p next) fun _ => .bind (setSlot list _) fun _ => pure _

lemma popQuick (list : Fin quickLists) (size : Nat) : Transparent (popQuick list size) :=
  get (fun _ => rfl) fun _ => .bind (slot list) fun _ => popFrom list size _ _ _

lemma releaseBlock (block : Nat) : Transparent (releaseBlock block) := by
  refine .bind (tagAt block) fun t => ?_
  cases quickClass? t.size with
  | none => exact freeToMain block
  | some list => exact pushQuick list block

/-! ### Allocating -/

lemma requestPage : Transparent requestPage := by
  intro h p h' e
  cases e
  obtain ⟨hbase, hsupply⟩ := h.arena.grow_place
  exact ⟨⟨rfl, hbase, hsupply, rfl, rfl⟩, rfl⟩

lemma setUp : Transparent setUp := by
  refine .bind (modify (fun _ => ⟨rfl, rfl, rfl, rfl, rfl⟩) fun _ => rfl) fun _ => .bind requestPage fun page => ?_
  cases page with
  | none => exact .bind (note _) fun _ => pure _
  | some page =>
    exact .bind (assume _) fun _ => .bind (sum _ _) fun block => .bind (writeFree block _) fun _ =>
      .bind (insertFree block) fun _ => .bind (modify (fun _ => ⟨rfl, rfl, rfl, rfl, rfl⟩) fun _ => rfl) fun _ =>
        .bind (note _) fun _ => pure _

lemma grow : Transparent grow := by
  refine .bind stop fun _ => .bind requestPage fun page => ?_
  cases page with
  | none => exact get (fun _ => rfl) fun _ => .bind (note _) fun _ => pure _
  | some page =>
    exact .bind (assume _) fun _ => get (fun _ => rfl) fun _ => .bind (tagAt _) fun _ =>
      .bind (writeFree page _) fun _ => .bind (coalesce page) fun merged =>
        .bind (insertFree merged) fun _ => get (fun _ => rfl) fun _ => .bind (note _) fun _ => pure _

lemma lowestFit (need : Nat) (lists : List (Fin mainLists)) : Transparent (lowestFit need lists) := by
  induction lists with
  | nil => exact pure _
  | cons list rest ih =>
    refine .bind (reading (.findFit list need)) fun found => ?_
    cases found with
    | none => exact ih
    | some block => exact pure _

lemma takeFit (need : Nat) : Transparent (takeFit need) := by
  refine .bind (lowestFit need _) fun found => ?_
  cases found with
  | none => exact pure _
  | some block => exact .bind (removeFree block) fun _ => .bind (place block need) fun _ => pure _

lemma takeGrowing (need room : Nat) : Transparent (takeGrowing need room) := by
  induction room with
  | zero =>
    refine .bind (takeFit need) fun found => ?_
    cases found with
    | none => exact .bind grow fun _ => pure _
    | some block => exact pure _
  | succ room ih =>
    refine .bind (takeFit need) fun found => ?_
    cases found with
    | none => exact .bind grow fun _ => .ite ih (pure _)
    | some block => exact pure _

lemma allocateBlock (need : Nat) : Transparent (allocateBlock need) := by
  have hgrow : Transparent (do HeapM.takeGrowing need (← MonadState.get).arena.room) :=
    get (fun _ => rfl) fun _ => takeGrowing need _
  -- with the first page there already, or just granted
  refine get (fun _ => rfl) fun _ => .ite (.bind setUp fun _ => .ite (pure _) ?_) ?_
  all_goals
    cases quickClass? need with
    | none => exact hgrow
    | some list =>
      refine .bind (popQuick list need) fun found => ?_
      cases found with
      | none => exact hgrow
      | some block => exact pure _

lemma demandValid (ptr : Nat) : Transparent (demandValid ptr) := by
  refine .bind (reading (.validate ptr)) fun r => ?_
  rcases r with x | u
  · exact throw _
  · exact pure _

lemma release (ptr : Nat) : Transparent (release ptr) :=
  .bind (demandValid ptr) fun _ => releaseBlock ptr

/-! ### The dump -/

lemma loop {α : Type} {m : α → HeapM (ForInStep PUnit)} (xs : List α) (hm : ∀ x, Transparent (m x)) :
    Transparent (forIn xs PUnit.unit fun x _ => m x) := by
  induction xs with
  | nil => exact pure _
  | cons x xs ih =>
    rw [List.forIn_cons]
    refine .bind (hm x) fun r => ?_
    rcases r with u | u
    · exact pure _
    · exact ih

lemma dump : Transparent dump := by
  have hall : Transparent dumpAll :=
    get (fun _ => rfl) fun _ => .bind (note _) fun _ => .bind (reading .blocks) fun bs =>
      .bind (loop bs fun _ => .bind (note _) fun _ => pure _) fun _ =>
        .bind (loop _ fun _ => .ite (.bind (note _) fun _ => pure _) (pure _)) fun _ =>
          .bind (loop _ fun list => .bind (reading (.listLen list)) fun _ =>
            .ite (.bind (note _) fun _ => pure _) (pure _)) fun _ => pure _
  exact get (fun _ => rfl) fun _ => .ite hall (pure _)

end Transparent

end HeapM

namespace RequestM

open HeapM

/-- Requests that the guard does not change. -/
abbrev Transparent {α : Type} (m : RequestM α) : Prop := HeapM.Transparent m.run

namespace Transparent

variable {α β : Type}

lemma pure (a : α) : Transparent (Pure.pure a : RequestM α) := HeapM.Transparent.pure _

lemma throw (e : AllocError) : Transparent (throw e : RequestM α) := HeapM.Transparent.pure _

lemma bind {m : RequestM α} {f : α → RequestM β} (hm : Transparent m) (hf : ∀ a, Transparent (f a)) :
    Transparent (m >>= f) := by
  refine HeapM.Transparent.bind hm fun r => ?_
  rcases r with x | a
  · exact .pure _
  · exact hf a

/-- Work on the heap. -/
lemma lift {m : HeapM α} (hm : HeapM.Transparent m) : Transparent (liftM m : RequestM α) := by
  show HeapM.Transparent (Except.ok <$> m)
  rw [map_eq_pure_bind]
  exact .bind hm fun _ => .pure _

lemma ite {c : Prop} [Decidable c] {m k : RequestM α} (hm : Transparent m) (hk : Transparent k) :
    Transparent (if c then m else k) := by
  split
  · exact hm
  · exact hk

lemma orOutOfMemory (size : Nat) (found : Option Nat) : Transparent (orOutOfMemory size found) := by
  cases found with
  | none => exact throw _
  | some a => exact pure a

lemma allocate (size : Nat) : Transparent (allocate size) :=
  .ite (pure _) <| .bind (orOutOfMemory size _) fun need => .bind (lift (.allocateBlock need)) fun _ =>
    .bind (orOutOfMemory size _) fun _ => pure _

lemma allocateZeroed (size : Nat) : Transparent (allocateZeroed size) := by
  refine .bind (allocate size) fun found => ?_
  cases found with
  | none => exact pure _
  | some p => exact .bind (lift (.storeBytes p size _)) fun _ => pure _

lemma alignedTarget (block align : Nat) : HeapM.Transparent (alignedTarget block align) :=
  .ite (.pure _) <| .bind (.sum _ _) fun _ => .bind (.difference _ _) fun _ => .ite (.sum _ _) (.pure _)

lemma releaseLead (block lead : Nat) : HeapM.Transparent (releaseLead block lead) :=
  .bind (.tagAt block) fun _ => .bind (.sum block lead) fun aligned => .bind (.note _) fun _ =>
    .bind (.difference _ _) fun _ => .bind (.setHeader aligned _) fun _ =>
      .bind (.writeFree block _) fun _ => .bind (.coalesce block) fun merged =>
        .bind (.insertFree merged) fun _ => .pure _

lemma allocateAligned (size align : Nat) : Transparent (allocateAligned size align) := by
  have hplace (need aligned : Nat) : Transparent (do
      HeapM.place aligned need
      HeapM.assume (aligned % align = 0)
      return some aligned) :=
    .bind (lift (.place aligned need)) fun _ => .bind (lift (.assume _)) fun _ => pure _
  refine .ite (throw _) <| .ite (pure _) <| .bind (orOutOfMemory size _) fun need =>
    .bind (orOutOfMemory size _) fun padded => .bind (lift (.allocateBlock padded)) fun _ =>
      .bind (orOutOfMemory size _) fun block => .bind (lift (alignedTarget block align)) fun _ =>
        .bind (lift (.difference _ _)) fun lead => ?_
  exact .ite (hplace need block) (.bind (lift (releaseLead block lead)) (hplace need))

lemma moveTo (block current need size : Nat) : Transparent (moveTo block current need size) :=
  .bind (lift (.allocateBlock need)) fun _ => .bind (orOutOfMemory size _) fun fresh =>
    .bind (lift (.difference _ _)) fun _ => .bind (lift (.copyBytes block fresh _)) fun _ =>
      .bind (lift (.releaseBlock block)) fun _ => pure _

lemma resize (ptr size : Nat) : Transparent (resize ptr size) := by
  refine .bind (lift (.demandValid ptr)) fun _ => .ite ?_ ?_
  · exact .bind (lift (.releaseBlock ptr)) fun _ => pure _
  · refine .bind (orOutOfMemory size _) fun need => .bind (lift (.tagAt ptr)) fun t => .ite ?_ ?_
    · exact .bind (moveTo ptr _ need size) fun _ => pure _
    · exact .ite (.bind (lift (.place ptr need)) fun _ => pure _) (pure _)

end Transparent

end RequestM

/-- **The guard only halts.** What a request does under guard it does without. -/
lemma Request.transparent_serve (r : Request) : HeapM.Transparent r.serve := by
  cases r with
  | allocate size => exact RequestM.Transparent.allocate size
  | allocateZeroed size => exact RequestM.Transparent.allocateZeroed size
  | allocateAligned size align => exact RequestM.Transparent.allocateAligned size align
  | release ptr => exact .bind (.release ptr) fun _ => .pure _
  | resize ptr size => exact RequestM.Transparent.resize ptr size
  | write addr byte =>
    have hplace (h : Heap) : Heap.SamePlace h { h with memory := h.memory.setByte addr byte } :=
      .written (Memory.base_setByte ..) (Memory.extent_setByte ..)
    exact .bind (.modify hplace fun _ => rfl) fun _ => .pure _

end BoundaryTag
