import BoundaryTag.Proofs.Heap.Auditing

/-!
The verifier on a heap that was overwritten.

Whatever the bytes, the heads and the slots of a heap are, the verifier comes to an end, and reads words of
the region only: under guard, where any other read is a halt, it gives the same answer.
-/

namespace BoundaryTag

open Heap

namespace Heap.Transparent

lemma prevOf (l : Link) : Transparent (·.prevOf l) := by
  cases l with
  | head list => exact .of_eq fun _ => rfl
  | block a => exact .bind (.load _) fun _ => .pure _

section Checks

variable {γ δ ε : Type} {cs : List γ}

/-- A check of one thing after the other. -/
lemma check_foldlM {f : δ → γ → Heap → ExceptT ε (Except Halt) δ}
    (hf : ∀ d c, Transparent fun h => (f d c h).run) (d : δ) :
    Transparent fun h => (cs.foldlM (fun d c => f d c h) d).run := by
  induction cs generalizing d with
  | nil => exact .pure _
  | cons c cs ih =>
    simp only [List.foldlM_cons]
    exact .check_bind (hf d c) ih

lemma check_forM {f : γ → Heap → ExceptT ε (Except Halt) Unit} (hf : ∀ c, Transparent fun h => (f c h).run) :
    Transparent fun h => (cs.forM fun c => f c h).run := by
  induction cs with
  | nil => exact .pure _
  | cons c cs ih =>
    simp only [List.forM_eq_forM, List.forM_cons] at ih ⊢
    exact .check_bind (hf c) fun _ => ih

end Checks

/-! ### The walk -/

lemma blockAt (block : Nat) : Transparent (·.blockAt block) := .bind (.tagAt block) fun _ => .pure _

lemma surveyBlock (s : Survey) (b : BlockInfo) : Transparent fun h => (h.surveyBlock s b).run := by
  unfold Heap.surveyBlock
  refine .demand <| .demand_of (fun _ => Iff.rfl) <| .demand <| .ite ?_ (.pure _)
  refine .check_bind (.check_read (.footerBefore _)) fun footer =>
    .check_bind (.check_read (.tagAt _)) fun t => .demand ?_
  cases s.last with
  | none => exact .pure _
  | some prev => exact .ite (.of_eq fun _ => rfl) (.pure _)

/-- The walk takes the same steps up to the end, which is where it was. -/
lemma surveyFrom (s : Survey) (a : Nat) : Transparent fun h => (h.surveyFrom s a).run := by
  intro h r e
  have hstop : h.unguarded.arena.stop = h.arena.stop := rfl
  dsimp only at e ⊢
  induction s, a using surveyFrom.induct h generalizing r with
  | case1 s a ha ih =>
    rw [Heap.surveyFrom, dif_pos ha] at e
    rw [Heap.surveyFrom, dif_pos (hstop ▸ ha)]
    refine check_bind_at (check_read (blockAt a) h) (fun b => ?_) r e
    refine check_bind_at (surveyBlock s b h) fun _ r e => ?_
    by_cases hb : 0 < b.size
    · rw [dif_pos hb] at e ⊢
      exact ih b hb r e
    · rw [dif_neg hb] at e ⊢
      exact e
  | case2 s a ha =>
    rw [Heap.surveyFrom, dif_neg ha] at e
    rw [Heap.surveyFrom, dif_neg (hstop ▸ ha)]
    exact e

lemma survey : Transparent fun h => h.survey.run := by
  unfold Heap.survey
  refine .check_bind (fun h => surveyFrom {} h.walkStart h) fun s => ?_
  cases s.last with
  | none => exact .pure _
  | some b => exact .ite_of (fun _ => Iff.rfl) (.of_eq fun _ => rfl) (.pure _)

/-! ### The lists -/

section Main

variable (free : Nat) (c : Fin mainLists) (prev cur : Link)

lemma checkListed : Transparent fun h => (h.checkListed c prev cur).run := by
  unfold Heap.checkListed
  refine .demand_of (fun _ => Iff.rfl) <| .check_bind (.check_read (.blockOf cur)) fun p =>
    .check_bind (.check_read (.tagAt p)) fun t => ?_
  exact .demand <| .check_bind (.check_read (.prevOf cur)) fun l => .ite (.of_eq fun _ => rfl) (.pure _)

lemma checkClosed : Transparent fun h => (h.checkClosed c prev).run :=
  .check_bind (.check_read (.prevOf _)) fun _ => .ite (.of_eq fun _ => rfl) (.pure _)

lemma checkListFrom (quota listed : Nat) :
    Transparent fun h => (h.checkListFrom free c quota listed prev cur).run := by
  induction quota generalizing listed prev cur with
  | zero =>
    unfold Heap.checkListFrom
    exact .ite (.check_bind (checkClosed c prev) fun _ => .pure _)
      (.check_bind (checkListed c prev cur) fun _ => .of_eq fun _ => rfl)
  | succ quota ih =>
    unfold Heap.checkListFrom
    exact .ite (.check_bind (checkClosed c prev) fun _ => .pure _)
      (.check_bind (checkListed c prev cur) fun _ =>
        .check_bind (.check_read (.nextOf cur)) fun next => ih cur next (listed + 1))

lemma checkLists : Transparent fun h => (h.checkLists free).run := by
  unfold Heap.checkLists
  refine .check_bind (.check_foldlM (fun listed c => ?_) 0) fun listed => .ite (.of_eq fun _ => rfl) (.pure _)
  exact .check_bind (.check_read (.nextOf _)) fun first => checkListFrom free c _ first _ listed

end Main

section Quick

variable (c : Fin quickLists) (cur : Nat)

lemma checkQuickListed : Transparent fun h => (h.checkQuickListed c cur).run := by
  unfold Heap.checkQuickListed
  exact .demand_of (fun _ => Iff.rfl) <| .check_bind (.check_read (.tagAt cur)) fun t =>
    .ite (.of_eq fun _ => rfl) (.pure _)

lemma checkQuickFrom (quota : Nat) : Transparent fun h => (h.checkQuickFrom c quota cur).run := by
  induction quota generalizing cur with
  | zero =>
    unfold Heap.checkQuickFrom
    exact .ite (.pure _) (.of_eq fun _ => rfl)
  | succ quota ih =>
    unfold Heap.checkQuickFrom
    exact .ite (.pure _) (.check_bind (checkQuickListed c cur) fun _ =>
      .check_bind (.check_read (.loadAddr cur)) fun next => .check_bind (ih next) fun _ => .pure _)

lemma checkQuick : Transparent fun h => (h.checkQuick c).run :=
  .check_bind (fun h => checkQuickFrom c (h.quick.get c).first quickDepth h) fun _ =>
    .ite_of (fun _ => Iff.rfl) (.of_eq fun _ => rfl) (.pure _)

end Quick

lemma verify : Transparent fun h => h.verify.run := by
  unfold Heap.verify
  exact .ite_of (fun _ => Iff.rfl) (.pure _) <| .check_bind survey fun s =>
    .check_bind (checkLists s.free) fun _ => .check_forM checkQuick

end Heap.Transparent

/-- **The verifier comes to an end, in the region.** On any memory, with any heads, slots and key, it accepts
the heap or reports what is broken, and so it does under guard, where a read of anything but a word of the
region is a halt. -/
theorem verify_survives {h : Heap} (w : h.Situated) (hr : h.ready = true) :
    ∃ r, h.verify.run = .ok r ∧ h.guarded.verify.run = .ok r ∧ h.guarded.Watchful := by
  obtain ⟨r, hrun⟩ := (w.guarded.verify hr).total
  exact ⟨r, Transparent.verify.of_guarded hrun, hrun, w.watchful⟩

/-- Here a quick list leads to an address in the only block, and from there back to the same address, over and
over. -/
theorem verify_survives_cycle :
    ∃ h : Heap, h.Situated ∧ h.ready = true ∧ h.guarded.verify.run = .ok (.error (.misfiledQuick 0 4128)) := by
  let h := { (blank.forge 4112 (.make 4080 true true)).forge 4128 (.make 32 true true) with
    last := 4112, quick := blank.quick.set 0 ⟨1, 4128⟩ }
  let h' := h.put 4128 4128
  obtain ⟨g, hr, hrun⟩ : h'.Grounded ∧ h'.ready = true ∧
      h'.verify.run = .ok (.error (.misfiledQuick 0 4128)) := by
    decide +kernel
  obtain ⟨r, hr', hguarded, -⟩ := verify_survives g.situated hr
  obtain rfl := Except.ok.inj (hr'.symm.trans hrun)
  exact ⟨h', g.situated, hr, hguarded⟩

end BoundaryTag
