import BoundaryTag.Proofs.Access

/-!
Checks that come to an end.

A check passes with a result, refuses with an error, or halts. `Decides` says that it does not halt, and
what is known when it passes and when it refuses. There is one rule for each way in which checks are put
together, so what a check decides is found along its text, from the reads on.
-/

namespace BoundaryTag

/-- The check comes to an end. If it passes, `P` holds of its result, and if it refuses, `E` of the error. -/
inductive Decides {ε α : Type} (m : ExceptT ε (Except Halt) α) (P : α → Prop) (E : ε → Prop) : Prop
  | passes (a : α) (run : m.run = .ok (.ok a)) (holds : P a)
  | refuses (x : ε) (run : m.run = .ok (.error x)) (holds : E x)

namespace Decides

variable {ε α β : Type} {m : ExceptT ε (Except Halt) α} {f : α → ExceptT ε (Except Halt) β}
  {P Q : α → Prop} {R : β → Prop} {E : ε → Prop} {a : α} {x : ε}

lemma pass (h : P a) : Decides (pure a) P E := .passes a rfl h

lemma refuse (h : E x) : Decides (throw x) P E := .refuses x rfl h

/-- Two steps, one after the other. -/
lemma bind (hm : Decides m Q E) (hf : ∀ a, Q a → Decides (f a) R E) : Decides (m >>= f) R E := by
  cases hm with
  | passes a run holds =>
    cases hf a holds with
    | passes b run' holds' => exact .passes b ((check_bind run).trans run') holds'
    | refuses x run' holds' => exact .refuses x ((check_bind run).trans run') holds'
  | refuses x run holds => exact .refuses x (Heap.bind_eq run) holds

/-- A read, and what is made of it. -/
lemma read {r : Except Halt α} (e : r = .ok a) (hf : Decides (f a) R E) : Decides (liftM r >>= f) R E :=
  .bind (.passes a (check_read e) rfl) fun _ hb => hb ▸ hf

/-- A demand, and what follows where it is met. -/
lemma demand {c : Prop} [Decidable c] {k : Unit → ExceptT ε (Except Halt) α} (hx : c → E x)
    (hk : ¬ c → Decides (k ()) P E) : Decides (if c then throw x >>= k else k ()) P E := by
  split
  · next hc => exact .refuses x rfl (hx hc)
  · next hc => exact hk hc

lemma mono {F : ε → Prop} (hm : Decides m P E) (hP : ∀ a, P a → Q a) (hE : ∀ x, E x → F x) :
    Decides m Q F := by
  cases hm with
  | passes a run holds => exact .passes a run (hP a holds)
  | refuses x run holds => exact .refuses x run (hE x holds)

/-- The same check of one thing after the other. -/
lemma forM {γ : Type} {g : γ → ExceptT ε (Except Halt) Unit} {S : γ → Prop} {cs : List γ}
    (hg : ∀ c, Decides (g c) (fun _ => S c) E) : Decides (cs.forM g) (fun _ => ∀ c ∈ cs, S c) E := by
  induction cs with
  | nil => exact .pass fun c hc => absurd hc List.not_mem_nil
  | cons c cs ih =>
    rw [List.forM_eq_forM, List.forM_cons]
    exact .bind (hg c) fun _ hc => ih.mono (fun _ hcs => List.forall_mem_cons.mpr ⟨hc, hcs⟩) fun _ hx => hx

lemma total (hm : Decides m P E) : ∃ r, m.run = .ok r := by
  cases hm with
  | passes a run => exact ⟨_, run⟩
  | refuses x run => exact ⟨_, run⟩

lemma of_passes (hm : Decides m P E) (e : m.run = .ok (.ok a)) : P a := by
  cases hm with
  | passes b run holds =>
    cases run.symm.trans e
    exact holds
  | refuses x run => cases run.symm.trans e

lemma of_refuses (hm : Decides m P E) (e : m.run = .ok (.error x)) : E x := by
  cases hm with
  | passes b run => cases run.symm.trans e
  | refuses y run holds =>
    cases run.symm.trans e
    exact holds

end Decides

end BoundaryTag
