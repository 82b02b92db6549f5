import BoundaryTag.Error

/-!
Runs of programs.

A program makes calls one after the other, each if it may make it where it is then. A call answers, and
takes the program on.
-/

namespace BoundaryTag

variable {σ γ α : Type} {allows : σ → γ → Prop} {call : σ → γ → Except Halt (α × σ)}

variable (allows call) in
/-- Calls that may be made one after the other, and what they answer. -/
inductive Calls : σ → List γ → List α → σ → Prop
  | nil (s : σ) : Calls s [] [] s
  | cons {s t u : σ} {c : γ} {cs : List γ} {a : α} {as : List α} :
    allows s c → call s c = .ok (a, t) → Calls t cs as u → Calls s (c :: cs) (a :: as) u

namespace Calls

variable (allows call) in
/-- Makes calls one after the other, if they may be made. -/
def make [∀ s c, Decidable (allows s c)] (s : σ) : List γ → Option (List α × σ)
  | [] => some ([], s)
  | c :: cs =>
    if allows s c then
      match call s c with
      | .ok (a, t) =>
        match make t cs with
        | some (as, u) => some (a :: as, u)
        | none => none
      | .error _ => none
    else none

theorem of_make [∀ s c, Decidable (allows s c)] {s t : σ} {cs : List γ} {as : List α}
    (h : make allows call s cs = some (as, t)) : Calls allows call s cs as t := by
  induction cs generalizing s as with
  | nil =>
    cases h
    exact .nil _
  | cons c cs ih =>
    unfold make at h
    split at h
    · next hc =>
      split at h
      · next a s' hcall =>
        split at h
        · next as' t' hrest =>
          cases h
          exact .cons hc hcall (ih hrest)
        · cases h
      · cases h
    · cases h

/-- What each call preserves, a run does. -/
theorem preserves {P : σ → Prop} {s t : σ} {cs : List γ} {as : List α}
    (hcall : ∀ s c a t, P s → allows s c → call s c = .ok (a, t) → P t)
    (hrun : Calls allows call s cs as t) (hs : P s) : P t := by
  induction hrun with
  | nil s => exact hs
  | cons hc e _ ih => exact ih (hcall _ _ _ _ hs hc e)

/-- A run preserves what each call can be seen to end in, as a call ends in one way only. -/
theorem preserves_of_served {P : σ → Prop} {s t : σ} {cs : List γ} {as : List α}
    (hserved : ∀ s c, P s → allows s c → ∃ a t, call s c = .ok (a, t) ∧ P t)
    (hrun : Calls allows call s cs as t) (hs : P s) : P t := by
  refine hrun.preserves (fun s c a t hs hc e => ?_) hs
  obtain ⟨a', t', e', ht⟩ := hserved s c hs hc
  cases e.symm.trans e'
  exact ht

end Calls

end BoundaryTag
