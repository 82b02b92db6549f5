import BoundaryTag.Proofs.Delivery

/-!
What clients find in their blocks.

The contents are the bytes that clients have stored, by address. They go with a block that is moved and are
lost with one that is handed back; zeros that a client asked for are contents too. Whatever else the heap
does, a client that reads a byte of the contents finds it there.
-/

namespace BoundaryTag

open Heap Piece

/-- The bytes that clients have stored and not given up. -/
abbrev Contents := Nat → Option UInt8

namespace Contents

/-- Without the `n` bytes from `p` on. -/
def drop (c : Contents) (p n : Nat) : Contents := fun x => if p ≤ x ∧ x < p + n then none else c x

/-- With zeros for the `n` bytes from `p` on. -/
def clear (c : Contents) (p n : Nat) : Contents := fun x => if p ≤ x ∧ x < p + n then some 0 else c x

/-- With the `n` bytes from `p` on again from `q` on. -/
def copy (c : Contents) (p q n : Nat) : Contents :=
  fun x => if q ≤ x ∧ x < q + n then c (p + (x - q)) else c x

variable {c : Contents} {p q n x : Nat} {v : UInt8}

@[simp] lemma drop_eq_some : c.drop p n x = some v ↔ ¬ (p ≤ x ∧ x < p + n) ∧ c x = some v := by
  unfold drop
  split <;> simp_all

end Contents

namespace Session

/-- The contents after a request, which takes the session `s` to the session `t`. -/
def contentsAfter (s t : Session) (c : Contents) (r : Request) (a : Answer) : Contents :=
  match r, a with
  | .write addr byte, .ok none => Function.update c addr (some byte)
  | .release p, .ok none => c.drop p (s.usable p)
  | .resize p _, .ok none => c.drop p (s.usable p)
  | .allocateZeroed n, .ok (some q) => c.clear q n
  | .resize p n, .ok (some q) =>
    if q = p then c.drop (p + t.usable p) (s.usable p - t.usable p)
    else (c.copy p q (min (s.usable p) n)).drop p (s.usable p)
  | _, _ => c

/-- The contents after requests one after the other. -/
def contents (s : Session) (c : Contents) : List Request → Contents
  | [] => c
  | r :: rs =>
    match s.step r with
    | .ok (a, t) => t.contents (contentsAfter s t c r a) rs
    | .error _ => c

/-- Whether `x` is a usable byte of a block that is held. -/
def Owns (s : Session) (x : Nat) : Prop := ∃ b ∈ s.held, b.ptr ≤ x ∧ x < b.ptr + s.usable b.ptr

/-- The contents are in blocks that are held, and can be read there. -/
def Remembers (s : Session) (c : Contents) : Prop :=
  ∀ x v, c x = some v → s.Owns x ∧ s.heap.memory.byte x = v

variable {s t : Session} {l : Ledger} {r : Request} {rs : List Request} {a : Answer} {c : Contents}
  {as : List Answer} {p q n x : Nat} {b : Holding}

lemma Unharmed.owns (u : s.Unharmed t rs b) (h1 : b.ptr ≤ x) (h2 : x < b.ptr + s.usable b.ptr) :
    t.Owns x := by
  obtain ⟨hb, husable, -⟩ := u
  exact ⟨b, hb, h1, husable.symm ▸ h2⟩

/-- What a request leaves as it is, if it is not called on the block that has `x`. -/
lemma Has.remembers_other {v : UInt8} (k : s.Has l) (hr : s.Allows r) (e : s.step r = .ok (a, t))
    (hb : b ∈ s.held) (hret : r.returns ≠ some b.ptr) (h1 : b.ptr ≤ x) (h2 : x < b.ptr + s.usable b.ptr)
    (hx : ¬ r.stores x) (hv : s.heap.memory.byte x = v) : t.Owns x ∧ t.heap.memory.byte x = v := by
  have u := k.unharmed_step hr e hb hret
  refine ⟨u.owns h1 h2, (u.2.2 x h1 h2 fun r' hr' => ?_).trans hv⟩
  exact List.mem_singleton.mp hr' ▸ hx

lemma Has.remembers_write {addr : Nat} {byte : UInt8} (k : s.Has l) (hr : s.Allows (.write addr byte))
    (e : s.step (.write addr byte) = .ok (a, t)) (m : s.Remembers c) :
    t.Remembers (Function.update c addr (some byte)) := by
  intro x v hx
  by_cases hxa : x = addr
  · subst hxa
    rw [Function.update_self] at hx
    obtain ⟨b, hb, h1, h2⟩ := id hr
    have u := k.unharmed_step hr e hb (by simp [Request.returns])
    exact ⟨u.owns h1 h2, (k.stored hr e).trans (Option.some.inj hx)⟩
  · rw [Function.update_of_ne hxa] at hx
    obtain ⟨⟨b, hb, h1, h2⟩, hv⟩ := m x v hx
    exact k.remembers_other hr e hb (by simp [Request.returns]) h1 h2 hxa hv

/-- A block handed back takes its contents with it. -/
lemma Has.remembers_drop (k : s.Has l) (hr : s.Allows r) (e : s.step r = .ok (a, t)) (m : s.Remembers c)
    (hret : ∀ q, r.returns = some q → q = p) (hst : ∀ x, ¬ r.stores x) :
    t.Remembers (c.drop p (s.usable p)) := by
  intro x v hx
  obtain ⟨hnot, hx⟩ := Contents.drop_eq_some.mp hx
  obtain ⟨⟨b, hb, h1, h2⟩, hv⟩ := m x v hx
  refine k.remembers_other hr e hb (fun he => hnot ?_) h1 h2 (hst x) hv
  rw [← hret _ he]
  exact ⟨h1, h2⟩

lemma Has.remembers_clear (k : s.Has l) (e : s.step (.allocateZeroed n) = .ok (.ok (some q), t))
    (m : s.Remembers c) : t.Remembers (c.clear q n) := by
  obtain ⟨hheld, hplaced, -⟩ := k.delivered (r := .allocateZeroed n) trivial e
  have hroomy : n ≤ t.usable q := hplaced.roomy
  intro x v hx
  unfold Contents.clear at hx
  split at hx
  · next hin =>
    obtain rfl := Option.some.inj hx
    refine ⟨⟨⟨q, n⟩, hheld ▸ List.mem_cons_self, hin.1, show x < q + t.usable q by omega⟩, ?_⟩
    have hzero := k.zeroed e (x - q) (by omega)
    rwa [Nat.add_sub_cancel' hin.1] at hzero
  · obtain ⟨⟨b, hb, h1, h2⟩, hv⟩ := m x v hx
    exact k.remembers_other (r := .allocateZeroed n) trivial e hb (by simp [Request.returns]) h1 h2 id hv

/-- What is left of a block that is resized in place keeps its contents. -/
lemma Has.remembers_inPlace (k : s.Has l) (hp : s.holds p)
    (e : s.step (.resize p n) = .ok (.ok (some p), t)) (m : s.Remembers c) :
    t.Remembers (c.drop (p + t.usable p) (s.usable p - t.usable p)) := by
  obtain ⟨hheld, -, -⟩ := k.delivered (r := .resize p n) hp e
  have hnew : (⟨p, n⟩ : Holding) ∈ t.held := hheld ▸ List.mem_cons_self
  intro x v hx
  obtain ⟨hnot, hx⟩ := Contents.drop_eq_some.mp hx
  obtain ⟨⟨b, hb, h1, h2⟩, hv⟩ := m x v hx
  by_cases hbp : b.ptr = p
  · rw [hbp] at h1 h2
    have h3 : x < p + t.usable p := by omega
    exact ⟨⟨_, hnew, h1, h3⟩,
      (k.lasts (r := .resize p n) hp e hp ⟨_, hnew, rfl⟩ h1 h3 id).trans hv⟩
  · exact k.remembers_other (r := .resize p n) hp e hb (fun he => hbp (Option.some.inj he).symm) h1 h2 id hv

/-- The contents of a block that is moved are in the new one. -/
lemma Has.remembers_moved (k : s.Has l) (hp : s.holds p)
    (e : s.step (.resize p n) = .ok (.ok (some q), t)) (m : s.Remembers c) :
    t.Remembers ((c.copy p q (min (s.usable p) n)).drop p (s.usable p)) := by
  obtain ⟨hheld, hplaced, -⟩ := k.delivered (r := .resize p n) hp e
  have hroomy : n ≤ t.usable q := hplaced.roomy
  intro x v hx
  obtain ⟨hnot, hx⟩ := Contents.drop_eq_some.mp hx
  unfold Contents.copy at hx
  split at hx
  · next hin =>
    obtain ⟨-, hv⟩ := m _ v hx
    refine ⟨⟨⟨q, n⟩, hheld ▸ List.mem_cons_self, hin.1, show x < q + t.usable q by omega⟩, ?_⟩
    have hcopy := k.carried hp e (x - q) (by omega)
    rw [Nat.add_sub_cancel' hin.1] at hcopy
    exact hcopy.trans hv
  · obtain ⟨⟨b, hb, h1, h2⟩, hv⟩ := m x v hx
    refine k.remembers_other (r := .resize p n) hp e hb (fun he => hnot ?_) h1 h2 id hv
    obtain rfl : p = b.ptr := Option.some.inj he
    exact ⟨h1, h2⟩

/-- **A step keeps the contents** as they should be after it. -/
lemma Has.remembers_step (k : s.Has l) (hr : s.Allows r) (e : s.step r = .ok (a, t))
    (m : s.Remembers c) : t.Remembers (contentsAfter s t c r a) := by
  have hfailed : ∀ x, a = .error x → t.Remembers c := by
    rintro x rfl y v hy
    obtain ⟨⟨b, hb, h1, h2⟩, hv⟩ := m y v hy
    have u := k.unharmed_error hr e hb
    exact ⟨u.owns h1 h2, (u.2.2 y h1 h2 fun _ h => absurd h List.not_mem_nil).trans hv⟩
  have hother : r.returns = none → (∀ y, ¬ r.stores y) → t.Remembers c := by
    intro hret hst y v hy
    obtain ⟨⟨b, hb, h1, h2⟩, hv⟩ := m y v hy
    exact k.remembers_other hr e hb (by simp [hret]) h1 h2 (hst y) hv
  obtain ⟨hans, -, -⟩ := k.of_step hr e
  cases r with
  | allocate | allocateAligned => exact hother rfl fun y => id
  | allocateZeroed n =>
    rcases a with x | _ | q
    · exact hfailed x rfl
    · exact hother rfl fun y => id
    · exact k.remembers_clear e m
  | release p =>
    cases hans
    exact k.remembers_drop hr e m (fun q he => (Option.some.inj he).symm) fun y => id
  | resize p n =>
    rcases a with x | _ | q
    · exact hfailed x rfl
    · exact k.remembers_drop hr e m (fun q he => (Option.some.inj he).symm) fun y => id
    · show t.Remembers (if q = p then _ else _)
      split
      · next hq =>
        subst hq
        exact k.remembers_inPlace hr e m
      · exact k.remembers_moved hr e m
  | write addr byte =>
    cases hans
    exact k.remembers_write hr e m

/-- **A run keeps the contents.** -/
lemma Has.remembers_run (k : s.Has l) (hrun : s.Run rs as t) (m : s.Remembers c) :
    t.Remembers (s.contents c rs) := by
  induction hrun generalizing l c with
  | nil s => exact m
  | cons hr e _ ih =>
    obtain ⟨-, k', -⟩ := k.of_step hr e
    unfold contents
    rw [e]
    exact ih k' (k.remembers_step hr e m)

end Session

end BoundaryTag
