import BoundaryTag.Proofs.Isolation
import BoundaryTag.Proofs.Refinement
import BoundaryTag.Proofs.Revocation

/-!
What a step delivers.

A block that clients hold before a step and after it has the bytes that it had, whether the step was called
on it or not. A request that fails takes nothing from them. One that is granted gives them a block apart
from all others, with zeros if it asked for them, or with what was in the block that it was called on.
-/

namespace BoundaryTag

open Heap HeapM Piece

namespace Request

/-- A request that hands nothing back leaves all that is held. -/
lemma filter_returns {r : Request} (h : r.returns = none) (held : List Holding) :
    (held.filter fun b => r.returns ≠ some b.ptr) = held := by
  rw [h]
  exact List.filter_eq_self.mpr fun b _ => rfl

/-- The request for a block of an alignment. All blocks have the small ones. -/
def aligned (size align : Nat) : Request :=
  if align.isPowerOfTwo ∧ align ≤ alignment then .allocate size else .allocateAligned size align

variable (n align : Nat)

lemma size_aligned : (aligned n align).size = n := by
  unfold aligned
  split <;> rfl

lemma returns_aligned : (aligned n align).returns = none := by
  unfold aligned
  split <;> rfl

lemma misaligned_aligned : (aligned n align).Misaligned ↔ ¬ align.isPowerOfTwo := by
  unfold aligned
  split
  · next hsmall => exact ⟨False.elim, fun h => h hsmall.1⟩
  · next hgreat =>
    refine ⟨fun h h2 => ?_, .inl⟩
    have hle := minBlock_le_of_isPowerOfTwo h2 fun hle => hgreat ⟨h2, hle⟩
    exact h.elim (fun hnot => hnot h2) (Nat.not_lt.mpr hle)

lemma not_stores_aligned (x : Nat) : ¬ (aligned n align).stores x := by
  unfold aligned
  split <;> exact id

end Request

namespace Session

lemma allows_aligned (s : Session) (n align : Nat) : s.Allows (.aligned n align) := by
  unfold Request.aligned
  split <;> trivial

variable {s t : Session} {l : Ledger} {r : Request} {a : Answer} {p q n : Nat}

/-- **A block that is held before a step and after it** has the bytes that it had, but for the one that a
client stores. -/
lemma Has.lasts {x : Nat} (k : s.Has l) (hr : s.Allows r) (e : s.step r = .ok (a, t)) (hs : s.holds p)
    (ht : t.holds p) (h1 : p ≤ x) (h2 : x < p + t.usable p) (hx : ¬ r.stores x) :
    t.heap.memory.byte x = s.heap.memory.byte x := by
  obtain ⟨-, k', hoff⟩ := k.of_step hr e
  obtain ⟨m, hm, -, -⟩ := k.block hs
  obtain ⟨n, hn, husable, hlen⟩ := k'.block ht
  refine hoff x ?_
  rintro (hout | hst)
  · refine hout _ ⟨hn, _, hm, rfl⟩ ⟨h1, ?_⟩
    rw [husable] at h2
    simp only [Piece.stop]
    unfold minBlock wordSize at *
    omega
  · exact hx hst

/-! ### Failing -/

/-- **A request that fails takes nothing from clients**, be it called on a block of theirs or not. -/
lemma Has.unharmed_error {x : AllocError} {b : Holding} (k : s.Has l) (hr : s.Allows r)
    (e : s.step r = .ok (.error x, t)) (hb : b ∈ s.held) : s.Unharmed t [] b := by
  obtain ⟨hans, k', -⟩ := k.of_step hr e
  have hheld := held_of_step e
  have hset := k.settled hr
  have hbt : b ∈ t.held := hheld ▸ hb
  -- the ledger has the same live blocks, so their sizes are the same
  have husable : t.usable b.ptr = s.usable b.ptr := by
    obtain ⟨n, hn, h1, -⟩ := k.block ⟨b, hb, rfl⟩
    have hlive : (l.answer r).2.live = l.live := by
      rcases hl : l.answer r with ⟨_ | _, l'⟩ <;> rw [hl] at hans hset
      · exact hset.2
      · cases hans
    rw [h1]
    exact k'.usable_eq (b := ⟨b.ptr, n, .live⟩) (hlive ▸ hn)
  have hstores : ∀ y, ¬ r.stores y := by
    intro y hy
    cases r with
    | write => cases hans
    | _ => exact hy
  refine ⟨hbt, husable, fun y h1 h2 _ => ?_⟩
  exact k.lasts hr e ⟨b, hb, rfl⟩ ⟨b, hbt, rfl⟩ h1 (husable ▸ h2) (hstores y)

/-! ### Granting -/

/-- The block that a request is answered with, and the others that are held then. -/
lemma Has.delivered (k : s.Has l) (hr : s.Allows r) (e : s.step r = .ok (.ok (some p), t)) :
    t.held = ⟨p, r.size⟩ :: (s.held.filter fun b => r.returns ≠ some b.ptr) ∧ t.Placed ⟨p, r.size⟩ ∧
      ∀ b ∈ s.held, r.returns ≠ some b.ptr → b.ptr ≠ p := by
  obtain ⟨-, k', -⟩ := k.of_step hr e
  have hheld := held_of_step e
  have hnd := k'.nodup
  rw [hheld] at hnd
  refine ⟨hheld, k'.placed (hheld ▸ List.mem_cons_self), fun b hb hret he => ?_⟩
  refine (List.nodup_cons.mp hnd).1 (List.mem_map.mpr ⟨b, ?_, he⟩)
  exact List.mem_filter.mpr ⟨hb, decide_eq_true hret⟩

/-- **The bytes that were asked for with zeros** are zero. -/
lemma Has.zeroed (k : s.Has l) (e : s.step (.allocateZeroed n) = .ok (.ok (some p), t)) :
    ∀ i < n, t.heap.memory.byte (p + i) = 0 := by
  obtain ⟨h, hrun, -, -, hzero⟩ := k.shows.allocateZeroed n k.sound
  rw [step_of_serve (r := .allocateZeroed n) hrun] at e
  obtain ⟨hans, rfl⟩ := Prod.mk.inj (Except.ok.inj e)
  exact hzero p hans

/-- **What a block is resized to begins with its bytes**, as far as it had them and they were asked for. -/
lemma Has.carried (k : s.Has l) (hp : s.holds p) (e : s.step (.resize p n) = .ok (.ok (some q), t)) :
    Copied s.heap t.heap p q (min (s.usable p) n) := by
  by_cases hq : q = p
  · subst hq
    obtain ⟨hheld, hplaced, -⟩ := k.delivered (r := .resize q n) hp e
    intro i hi
    have hroomy : n ≤ t.usable q := hplaced.roomy
    refine k.lasts (r := .resize q n) hp e hp ⟨_, hheld ▸ List.mem_cons_self, rfl⟩ ?_ ?_ id
    · exact Nat.le_add_right q i
    · omega
  · exact k.moved hp e hq

/-- What a client stores is there. -/
lemma Has.stored {addr : Nat} {byte : UInt8} (k : s.Has l) (hr : s.Allows (.write addr byte))
    (e : s.step (.write addr byte) = .ok (a, t)) : t.heap.memory.byte addr = byte := by
  obtain ⟨b, hb, hx⟩ := k.permitted hr
  obtain ⟨g, hstart, -⟩ := k.shows.word_bounds k.sound hb.1
  have hbase := g.base_le
  obtain ⟨-, rfl⟩ := Prod.mk.inj (Except.ok.inj e)
  refine (Memory.byte_setByte ?_ byte addr).trans (if_pos rfl)
  have := hx.1
  omega

/-- **A block that was asked for with an alignment** is at a multiple of it. -/
lemma Has.mod_aligned {align : Nat} (k : s.Has l)
    (e : s.step (.aligned n align) = .ok (.ok (some p), t)) : p % align = 0 := by
  have hr := s.allows_aligned n align
  obtain ⟨-, hplaced, -⟩ := k.delivered hr e
  obtain ⟨hans, -, -⟩ := k.of_step hr e
  unfold Request.aligned at hans
  split at hans
  · next hsmall => exact mod_of_isPowerOfTwo hsmall.1 hsmall.2 hplaced.aligned
  · exact Ledger.mod_allocateAligned hans.symm

/-! ### Handing back -/

/-- Only what is held may be handed back. -/
lemma holds_of_returns (hr : s.Allows r) (hret : r.returns = some p) : s.holds p := by
  cases r with
  | release q =>
    obtain rfl : q = p := Option.some.inj hret
    exact hr
  | resize q size =>
    obtain rfl : q = p := Option.some.inj hret
    exact hr
  | allocate | allocateZeroed | allocateAligned | write => cases hret

/-- A block that is handed back is no longer held, unless it is the answer. -/
lemma gone_of_returns {x : Option Nat} (hret : r.returns = some p) (e : s.step r = .ok (.ok x, t))
    (hne : x ≠ some p) : ¬ t.holds p := by
  have hkept : ∀ b ∈ s.held.filter fun b => r.returns ≠ some b.ptr, b.ptr ≠ p := by
    rintro b hb rfl
    exact of_decide_eq_true (List.mem_filter.mp hb).2 hret
  rintro ⟨b, hb, hbp⟩
  rw [held_of_step e] at hb
  rcases x with _ | q
  · exact hkept b hb hbp
  · rcases List.mem_cons.mp hb with rfl | hb
    · exact hne (congrArg some hbp)
    · exact hkept b hb hbp

/-- **Then it is no longer good for anything.** -/
lemma Has.revokes {x : Option Nat} (k : s.Has l) (hr : s.Allows r) (hret : r.returns = some p)
    (e : s.step r = .ok (.ok x, t)) (hne : x ≠ some p) : t.Revoked p := by
  cases r with
  | release q =>
    obtain rfl : q = p := Option.some.inj hret
    obtain ⟨n, hn, -⟩ := k.block hr
    obtain ⟨t', e', hrevoked⟩ := k.release_revokes hn
    rw [e] at e'
    cases e'
    exact hrevoked
  | resize q n =>
    obtain rfl : q = p := Option.some.inj hret
    obtain ⟨m, hm, -⟩ := k.block hr
    obtain ⟨h, hrun, -, -, hnone, hmoved⟩ := k.shows.resize n k.sound hm
    rw [step_of_serve (r := .resize q n) hrun] at e
    obtain ⟨hans, ht⟩ := Prod.mk.inj (Except.ok.inj e)
    obtain rfl : h = t.heap := congrArg Session.heap ht
    rcases x with _ | q'
    · exact revoked_of_refuses (hnone (Ledger.answer_none (r := .resize q n) hans))
    · exact revoked_of_refuses (hmoved q' hans fun he => hne (congrArg some he)).2
  | allocate | allocateZeroed | allocateAligned | write => cases hret

lemma Has.release_run (k : s.Has l) (hp : s.holds p) :
    ∃ h, HeapM.release p s.heap = .ok ((), h) ∧
      s.step (.release p) = .ok (.ok none, ⟨h, Session.heldAfter s.held (.release p) (.ok none)⟩) := by
  obtain ⟨n, hn, -⟩ := k.block hp
  obtain ⟨h, hrun, -⟩ := k.shows.release k.sound hn
  exact ⟨h, hrun, step_of_serve ((bind_run hrun).trans rfl)⟩

/-! ### Writing to a block -/

lemma Unharmed.refl {rs : List Request} {b : Holding} (hb : b ∈ s.held) : s.Unharmed s rs b :=
  ⟨hb, rfl, fun _ _ _ _ => rfl⟩

lemma Unharmed.trans {u : Session} {rs' : List Request} {b : Holding} (h : s.Unharmed t rs b)
    (h' : t.Unharmed u rs' b) : s.Unharmed u (rs ++ rs') b := by
  obtain ⟨-, husable, hbytes⟩ := h
  obtain ⟨hb, husable', hbytes'⟩ := h'
  refine ⟨hb, husable'.trans husable, fun x h1 h2 hx => ?_⟩
  calc u.heap.memory.byte x
      = t.heap.memory.byte x :=
        hbytes' x h1 (husable.symm ▸ h2) fun r hr => hx r (List.mem_append_right _ hr)
    _ = s.heap.memory.byte x := hbytes x h1 h2 fun r hr => hx r (List.mem_append_left _ hr)

/-- A heap that shows the same ledger serves the same clients. -/
lemma Has.reheap {h : Heap} (k : s.Has l) (w : Shows h l) : (⟨h, s.held⟩ : Session).Has l :=
  ⟨k.sound, w, k.nodup, k.live, k.held⟩

/-- Work in one block of a client is no matter to the others. -/
lemma Has.unharmed_off {h : Heap} {c : Piece} {b : Holding} (k : s.Has l) (w : Shows h l)
    (hoff : SameOff (Outside (l.live \ {c})) s.heap h) (hb : b ∈ s.held) (hne : b.ptr ≠ c.payload) :
    s.Unharmed ⟨h, s.held⟩ [] b := by
  obtain ⟨n, hn, husable, hlen⟩ := k.block ⟨b, hb, rfl⟩
  refine ⟨hb, ?_, fun x h1 h2 _ => hoff x fun hout => ?_⟩
  · rw [husable]
    exact (k.reheap w).usable_eq (b := ⟨b.ptr, n, .live⟩) hn
  · refine hout _ ⟨hn, fun he => hne (congrArg Piece.payload he)⟩ ⟨h1, ?_⟩
    rw [husable] at h2
    simp only [Piece.stop]
    unfold minBlock wordSize at *
    omega

/-- **A byte stored by a client.** -/
lemma Has.write {addr : Nat} {byte : UInt8} (k : s.Has l) (hr : s.Allows (.write addr byte)) :
    ∃ h, h = { s.heap with memory := s.heap.memory.setByte addr byte } ∧ (⟨h, s.held⟩ : Session).Has l ∧
      ∀ b ∈ s.held, s.Unharmed ⟨h, s.held⟩ [.write addr byte] b := by
  refine ⟨_, rfl, ?_⟩
  have hheld : Session.heldAfter s.held (.write addr byte) (.ok none) = s.held :=
    Request.filter_returns rfl s.held
  have e := step_of_serve (s := s) (r := .write addr byte) rfl
  rw [hheld] at e
  exact ⟨(k.of_step hr e).2.1, fun b hb => k.unharmed_step hr e hb (by simp [Request.returns])⟩

/-- **The first bytes of a client's block stored.** -/
lemma Has.fill (k : s.Has l) (hp : s.holds p) (hn : n ≤ s.usable p) (f : Nat → UInt8) :
    ∃ h, HeapM.storeBytes p n f s.heap = .ok ((), h) ∧ (⟨h, s.held⟩ : Session).Has l ∧
      (∀ i < n, h.memory.byte (p + i) = f i) ∧
      ∀ b ∈ s.held, b.ptr ≠ p → s.Unharmed ⟨h, s.held⟩ [] b := by
  obtain ⟨m, hm, husable, hlen⟩ := k.block hp
  obtain ⟨g, hstart, -⟩ := k.shows.word_bounds k.sound hm.1
  have hbase : s.heap.memory.base ≤ p := g.base_le.trans ((Nat.le_add_right _ _).trans hstart)
  obtain ⟨hreach, w, hoff⟩ := k.shows.setBytes k.sound hm le_rfl (n := n)
    (by simp only [Piece.stop]; unfold minBlock wordSize at *; omega) f
  refine ⟨_, if_pos hreach, k.reheap w, fun i hi => ?_, fun b hb hne => k.unharmed_off w hoff hb hne⟩
  refine (Memory.byte_setBytes hbase f n _).trans ?_
  rw [if_pos (by omega), Nat.add_sub_cancel_left]

/-- **The first bytes of one block copied to another.** -/
lemma Has.copy (k : s.Has l) (hp : s.holds p) (hq : s.holds q) (hn : n ≤ s.usable p)
    (hm : n ≤ s.usable q) :
    ∃ h, HeapM.copyBytes p q n s.heap = .ok ((), h) ∧ (⟨h, s.held⟩ : Session).Has l ∧
      Copied s.heap h p q n ∧ ∀ b ∈ s.held, b.ptr ≠ q → s.Unharmed ⟨h, s.held⟩ [] b := by
  obtain ⟨i, hi, hup, hi'⟩ := k.block hp
  obtain ⟨j, hj, huq, hj'⟩ := k.block hq
  obtain ⟨h, hrun, w, hoff, hcopied⟩ := k.shows.copyInto (n := n) k.sound hi hj
    (by simp only; unfold minBlock wordSize at *; omega)
    (by simp only; unfold minBlock wordSize at *; omega)
  exact ⟨h, hrun, k.reheap w, hcopied, fun b hb hne => k.unharmed_off w hoff hb hne⟩

end Session

end BoundaryTag
