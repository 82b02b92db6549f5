import BoundaryTag.Proofs.Heap.Reading
import BoundaryTag.Proofs.Session

/-!
The size of clients' blocks.

A block that a client holds is as large as the request for it needs, or sixteen bytes larger where the rest
could not stand as a block of its own. Requests that fail do not count: the block fits the last one that
was granted.
-/

namespace BoundaryTag

open Heap Piece

namespace Session

/-- The block of a holding is as large as what was asked for needs, or sixteen bytes larger. -/
structure Fits (s : Session) (b : Holding) : Prop where
  held : b ∈ s.held
  block : ∃ bs, s.heap.blocks = .ok bs ∧ ∃ i ∈ bs, i.payload = b.ptr ∧ i.allocated = true ∧
    ∃ n, blockSize? b.requested = some n ∧ (i.size = n ∨ i.size = n + 16)

variable {s t u : Session} {l : Ledger} {r : Request} {rs : List Request} {as : List Answer}
  {b : Holding}

lemma Has.fits (k : s.Has l) (hb : b ∈ s.held) : s.Fits b := by
  obtain ⟨need, n, hneed, hsnug, hmem, -⟩ := k.live b hb
  obtain ⟨i, hi, hp, hsize, halloc⟩ := walk_mem (f := true) hmem
  refine ⟨hb, _, k.shows.blocks k.sound, i, hi, hp, halloc, need, hneed, ?_⟩
  rw [hsize]
  exact hsnug

/-- A block stays with its client, for what was asked for, through a run in which requests on it fail. -/
lemma Run.mem_held (hrun : s.Run rs as t) (hb : b ∈ s.held)
    (hfail : ∀ x ∈ rs.zip as, x.1.returns = some b.ptr → ∃ e, x.2 = .error e) : b ∈ t.held := by
  induction hrun with
  | nil s => exact hb
  | @cons s s' t r rs a as hr e hrest ih =>
    refine ih ?_ fun x hx => hfail x (List.mem_cons_of_mem _ hx)
    rw [held_of_step e]
    by_cases hret : r.returns = some b.ptr
    · obtain ⟨e', rfl⟩ := hfail (r, a) List.mem_cons_self hret
      exact hb
    · exact mem_heldAfter a hb hret

end Session

/-- **Clients' blocks are as large as needed, or sixteen bytes larger.** That is so for all that is held in
a session that a run ends in, for the request in the holding. And that request is the last one that was
granted: if a next one is answered with a block, and those that follow on the block fail, the block fits
it all the while. -/
theorem fits_of_reachable {s : Session} (hs : s.Reachable) :
    (∀ b ∈ s.held, s.Fits b) ∧
    ∀ r p t rs as u, s.Allows r → s.step r = .ok (.ok (some p), t) → t.Run rs as u →
      (∀ x ∈ rs.zip as, x.1.returns = some p → ∃ e, x.2 = .error e) → u.Fits ⟨p, r.size⟩ := by
  obtain ⟨l, k⟩ := hs.has_ledger
  refine ⟨fun b => k.fits, fun r p t rs as u hr e hrun hfail => ?_⟩
  obtain ⟨t', e', k', -⟩ := k.step hr
  have heq := Except.ok.inj (e.symm.trans e')
  obtain rfl : t = t' := congrArg Prod.snd heq
  have hnew : (⟨p, r.size⟩ : Holding) ∈ t.held := by
    rw [Session.held_of_step e]
    exact List.mem_cons_self
  exact (k'.run hrun).2.fits (hrun.mem_held hnew hfail)

/-- Here the block of 608 bytes that is found is sixteen bytes too large, and a resize of it fails. -/
theorem fits_with_rest :
    ∃ s t u : Session, s.step (.allocate 584) = .ok (.ok (some 4112), t) ∧
      t.Run [.resize 4112 9000] [.error (.outOfMemory 9000)] u ∧ u.Fits ⟨4112, 584⟩ ∧
      blockSize? 584 = some 592 ∧ u.heap.blocks = .ok [⟨4112, 608, true, true⟩, ⟨4720, 32, true, true⟩,
        ⟨4752, 7536, false, true⟩] := by
  have hend : ((Session.sample.serveAll [.allocate 600, .allocate 24, .release 4112]).bind fun x =>
      (x.2.serveAll [.allocate 584]).bind fun y =>
        (y.2.serveAll [.resize 4112 9000]).map fun z => (y.1, z.1, z.2.heap.blocks)) =
      some ([.ok (some 4112)], [.error (.outOfMemory 9000)], .ok [⟨4112, 608, true, true⟩,
        ⟨4720, 32, true, true⟩, ⟨4752, 7536, false, true⟩]) := by
    decide +kernel
  obtain ⟨⟨as, s⟩, hs, hend⟩ := Option.bind_eq_some_iff.mp hend
  obtain ⟨⟨bs, t⟩, ht, hend⟩ := Option.bind_eq_some_iff.mp hend
  obtain ⟨⟨cs, u⟩, hu, hend⟩ := Option.map_eq_some_iff.mp hend
  simp only [Prod.mk.injEq] at hend
  obtain ⟨rfl, rfl, hblocks⟩ := hend
  have hrun : t.Run [.resize 4112 9000] [.error (.outOfMemory 9000)] u := .of_serveAll hu
  cases Session.Run.of_serveAll ht with
  | cons hr e hnil =>
    cases hnil
    refine ⟨s, t, u, e, hrun, ?_, by decide, hblocks⟩
    refine (fits_of_reachable (Session.sample_reachable hs)).2 _ _ _ _ _ _ hr e hrun fun x hx _ => ?_
    obtain rfl := List.mem_singleton.mp hx
    exact ⟨_, rfl⟩

end BoundaryTag
