import BoundaryTag.Heap.Walk
import BoundaryTag.Proofs.Session

/-!
Blocks handed back twice.

A pointer that was just handed back is refused, so that a second release or resize of it ends the run.
That holds whatever became of the block: on a quick list, among the free blocks, or merged with a free
block before it, where a walk does not come by it any more.
-/

namespace BoundaryTag

open Heap HeapM Piece

namespace Session

/-- A pointer is no longer good for anything. -/
structure Revoked (s : Session) (p : Nat) : Prop where
  check : (s.heap.check p).run = .ok (.error (.invalidPointer p .notAllocated))
  release : s.step (.release p) = .error (.invalidPointer p .notAllocated)
  resize : ∀ n, s.step (.resize p n) = .error (.invalidPointer p .notAllocated)

variable {s t : Session} {l : Ledger} {b : Piece}

lemma revoked_of_refuses {p : Nat} (r : s.heap.Refuses p) : s.Revoked p :=
  ⟨r.check, step_of_halt (bind_halt r.release), fun n => step_of_halt (r.resize n)⟩

lemma Has.release_revokes (k : s.Has l) (hb : b ∈ l.live) :
    ∃ t, s.step (.release b.payload) = .ok (.ok none, t) ∧ t.Revoked b.payload := by
  obtain ⟨h, hrun, -⟩ := k.shows.releaseBlock k.sound hb
  have hrelease : HeapM.release b.payload s.heap = .ok ((), h) :=
    (bind_run (k.shows.demandValid k.sound hb)).trans hrun
  exact ⟨_, step_of_serve ((bind_run hrelease).trans rfl),
    revoked_of_refuses (k.shows.releaseBlock_refuses k.sound hb hrun)⟩

end Session

/-- **A pointer handed back twice is caught**: after it was released, or resized to nothing, or resized
with another address for answer, it is refused. -/
theorem double_free_caught {s : Session} {p : Nat} (hs : s.Reachable) (hp : s.holds p) :
    (∃ t, s.step (.release p) = .ok (.ok none, t) ∧ t.Revoked p) ∧
    (∃ t, s.step (.resize p 0) = .ok (.ok none, t) ∧ t.Revoked p) ∧
    ∀ n q t, s.step (.resize p n) = .ok (.ok (some q), t) → q ≠ p → t.Revoked p := by
  obtain ⟨l, k⟩ := hs.has_ledger
  obtain ⟨b, hmem, rfl, hu⟩ := (k.holds_iff p).mp hp
  have hb : b ∈ l.live := ⟨hmem, hu⟩
  refine ⟨k.release_revokes hb, ?_, fun n q t e hne => ?_⟩
  · obtain ⟨h, hrun, -, -, hgone, -⟩ := k.shows.resize 0 k.sound hb
    exact ⟨_, Session.step_of_serve hrun, Session.revoked_of_refuses (hgone rfl)⟩
  · obtain ⟨h, hrun, -, -, -, hmoved⟩ := k.shows.resize n k.sound hb
    rw [Session.step_of_serve (r := .resize b.payload n) hrun] at e
    obtain ⟨hans, rfl⟩ := Prod.mk.inj (Except.ok.inj e)
    exact Session.revoked_of_refuses (hmoved q hans hne).2

/-- Here the block is merged with one before it. -/
theorem double_free_caught_after_merge :
    ∃ s t : Session, s.step (.release 4624) = .ok (.ok none, t) ∧
      t.heap.blocks = .ok [⟨4112, 4080, false, true⟩] ∧ t.Revoked 4624 := by
  obtain ⟨as, s, hs⟩ := Session.sample_serves [.allocate 500, .allocate 600, .release 4112] (by decide +kernel)
  have hholds : s.holds 4624 := Session.shown hs (by decide +kernel)
  have hblocks : (s.step (.release 4624)).bind (·.2.heap.blocks) = .ok [⟨4112, 4080, false, true⟩] :=
    Session.shown hs (by decide +kernel)
  obtain ⟨⟨t, e, hrevoked⟩, -⟩ := double_free_caught (Session.sample_reachable hs) hholds
  rw [e] at hblocks
  exact ⟨s, t, e, hblocks, hrevoked⟩

end BoundaryTag
