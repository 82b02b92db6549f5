import BoundaryTag.Proofs.Delivery
import BoundaryTag.Proofs.Heap.Cutting

/-!
Blocks that are resized.

A block that is large enough stays where it is, and what it has too much is cut off. One that is not is
copied to a new block and released, or left alone if there is no memory for that. A resize to nothing is a
release.
-/

namespace BoundaryTag

open Heap HeapM Piece

namespace Session

/-- A block that is resized to `need` bytes where it is. What is cut off is free, with what was free behind
it, and no page is asked for. -/
structure Trims (s t : Session) (p need : Nat) : Prop where
  cut : CutOut ⟨p, s.usable p + wordSize, .live⟩ p need s.heap t.heap
  size : Snug need (t.usable p + wordSize)
  arena : t.heap.arena = s.heap.arena

/-- A block that is moved to `q`, where it has `n` bytes. All of its usable bytes are found again there, and
it is released: nothing can be done with it any more. -/
structure Moves (s t : Session) (p q n : Nat) : Prop where
  fresh : q ≠ p ∧ ¬ s.holds q
  size : ∃ need, blockSize? n = some need ∧ Snug need (t.usable q + wordSize)
  roomy : n ≤ t.usable q
  copied : Copied s.heap t.heap p q (s.usable p)
  gone : ¬ t.holds p
  revoked : t.Revoked p

end Session

namespace Ledger

variable {l : Ledger} {n need p : Nat} {b : Piece}

lemma resize_in_place (hs : l.Sound) (hb : b ∈ l.live) (hn : 0 < n) (hneed : blockSize? n = some need)
    (hle : need ≤ b.size) : l.resize b.payload n = (.ok (some b.payload), l.trim b.payload need) := by
  unfold resize
  rw [if_neg hn.ne', hneed]
  dsimp only
  rw [hs.sizeAt_eq hb.1, if_pos hle]

/-- A block that is too small is the answer of no resize. -/
lemma resize_too_small (hs : l.Sound) (hb : b ∈ l.live) (hn : 0 < n)
    (hlt : ∀ need, blockSize? n = some need → b.size < need) :
    (l.resize b.payload n).1 = .error (.outOfMemory n) ∨
      ∃ q, (l.resize b.payload n).1 = .ok (some q) ∧ ∀ d ∈ l.live, d.payload ≠ q := by
  unfold resize
  rw [if_neg hn.ne']
  rcases hneed : blockSize? n with _ | need
  · exact .inl rfl
  · obtain ⟨hmin, hmod, -⟩ := blockSize?_some hneed
    have hserved := served_obtainBlock hmin hmod hs
    dsimp only
    rw [hs.sizeAt_eq hb.1, if_neg (Nat.not_le.mpr (hlt need hneed))]
    rcases ho : l.obtainBlock need with ⟨_ | q, l'⟩ <;> rw [ho] at hserved
    · exact .inl rfl
    · exact .inr ⟨q, rfl, hserved.2.2⟩

end Ledger

/-! ### To nothing -/

/-- **A resize to nothing is a release**, whatever the heap and the pointer. -/
lemma serve_resize_zero (h : Heap) (p : Nat) :
    (Request.resize p 0).serve h = (Request.release p).serve h := by
  show (RequestM.resize p 0).run h = (HeapM.release p >>= fun _ => pure (.ok none)) h
  unfold RequestM.resize HeapM.release
  rcases hvalid : HeapM.demandValid p h with e | ⟨_, h1⟩
  · rw [RequestM.lift_halt hvalid, bind_halt (bind_halt hvalid)]
  · rw [RequestM.bind_run (RequestM.lift_run hvalid), if_pos rfl]
    rcases hrun : HeapM.releaseBlock p h1 with e | ⟨_, h2⟩
    · rw [RequestM.lift_halt hrun, bind_halt ((bind_run hvalid).trans hrun)]
    · rw [RequestM.bind_run (RequestM.lift_run hrun), bind_run ((bind_run hvalid).trans hrun)]
      rfl

namespace Session

variable {s t : Session} {l : Ledger} {n need p q : Nat}

lemma step_resize_zero (s : Session) (p : Nat) : s.step (.resize p 0) = s.step (.release p) := by
  unfold step
  rw [serve_resize_zero]
  rfl

/-! ### In place -/

lemma Has.trims (k : s.Has l) (hp : s.holds p) (hn : 0 < n) (hneed : blockSize? n = some need)
    (hle : need ≤ s.usable p + wordSize) :
    ∃ t, s.step (.resize p n) = .ok (.ok (some p), t) ∧ s.Trims t p need := by
  obtain ⟨m, hm, husable, hlen⟩ := k.block hp
  obtain ⟨hmin, hmod, -⟩ := blockSize?_some hneed
  have hc : s.usable p + wordSize = m := by
    unfold minBlock wordSize at *
    omega
  rw [hc] at hle
  obtain ⟨t, e, k', -⟩ := k.step (r := .resize p n) hp
  have hans : l.resize p n = (.ok (some p), l.trim p need) :=
    Ledger.resize_in_place (b := ⟨p, m, .live⟩) k.sound hm hn hneed hle
  rw [Ledger.answer, hans] at e k'
  refine ⟨t, e, ?_, ?_, k.arena_eq k' (Ledger.arena_trim p need)⟩
  · have hskip : l.skipTo p p = l := if_pos rfl
    rw [hc]
    refine k.shows.cutOut (b := ⟨p, m, .live⟩) k.sound hm (.inl rfl) hmin hmod ?_ ?_ ?_
    · show need ≤ p + m - p
      omega
    · exact hskip.symm ▸ k'.sound
    · exact hskip.symm ▸ k'.shows
  · obtain ⟨need', hneed', hsize⟩ := k'.snug (b := ⟨p, n⟩) (held_of_step e ▸ List.mem_cons_self)
    obtain rfl : need = need' := Option.some.inj (hneed.symm.trans hneed')
    exact hsize

/-! ### Elsewhere -/

/-- A block that is too small has fewer usable bytes than are asked for. -/
lemma usable_le {m : Nat} (hneed : blockSize? n = some need) (hlt : m < need) (hmod : m % alignment = 0)
    (hc : s.usable p + wordSize = m) (hmin : minBlock ≤ m) : s.usable p ≤ n := by
  obtain ⟨-, hnmod, -, hle, -⟩ := blockSize?_some hneed
  unfold minBlock wordSize alignment at *
  omega

lemma Has.moves (k : s.Has l) (hp : s.holds p) (hn : 0 < n)
    (hlt : ∀ need, blockSize? n = some need → s.usable p + wordSize < need) :
    (∃ t, s.step (.resize p n) = .ok (.error (.outOfMemory n), t) ∧ t.held = s.held ∧
      ∀ b ∈ s.held, s.Unharmed t [] b) ∨
    ∃ q t, s.step (.resize p n) = .ok (.ok (some q), t) ∧ s.Moves t p q n := by
  obtain ⟨m, hm, husable, hlen⟩ := k.block hp
  have hmmod : m % alignment = 0 := ((k.sound.tiled hm.1).bounds hm.1).2.2.2
  have hc : s.usable p + wordSize = m := by
    unfold minBlock wordSize at *
    omega
  rw [hc] at hlt
  obtain ⟨t, e, k', -⟩ := k.step (r := .resize p n) hp
  rcases Ledger.resize_too_small (b := ⟨p, m, .live⟩) k.sound hm hn hlt with hans | ⟨q, hans, hnew⟩
  · replace e : s.step (.resize p n) = .ok (.error (.outOfMemory n), t) := hans ▸ e
    exact .inl ⟨t, e, held_of_step e, fun b hb => k.unharmed_error (r := .resize p n) hp e hb⟩
  · replace e : s.step (.resize p n) = .ok (.ok (some q), t) := hans ▸ e
    have hne : q ≠ p := fun he => hnew _ hm he.symm
    have hsome : (some q : Option Nat) ≠ some p := fun he => hne (Option.some.inj he)
    obtain ⟨hheld, hplaced, -⟩ := k.delivered (r := .resize p n) hp e
    have hroomy : n ≤ t.usable q := hplaced.roomy
    refine .inr ⟨q, t, e, ⟨hne, ?_⟩, ?_, hroomy, ?_, gone_of_returns rfl e hsome,
      k.revokes (r := .resize p n) hp rfl e hsome⟩
    · rintro hq
      obtain ⟨d, hd, rfl, hu⟩ := (k.holds_iff q).mp hq
      exact hnew d ⟨hd, hu⟩ rfl
    · exact k'.snug (b := ⟨q, n⟩) (hheld ▸ List.mem_cons_self)
    · obtain ⟨need, hneed, -⟩ := k'.snug (b := ⟨q, n⟩) (hheld ▸ List.mem_cons_self)
      rw [← min_eq_left (usable_le hneed (hlt need hneed) hmmod hc hlen)]
      exact k.carried hp e

end Session

/-- **A resize, from end to end.** In every session that a run ends in, let a block be resized to `n` bytes. If
it is as large as they need, the request succeeds: the block stays where it is, what is cut off is free in one
block with what was free behind it, and no page is asked for. Else there is no memory for it and all blocks
are as they were, or all bytes of the block are found again in another one, and it is released. What is
answered begins with the bytes of the block, as many as fit, and all other blocks keep theirs. A resize to
nothing is a release. -/
theorem resize_from_end_to_end {s : Session} {p n : Nat} (hs : s.Reachable) (hp : s.holds p) (hn : 0 < n) :
    (∀ need, blockSize? n = some need → need ≤ s.usable p + wordSize →
      ∃ t, s.step (.resize p n) = .ok (.ok (some p), t) ∧ s.Trims t p need) ∧
    ((∀ need, blockSize? n = some need → s.usable p + wordSize < need) →
      (∃ t, s.step (.resize p n) = .ok (.error (.outOfMemory n), t) ∧ t.held = s.held ∧
        ∀ b ∈ s.held, s.Unharmed t [] b) ∨
      ∃ q t, s.step (.resize p n) = .ok (.ok (some q), t) ∧ s.Moves t p q n) ∧
    (∀ q t, s.step (.resize p n) = .ok (.ok (some q), t) →
      t.held = ⟨q, n⟩ :: s.held.filter (fun b => b.ptr ≠ p) ∧
      Copied s.heap t.heap p q (min (s.usable p) n) ∧ ∀ b ∈ s.held, b.ptr ≠ p → s.Unharmed t [] b) ∧
    s.step (.resize p 0) = s.step (.release p) := by
  obtain ⟨l, k⟩ := hs.has_ledger
  refine ⟨fun need hneed hle => k.trims hp hn hneed hle, k.moves hp hn, fun q t e => ?_,
    s.step_resize_zero p⟩
  obtain ⟨hheld, -, -⟩ := k.delivered (r := .resize p n) hp e
  have hret : ∀ b : Holding, (Request.resize p n).returns ≠ some b.ptr ↔ b.ptr ≠ p := fun b =>
    not_congr (Option.some_inj.trans eq_comm)
  refine ⟨?_, k.carried hp e, fun b hb hne => ?_⟩
  · simp only [hret] at hheld
    exact hheld
  · exact (k.unharmed_step (r := .resize p n) hp e hb ((hret b).mpr hne)).of_not_stores fun _ => id

/-- Here 496 bytes are cut off, and join the free block behind them. -/
theorem resize_joins_free_successor :
    ∃ s t : Session, s.step (.resize 4112 100) = .ok (.ok (some 4112), t) ∧ s.Trims t 4112 112 ∧
      s.heap.blocks = .ok [⟨4112, 608, true, true⟩, ⟨4720, 3472, false, true⟩] ∧
      t.heap.blocks = .ok [⟨4112, 112, true, true⟩, ⟨4224, 3968, false, true⟩] := by
  obtain ⟨as, s, hs⟩ := Session.sample_serves [.allocate 600] (by decide +kernel)
  have hholds : s.holds 4112 := Session.shown hs (by decide +kernel)
  have husable : s.usable 4112 = 600 := Session.shown hs (by decide +kernel)
  have hblocks : s.heap.blocks = .ok [⟨4112, 608, true, true⟩, ⟨4720, 3472, false, true⟩] :=
    Session.shown hs (by decide +kernel)
  have hafter : (s.step (.resize 4112 100)).bind (·.2.heap.blocks) =
      .ok [⟨4112, 112, true, true⟩, ⟨4224, 3968, false, true⟩] :=
    Session.shown hs (by decide +kernel)
  obtain ⟨hplace, -⟩ := resize_from_end_to_end (Session.sample_reachable hs) hholds (n := 100) (by decide)
  obtain ⟨t, e, htrims⟩ := hplace 112 (by decide) (by rw [husable]; decide)
  rw [e] at hafter
  exact ⟨s, t, e, htrims, hblocks, hafter⟩

end BoundaryTag
