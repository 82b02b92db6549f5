import BoundaryTag.Proofs.Heap.Exhausting
import BoundaryTag.Proofs.Session

/-!
Running out of memory.

A request that fails for want of memory may have got pages before one was refused. They are in the free
block at the end of the heap. To the clients nothing has happened, and if no page was granted, nothing has
happened to the heap either.
-/

namespace BoundaryTag

open Heap HeapM Piece

namespace Session

/-- What a request that failed for want of memory has left as it was, when `k` pages were granted. -/
structure Spared (s t : Session) (k : Nat) : Prop where
  held : t.held = s.held
  header : ∀ b ∈ s.held, t.heap.tagAt b.ptr = s.heap.tagAt b.ptr
  bytes : ∀ b ∈ s.held, ∀ x, b.ptr ≤ x + wordSize → x < b.ptr + s.usable b.ptr →
    t.heap.memory.byte x = s.heap.memory.byte x
  quick : t.heap.quick = s.heap.quick
  pages : t.heap.arena.pages = s.heap.arena.pages + k
  walk : ∃ bs bs', s.heap.blocks = .ok bs ∧ t.heap.blocks = .ok bs' ∧
    Lengthened t.heap.firstPayload (k * pageSize) bs bs'
  unmoved : k = 0 → Unmoved s.heap t.heap

variable {s t : Session} {l l' : Ledger} {k : Nat}

/-- The first block of the region is where the heap says. -/
lemma lengthened_first {h : Heap} (g : Grown s.heap l k h l') (hs : l.Sound) :
    Lengthened h.firstPayload (k * pageSize) (Piece.walk true l.pieces)
      (Piece.walk true l'.pieces) := by
  have hfirst : l'.first = l.first := congrArg (· + 2 * wordSize) g.base
  have hpages := g.pages
  by_cases h0 : l'.arena.pages = 0
  · obtain rfl : k = 0 := by omega
    rw [g.sound.empty h0, hs.empty (by omega), Nat.zero_mul]
    exact .same _
  · rw [g.shows.first_eq h0, hfirst]
    exact g.walk

/-- **Growth alone spares** what clients hold. -/
lemma Has.spared {h : Heap} (c : s.Has l) (g : Grown s.heap l k h l') : s.Spared ⟨h, s.held⟩ k := by
  have hused : ∀ b ∈ s.held, ∃ n, s.usable b.ptr = n - wordSize ∧
      (⟨b.ptr, n, .live⟩ : Piece) ∈ l.used := by
    intro b hb
    obtain ⟨-, n, -, -, hn⟩ := c.live b hb
    exact ⟨n, c.usable_eq (b := ⟨b.ptr, n, .live⟩) hn, hn.1, show Use.live ≠ .free by decide⟩
  refine ⟨rfl, fun b hb => ?_, fun b hb x h1 h2 => g.bytes x fun hclear => ?_, g.quick, ?_,
    ⟨_, _, c.shows.blocks c.sound, g.shows.blocks g.sound, lengthened_first g c.sound⟩, g.unmoved⟩
  · obtain ⟨n, -, hn⟩ := hused b hb
    have h1 := (c.shows.legible c.sound hn.1).tag
    have h2 := (g.shows.legible g.sound (g.used hn).1).tag
    exact h2.trans ((congrArg Except.ok (g.header _ hn)).trans h1.symm)
  · obtain ⟨n, husable, hn⟩ := hused b hb
    have hlen : minBlock ≤ n := ((c.sound.tiled hn.1).bounds hn.1).2.2.1
    refine hclear _ hn ⟨h1, ?_⟩
    simp only [Piece.stop]
    unfold minBlock wordSize at *
    omega
  · rw [g.shows.arena, c.shows.arena, g.pages]

end Session

/-- **Running out of memory spares everything but the end of the heap.** When a request that clients may
make in a session that a run ends in fails for want of memory, they hold what they held, with all its
bytes, and the quick slots are the same. The walk is longer by the pages that were granted, which are in
the free block at its end. If there are none, all bytes, heads and the last block are the same. -/
theorem spared_when_out_of_memory {s t : Session} {r : Request} {n : Nat} (hs : s.Reachable)
    (hr : s.Allows r) (e : s.step r = .ok (.error (.outOfMemory n), t)) : ∃ k, s.Spared t k := by
  obtain ⟨l, c⟩ := hs.has_ledger
  obtain ⟨h, hrun, -⟩ := c.shows.serve_request c.sound (c.permitted hr)
  rw [Session.step_of_serve hrun] at e
  obtain ⟨hans, rfl⟩ := Prod.mk.inj (Except.ok.inj e)
  rw [hans] at hrun ⊢
  obtain ⟨k, l', g⟩ := c.shows.outOfMemory c.sound hrun
  exact ⟨k, c.spared g⟩

/-- Here one page was granted before the next was refused. -/
theorem spared_after_growth :
    ∃ s t : Session, s.step (.resize 4112 9000) = .ok (.error (.outOfMemory 9000), t) ∧
      s.Spared t 1 := by
  obtain ⟨as, s, hs⟩ := Session.sample_serves [.allocate 24] (by decide +kernel)
  have hholds : s.holds 4112 := Session.shown hs (by decide +kernel)
  have hanswer : (s.step (.resize 4112 9000)).map Prod.fst = .ok (.error (.outOfMemory 9000)) :=
    Session.shown hs (by decide +kernel)
  have hafter : (s.step (.resize 4112 9000)).map (fun x => x.2.heap.arena.pages - s.heap.arena.pages) = .ok 1 :=
    Session.shown hs (by decide +kernel)
  obtain ⟨t, e⟩ := Session.step_of_answer hanswer
  rw [e] at hafter
  have hpages := Except.ok.inj hafter
  obtain ⟨k, spared⟩ := spared_when_out_of_memory (r := .resize 4112 9000)
    (Session.sample_reachable hs) hholds e
  have hk := spared.pages
  simp only at hpages
  obtain rfl : k = 1 := by omega
  exact ⟨s, t, e, spared⟩

end BoundaryTag
