import BoundaryTag.Proofs.Heap.Reading
import BoundaryTag.Proofs.Session

/-!
Ledgers account for sessions.

The ledger answers every request as the heap does, and after any run it has the blocks of the heap and, in
the same order, what is on each of its lists. The clients hold its live blocks. A block that is resized by
moving it has the old bytes.
-/

namespace BoundaryTag

open Heap HeapM Piece

/-- What can be read off a heap is what the ledger says. -/
structure Depicts (h : Heap) (l : Ledger) : Prop where
  arena : h.arena = l.arena
  ready : h.ready = true ↔ l.arena.pages ≠ 0
  blocks : h.blocks = .ok (walk true l.pieces)
  last : ∀ b ∈ l.pieces.getLast?, h.last = b.payload
  main : ∀ c, h.mainList c = .ok (l.main c)
  mainLen : ∀ c : Fin mainLists, h.freeListLen c = .ok (l.main c).length
  quick : ∀ c, h.quickList c = .ok (l.quick c)
  quickLen : ∀ c : Fin quickLists, h.quickListLen c = (l.quick c).length

/-- The heap is as the ledger says, and the clients hold the live blocks. -/
structure Session.Follows (s : Session) (l : Ledger) : Prop where
  depicts : Depicts s.heap l
  holds : ∀ p, s.holds p ↔ ∃ b ∈ l.pieces, b.payload = p ∧ b.use = .live

section Shown

variable {h : Heap} {l : Ledger}

lemma Shows.depicts (hs : l.Sound) (w : Shows h l) : Depicts h l := by
  refine ⟨w.arena, w.ready, w.blocks hs, fun b hb => ?_, w.mainList hs, w.freeListLen hs, w.quickList hs,
    w.quickListLen⟩
  exact (w.mirrors (hs.pages_ne (List.mem_of_getLast? hb))).last b hb

end Shown

namespace Session

variable {s t : Session} {l : Ledger} {r : Request}

lemma Has.follows (k : s.Has l) : s.Follows l := ⟨k.shows.depicts k.sound, k.holds_iff⟩

/-- **A block that is moved** has the bytes that it had, as far as they were asked for. -/
lemma Has.moved {p n q : Nat} (k : s.Has l) (hp : s.holds p)
    (e : s.step (.resize p n) = .ok (.ok (some q), t)) (hne : q ≠ p) :
    Copied s.heap t.heap p q (min (s.usable p) n) := by
  obtain ⟨b, hb, rfl, hu⟩ := (k.holds_iff p).mp hp
  have hlive : b ∈ l.live := ⟨hb, hu⟩
  obtain ⟨h', hrun, -, -, -, hcopy⟩ := k.shows.resize n k.sound hlive
  have hserve : (Request.resize b.payload n).serve s.heap = .ok ((l.resize b.payload n).1, h') := hrun
  unfold Session.step at e
  rw [hserve] at e
  obtain ⟨hans, rfl⟩ := Prod.mk.inj (Except.ok.inj e)
  rw [k.usable_eq hlive]
  exact (hcopy q hans hne).1

end Session

/-- **The ledger is what the heap does.** A run on a new heap gives the answers that the ledger gives, and
ends with its blocks and lists, in their order. Each request that clients may make next is answered as by
the ledger again, and if it moves a block, the bytes move with it. -/
theorem follows_ledger {arena : Arena} {memory : Memory} {strict : Bool} {rs : List Request}
    {as : List Answer} {s : Session} (hfresh : arena.Fresh memory)
    (hrun : (Session.start arena memory strict).Run rs as s) :
    let l := ((Ledger.new arena).run rs).2
    as = ((Ledger.new arena).run rs).1 ∧ s.Follows l ∧
    (∀ r, s.Allows r → ∃ t, s.step r = .ok ((l.answer r).1, t) ∧ t.Follows (l.answer r).2) ∧
    ∀ p n q t, s.holds p → s.step (.resize p n) = .ok (.ok (some q), t) → q ≠ p →
      Copied s.heap t.heap p q (min (s.usable p) n) := by
  obtain ⟨has, k⟩ := (Session.has_start hfresh.conforms strict).run hrun
  refine ⟨has, k.follows, fun r hr => ?_, fun p n q t => k.moved⟩
  obtain ⟨t, e, k', -⟩ := k.step hr
  exact ⟨t, e, k'.follows⟩

theorem follows_ledger_before_move :
    ∃ s t : Session, s.Follows ((Ledger.new (.ofBuffer 4096 8192 0x5bd1e995)).run
        [.allocate 24, .allocate 500]).2 ∧
      s.step (.resize 4112 600) = .ok (.ok (some 4656), t) ∧
      Copied s.heap t.heap 4112 4656 (min (s.usable 4112) 600) := by
  obtain ⟨as, s, hs⟩ := Session.sample_serves [.allocate 24, .allocate 500] (by decide +kernel)
  have hholds : s.holds 4112 := Session.shown hs (by decide +kernel)
  have hanswer : (s.step (.resize 4112 600)).map Prod.fst = .ok (.ok (some 4656)) :=
    Session.shown hs (by decide +kernel)
  obtain ⟨t, e⟩ := Session.step_of_answer hanswer
  obtain ⟨-, hfollows, -, hmoved⟩ := follows_ledger Session.sample_fresh (.of_serveAll hs)
  exact ⟨s, t, hfollows, e, hmoved _ _ _ _ hholds e (by decide)⟩

end BoundaryTag
