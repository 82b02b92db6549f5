import BoundaryTag.Proofs.Heap.Exhausting
import BoundaryTag.Proofs.Integrity
import BoundaryTag.Proofs.Ledger.Demand
import BoundaryTag.Proofs.Ledger.Recycling

/-!
Where blocks come from.

A request gets the newest block of the quick list of its size. If that is empty it gets a free block, and
if none is large enough, the block at the end of the heap, after as many pages as this block lacks. A heap
without pages gets its first page before. So the pages that a request needs are known from the walk and the
quick list, the request asks for them and no more, and it fails only if one of them is refused.
-/

namespace BoundaryTag

open Heap HeapM Piece

namespace Heap

/-- The quick list of the blocks of exactly `need` bytes, if they have one. -/
def quickFor (h : Heap) (need : Nat) : Except Halt (List Nat) :=
  (quickClass? need).elim (.ok []) h.quickList

end Heap

/-- One of the blocks is free and has at least `need` bytes. -/
def Offers (need : Nat) (bs : List BlockInfo) : Prop := ∃ b ∈ bs, b.allocated = false ∧ need ≤ b.size

instance (need : Nat) (bs : List BlockInfo) : Decidable (Offers need bs) :=
  inferInstanceAs (Decidable (∃ b ∈ bs, _))

/-- The block at the end of a walk, if it is free. -/
def freeEnd (bs : List BlockInfo) : Option BlockInfo := bs.getLast?.filter fun b => !b.allocated

/-- The pages that a block of `need` bytes takes, where the blocks `qs` are on the quick list of its size and
`bs` are all blocks. -/
def pagesNeeded (need : Nat) (qs : List Nat) (bs : List BlockInfo) : Nat :=
  if qs ≠ [] ∨ Offers need bs then 0 else pagesMissing need ((freeEnd bs).elim 0 BlockInfo.size)

/-- A block of `need` bytes takes `k` pages. In a heap without pages, the first one is among them. -/
inductive Heap.Needs (h : Heap) (need : Nat) : Nat → Prop
  | ready {qs : List Nat} {bs : List BlockInfo} : h.ready = true → h.quickFor need = .ok qs →
    h.blocks = .ok bs → Needs h need (pagesNeeded need qs bs)
  | fresh : h.ready = false → Needs h need (pagesMissing need firstBlock + 1)

/-- How a heap with pages serves a request for `n` bytes, which takes a block of `need` bytes, where the
blocks `qs` are on the quick list of this size and `bs` are all blocks. -/
structure Session.Allots (s : Session) (n need : Nat) (qs : List Nat) (bs : List BlockInfo) : Prop where
  quickList : s.heap.quickFor need = .ok qs
  walk : s.heap.blocks = .ok bs
  lists : ListsOrderly s.heap bs
  /-- The newest block of its size, -/
  quick : ∀ p ps, qs = p :: ps → ∃ t, s.step (.allocate n) = .ok (.ok (some p), t) ∧
    t.heap.quickFor need = .ok ps ∧ t.heap.arena = s.heap.arena
  /-- else a free block, -/
  fit : qs = [] → Offers need bs → ∃ b ∈ bs, b.allocated = false ∧ need ≤ b.size ∧
    ∃ t, s.step (.allocate n) = .ok (.ok (some b.payload), t) ∧ t.heap.arena = s.heap.arena
  /-- else the one at the end, with the pages that it lacks, -/
  growth : qs = [] → ¬ Offers need bs →
    ∀ k, pagesMissing need ((freeEnd bs).elim 0 BlockInfo.size) = k → s.heap.arena.Grants k →
    ∃ t, s.step (.allocate n) =
        .ok (.ok (some ((freeEnd bs).elim s.heap.arena.stop BlockInfo.payload)), t) ∧
      t.heap.arena = s.heap.arena.after k ∧ t.heap.arena.pages = s.heap.arena.pages + k
  /-- unless one of them is refused. -/
  refusal : ∀ j < pagesNeeded need qs bs, s.heap.arena.Grants j → (s.heap.arena.after j).grow.1 = none →
    ∃ t, s.step (.allocate n) = .ok (.error (.outOfMemory n), t) ∧
      t.heap.arena = s.heap.arena.after (j + 1)

/-- How a heap without pages serves such a request. -/
structure Session.Starts (s : Session) (n need : Nat) : Prop where
  /-- With the first page it has one free block, from which it serves like any heap with pages. -/
  granted : s.heap.arena.grow.1 ≠ none → ∃ h, HeapM.setUp s.heap = .ok (true, h) ∧
    h.arena = s.heap.arena.after 1 ∧ s.step (.allocate n) = (⟨h, s.held⟩ : Session).step (.allocate n) ∧
    (⟨h, s.held⟩ : Session).Allots n need [] [⟨h.firstPayload, firstBlock, false, true⟩]
  refused : s.heap.arena.grow.1 = none → ∃ t, s.step (.allocate n) = .ok (.error (.outOfMemory n), t) ∧
    t.heap.arena = s.heap.arena.after 1

section Reading

variable {h : Heap} {l : Ledger} {need : Nat}

lemma Shows.quickFor (hs : l.Sound) (w : Shows h l) (need : Nat) :
    h.quickFor need = .ok (l.quickFor need) := by
  unfold Heap.quickFor Ledger.quickFor
  rcases quickClass? need with _ | c
  · rfl
  · exact w.quickList hs c

/-- The walk shows what is free. -/
lemma offers_walk : Offers need (walk true l.pieces) ↔ l.Stocks need := by
  constructor
  · rintro ⟨i, hi, hfree, hle⟩
    obtain ⟨b, hb, -, hsize, halloc⟩ := mem_walk hi
    rw [hfree] at halloc
    exact ⟨b, hb, by simpa [isFree] using halloc, hsize ▸ hle⟩
  · rintro ⟨b, hb, hu, hle⟩
    obtain ⟨i, hi, -, hsize, halloc⟩ := walk_mem (f := true) hb
    exact ⟨i, hi, by rw [halloc, isFree, hu]; rfl, hsize ▸ hle⟩

/-- The block at the end of the walk is the ledger's. -/
lemma freeEnd_walk (hs : l.Sound) : (freeEnd (walk true l.pieces)).elim 0 BlockInfo.size = l.tail ∧
    (freeEnd (walk true l.pieces)).elim l.stop BlockInfo.payload = l.stop - l.tail := by
  have hone := Ledger.rtakeWhile_eq hs
  unfold freeEnd Ledger.tail
  rcases List.eq_nil_or_concat l.pieces with hp | ⟨x, b, hp⟩
  · rw [hp]
    exact ⟨rfl, rfl⟩
  rw [List.concat_eq_append] at hp
  have hstop : b.stop = l.stop := (hs.tiled (b := b) (by simp [hp])).stop_last (by simp [hp])
  rw [hp] at hone ⊢
  rw [walk_append, walk, walk, List.getLast?_concat]
  by_cases hb : b.isFree = true
  · rw [List.rtakeWhile_concat_pos _ _ _ hb] at hone ⊢
    have hx : x.rtakeWhile isFree = [] := by
      rcases hone with hnil | ⟨c, hc, -⟩
      · exact absurd hnil (by simp)
      · exact (List.append_inj' (hc.trans (List.nil_append _).symm) rfl).1
    unfold Piece.stop at hstop
    simp only [hx, Option.filter, hb, Bool.not_true, Bool.not_false, if_true, Option.elim,
      List.nil_append, total_cons, total_nil]
    omega
  · rw [List.rtakeWhile_concat_neg _ _ _ hb]
    simp [Option.filter, hb]

end Reading

namespace Session

variable {s : Session} {l l' : Ledger} {n need p : Nat}

/-! ### Heaps with pages -/

/-- A request for a block is served as the ledger finds one, -/
lemma Has.sought {o : Option Nat} (k : s.Has l) (hn : 0 < n) (hneed : blockSize? n = some need)
    (e : l.obtainBlock need = (o, l')) :
    ∃ t, s.step (.allocate n) = .ok (o.elim (.error (.outOfMemory n)) fun p => .ok (some p), t) ∧
      t.Has l' := by
  obtain ⟨t, hstep, k', -⟩ := k.step (r := .allocate n) trivial
  have hans : l.allocate n = (o.elim (.error (.outOfMemory n)) fun p => .ok (some p), l') := by
    unfold Ledger.allocate
    rw [if_neg hn.ne', hneed]
    dsimp only
    rw [e]
    cases o with
    | none => rfl
    | some p => rfl
  rw [Ledger.answer, hans] at hstep k'
  exact ⟨t, hstep, k'⟩

/-- so with the block if there is one, -/
lemma Has.found (k : s.Has l) (hn : 0 < n) (hneed : blockSize? n = some need)
    (e : l.obtainBlock need = (some p, l')) :
    ∃ t, s.step (.allocate n) = .ok (.ok (some p), t) ∧ t.Has l' :=
  k.sought hn hneed e

/-- and else not at all. -/
lemma Has.missed (k : s.Has l) (hn : 0 < n) (hneed : blockSize? n = some need)
    (e : l.obtainBlock need = (none, l')) :
    ∃ t, s.step (.allocate n) = .ok (.error (.outOfMemory n), t) ∧ t.Has l' :=
  k.sought hn hneed e

/-- **A heap with pages** serves as the ledger does. -/
lemma Has.allots (k : s.Has l) (h0 : l.arena.pages ≠ 0) (hn : 0 < n) (hneed : blockSize? n = some need) :
    s.Allots n need (l.quickFor need) (walk true l.pieces) := by
  have hpos : 0 < need := lt_of_lt_of_le (by decide) (blockSize?_some hneed).1
  have hobtain : l.obtainBlock need = l.serve need := if_neg h0
  obtain ⟨htail, hend⟩ := freeEnd_walk k.sound
  refine ⟨k.shows.quickFor k.sound need, k.shows.blocks k.sound, k.shows.listsOrderly k.sound, ?_, ?_, ?_, ?_⟩
  · intro p ps hq
    obtain ⟨c, rfl, -, hserve⟩ := Ledger.serve_quick hq
    obtain ⟨t, e, k'⟩ := k.found hn hneed (hobtain.trans hserve)
    refine ⟨t, e, ?_, k.arena_eq k' rfl⟩
    rw [k'.shows.quickFor k'.sound, Ledger.quickFor, quickClass?_quickSize]
    exact congrArg Except.ok (Function.update_self ..)
  · intro hq hoff
    obtain ⟨b, hb, hu, hle, hserve⟩ := Ledger.serveGrowing_stocked k.sound (offers_walk.mp hoff)
    rw [← Ledger.serve_of_quick_nil hq] at hserve
    obtain ⟨t, e, k'⟩ := k.found hn hneed (hobtain.trans hserve)
    obtain ⟨i, hi, hip, hsize, halloc⟩ := walk_mem (f := true) hb
    refine ⟨i, hi, by rw [halloc, isFree, hu]; rfl, hsize ▸ hle, t, hip ▸ e, k.arena_eq k' ?_⟩
    exact Ledger.arena_take b.payload need
  · intro hq hoff m hm hgrants
    rw [htail] at hm
    rw [k.shows.arena] at hgrants
    obtain ⟨hall, -⟩ := Ledger.serveGrowing_missing k.sound h0 hpos (mt offers_walk.mpr hoff) hm
    obtain ⟨hblock, harena⟩ := hall hgrants
    rw [← Ledger.serve_of_quick_nil hq] at hblock harena
    obtain ⟨t, e, k'⟩ := k.found hn hneed (hobtain.trans (Prod.ext hblock rfl))
    rw [k.shows.stop_eq h0, hend, k.shows.arena]
    refine ⟨t, e, k'.shows.arena.trans harena, ?_⟩
    rw [k'.shows.arena, harena, Arena.pages_after hgrants]
  · intro j hj hgrants hrefused
    unfold pagesNeeded at hj
    split at hj
    · exact absurd hj (Nat.not_lt_zero j)
    next hnone =>
    rw [not_or, not_not] at hnone
    obtain ⟨hq, hoff⟩ := hnone
    rw [k.shows.arena] at hgrants hrefused ⊢
    obtain ⟨-, hsome⟩ := Ledger.serveGrowing_missing k.sound h0 hpos (mt offers_walk.mpr hoff) rfl
    obtain ⟨hblock, harena⟩ := hsome j (htail ▸ hj) hgrants hrefused
    rw [← Ledger.serve_of_quick_nil hq] at hblock harena
    obtain ⟨t, e, k'⟩ := k.missed hn hneed (hobtain.trans (Prod.ext hblock rfl))
    exact ⟨t, e, k'.shows.arena.trans harena⟩

/-- Such a heap gives a block if no page is refused that it needs. -/
lemma Allots.granted {qs : List Nat} {bs : List BlockInfo} (w : s.Allots n need qs bs)
    (h : s.heap.arena.Grants (pagesNeeded need qs bs)) :
    ∃ p t, s.step (.allocate n) = .ok (.ok (some p), t) := by
  rcases hq : qs with _ | ⟨p, ps⟩
  · by_cases hoff : Offers need bs
    · obtain ⟨b, -, -, -, t, e, -⟩ := w.fit hq hoff
      exact ⟨_, t, e⟩
    · rw [pagesNeeded, if_neg (by simp [hq, hoff])] at h
      obtain ⟨t, e, -⟩ := w.growth hq hoff _ rfl h
      exact ⟨_, t, e⟩
  · obtain ⟨t, e, -⟩ := w.quick p ps hq
    exact ⟨p, t, e⟩

lemma Allots.outOfMemory_iff {qs : List Nat} {bs : List BlockInfo} (w : s.Allots n need qs bs) :
    (∃ t, s.step (.allocate n) = .ok (.error (.outOfMemory n), t)) ↔
      ¬ s.heap.arena.Grants (pagesNeeded need qs bs) := by
  constructor
  · rintro ⟨t, e⟩ hgrants
    obtain ⟨p, t', e'⟩ := w.granted hgrants
    rw [e] at e'
    cases e'
  · intro hnot
    obtain ⟨j, hj, hgrants, hrefused⟩ := (s.heap.arena.grants_or_refused _).resolve_left hnot
    obtain ⟨t, e, -⟩ := w.refusal j hj hgrants hrefused
    exact ⟨t, e⟩

/-! ### Heaps without pages -/

lemma bind_congr {α β : Type} {m : HeapM α} {f : α → HeapM β} {h h1 : Heap} (e : m h = m h1) :
    (m >>= f) h = (m >>= f) h1 := by
  show StateT.bind m f h = StateT.bind m f h1
  rw [StateT.bind, StateT.bind, e]

/-- A search for a block in a heap without pages begins with the first page. -/
lemma allocateBlock_setUp {h h1 : Heap} (hready : h.ready = false) (hready1 : h1.ready = true)
    (e : HeapM.setUp h = .ok (true, h1)) : HeapM.allocateBlock need h = HeapM.allocateBlock need h1 := by
  unfold HeapM.allocateBlock
  rw [bind_run get_run, bind_run get_run, hready, hready1]
  exact bind_run e

lemma step_setUp {h1 : Heap} (hready : s.heap.ready = false) (hready1 : h1.ready = true)
    (e : HeapM.setUp s.heap = .ok (true, h1)) (hn : 0 < n) (hneed : blockSize? n = some need) :
    s.step (.allocate n) = (⟨h1, s.held⟩ : Session).step (.allocate n) := by
  have hblock : HeapM.allocateBlock need s.heap = HeapM.allocateBlock need h1 :=
    allocateBlock_setUp hready hready1 e
  have hlift : (liftM (HeapM.allocateBlock need) : RequestM (Option Nat)).run s.heap =
      (liftM (HeapM.allocateBlock need) : RequestM (Option Nat)).run h1 := by
    let ok : HeapM (Except AllocError (Option Nat)) := Except.ok <$> HeapM.allocateBlock need
    show ok s.heap = ok h1
    simp only [ok, map_eq_pure_bind]
    exact bind_congr hblock
  have hserve : (Request.allocate n).serve s.heap = (Request.allocate n).serve h1 := by
    show (RequestM.allocate n).run s.heap = (RequestM.allocate n).run h1
    unfold RequestM.allocate
    rw [if_neg hn.ne', hneed, RequestM.bind_run (orOutOfMemory_some need),
      RequestM.bind_run (orOutOfMemory_some need)]
    exact bind_congr hlift
  unfold step
  rw [hserve]

/-- **A heap without pages** serves after its first page, if it gets that. -/
lemma Has.starts (k : s.Has l) (h0 : l.arena.pages = 0) (hn : 0 < n) (hneed : blockSize? n = some need) :
    s.Starts n need := by
  obtain ⟨h1, hrun, w1, -⟩ := k.shows.setUp k.sound h0
  obtain ⟨hs1, hl1, hp1⟩ := Ledger.sound_setUp k.sound h0
  obtain ⟨hfst, harena⟩ := Ledger.setUp_eq (l := l)
  have hquick : l.setUp.2.quickFor need = [] := Ledger.quickFor_setUp k.sound h0
  rcases hup : l.setUp with ⟨_ | _, l1⟩ <;> rw [hup] at hrun w1 hs1 hl1 hp1 hfst harena hquick
  · have hnone : l.arena.grow.1 = none := Option.isNone_iff_eq_none.mp (by simpa using hfst.symm)
    refine ⟨fun hgrant => absurd (k.shows.arena ▸ hnone) hgrant, fun _ => ?_⟩
    have hobtain : l.obtainBlock need = (none, l1) := by
      rw [Ledger.obtainBlock, if_pos h0, hup]
    obtain ⟨t, e, k'⟩ := k.missed hn hneed hobtain
    exact ⟨t, e, by rw [k'.shows.arena, harena, k.shows.arena]⟩
  · obtain ⟨-, hsame, hpieces⟩ := Ledger.setUp_granted k.sound h0 hup
    have hgrant : l.arena.grow.1 ≠ none := Option.isSome_iff_ne_none.mp hfst.symm
    have k1 : Session.Has ⟨h1, s.held⟩ l1 := ⟨hs1, w1, k.nodup, hl1 ▸ k.live, hl1 ▸ k.held⟩
    refine ⟨fun _ => ⟨h1, hrun, ?_, ?_, ?_⟩, fun hnone => absurd (k.shows.arena ▸ hnone) hgrant⟩
    · rw [w1.arena, harena, k.shows.arena]
    · exact step_setUp (k.shows.ready_eq_false h0) (w1.ready.mpr (hp1 rfl)) hrun hn hneed
    · have hallots := k1.allots (hp1 rfl) hn hneed
      have hwalk : walk true l1.pieces = [⟨h1.firstPayload, firstBlock, false, true⟩] := by
        have hbase : l1.first = l.first := congrArg (· + 2 * wordSize) hsame
        rw [hpieces, w1.first_eq (hp1 rfl), hbase]
        rfl
      rwa [hquick, hwalk] at hallots

lemma pagesNeeded_single {f : Bool} :
    pagesNeeded need [] [⟨p, n, false, f⟩] = pagesMissing need n := by
  by_cases hle : need ≤ n
  · rw [pagesNeeded, if_pos (.inr ⟨_, List.mem_singleton_self _, rfl, hle⟩), pagesMissing_of_le hle]
  · rw [pagesNeeded, if_neg]
    · rfl
    · rintro (hne | ⟨b, hb, -, hb'⟩)
      · exact hne rfl
      · obtain rfl := List.mem_singleton.mp hb
        exact hle hb'

lemma Starts.outOfMemory_iff (w : s.Starts n need) :
    (∃ t, s.step (.allocate n) = .ok (.error (.outOfMemory n), t)) ↔
      ¬ s.heap.arena.Grants (pagesMissing need firstBlock + 1) := by
  rw [Arena.grants_succ, not_and]
  by_cases hfirst : s.heap.arena.grow.1 = none
  · obtain ⟨t, e, -⟩ := w.refused hfirst
    exact ⟨fun _ h => absurd hfirst h, fun _ => ⟨t, e⟩⟩
  · obtain ⟨h1, -, harena, hstep, hallots⟩ := w.granted hfirst
    have hiff := hallots.outOfMemory_iff
    rw [pagesNeeded_single, harena] at hiff
    rw [hstep, hiff]
    exact ⟨fun h _ => h, fun h => h hfirst⟩

/-- **Memory runs out** if a page is refused that is needed, and only then. -/
lemma Has.outOfMemory_iff (k : s.Has l) (hn : 0 < n) (hneed : blockSize? n = some need) :
    (∃ t, s.step (.allocate n) = .ok (.error (.outOfMemory n), t)) ↔
      ∃ m, s.heap.Needs need m ∧ ¬ s.heap.arena.Grants m := by
  by_cases h0 : l.arena.pages = 0
  · have hready := k.shows.ready_eq_false h0
    rw [(k.starts h0 hn hneed).outOfMemory_iff]
    constructor
    · exact fun h => ⟨_, .fresh hready, h⟩
    · rintro ⟨m, hm, hnot⟩
      cases hm with
      | ready h =>
        rw [hready] at h
        cases h
      | fresh => exact hnot
  · have hready := k.shows.ready.mpr h0
    have hallots := k.allots h0 hn hneed
    rw [hallots.outOfMemory_iff]
    constructor
    · exact fun h => ⟨_, .ready hready hallots.quickList hallots.walk, h⟩
    · rintro ⟨m, hm, hnot⟩
      cases hm with
      | ready _ hq hbs =>
        rw [hallots.quickList] at hq
        rw [hallots.walk] at hbs
        cases hq
        cases hbs
        exact hnot
      | fresh h =>
        rw [hready] at h
        cases h

end Session

/-- **A request gets the block that its size calls for, or asks for the pages that this block lacks.** In
every session that a run ends in, and for every size, a request is answered. Without a block size it fails
and nothing changes. Else it is served from the quick list, the free blocks or the end of the heap, in this
order, and asks for pages in the last case only, or for the first page of the heap. It asks for exactly
those that it needs, and fails if and only if one of them is refused. -/
theorem pages_for_allocate {s : Session} (hs : s.Reachable) {n : Nat} (hn : 0 < n) :
    (blockSize? n = none → s.step (.allocate n) = .ok (.error (.outOfMemory n), s)) ∧
    ∀ need, blockSize? n = some need →
      (s.heap.ready = true → ∃ qs bs, s.Allots n need qs bs) ∧
      (s.heap.ready = false → s.Starts n need) ∧
      ((∃ t, s.step (.allocate n) = .ok (.error (.outOfMemory n), t)) ↔
        ∃ k, s.heap.Needs need k ∧ ¬ s.heap.arena.Grants k) := by
  obtain ⟨l, k⟩ := hs.has_ledger
  refine ⟨fun hnone => ?_, fun need hneed => ⟨fun hready => ?_, fun hready => ?_, k.outOfMemory_iff hn hneed⟩⟩
  · have hserve : (Request.allocate n).serve s.heap = .ok (.error (.outOfMemory n), s.heap) := by
      show (RequestM.allocate n).run s.heap = _
      unfold RequestM.allocate
      rw [if_neg hn.ne', hnone]
      exact RequestM.bind_run_error orOutOfMemory_none
    exact Session.step_of_serve hserve
  · exact ⟨_, _, k.allots (k.shows.ready.mp hready) hn hneed⟩
  · refine k.starts ?_ hn hneed
    by_contra h0
    rw [k.shows.ready.mpr h0] at hready
    cases hready

/-- Here the free block of 4048 bytes at the end lacks one page, which is granted: the request is served where
that block is. -/
theorem pages_for_large :
    ∃ s t : Session, s.heap.blocks = .ok [⟨4112, 32, true, true⟩, ⟨4144, 4048, false, true⟩] ∧
      s.step (.allocate 5000) = .ok (.ok (some 4144), t) ∧ t.heap.arena = s.heap.arena.after 1 := by
  obtain ⟨as, s, hs⟩ := Session.sample_serves [.allocate 24] (by decide +kernel)
  have hready : s.heap.ready = true := Session.shown hs (by decide +kernel)
  have hquick : s.heap.quickFor 5008 = .ok [] := Session.shown hs (by decide +kernel)
  have hblocks : s.heap.blocks = .ok [⟨4112, 32, true, true⟩, ⟨4144, 4048, false, true⟩] :=
    Session.shown hs (by decide +kernel)
  have hpage : s.heap.arena.grow.1 = some 8192 := Session.shown hs (by decide +kernel)
  obtain ⟨-, hsome⟩ := pages_for_allocate (Session.sample_reachable hs) (n := 5000) (by decide)
  obtain ⟨hallots, -⟩ := hsome 5008 (by decide)
  obtain ⟨qs, bs, w⟩ := hallots hready
  obtain rfl : qs = [] := Except.ok.inj (w.quickList.symm.trans hquick)
  obtain rfl := Except.ok.inj (w.walk.symm.trans hblocks)
  obtain ⟨t, e, harena, -⟩ := w.growth rfl (by decide) 1 (by decide) fun i hi => by
    obtain rfl : i = 0 := by omega
    exact fun hnone => absurd (hnone.symm.trans hpage) (by simp)
  exact ⟨s, t, hblocks, e, harena⟩

end BoundaryTag
