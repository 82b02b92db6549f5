import BoundaryTag.Proofs.Heap.Shelving
import BoundaryTag.Proofs.Ledger.Serving

/-!
Pages.

A page that is granted is a gap behind the last block, and is closed with a free block. The first page
has room for its block between a filler word and the word that closes the heap. A page that is refused
changes nothing that is shown.
-/

namespace BoundaryTag

open Heap HeapM Piece

section Arenas

variable {h h' : Heap} {l : Ledger} {pre : List Piece} {m : Nat} {f : Bool} {main : MainLists}
  {a : Arena}

/-- The rings of a heap with the same links and a larger region. -/
lemma Ringed.extend (r : Ringed h main) (hheads : h'.heads = h.heads) (hmem : h'.memory = h.memory)
    (hstart : h'.arena.start = h.arena.start) (hstop : h.arena.stop ≤ h'.arena.stop) :
    Ringed h' main where
  ring c := by
    have hn : h'.nextLink = h.nextLink := by
      funext x
      cases x <;> simp only [nextLink, hheads, hmem]
    have hp : h'.prevLink = h.prevLink := by
      funext x
      cases x <;> simp only [prevLink, hheads, hmem]
    rw [hn, hp]
    exact r.ring c
  seat c p hp := by
    obtain ⟨h1, h2, h3⟩ := r.seat c p hp
    exact ⟨h1, hstart ▸ h2, h3.trans hstop⟩
  nodup := r.nodup
  once := r.once

/-- What the arena adds to the region is a gap behind the last block. -/
lemma Rests.extend {ps : List Piece} (r : Rests h ps main) (g : Grounded { h with arena := a })
    (hstart : a.start = h.arena.start) (hstop : h.arena.stop ≤ a.stop) :
    Laid { h with arena := a } ps h.arena.stop a.stop [] f main := by
  have hfirst : ({ h with arena := a } : Heap).firstPayload = h.firstPayload :=
    congrArg (· + 2 * wordSize) hstart
  refine ⟨g, hfirst ▸ r.tiles_post, rfl, hstop, ?_, trivial, r.ringed.extend rfl rfl hstart hstop,
    fun c p hp => ?_⟩
  · refine r.tagged_post.off (S := fun _ => False) r.tiles_post ?_ rfl (fun _ _ => rfl)
      fun _ _ _ _ hx => hx
    unfold firstPayload wordSize
    omega
  · obtain ⟨d, hd, hdp⟩ := r.listed c p hp
    exact ⟨d, List.mem_append_left _ hd, hdp⟩

/-- Behind the last block, the flag for the next one tells nothing. -/
lemma Laid.flag_nil {n : Nat} (l : Laid h pre m n [] f main) (g : Bool) :
    Laid h pre m n [] g main :=
  ⟨l.grounded, l.tiles_pre, l.tiles_post, l.gap, l.tagged_pre, trivial, l.ringed, l.listed⟩

/-- The tracked last block says whether the block before the next one is allocated. -/
lemma Laid.tagAt_last {n : Nat} (l : Laid h pre m n [] f main) (hlast : h.LastIn pre)
    (hne : pre ≠ []) :
    HeapM.tagAt h.last h = .ok (h.header h.last, h) ∧
      (h.header h.last).allocated = flagAfter true pre := by
  rcases List.eq_nil_or_concat pre with hnil | ⟨ps, d, rfl⟩
  · exact absurd hnil hne
  · rw [List.concat_eq_append] at l hlast ⊢
    have hin : d ∈ ps ++ [d] ++ [] := by simp
    rw [hlast d (by simp), l.allocated_header hin, flagAfter_append]
    exact ⟨l.tagAt_run hin, rfl⟩

lemma Laid.rest_nil (l : Laid h pre m m [] f main) : Rests h pre main := by
  have := (l.flag_nil (flagAfter true pre)).rest
  rwa [List.append_nil] at this

/-- Room depends on the limits of the arena and of memory alone. -/
lemma Roomy.setting (r : Roomy h) (hbase : h'.arena.base = h.arena.base)
    (hsupply : h'.arena.supply = h.arena.supply) (hpages : h'.arena.pages = h.arena.pages)
    (hmem : h'.memory = h.memory) : Roomy h' :=
  ⟨hbase ▸ r.aligned, hsupply ▸ hpages ▸ r.pages_le, hsupply ▸ hbase ▸ r.bounded,
    hmem ▸ hsupply ▸ hbase ▸ r.mapped⟩

/-- More requests to the arena change nothing that is shown. -/
lemma Shows.refused (w : Shows h l) (n : Nat) (j : Journal) :
    Shows { h with arena := { h.arena with requests := n }, journal := j }
      { l with arena := { l.arena with requests := n } } := by
  have hring : Ringed { h with arena := { h.arena with requests := n }, journal := j } l.main :=
    w.ringed.extend rfl rfl rfl le_rfl
  refine ⟨?_, w.roomy.setting rfl rfl rfl rfl, w.ready, fun h0 => ?_, hring, w.shelves.len,
    fun c => (w.shelves.chain c).congr fun _ _ => rfl⟩
  · rw [w.arena]
  · obtain ⟨r, hlast⟩ := w.mirrors h0
    have hl := r.extend (a := { h.arena with requests := n }) (f := true)
      ⟨r.grounded.aligned, r.grounded.bounded, r.grounded.base_le, r.grounded.stop_le⟩ rfl le_rfl
    have hw : Within (fun _ => False) { h with arena := { h.arena with requests := n } }
        { h with arena := { h.arena with requests := n }, journal := j } :=
      ⟨⟨rfl, rfl, rfl, rfl, rfl, rfl⟩, rfl, fun _ _ => rfl⟩
    exact ⟨(hl.write hw rfl fun x hx => hx.elim).rest_nil, hlast⟩

/-- A roomy heap stays so with the next page. -/
lemma Roomy.page (r : Roomy h) (hlt : h.arena.pages < h.arena.supply.limit) :
    Roomy { h with arena := { h.arena with
      pages := h.arena.pages + 1, requests := h.arena.requests + 1 } } :=
  ⟨r.aligned, hlt, r.bounded, r.mapped⟩

end Arenas

/-! ### Growing -/

variable {h : Heap} {l : Ledger}

/-- A block appended to the ledger, and freed there: in the heap it is written into the gap behind the
last block, and merged. -/
lemma Shows.append {a : Arena} {b : Piece} {f : Bool} {h1 : Heap}
    (hs1 : Ledger.Sound { l with arena := a, pieces := l.pieces ++ [b] }) (hb : b.use = .live)
    (w : Laid h1 (l.pieces ++ [{ b with use := .free }]) b.stop b.stop [] f l.main) :
    ∃ h', (HeapM.coalesce b.payload >>= fun k => HeapM.insertFree k) h1 = .ok ((), h') ∧
      Mirrors h' (Ledger.free { l with arena := a, pieces := l.pieces ++ [b] } b.payload) ∧
      Within (Clear l.used) h1 h' := by
  set l1 : Ledger := { l with arena := a, pieces := l.pieces ++ [b] } with hl1
  have hfree : l1.free b.payload = l1.join l.pieces b [] :=
    Ledger.free_eq (hs1.tiled (b := b) (by simp [hl1])) rfl
  obtain ⟨x, left, right, y, har, hj⟩ := Ledger.join_eq l1 l.pieces b []
  obtain ⟨rfl, rfl⟩ := List.append_eq_nil_iff.mp har.after_eq.symm
  have hpre := har.before_eq
  have ht := w.tiles_pre
  have hpieces : l1.pieces = x ++ left ++ b :: ([] ++ []) := by
    rw [← hpre]
    rfl
  rw [hpre] at w har ht
  replace w : Laid h1 (x ++ left ++ [{ b with use := .free }]) b.stop b.stop ([] ++ []) f l.main := w
  replace har : Ledger.Around (x ++ left) ([] ++ []) x left [] [] := har
  obtain ⟨h2, hrun2, w2, hw2, hlast2⟩ := Laid.mergeListed (l := l1) hs1 hpieces hb har w
  refine ⟨h2, hrun2, ⟨?_, ?_⟩, hw2.mono fun i hi => hi.clear ht fun d hd => ⟨?_, hd.2⟩⟩
  · rw [hfree, hj]
    exact w2.rest_nil
  · rw [hfree, hj]
    exact lastIn_middle (fun _ => by rw [hlast2, if_pos rfl]) fun hne => absurd rfl hne
  · rw [← hpre]
    exact List.mem_append_left _ hd.1

lemma Mirrors.note (m : Mirrors h l) (j : Journal) : Mirrors { h with journal := j } l := by
  have hw : Within (fun _ => False) h { h with journal := j } :=
    ⟨⟨rfl, rfl, rfl, rfl, rfl, rfl⟩, rfl, fun _ _ => rfl⟩
  exact ⟨Laid.write m.rests hw rfl fun x hx => hx.elim, m.last⟩

/-- What holds when a block was written into the gap behind the last one, and merged. -/
lemma Shows.appended {a : Arena} {b : Piece} {h2 : Heap} (hs : l.Sound) (w : Shows h l)
    (m : Mirrors h2 (Ledger.free { l with arena := a, pieces := l.pieces ++ [b] } b.payload))
    (ha : h2.arena = a) (hroomy : Roomy h2) (hready : h2.ready = true) (hpages : a.pages ≠ 0)
    (hslots : h2.quick = h.quick) (hoff : SameOff (Outside l.used) h h2) :
    Shows h2 (Ledger.free { l with arena := a, pieces := l.pieces ++ [b] } b.payload) := by
  refine ⟨?_, hroomy, ?_, fun _ => m, m.rests.ringed, ?_⟩
  · rw [Ledger.arena_free, ha]
  · rw [Ledger.arena_free, hready]
    exact ⟨fun _ => hpages, fun _ => rfl⟩
  · rw [Ledger.quick_free]
    show Shelves h2 l.quick
    exact w.shelves.outside hs hslots hoff fun d hd hu => ⟨hd, by rw [hu]; decide⟩

lemma requestPage_run {x : Option Nat} {a : Arena} (hg : h.arena.grow = (x, a)) :
    requestPage h = .ok (x, { h with arena := a }) := by
  unfold requestPage
  rw [hg]

/-- The page that was granted, which `a` accounts for, is written as a free block, and merged. -/
lemma Shows.layPage {a : Arena} (hs : l.Sound) (w : Shows h l) (h0 : l.arena.pages ≠ 0)
    (ha : a = { l.arena with pages := l.arena.pages + 1, requests := l.arena.requests + 1 })
    (hroomy : Roomy { h with arena := a }) :
    ∃ t h2 h3, HeapM.tagAt h.last { h with arena := a } = .ok (t, { h with arena := a }) ∧
      HeapM.writeFree l.stop (.make pageSize false t.allocated) { h with arena := a } = .ok ((), h2) ∧
      (HeapM.coalesce l.stop >>= fun k => HeapM.insertFree k) h2 = .ok ((), h3) ∧
      Mirrors h3 (Ledger.free
        { l with arena := a, pieces := l.pieces ++ [⟨l.stop, pageSize, .live⟩] } l.stop) ∧
      SameSetting { h with arena := a } h3 ∧ h3.quick = h.quick ∧ SameOff (Clear l.used) h h3 := by
  have hpages : a.pages ≠ 0 := ha ▸ Nat.succ_ne_zero _
  have hstop := w.stop_eq h0
  have hend : l.stop + pageSize = a.stop := by
    rw [Arena.stop_eq hpages, ha]
    show l.arena.base + l.arena.pages * pageSize + _ = l.arena.base + (l.arena.pages + 1) * pageSize
    unfold pageSize
    omega
  obtain ⟨hs1, -⟩ := Ledger.sound_append (b := ⟨l.stop, pageSize, .live⟩) (a := a) hs
    (ha ▸ hs.aligned) hpages rfl (ha ▸ Ledger.tiles_page hs h0)
  obtain ⟨r, hlast⟩ := w.mirrors h0
  have w1 : Laid { h with arena := a } l.pieces h.arena.stop a.stop [] true l.main := by
    refine r.extend (hroomy.grounded hpages) ?_ (by omega)
    rw [w.arena, Arena.start_eq h0, Arena.start_eq hpages, ha]
  obtain ⟨hread, hflag⟩ := w1.tagAt_last hlast (hs.pieces_ne_nil h0)
  obtain ⟨h2, hrun2, w2, hw2, -⟩ := w1.writeFree (b := ⟨l.stop, pageSize, .free⟩) hstop.symm rfl
    (show minBlock ≤ pageSize by decide) (show pageSize % alignment = 0 by decide) hend.le
  rw [← hend] at w2
  obtain ⟨h3, hrun3, m3, hw3⟩ := Shows.append (b := ⟨l.stop, pageSize, .live⟩) hs1 rfl w2
  rw [← hflag] at hrun2
  refine ⟨_, h2, h3, hread, hrun2, hrun3, m3, hw2.setting.trans hw3.setting, hw3.quick.trans hw2.quick,
    fun x hx => ?_⟩
  refine (hw3.off x hx).trans ((hw2.off x fun hr => hx ?_).trans rfl)
  refine Vacant.clear w2.tiles_pre ⟨_, List.mem_append_right _ List.mem_cons_self, rfl,
    bytes_of_tagBytes (show minBlock ≤ pageSize by decide) hr⟩ ?_
  exact fun d hd => ⟨List.mem_append_left _ hd.1, hd.2⟩

/-- What a heap keeps when its arena refuses a page. -/
structure Unmoved (h h' : Heap) : Prop where
  memory : h'.memory = h.memory
  heads : h'.heads = h.heads
  last : h'.last = h.last

/-- **A page more**, or the refusal of one. The blocks in use are left alone, headers and all. -/
lemma Shows.grow (hs : l.Sound) (w : Shows h l) (h0 : l.arena.pages ≠ 0) :
    ∃ h', HeapM.grow h = .ok (l.grow.1, h') ∧ Shows h' l.grow.2 ∧ SameOff (Clear l.used) h h' ∧
      h'.key = h.key ∧ h'.quick = h.quick ∧ (l.grow.1 = false → Unmoved h h') := by
  have harena := w.arena
  unfold HeapM.grow Ledger.grow
  rw [bind_run stop_run]
  rcases l.arena.grow_cases with ⟨hg, hlt⟩ | hg
  · obtain ⟨a, ha⟩ : ∃ a : Arena, a =
        { l.arena with pages := l.arena.pages + 1, requests := l.arena.requests + 1 } := ⟨_, rfl⟩
    rw [← ha] at hg
    have hroomy : Roomy { h with arena := a } := by
      have := w.roomy.page (harena ▸ hlt)
      rwa [harena, ← ha] at this
    have hrequest : requestPage h = .ok (some l.stop, { h with arena := a }) :=
      requestPage_run (by rw [harena]; exact hg)
    obtain ⟨t, h2, h3, hread, hrun2, hrun3, m3, hset3, hquick3, hoff3⟩ := w.layPage hs h0 ha hroomy
    set h4 : Heap := { h3 with journal := h3.journal.add (.grew h3.pages) } with hh4
    have hset4 : SameSetting { h with arena := a } h4 := hset3.trans ⟨rfl, rfl, rfl, rfl, rfl, rfl⟩
    rw [hg]
    refine ⟨h4, ?_, ?_, hoff3, hset4.key, hquick3, fun hf => by cases hf⟩
    · rw [bind_run hrequest]
      dsimp only
      rw [bind_run (assume_run (by rw [w.stop_eq h0]; simp)), bind_run get_run, bind_run hread]
      refine (bind_run hrun2).trans ?_
      rw [← bind_assoc]
      exact (bind_run hrun3).trans rfl
    · exact w.appended hs (m3.note _) hset4.arena (hset4.roomy hroomy)
        (hset4.ready.trans (w.ready.mpr h0)) (ha ▸ Nat.succ_ne_zero _) hquick3
        (hoff3.mono fun _ hx => hx.outside)
  · rw [bind_run (requestPage_run (harena ▸ hg)), hg, ← harena]
    dsimp only
    rw [bind_run get_run]
    refine ⟨_, rfl, ?_, fun _ _ => rfl, rfl, rfl, fun _ => ⟨rfl, rfl, rfl⟩⟩
    have hrefused := w.refused (l.arena.requests + 1) (h.journal.add
      (.exhausted { h with arena := { l.arena with requests := l.arena.requests + 1 } }.pages))
    rw [harena] at hrefused ⊢
    exact hrefused

/-! ### The first page -/

lemma ringed_emptyHeads (hheads : h.heads = emptyHeads) : Ringed h fun _ => [] := by
  refine ⟨fun c => ?_, fun c p hp => absurd hp List.not_mem_nil, fun c => List.nodup_nil,
    fun c c' p hp => absurd hp List.not_mem_nil⟩
  have hget : h.heads.get c = ⟨.head c, .head c⟩ := by
    rw [hheads]
    exact Vector.getElem_ofFn c.isLt
  refine ⟨?_, ?_⟩
  · show (h.heads.get c).next = _
    rw [hget]
  · show (h.heads.get c).prev = _
    rw [hget]

lemma shelves_emptySlots (hslots : h.quick = .replicate quickLists emptySlot) :
    Shelves h fun _ => [] := by
  have hget : ∀ c, h.quick.get c = emptySlot := fun c => by
    rw [hslots]
    exact Vector.getElem_replicate c.isLt
  exact ⟨fun c => by rw [hget]; rfl, fun c => by rw [hget]; rfl⟩

/-- Heads that lead to nothing are those of a new heap, -/
lemma Ringed.heads_eq (r : Ringed h fun _ => []) : h.heads = emptyHeads := by
  refine Vector.ext fun i hi => ?_
  obtain ⟨hn, hp⟩ := r.ring ⟨i, hi⟩
  have hget : h.heads[i] = ⟨.head ⟨i, hi⟩, .head ⟨i, hi⟩⟩ := congrArg₂ Links.mk hn hp
  rw [hget]
  symm
  exact Vector.getElem_ofFn hi

/-- and so are slots that hold nothing. -/
lemma Shelves.quick_eq (s : Shelves h fun _ => []) :
    h.quick = .replicate quickLists emptySlot := by
  refine Vector.ext fun i hi => ?_
  have hget : h.quick[i] = ⟨0, 0⟩ := congrArg₂ QuickSlot.mk (s.len ⟨i, hi⟩) (s.chain ⟨i, hi⟩)
  rw [hget]
  symm
  exact Vector.getElem_replicate hi

/-- The first block of a ledger. -/
lemma free_first (a : Arena) (quick : Fin quickLists → List Nat) (p n : Nat) :
    Ledger.free ⟨a, [⟨p, n, .live⟩], fun _ => [], quick⟩ p =
      ⟨a, [⟨p, n, .free⟩], MainLists.add ⟨p, n, .free⟩ fun _ => [], quick⟩ := by
  simp only [Ledger.free, Ledger.join, merge, total, payloads, List.takeWhile, List.dropWhile, ne_eq,
    not_true_eq_false, decide_false]
  simp
  rfl

/-- One free block written in an empty region between the filler word and the word that closes it. -/
lemma layFirst {b : Piece} (g : h.Grounded) (hheads : h.heads = emptyHeads)
    (hb : b = ⟨h.firstPayload, firstBlock, .free⟩) (hstop : b.stop = h.arena.stop) :
    ∃ h', (HeapM.writeFree b.payload (.make firstBlock false true) >>= fun _ =>
        HeapM.insertFree b.payload) h = .ok ((), h') ∧
      Laid h' [b] b.stop b.stop [] true (MainLists.add b fun _ => []) ∧
      Within (fun _ => True) h h' := by
  have w1 : Laid h [] b.payload b.stop [] true fun _ => [] := by
    refine ⟨g, ?_, hstop, Nat.le_add_right _ _, trivial, trivial, ringed_emptyHeads hheads,
      fun c p hp => absurd hp List.not_mem_nil⟩
    rw [hb]
    rfl
  have hu : b.use = .free := by rw [hb]
  have hsize : b.size = firstBlock := by rw [hb]
  have htag : b.tag (flagAfter true []) = .make firstBlock false true := by
    rw [Piece.tag, Piece.isFree, hsize, hu]
    rfl
  obtain ⟨h2, hrun2, w2, hw2, -⟩ := w1.writeFree rfl (by simp [Piece.isFree, hu])
    (by rw [hsize]; decide) (by rw [hsize]; decide) le_rfl
  obtain ⟨h3, hrun3, w3, hw3, -⟩ := w2.insertFree (b := b) (by simp) hu
    fun c hc => absurd hc List.not_mem_nil
  rw [htag] at hrun2
  exact ⟨h3, (bind_run hrun2).trans hrun3, w3,
    (hw2.mono fun _ _ => trivial).trans (hw3.mono fun _ _ => trivial)⟩

/-- A heap that rests in one block does so whatever else it keeps track of. -/
lemma Rests.started {b : Piece} {main : MainLists} (r : Rests h [b] main) (last : Nat) (ready : Bool)
    (j : Journal) : Rests { h with last, ready, journal := j } [b] main :=
  ⟨⟨r.grounded.aligned, r.grounded.bounded, r.grounded.base_le, r.grounded.stop_le⟩, rfl,
    r.tiles_post, le_rfl, trivial, r.tagged_post, r.ringed.extend rfl rfl rfl le_rfl, r.listed⟩

/-- Where the first block stands in a region of one page. -/
lemma Roomy.firstBlock (r : Roomy h) (hpages : h.arena.pages = 1) :
    h.firstPayload = h.arena.base + 2 * wordSize ∧ h.firstPayload + firstBlock = h.arena.stop ∧
      h.arena.stop < addressSpace := by
  have hne : h.arena.pages ≠ 0 := by rw [hpages]; decide
  have hfirst : h.firstPayload = h.arena.base + 2 * wordSize := by
    rw [firstPayload, Arena.start_eq hne]
  refine ⟨hfirst, ?_, (r.grounded hne).bounded⟩
  rw [hfirst, Arena.stop_eq hne, hpages]
  unfold BoundaryTag.firstBlock pageSize wordSize
  omega

/-- A heap that has one free block, and keeps track of it. -/
lemma Shows.started {a : Arena} {b : Piece} (r : Roomy h) (ha : h.arena = a) (hpages : a.pages ≠ 0)
    (w : Laid h [b] b.stop b.stop [] true (MainLists.add b fun _ => []))
    (hslots : h.quick = .replicate quickLists emptySlot) (j : Journal) :
    Shows { h with last := b.payload, ready := true, journal := j }
      ⟨a, [b], MainLists.add b fun _ => [], fun _ => []⟩ := by
  have rests := w.rest_nil.started b.payload true j
  refine ⟨ha, r.setting rfl rfl rfl rfl, ⟨fun _ => hpages, fun _ => rfl⟩, fun _ => ⟨rests, ?_⟩,
    rests.ringed, shelves_emptySlots hslots⟩
  intro d hd
  obtain rfl : b = d := by simpa using hd
  rfl

/-- The only page laid out: it is one free block. -/
lemma layFirstPage (hroomy : Roomy h) (hpages : h.arena.pages = 1) (hheads : h.heads = emptyHeads)
    (hslots : h.quick = .replicate quickLists emptySlot) :
    ∃ h', (HeapM.writeFree h.firstPayload (.make firstBlock false true) >>= fun _ =>
        HeapM.insertFree h.firstPayload) h = .ok ((), h') ∧
      h'.quick = .replicate quickLists emptySlot ∧
      ∀ j, Shows { h' with last := h.firstPayload, ready := true, journal := j }
        (Ledger.free ⟨h.arena, [⟨h.firstPayload, firstBlock, .live⟩], fun _ => [], fun _ => []⟩
          h.firstPayload) := by
  have hne : h.arena.pages ≠ 0 := by rw [hpages]; decide
  obtain ⟨-, hend, -⟩ := hroomy.firstBlock hpages
  obtain ⟨h', hrun, w, hw⟩ := layFirst (b := ⟨h.firstPayload, firstBlock, .free⟩) (hroomy.grounded hne)
    hheads rfl hend
  have hslots' : h'.quick = .replicate quickLists emptySlot := hw.quick.trans hslots
  refine ⟨h', hrun, hslots', fun j => ?_⟩
  rw [free_first]
  exact Shows.started (hw.setting.roomy hroomy) hw.setting.arena hne w hslots' j

/-- A heap without pages has nothing on its lists. -/
lemma Shows.emptied (hs : l.Sound) (w : Shows h l) (h0 : l.arena.pages = 0) :
    l = .new h.arena ∧ h.heads = emptyHeads ∧ h.quick = .replicate quickLists emptySlot := by
  obtain ⟨arena, pieces, main, quick⟩ := l
  obtain rfl : h.arena = arena := w.arena
  obtain rfl : pieces = [] := hs.empty h0
  obtain ⟨hmain, hquick⟩ := hs.lists_nil rfl
  obtain rfl : main = fun _ => [] := funext hmain
  obtain rfl : quick = fun _ => [] := funext hquick
  exact ⟨rfl, w.ringed.heads_eq, w.shelves.quick_eq⟩

/-- **The first page**, or the refusal of it. -/
lemma Shows.setUp (hs : l.Sound) (w : Shows h l) (h0 : l.arena.pages = 0) :
    ∃ h', HeapM.setUp h = .ok (l.setUp.1, h') ∧ Shows h' l.setUp.2 ∧ h'.quick = h.quick ∧
      (l.setUp.1 = false → Unmoved h h') := by
  obtain ⟨hl, hheads, hslots⟩ := w.emptied hs h0
  subst hl
  replace h0 : h.arena.pages = 0 := h0
  unfold HeapM.setUp Ledger.setUp
  rw [bind_run (modify_run _), ← hheads, ← hslots]
  dsimp only [Ledger.new]
  rcases h.arena.grow_cases with ⟨hg, hlt⟩ | hg
  · let arena := { h.arena with pages := h.arena.pages + 1, requests := h.arena.requests + 1 }
    have hpages : arena.pages = 1 := congrArg (· + 1) h0
    have hroomy : Roomy { h with key := h.arena.key, arena } :=
      (w.roomy.setting rfl rfl rfl rfl : Roomy { h with key := h.arena.key }).page hlt
    obtain ⟨h', hrun, hslots', hshows⟩ := layFirstPage hroomy hpages hheads hslots
    obtain ⟨hfirst, hend, hbound⟩ := hroomy.firstBlock hpages
    have hfits : h.arena.base + 2 * wordSize < addressSpace :=
      hfirst ▸ (Nat.le_add_right _ _).trans_lt (hend ▸ hbound)
    have hpage : h.arena.base + h.arena.pages * pageSize = h.arena.base := by
      rw [h0, Nat.zero_mul, Nat.add_zero]
    rw [hpage] at hg
    rw [hfirst] at hrun hshows
    refine ⟨{ h' with
      last := h.arena.base + 2 * wordSize
      ready := true
      journal := h'.journal.add (.ready h.arena.base) }, ?_, ?_, hslots'.trans hslots.symm, ?_⟩
    · have hrequest : requestPage { h with key := h.arena.key } =
          .ok (some h.arena.base, { h with key := h.arena.key, arena }) := requestPage_run hg
      rw [bind_run hrequest, hg]
      dsimp only
      rw [bind_run (assume_run (by simpa using w.roomy.aligned)), bind_run (sum_run hfits),
        ← bind_assoc]
      exact (bind_run hrun).trans rfl
    · rw [hg]
      exact hshows _
    · rw [hg]
      exact fun hf => by cases hf
  · have hrefused : requestPage { h with key := h.arena.key } =
        .ok (none, { h with
          key := h.arena.key
          arena := { h.arena with requests := h.arena.requests + 1 } }) := requestPage_run hg
    rw [bind_run hrefused, hg]
    exact ⟨_, rfl, ⟨rfl, w.roomy.setting rfl rfl rfl rfl, w.ready, fun hne => absurd h0 hne,
      ringed_emptyHeads hheads, shelves_emptySlots hslots⟩, rfl, fun _ => ⟨rfl, rfl, rfl⟩⟩

end BoundaryTag
