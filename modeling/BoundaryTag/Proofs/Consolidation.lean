import BoundaryTag.Proofs.Heap.Reading
import BoundaryTag.Proofs.Heap.Rewriting
import BoundaryTag.Proofs.Session

/-!
Merging in an unsettled heap.

A heap is unsettled at a free block if its lists and tags are in order but for that block: it is on no list, free
blocks may stand next to it, and neither the block after it nor the tracked last block need to know of it. That is
how a heap stands when a block was just marked free. Merging makes one block of the longest run of free blocks
around it, writes nothing else, and leaves the heap unsettled at that block, which has no free neighbour any more.
-/

namespace BoundaryTag

open Heap HeapM Piece

/-- The heap consists of the blocks `before`, the free block `b` and the blocks `after`, and is in order but for
`b`: the lists hold the free blocks among the others, of which no two are next to each other. The block after `b`
may take the one before it for allocated or for free. The tracked last block is right unless it should be `b`. -/
structure Unsettled (h : Heap) (before : List Piece) (b : Piece) (after : List Piece) (main : MainLists) :
    Prop where
  grounded : h.Grounded
  tiles : Tiles h.firstPayload (before ++ b :: after) h.arena.stop
  free : b.use = .free
  tagged : Tagged h true (before ++ [b])
  tagged_after : ∃ f, Tagged h f after
  coalesced_before : Coalesced before
  coalesced_after : Coalesced after
  ringed : Ringed h main
  filed : Filed main (before ++ after)
  last : h.LastIn after

/-- The free blocks `left ++ b :: right` of the heap `h` are one block in `h'`. -/
structure Consolidated (h h' : Heap) (x left : List Piece) (b : Piece) (right y : List Piece) (main : MainLists) :
    Prop where
  covers : Tiles (merge left b right).payload (left ++ b :: right) (merge left b right).stop
  header : h'.header (merge left b right).payload =
    (merge left b right).tag (h.header (merge left b right).payload).prevAllocated
  footer : h'.footer (merge left b right).payload (merge left b right).size =
    (merge left b right).tag (h.header (merge left b right).payload).prevAllocated
  unsettled : Unsettled h' x (merge left b right) y (main.without (payloads (left ++ right)))
  last : h'.last = if (merge left b right).stop = h.arena.stop then (merge left b right).payload else h.last
  rewrites : Rewrites (fun k => main.links k ∨ (merge left b right).tagBytes k) h h'
  alone : left = [] → right = [] → h' = { h with last := h'.last }

section Unsettled

variable {h h' : Heap} {before after x left right y : List Piece} {b : Piece} {main : MainLists}

/-- An unsettled heap is laid out up to the block, and from there on. -/
lemma Unsettled.laid (u : Unsettled h before b after main) :
    ∃ f, Laid h (before ++ [b]) b.stop b.stop after f main := by
  obtain ⟨f, htagged⟩ := u.tagged_after
  obtain ⟨hbefore, hsize, hmod, hafter⟩ := tiles_middle.mp u.tiles
  refine ⟨f, u.grounded, tiles_append.mpr ⟨_, hbefore, rfl, hsize, hmod, rfl⟩, hafter, le_rfl, u.tagged,
    htagged, u.ringed, fun c p hp => ?_⟩
  obtain ⟨d, hd, hdp, hu, -⟩ := (u.filed.mem c p).mp hp
  refine ⟨d, ?_, hdp, hu⟩
  simp only [List.mem_append] at hd ⊢
  tauto

lemma Unsettled.unlisted (u : Unsettled h before b after main) (c : Fin mainLists) : b.payload ∉ main c := by
  intro hmem
  obtain ⟨d, hd, hdp, -⟩ := (u.filed.mem c _).mp hmem
  rcases List.mem_append.mp hd with hd | hd
  · exact u.tiles.ne_before hd hdp
  · exact u.tiles.ne_after hd hdp

/-- A session's block that was marked free leaves the heap unsettled. -/
lemma Laid.unsettled {l : Ledger} {f : Bool} (hs : l.Sound) (hb : b ∈ l.live) (hp : l.pieces = before ++ b :: after)
    (w : Laid h (before ++ [{ b with use := .free }]) b.stop b.stop after f l.main) (hlast : h.LastIn after) :
    Unsettled h before { b with use := .free } after l.main := by
  have hc := hs.coalesced
  rw [hp] at hc
  obtain ⟨hbefore, hafter, -⟩ := Ledger.coalesced_append.mp hc
  refine ⟨w.grounded, ?_, rfl, w.tagged_pre, ⟨f, w.tagged_post⟩, hbefore, (List.isChain_cons.mp hafter).2,
    w.ringed, hs.filed.congr fun d hd => ?_, hlast⟩
  · have ht := tiles_append.mpr ⟨_, w.tiles_pre, w.tiles_post⟩
    rwa [List.append_assoc, List.singleton_append] at ht
  · have hdb : d ≠ b := ne_of_use (by rw [hd, hb.2]; decide)
    rw [hp]
    simp only [List.mem_append, List.mem_cons]
    tauto

/-! ### Merging -/

/-- The first block of those that are merged tells what is before all of them. -/
lemma Unsettled.prevAllocated_first (u : Unsettled h (x ++ left) b (right ++ y) main) :
    (h.header (merge left b right).payload).prevAllocated = flagAfter true x := by
  obtain ⟨f, l⟩ := u.laid
  obtain ⟨d, rest, hd⟩ : ∃ d rest, left ++ [b] = d :: rest := List.exists_cons_of_ne_nil (by simp)
  have hfirst : d.payload = (merge left b right).payload := by
    refine (tiles_mid u.tiles).head_payload ?_
    rw [List.append_cons, hd]
    rfl
  have htagged := u.tagged
  rw [List.append_assoc, hd, tagged_append] at htagged
  obtain ⟨h8, hsz⟩ := l.size_lt (b := d) (by simp [List.append_assoc, hd])
  rw [← hfirst, htagged.2.1]
  exact Tag.prevAllocated_make h8 hsz ..

/-- Without the merged blocks, the lists hold the free blocks among the rest. -/
lemma Unsettled.filed_rest (u : Unsettled h (x ++ left) b (right ++ y) main) :
    Filed (main.without (payloads (left ++ right))) (x ++ y) := by
  refine u.filed.without fun c hc => ?_
  by_cases hcb : c = b
  · subst hcb
    have hno : ∀ d ∈ x ++ left ++ (right ++ y), d ≠ c := by
      rintro d hd rfl
      rcases List.mem_append.mp hd with hd | hd
      · exact u.tiles.ne_before hd rfl
      · exact u.tiles.ne_after hd rfl
    constructor
    · intro hmem
      refine absurd rfl (hno c ?_)
      simp only [List.mem_append] at hmem ⊢
      tauto
    · exact fun hmem => absurd rfl (hno c hmem.1)
  · rw [Ledger.mem_rest u.tiles hcb]
    simp only [List.mem_append, List.mem_cons, hcb, false_or]

/-- A free block without a free neighbour is left as it is. -/
lemma Laid.coalesce_alone {m : Nat} {f : Bool} (l : Laid h (x ++ [b]) m m y f main) (hb : b.use = .free)
    (hx : flagAfter true x = true) (hy : ∀ c ∈ y.head?, c.use ≠ .free) :
    HeapM.coalesce b.payload h =
      .ok (b.payload, { h with last := if m = h.arena.stop then b.payload else h.last }) := by
  have hin : b ∈ x ++ [b] ++ y := by simp
  have hm : b.payload + b.size = m := l.tiles_pre.stop_last (by simp)
  have hlt := l.grounded.bounded
  have hend := l.le_stop
  obtain ⟨h8, hsz⟩ := l.size_lt hin
  have hallocated : (h.header b.payload).allocated = false := by
    rw [l.allocated_header hin]
    simp [Piece.isFree, hb]
  have hprev : (h.header b.payload).prevAllocated = true := by
    rw [(tagged_append.mp l.tagged_pre).2.1, hx]
    exact Tag.prevAllocated_make h8 hsz ..
  have hsum : HeapM.sum b.payload b.size h = .ok (m, h) := hm ▸ sum_run (by omega)
  have hright : Laid h (x ++ [b]) m m ([] ++ y) f main := l
  have hnext : HeapM.freeSize? m h = .ok (none, h) := hright.freeSize? (by simp) hy
  have hnote : HeapM.noteLast b.payload b.size h =
      .ok ((), { h with last := if m = h.arena.stop then b.payload else h.last }) := by
    unfold HeapM.noteLast
    rw [bind_run hsum, bind_run stop_run]
    split <;> rfl
  unfold HeapM.coalesce
  rw [bind_run (l.tagAt_run hin), hallocated, l.size_header hin, Bool.not_false, bind_run (assume_run rfl),
    bind_run hsum, bind_run hnext, hprev, if_pos rfl]
  simp only [HeapM.absorbNext, pure_bind, ne_eq, not_true_eq_false, decide_false, Bool.or_self, Bool.false_eq_true,
    if_false]
  exact bind_run hnote

/-- **Merging**, in the heap and in the sequence of its blocks. -/
lemma Unsettled.consolidated (u : Unsettled h (x ++ left) b (right ++ y) main)
    (har : Ledger.Around (x ++ left) (right ++ y) x left right y) :
    left.length ≤ 1 ∧ right.length ≤ 1 ∧
      ∃ h', HeapM.coalesce b.payload h = .ok ((merge left b right).payload, h') ∧
        Consolidated h h' x left b right y main := by
  obtain ⟨f, l⟩ := u.laid
  have ht := u.tiles
  have hx := Laid.flagAfter_rest har
  have hsub : left ++ right ⊆ x ++ left ++ (right ++ y) := by
    intro d hd
    simp only [List.mem_append] at hd ⊢
    tauto
  obtain ⟨hll, hrl, hin⟩ := har.neighbours u.coalesced_before u.coalesced_after u.filed hsub
  obtain ⟨h', hrun, l', hw, hlast⟩ := l.coalesce u.free u.unlisted har hll hrl hin
  obtain ⟨htw, -, -⟩ := Ledger.tiles_merge ht
  have hfirst : h'.firstPayload = h.firstPayload := by rw [firstPayload, hw.setting.arena]; rfl
  have hend : y = [] ↔ (merge left b right).stop = h.arena.stop := by
    have hrest := (tiles_middle.mp htw).2.2.2
    constructor
    · rintro rfl
      exact hrest
    · intro he
      by_contra hne
      have hlen := hrest.minBlock_le hne
      have hstop := hrest.stop_eq
      unfold minBlock at hlen
      omega
  obtain ⟨-, hheader, hfooter, -⟩ := tagged_append.mp l'.tagged_pre
  have hprev := u.prevAllocated_first
  refine ⟨hll, hrl, h', hrun, tiles_mid ht, hprev ▸ hheader, hprev ▸ hfooter rfl, ?_, ?_,
    ⟨hw, silent_coalesce _ hrun⟩, ?_⟩
  · refine ⟨l'.grounded, ?_, rfl, l'.tagged_pre, ⟨_, l'.tagged_post⟩,
      (Ledger.coalesced_append.mp u.coalesced_before).1, (Ledger.coalesced_append.mp u.coalesced_after).2.1,
      l'.ringed, u.filed_rest, ?_⟩
    · rw [hfirst, hw.setting.arena]
      exact htw
    · by_cases hy : y = []
      · subst hy
        exact fun d hd => absurd hd (by simp)
      · exact lastIn_after u.last (by rw [hlast, if_neg hy])
  · rw [hlast]
    simp only [hend]
  · rintro rfl rfl
    have halone := Laid.coalesce_alone (y := y) (by simpa using l) u.free hx har.y_head
    rw [halone] at hrun
    cases hrun
    rfl

end Unsettled

/-- **Merging takes the longest run of free blocks.** In a heap that is unsettled at `b`, the free blocks next to
`b`, one on each side at most, are made one block with it. Its header and its footer tell its size and what the
first block of the run told of the block before. Exactly the merged neighbours leave their lists, and the tracked
last block is set if the run ends where the region ends. Nothing is written but those tags and links, and without
a free neighbour nothing at all. -/
theorem coalesce_longest_run {h : Heap} {before after : List Piece} {b : Piece} {main : MainLists}
    (u : Unsettled h before b after main) :
    ∃ x left right y h', Ledger.Around before after x left right y ∧ left.length ≤ 1 ∧ right.length ≤ 1 ∧
      coalesce b.payload h = .ok ((merge left b right).payload, h') ∧
      Consolidated h h' x left b right y main := by
  obtain ⟨x, left, right, y, har⟩ : ∃ x left right y, Ledger.Around before after x left right y :=
    ⟨_, _, _, _, Ledger.around before after⟩
  obtain ⟨rfl, rfl⟩ : before = x ++ left ∧ after = right ++ y := ⟨har.before_eq, har.after_eq⟩
  obtain ⟨hll, hrl, h', hrun, hc⟩ := u.consolidated har
  exact ⟨x, left, right, y, h', har, hll, hrl, hrun, hc⟩

/-- A client's block marked free leaves the heap of a session unsettled. -/
lemma Session.Reachable.unsettled {s : Session} {p : Nat} (hs : s.Reachable) (hp : s.holds p) :
    ∃ h before b after main, (tagAt p >>= fun t => writeFree p (.make t.size false t.prevAllocated)) s.heap =
        .ok ((), h) ∧ b.payload = p ∧ Unsettled h before b after main ∧
      ∀ c, s.heap.mainList c = .ok (main c) := by
  obtain ⟨l, k⟩ := hs.has_ledger
  obtain ⟨n, hb, -, -⟩ := k.block hp
  obtain ⟨before, after, hpieces⟩ := List.append_of_mem hb.1
  obtain ⟨h, hrun, w, hlast, -⟩ := (k.shows.mirrors (k.sound.pages_ne hb.1)).markFree k.sound hb hpieces
  exact ⟨h, before, ⟨p, n, .free⟩, after, l.main, hrun, rfl, w.unsettled k.sound hb hpieces hlast,
    k.shows.mainList k.sound⟩

/-- Between two free blocks, which are next to each other on their list, and are not the only ones there. -/
theorem coalesce_between_listed :
    ∃ h h' before b after main, Unsettled h before b after main ∧ b.payload = 4320 ∧
      main (mainClass 208) = [4528, 4112, 5152] ∧ coalesce 4320 h = .ok (4112, h') ∧
      h'.header 4112 = .make 624 false true ∧ h'.mainList (mainClass 208) = .ok [5152] ∧
      ∃ x left right y, Consolidated h h' x left b right y main := by
  have hend : (Session.sample.serveAll [.allocate 200, .allocate 200, .allocate 200, .allocate 200, .allocate 200,
      .allocate 200, .allocate 200, .release 5152, .release 4112, .release 4528]).map (fun x =>
        decide (x.2.heap.mainList (mainClass 208) = .ok [4528, 4112, 5152] ∧ x.2.Allows (.release 4320) ∧
          (((tagAt 4320 >>= fun t => writeFree 4320 (.make t.size false t.prevAllocated)) >>= fun _ =>
            coalesce 4320) x.2.heap).map (fun y => (y.1, y.2.header 4112, y.2.mainList (mainClass 208))) =
              .ok (4112, .make 624 false true, .ok [5152]))) = some true := by
    decide +kernel
  obtain ⟨⟨as, s⟩, hs, hrest⟩ := Option.map_eq_some_iff.mp hend
  obtain ⟨hlist, hholds, hrest⟩ := of_decide_eq_true hrest
  obtain ⟨h, before, b, after, main, hmark, hb, u, hmain⟩ := (Session.sample_reachable hs).unsettled hholds
  obtain ⟨x, left, right, y, h', -, -, -, hrun, hc⟩ := coalesce_longest_run u
  rw [hb] at hrun
  rw [bind_run hmark, hrun] at hrest
  obtain ⟨hp, hrest⟩ := Prod.mk.inj (Except.ok.inj hrest)
  obtain ⟨hheader, hafter⟩ := Prod.mk.inj hrest
  exact ⟨h, h', before, b, after, main, u, hb, Except.ok.inj ((hmain _).symm.trans hlist), hp ▸ hrun, hheader,
    hafter, x, left, right, y, hc⟩

end BoundaryTag
