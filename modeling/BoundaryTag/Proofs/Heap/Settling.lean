import BoundaryTag.Heap.Allocate
import BoundaryTag.Proofs.Heap.Merging
import BoundaryTag.Proofs.Ledger.Edits

/-!
Freeing and cutting blocks.

A heap rests when its layout has no gap. Work that frees a block or cuts one takes a heap that rests in
the blocks of a ledger to one that rests in the blocks of the ledger freed or cut in the same way, and
writes nowhere in the other blocks that are in use.
-/

namespace BoundaryTag

open Heap HeapM Piece

/-- The heap is laid out in these blocks, and has these main lists. -/
def Rests (h : Heap) (ps : List Piece) (main : MainLists) : Prop :=
  Laid h [] h.firstPayload h.firstPayload ps true main

/-- The blocks of the heap, its main lists and its last block are those of the ledger. -/
structure Mirrors (h : Heap) (l : Ledger) : Prop where
  rests : Rests h l.pieces l.main
  last : h.LastIn l.pieces

/-- The bytes that are none of the usable bytes of these blocks. -/
def Outside (bs : Set Piece) (x : Nat) : Prop := ∀ b ∈ bs, ¬ b.usable x

/-- The bytes that belong to none of these blocks, not even to their headers. -/
def Clear (bs : Set Piece) (x : Nat) : Prop := ∀ b ∈ bs, ¬ b.bytes x

/-- The blocks in use. -/
def Ledger.used (l : Ledger) : Set Piece := {b | b ∈ l.pieces ∧ b.use ≠ .free}

section Outside

variable {bs cs : Set Piece} {ps : List Piece} {a z k : Nat}

lemma Outside.mono (h : Outside cs k) (hsub : bs ⊆ cs) : Outside bs k := fun b hb => h b (hsub hb)

/-- What is reserved is none of the usable bytes of a block in use. -/
lemma Reserved.outside (ht : Tiles a ps z) (hk : Reserved ps k)
    (hbs : ∀ b ∈ bs, b ∈ ps ∧ b.use ≠ .free) : Outside bs k := by
  obtain ⟨c, hc, h1, h2⟩ := hk
  rintro b hb ⟨h3, h4⟩
  obtain ⟨hbp, hu⟩ := hbs b hb
  have hcs := (ht.bounds hc).2.2.1
  rcases ht.apart hbp hc with rfl | h5 | h5
  · have hfree : b.isFree = false := by simpa [Piece.isFree] using hu
    rw [hfree] at h2
    rcases h2 with h2 | ⟨h2, -⟩
    · omega
    · cases h2
  · omega
  · rcases h2 with h2 | ⟨-, h2⟩ <;> unfold Piece.stop minBlock wordSize at * <;> omega

lemma Clear.outside (h : Clear bs k) : Outside bs k := by
  rintro b hb ⟨h1, h2⟩
  exact h b hb ⟨by omega, h2⟩

/-- The bytes that belong to no block in use are no client's. -/
lemma Clear.outside_live {l : Ledger} (h : Clear l.used k) : Outside l.live k :=
  h.outside.mono fun _ hd => ⟨hd.1, by rw [hd.2]; decide⟩

/-- The bytes of free blocks belong to no block in use. -/
lemma Vacant.clear (ht : Tiles a ps z) (hk : Vacant ps k)
    (hbs : ∀ b ∈ bs, b ∈ ps ∧ b.use ≠ .free) : Clear bs k := by
  obtain ⟨c, hc, hu, h1, h2⟩ := hk
  rintro b hb ⟨h3, h4⟩
  obtain ⟨hbp, hbu⟩ := hbs b hb
  rcases ht.apart hbp hc with rfl | h5 | h5
  · exact hbu (by simpa [Piece.isFree] using hu)
  · omega
  · omega

/-- The usable bytes of a block are none of another's. -/
lemma usable_outside {b : Piece} (ht : Tiles a ps z) (hb : b ∈ ps) (hk : b.usable k)
    (hbs : ∀ c ∈ bs, c ∈ ps ∧ c ≠ b) : Outside bs k := by
  rintro c hc ⟨h1, h2⟩
  obtain ⟨hcp, hne⟩ := hbs c hc
  obtain ⟨h3, h4⟩ := hk
  rcases ht.apart hcp hb with h5 | h5 | h5
  · exact hne h5
  · unfold wordSize at *
    omega
  · unfold wordSize at *
    omega

end Outside

section Rests

variable {h h' : Heap} {pre post x y : List Piece} {m : Nat} {f : Bool} {main : MainLists}

lemma Rests.cut (r : Rests h (x ++ y) main) :
    ∃ m, Laid h x m m y (flagAfter true x) main := by
  obtain ⟨m, h1, h2⟩ := tiles_append.mp r.tiles_post
  obtain ⟨h3, h4⟩ := tagged_append.mp r.tagged_post
  exact ⟨m, r.grounded, h1, h2, le_rfl, h3, h4, r.ringed, r.listed⟩

lemma Laid.rest (l : Laid h x m m y (flagAfter true x) main) : Rests h (x ++ y) main :=
  ⟨l.grounded, rfl, tiles_append.mpr ⟨m, l.tiles_pre, l.tiles_post⟩, le_rfl, trivial,
    tagged_append.mpr ⟨l.tagged_pre, l.tagged_post⟩, l.ringed, l.listed⟩

lemma lastIn_middle {b : Piece} (hnil : y = [] → h.last = b.payload)
    (hy : y ≠ [] → h.LastIn y) : h.LastIn (x ++ b :: y) := by
  intro d hd
  rw [List.getLast?_append_of_ne_nil _ (List.cons_ne_nil _ _)] at hd
  by_cases he : y = []
  · subst he
    rw [hnil rfl]
    simp only [List.getLast?_singleton, Option.mem_def, Option.some.injEq] at hd
    exact congrArg Piece.payload hd
  · rw [List.getLast?_cons_of_ne_nil he] at hd
    exact hy he d hd

lemma lastIn_after (hlast : h.LastIn (x ++ y)) (he : h'.last = h.last) : h'.LastIn y := by
  intro d hd
  rw [he]
  refine hlast d ?_
  rw [List.getLast?_append_of_ne_nil _ (List.ne_nil_of_mem (List.mem_of_mem_getLast? hd))]
  exact hd

/-- Notes are no matter to the layout. -/
lemma Laid.note {n : Nat} (l : Laid h pre m n post f main) (e : Event) :
    ∃ h', HeapM.note e h = .ok ((), h') ∧ Laid h' pre m n post f main ∧
      Within (fun _ => False) h h' ∧ h'.last = h.last := by
  have hw : Within (fun _ => False) h { h with journal := h.journal.add e } :=
    ⟨⟨rfl, rfl, rfl, rfl, rfl, rfl⟩, rfl, fun _ _ => rfl⟩
  exact ⟨_, rfl, l.write hw rfl fun x hx => hx.elim, hw, rfl⟩

end Rests

section Work

variable {h : Heap} {l : Ledger} {b : Piece} {before after : List Piece} {m need : Nat} {f : Bool}

/-! ### Settling -/

/-- A client's block is on no main list. -/
lemma unlisted (hs : l.Sound) (hb : b ∈ l.live) (c : Fin mainLists) : b.payload ∉ l.main c := by
  intro hmem
  have hu := (hs.filed.eq_of_mem (hs.tiled hb.1) hb.1 hmem).1
  rw [hb.2] at hu
  cases hu

/-- The neighbours of a block that is freed: one on each side at most, and on the main lists. -/
lemma neighbours_listed {x left right y : List Piece} (hs : l.Sound)
    (hp : l.pieces = x ++ left ++ b :: (right ++ y))
    (har : Ledger.Around (x ++ left) (right ++ y) x left right y) :
    left.length ≤ 1 ∧ right.length ≤ 1 ∧ ∀ d ∈ left ++ right, ∃ c, d.payload ∈ l.main c := by
  have hc := hs.coalesced
  rw [hp] at hc
  obtain ⟨h1, h2, -⟩ := Ledger.coalesced_append.mp hc
  refine har.neighbours h1 (List.isChain_cons.mp h2).2 hs.filed fun d hd => ?_
  rw [hp]
  simp only [List.mem_append, List.mem_cons] at hd ⊢
  tauto

/-- No other block begins where a merged block does. -/
lemma unlisted_merge {x left right y : List Piece} (hs : l.Sound)
    (hp : l.pieces = x ++ left ++ b :: (right ++ y)) (hb : b.use = .live) (c : Fin mainLists) :
    (merge left b right).payload ∉ l.main.without (payloads (left ++ right)) c := by
  have ht := hs.tiled (b := b) (by simp [hp])
  rw [hp] at ht
  have htk := (Ledger.tiles_merge ht).1
  intro hc
  obtain ⟨hc, hnot⟩ := MainLists.mem_without.mp hc
  obtain ⟨d, hd, hdp, hu, -⟩ := (hs.filed.mem c _).mp hc
  rw [hp] at hd
  simp only [List.mem_append, List.mem_cons] at hd
  rcases hd with (hd | hd) | rfl | hd | hd
  · exact htk.ne_before hd hdp
  · exact hnot (List.mem_map.mpr ⟨d, by simp [hd], hdp⟩)
  · rw [hb] at hu
    cases hu
  · exact hnot (List.mem_map.mpr ⟨d, by simp [hd], hdp⟩)
  · exact htk.ne_after hd hdp

/-- A block written as free is merged and listed. The block after it is not told. -/
lemma Laid.mergeListed {x left right y : List Piece} (hs : l.Sound)
    (hp : l.pieces = x ++ left ++ b :: (right ++ y)) (hb : b.use = .live)
    (har : Ledger.Around (x ++ left) (right ++ y) x left right y)
    (w : Laid h (x ++ left ++ [{ b with use := .free }]) m m (right ++ y) f l.main) :
    ∃ h', (HeapM.coalesce b.payload >>= fun k => HeapM.insertFree k) h = .ok ((), h') ∧
      Laid h' (x ++ [merge left b right]) (merge left b right).stop (merge left b right).stop y
        (flagAfter f right) ((l.main.without (payloads (left ++ right))).add (merge left b right)) ∧
      Within (Vacant (x ++ left ++ { b with use := .free } :: (right ++ y))) h h' ∧
      h'.last = if y = [] then (merge left b right).payload else h.last := by
  have hlive : b ∈ l.live := ⟨by simp [hp], hb⟩
  obtain ⟨hll, hrl, hin⟩ := neighbours_listed hs hp har
  have ht := w.tiles_whole
  obtain ⟨h1, hrun1, w1, hw1, hlast1⟩ := w.coalesce rfl (unlisted (b := b) hs hlive) har hll hrl hin
  replace w1 : Laid h1 (x ++ [merge left b right]) (merge left b right).stop
    (merge left b right).stop y (flagAfter f right) (l.main.without (payloads (left ++ right))) := w1
  have hin : merge left b right ∈ x ++ [merge left b right] ++ y := by simp
  obtain ⟨h2, hrun2, w2, hw2, hlast2⟩ := w1.insertFree hin rfl (unlisted_merge hs hp hb)
  refine ⟨h2, (bind_run hrun1).trans hrun2, w2, (hw1.mono fun i => w.vacant_coalesce rfl har).trans
    (hw2.mono fun i hi => ?_), hlast2.trans hlast1⟩
  have hv := w1.links_vacant (w1.listed_add hin rfl) hi
  rw [List.append_assoc, List.singleton_append] at hv
  exact vacant_merge rfl har.left_free har.right_free ht hv

/-- **A block written as free is merged and listed** as the ledger frees it. If it is merged with one
before it, its header stands in the merged block as it was. -/
lemma Laid.settle (hs : l.Sound) (hp : l.pieces = before ++ b :: after) (hb : b.use = .live)
    (w : Laid h (before ++ [{ b with use := .free }]) m m after f l.main) (hlast : h.LastIn after) :
    ∃ h', HeapM.settle b.payload h = .ok ((), h') ∧ Mirrors h' (l.join before b after) ∧
      Within (Booked (before ++ { b with use := .free } :: after)) h h' ∧
      ((∀ d ∈ (l.join before b after).pieces, d.payload ≠ b.payload) →
        h'.header b.payload = h.header b.payload) := by
  have hlive : b ∈ l.live := ⟨by simp [hp], hb⟩
  obtain ⟨x, left, right, y, har, hj⟩ := Ledger.join_eq l before b after
  obtain ⟨rfl, rfl⟩ : before = x ++ left ∧ after = right ++ y := ⟨har.before_eq, har.after_eq⟩
  obtain ⟨hll, hrl, hin⟩ := neighbours_listed hs hp har
  rw [hj]
  set k := merge left b right with hk
  have hfree : ({ b with use := .free } : Piece).use = .free := rfl
  obtain ⟨h1, hrun1, w1, hw1, hlast1⟩ :=
    w.coalesce hfree (unlisted (b := b) hs hlive) har hll hrl hin
  have ht' := w.tiles_whole
  replace hrun1 : HeapM.coalesce b.payload h = .ok (k.payload, h1) := hrun1
  replace w1 : Laid h1 (x ++ [k]) k.stop k.stop y (flagAfter f right)
    (l.main.without (payloads (left ++ right))) := w1
  have hmem : k ∈ x ++ [k] ++ y := by simp
  obtain ⟨h2, hrun2, w2, hw2, hlast2⟩ := w1.setSuccessorFlag (p := k.payload) rfl false
  obtain ⟨h3, hrun3, w3, hw3, hlast3⟩ := w2.insertFree hmem rfl (unlisted_merge hs hp hb)
  refine ⟨h3, ?_, ⟨?_, ?_⟩, ?_, fun hgone => ?_⟩
  · rw [HeapM.settle, bind_run hrun1, bind_run (w1.tagAt_run hmem), w1.size_header hmem,
      bind_run hrun2, hrun3]
  · have hflag : flagAfter true (x ++ [k]) = false := by
      rw [flagAfter_append]
      rfl
    have := (hflag ▸ w3).rest
    rwa [List.append_assoc, List.singleton_append] at this
  · have hlast' : h3.last = if y = [] then k.payload else h.last := by
      rw [hlast3, hlast2, hlast1]
      rfl
    refine lastIn_middle (fun hy => by rw [hlast', if_pos hy]) fun hy => ?_
    exact lastIn_after hlast (by rw [hlast', if_neg hy])
  · refine ((hw1.mono fun i hi => w.booked_coalesce hfree har hi).trans
      (hw2.mono fun i hi => hi.mono ?_)).trans (hw3.mono fun i hi => ?_)
    · intro d hd
      simp [hd]
    · have hk := Laid.links_booked (w2.listed_add hmem rfl) hi
      rw [List.append_assoc, List.singleton_append] at hk
      exact booked_merge hfree har.left_free har.right_free ht' hk
  · -- no block begins where it did, so there is one before it to merge with
    have hleft : left ≠ [] := by
      rintro rfl
      refine hgone k (by simp) ?_
      rw [hk, merge, total_nil, Nat.sub_zero]
    have hword : wordSize ≤ b.payload := by
      have hbs := w.bounds (b := { b with use := .free }) (by simp)
      unfold wordSize
      unfold alignment at hbs
      simp only at hbs
      omega
    rw [hw3.off.header hw3.setting.key hword fun i h1 h2 => (w.buried _ hleft h1 h2).2.2,
      hw2.off.header hw2.setting.key hword fun i h1 h2 => (w.buried [] hleft h1 h2).2.1,
      hw1.off.header hw1.setting.key hword fun i h1 h2 => (w.buried [] hleft h1 h2).1]

/-! ### Work at a block -/

/-- An unlisted block read, and given up to a gap. -/
lemma Rests.gap {u : Use} {main : MainLists} (r : Rests h (before ++ { b with use := u } :: after) main)
    (hnew : ∀ c, b.payload ∉ main c) :
    HeapM.tagAt b.payload h = .ok (h.header b.payload, h) ∧
      (h.header b.payload).size = b.size ∧
      (h.header b.payload).prevAllocated = flagAfter true before ∧
      Laid h before b.payload b.stop after (!{ b with use := u }.isFree) main := by
  obtain ⟨m, w⟩ := r.cut
  have hin : { b with use := u } ∈ before ++ { b with use := u } :: after := by simp
  obtain ⟨h8, hsz⟩ := w.size_lt hin
  have htag := w.tagged_post.1
  have w' : Laid h (before ++ []) m m ([{ b with use := u }] ++ after) (flagAfter true before) main := by
    rwa [List.append_nil]
  obtain ⟨i, j, w', hi, hj⟩ := w'.punch (by simpa using hnew)
  have hbm : b.payload = i := hj.1.trans hi.symm
  have hbj : b.stop = j := hj.2.2.2
  subst hbm hbj
  refine ⟨w.tagAt_run (b := { b with use := u }) hin, w.size_header (b := { b with use := u }) hin,
    ?_, w'⟩
  exact htag ▸ Tag.prevAllocated_make h8 hsz ..

/-- What is reserved when other blocks stand in the place of one is outside of the others in use, and of
those that stand there in use. -/
lemma reserved_outside {mid : List Piece} {k : Nat} (hs : l.Sound)
    (hp : l.pieces = before ++ b :: after) (hmid : Tiles b.payload mid b.stop)
    (hk : Reserved (before ++ mid ++ after) k) :
    Outside ({c | c ∈ mid ∧ c.use ≠ .free} ∪ l.used \ {b}) k := by
  have ht := hs.tiled (b := b) (by simp [hp])
  rw [hp] at ht
  refine hk.outside (tiles_replace ht hmid) fun d hd => ?_
  rcases hd with ⟨hd, hu⟩ | ⟨⟨hmem, hu⟩, hne⟩
  · exact ⟨(mem_replace ht).mpr (.inl hd), hu⟩
  · rw [hp] at hmem
    exact ⟨(mem_replace ht).mpr (.inr ⟨hmem, hne⟩), hu⟩

/-- Where the heap keeps account of blocks, one of which was a client's before it was freed. -/
lemma booked_marked (hsize : minBlock ≤ b.size) {k : Nat}
    (hk : Booked (before ++ { b with use := .free } :: after) k) :
    Booked (before ++ b :: after) k ∨ b.usable k := by
  obtain ⟨d, hd, hk⟩ := hk
  simp only [List.mem_append, List.mem_cons] at hd
  rcases hd with hd | rfl | hd
  · exact .inl ⟨d, by simp [hd], hk⟩
  · rcases hk with ⟨h1, h2 | ⟨-, h2, h3⟩⟩ | ⟨-, h1, h2⟩
    · exact .inl ⟨b, by simp, .inl ⟨h1, .inl h2⟩⟩
    all_goals
      simp only [Piece.stop, minBlock, alignment, wordSize] at *
      exact .inr ⟨by omega, by simp only [Piece.stop, wordSize]; omega⟩
  · exact .inl ⟨d, by simp [hd], hk⟩

/-- The bytes that freeing a client's block writes are outside of the others in use. -/
lemma booked_outside (hs : l.Sound) (hb : b ∈ l.live) {k : Nat} (hk : Booked l.pieces k ∨ b.usable k) :
    Outside (l.used \ {b}) k := by
  have ht := hs.tiled hb.1
  rcases hk with hk | hk
  · exact (hk.reserved fun d hd => (ht.bounds hd).2.2.1).outside ht fun d hd => hd.1
  · exact usable_outside ht hb.1 hk fun d hd => ⟨hd.1.1, hd.2⟩

/-- A client's block marked free. The block after it is not told yet. -/
lemma Mirrors.markFree (hs : l.Sound) (hb : b ∈ l.live) (hp : l.pieces = before ++ b :: after)
    (w : Mirrors h l) :
    ∃ h', (HeapM.tagAt b.payload >>= fun t =>
        HeapM.writeFree b.payload (.make t.size false t.prevAllocated)) h = .ok ((), h') ∧
      Laid h' (before ++ [{ b with use := .free }]) b.stop b.stop after (!b.isFree) l.main ∧
      h'.LastIn after ∧ Within (Booked (before ++ { b with use := .free } :: after)) h h' := by
  have hbs := (hs.tiled hb.1).bounds hb.1
  obtain ⟨r, hlast⟩ := w
  rw [hp] at r hlast
  obtain ⟨hread, hsize, hprev, w0⟩ := r.gap (unlisted hs hb)
  obtain ⟨h1, hrun1, w1, hw1, hlast1⟩ :=
    w0.writeFree (b := { b with use := .free }) rfl rfl hbs.2.2.1 hbs.2.2.2 le_rfl
  rw [List.append_cons] at hlast
  refine ⟨h1, ?_, w1, lastIn_after hlast hlast1, hw1.mono fun k hk => booked_of_tagBytes (by simp) hk⟩
  rw [bind_run hread, hsize, hprev]
  exact hrun1

/-- **A client's block freed** into the main lists. If it is merged with one before it, its header still
tells that it is free. -/
lemma freeToMain_run (hs : l.Sound) (hb : b ∈ l.live) (w : Mirrors h l) :
    ∃ h', freeToMain b.payload h = .ok ((), h') ∧ Mirrors h' (l.free b.payload) ∧
      Within (fun x => Booked l.pieces x ∨ b.usable x) h h' ∧
      ((∀ d ∈ (l.free b.payload).pieces, d.payload ≠ b.payload) →
        ∃ g, h'.header b.payload = ({ b with use := .free } : Piece).tag g) := by
  obtain ⟨hmem, hu⟩ := id hb
  obtain ⟨before, after, hp⟩ := List.append_of_mem hmem
  have ht := hs.tiled hmem
  have hbs := ht.bounds hmem
  obtain ⟨h1, hrun1, w1, hlast1, hw1⟩ := w.markFree hs hb hp
  obtain ⟨h2, hrun2, w2, hw2, hstale⟩ := Laid.settle hs hp hu w1 hlast1
  have hbooked : ∀ k, Booked (before ++ { b with use := .free } :: after) k →
      Booked l.pieces k ∨ b.usable k := fun k hk => hp ▸ booked_marked hbs.2.2.1 hk
  rw [← Ledger.free_eq ht hp] at w2 hstale
  refine ⟨h2, ?_, w2, (hw1.trans hw2).mono hbooked, fun hgone => ?_⟩
  · rw [freeToMain, ← bind_assoc]
    exact (bind_run hrun1).trans hrun2
  · obtain ⟨g, hg, -⟩ := w1.tags (b := { b with use := .free }) (by simp)
    exact ⟨g, (hstale hgone).trans hg⟩

/-- A block in the gap given to a client as a whole. -/
lemma keepWhole_run (hs : l.Sound) (hb : b ∈ l.live) (hp : l.pieces = before ++ b :: after)
    (w : Laid h before b.payload b.stop after f l.main) (hlast : h.LastIn after) :
    ∃ h', (setHeader b.payload (.make b.size true (flagAfter true before)) >>= fun _ =>
        setSuccessorFlag b.payload b.size true >>= fun _ => noteLast b.payload b.size) h = .ok ((), h') ∧
      Mirrors h' l ∧ Within (Booked l.pieces) h h' := by
  have hbs := (hs.tiled hb.1).bounds hb.1
  have hfree : b.isFree = false := by simp [Piece.isFree, hb.2]
  have htag : b.tag (flagAfter true before) = .make b.size true (flagAfter true before) := by
    rw [Piece.tag, hfree]
    rfl
  obtain ⟨h1, hrun1, w1, hw1, hlast1⟩ := w.writeUsed rfl hfree hbs.2.2.1 hbs.2.2.2 le_rfl
  obtain ⟨h2, hrun2, w2, hw2, hlast2⟩ := w1.setSuccessorFlag (p := b.payload) rfl true
  obtain ⟨h3, hrun3, w3, hw3, hlast3⟩ := w2.noteLast (p := b.payload) rfl
  rw [htag] at hrun1
  refine ⟨h3, (bind_run hrun1).trans ((bind_run hrun2).trans hrun3), ⟨?_, ?_⟩, ?_⟩
  · have hflag : flagAfter true (before ++ [b]) = true := by simp [hfree]
    have := (hflag ▸ w3).rest
    rwa [List.append_assoc, List.singleton_append, ← hp] at this
  · rw [hp]
    refine lastIn_middle (fun ha => by rw [hlast3, if_pos ha]) fun ha => ?_
    exact lastIn_after (x := []) hlast (by rw [hlast3, if_neg ha, hlast2, hlast1])
  · refine ((hw1.mono fun k hk => booked_of_tagBytes hb.1 hk).trans
      (hw2.mono fun k hk => hk.mono fun d hd => ?_)).trans (hw3.mono fun k hk => hk.elim)
    simp [hp, hd]

/-- The first `need` bytes of a block in the gap given to a client, and the rest settled. -/
lemma cutOff_run (hs : l.Sound) (hb : b ∈ l.live) (hp : l.pieces = before ++ b :: after)
    (w : Laid h before b.payload b.stop after f l.main) (hlast : h.LastIn after)
    (hn : minBlock ≤ need) (hmod : need % alignment = 0) (hrest : minBlock ≤ b.size - need) :
    ∃ h', (setHeader b.payload (.make need true (flagAfter true before)) >>= fun _ =>
        writeFree (b.payload + need) (.make (b.size - need) false true) >>= fun _ =>
          settle (b.payload + need)) h = .ok ((), h') ∧
      Mirrors h' ((l.split b.payload need).free (b.payload + need)) ∧
      Within (Booked (before ++ [⟨b.payload, need, .live⟩, ⟨b.payload + need, b.size - need, .free⟩] ++ after))
        h h' := by
  have ht := hs.tiled hb.1
  have hbs := ht.bounds hb.1
  obtain ⟨hs', -⟩ := Ledger.sound_split hs hb hn hrest hmod
  set first : Piece := ⟨b.payload, need, .live⟩ with hfirst
  set tail : Piece := ⟨b.payload + need, b.size - need, .live⟩ with htail
  have hpieces : (l.split b.payload need).pieces = before ++ [first] ++ tail :: after := by
    rw [Ledger.split_eq ht hp, hb.2]
    simp [hfirst, htail]
  have hmid : Tiles b.payload [first, { tail with use := .free }] b.stop :=
    tiles_cut hbs.2.2.2 hn hmod hrest
  obtain ⟨-, -, -, -, -, htmod, hend⟩ := id hmid
  replace hend : ({ tail with use := .free } : Piece).stop = b.stop := hend
  have hle : need ≤ b.size := by
    unfold minBlock at hrest
    omega
  have hstop : first.stop ≤ b.stop := Nat.add_le_add_left hle _
  obtain ⟨h1, hrun1, w1, hw1, hlast1⟩ := w.writeUsed (b := first) rfl rfl hn hmod hstop
  obtain ⟨h2, hrun2, w2, hw2, hlast2⟩ :=
    w1.writeFree (b := { tail with use := .free }) rfl rfl hrest htmod hend.le
  rw [hend] at w2
  have hlast' : h2.LastIn after := lastIn_after (x := []) hlast (by rw [hlast2, hlast1])
  obtain ⟨h3, hrun3, w3, hw3, -⟩ := Laid.settle hs' hpieces rfl w2 hlast'
  refine ⟨h3, ?_, ?_, ?_⟩
  · have hflag : flagAfter true (before ++ [first]) = true := by simp [hfirst, Piece.isFree]
    rw [hflag] at hrun2
    exact (bind_run hrun1).trans ((bind_run hrun2).trans hrun3)
  · rw [Ledger.free_eq (hs'.tiled (b := tail) (by simp [hpieces])) hpieces]
    exact w3
  · refine ((hw1.mono fun k hk => booked_of_tagBytes ?_ hk).trans
      (hw2.mono fun k hk => booked_of_tagBytes ?_ hk)).trans (hw3.mono fun k hk => ?_)
    · simp
    · simp [htail]
    · rwa [List.append_assoc] at hk ⊢

/-- Clients have the first `need` bytes of a block of which the rest is cut off, and what they had
besides. -/
lemma live_cutOff (hs : l.Sound) (hb : b ∈ l.live) (hn : minBlock ≤ need) (hmod : need % alignment = 0)
    (hrest : minBlock ≤ b.size - need) :
    ((l.split b.payload need).free (b.payload + need)).live ⊆
      {⟨b.payload, need, .live⟩} ∪ l.used \ {b} := by
  obtain ⟨hs', hl'⟩ := Ledger.sound_split hs hb hn hrest hmod
  obtain ⟨-, hl⟩ := Ledger.sound_free hs' (b := ⟨b.payload + need, b.size - need, .live⟩)
    (by simp [hl'])
  rw [hl, hl']
  rintro d ⟨(rfl | rfl) | ⟨hd, hdb⟩, hne⟩
  · exact .inl rfl
  · exact absurd rfl hne
  · exact .inr ⟨⟨hd.1, by rw [hd.2]; decide⟩, hdb⟩

/-- **A block given to a client** with `need` bytes. What it has beyond is cut off, if it can stand. The
client's bytes are left alone, as far as they are still the client's. -/
lemma place_run {u : Use} (hs : l.Sound) (hb : b ∈ l.live) (hp : l.pieces = before ++ b :: after)
    (r : Rests h (before ++ { b with use := u } :: after) l.main) (hlast : h.LastIn after)
    (hn : minBlock ≤ need) (hmod : need % alignment = 0) (hle : need ≤ b.size) :
    ∃ h', place b.payload need h = .ok ((), h') ∧ Mirrors h' (l.trim b.payload need) ∧
      Within (Booked (before ++ b.parts need ++ after)) h h' := by
  obtain ⟨hread, hsize, hprev, w0⟩ := r.gap (unlisted hs hb)
  have hlt := w0.grounded.bounded
  have hend := w0.le_stop
  unfold place
  rw [bind_run hread, hsize, hprev, bind_run (assume_run (decide_eq_true hle)),
    bind_run (difference_run hle)]
  unfold Ledger.trim
  rw [hs.sizeAt_eq hb.1]
  by_cases hrest : b.size - need < minBlock
  · rw [Piece.parts, if_pos hrest, if_pos hrest, if_neg (Nat.not_le.mpr hrest), ← List.append_cons, ← hp]
    exact keepWhole_run hs hb hp w0 hlast
  · rw [Piece.parts, if_neg hrest, if_neg hrest, if_pos (Nat.not_lt.mp hrest), hb.2]
    obtain ⟨h1, hrun1, w1, hw1, hlast1⟩ := w0.note (.split b.payload b.size need (b.size - need))
    obtain ⟨h2, hrun2, m2, hw2⟩ := cutOff_run hs hb hp w1 (lastIn_after (x := []) hlast hlast1) hn hmod
      (Nat.not_lt.mp hrest)
    refine ⟨h2, ?_, m2, (hw1.mono fun _ hk => hk.elim).trans hw2⟩
    rw [bind_run hrun1, bind_run (sum_run (by unfold Piece.stop at hend; omega))]
    exact hrun2

/-- The bytes that cutting a client's block writes are none that clients have after that, and none of another
block in use. -/
lemma parts_outside (hs : l.Sound) (hb : b ∈ l.live) (hp : l.pieces = before ++ b :: after)
    (hn : minBlock ≤ need) (hmod : need % alignment = 0) {k : Nat}
    (hk : Booked (before ++ b.parts need ++ after) k) :
    Outside ((l.trim b.payload need).live ∪ l.used \ {b}) k := by
  have ht := hs.tiled hb.1
  have hbs := ht.bounds hb.1
  have hmid := Piece.tiles_parts hbs.2.2.1 hbs.2.2.2 hn hmod
  have htp := tiles_replace (hp ▸ ht) hmid
  refine (reserved_outside hs hp hmid (hk.reserved fun d hd => (htp.bounds hd).2.2.1)).mono ?_
  refine Set.union_subset (fun d hd => ?_) Set.subset_union_right
  unfold Ledger.trim at hd
  rw [hs.sizeAt_eq hb.1] at hd
  unfold Piece.parts
  by_cases hrest : b.size - need < minBlock
  · rw [if_neg (Nat.not_le.mpr hrest)] at hd
    rw [if_pos hrest]
    by_cases hdb : d = b
    · exact .inl ⟨by simp [hdb], by rw [hd.2]; decide⟩
    · exact .inr ⟨⟨hd.1, by rw [hd.2]; decide⟩, hdb⟩
  · rw [if_pos (Nat.not_lt.mp hrest)] at hd
    rw [if_neg hrest]
    rcases live_cutOff hs hb hn hmod (Nat.not_lt.mp hrest) hd with rfl | hd
    · exact .inl ⟨by simp [hb.2], show Use.live ≠ .free by decide⟩
    · exact .inr hd

/-- A block in the gap cut in two: what is after its first `lead` bytes is a client's, and those are
written as free. -/
lemma Laid.writeLead {main : MainLists} {lead : Nat} (w : Laid h before b.payload b.stop after true main)
    (hmod0 : b.size % alignment = 0) (hn : minBlock ≤ lead) (hmod : lead % alignment = 0)
    (hrest : minBlock ≤ b.size - lead) :
    ∃ h', (HeapM.setHeader (b.payload + lead) (.make (b.size - lead) true false) >>= fun _ =>
        HeapM.writeFree b.payload (.make lead false (flagAfter true before))) h = .ok ((), h') ∧
      Laid h' (before ++ [⟨b.payload, lead, .free⟩]) (b.payload + lead) (b.payload + lead)
        (⟨b.payload + lead, b.size - lead, .live⟩ :: after) false main ∧
      Within (Reserved (before ++ [⟨b.payload, lead, .free⟩, ⟨b.payload + lead, b.size - lead, .live⟩]
        ++ after)) h h' ∧ h'.last = h.last := by
  set first : Piece := ⟨b.payload, lead, .free⟩
  set tail : Piece := ⟨b.payload + lead, b.size - lead, .live⟩
  obtain ⟨-, -, -, -, -, htmod, hend⟩ :=
    (tiles_cut hmod0 hn hmod hrest : Tiles b.payload [first, tail] b.stop)
  replace hend : b.payload + lead + (b.size - lead) = b.stop := hend
  obtain ⟨h1, hrun1, w1, hh1, hw1, hlast1⟩ :=
    w.setHeader (b := tail) (Nat.le_add_right _ _) hend.le hrest false
  have w1' := w1.fill_post (b := tail) hend hrest htmod (Nat.le_add_right _ _) hh1
    (fun hf => absurd hf Bool.false_ne_true)
  obtain ⟨h2, hrun2, w2, hw2, hlast2⟩ := w1'.writeFree (b := first) rfl rfl hn hmod le_rfl
  refine ⟨h2, (bind_run hrun1).trans hrun2, w2, ?_, hlast2.trans hlast1⟩
  exact (hw1.mono fun k hk => ⟨tail, by simp, reserved_of_tagBytes hk⟩).trans
    (hw2.mono fun k hk => ⟨first, by simp, reserved_of_tagBytes hk⟩)

/-- **The lead of a client's block freed.** The tracked last block is left as it is, which is right
unless the block was the last. -/
lemma releaseLead_run {lead : Nat} (hs : l.Sound) (hb : b ∈ l.live)
    (hp : l.pieces = before ++ b :: after) (r : Rests h l.pieces l.main) (hn : minBlock ≤ lead)
    (hmod : lead % alignment = 0) (hrest : minBlock ≤ b.size - lead) :
    ∃ h', RequestM.releaseLead b.payload lead h = .ok (b.payload + lead, h') ∧
      Rests h' ((l.split b.payload lead).free b.payload).pieces
        ((l.split b.payload lead).free b.payload).main ∧
      (∃ ps, ((l.split b.payload lead).free b.payload).pieces =
        ps ++ ⟨b.payload + lead, b.size - lead, .live⟩ :: after) ∧
      Within (Outside (l.used \ {b})) h h' ∧ h'.last = h.last := by
  have ht := hs.tiled hb.1
  have hbs := ht.bounds hb.1
  obtain ⟨hs', -⟩ := Ledger.sound_split hs hb hn hrest hmod
  set first : Piece := ⟨b.payload, lead, .live⟩ with hfirst
  set tail : Piece := ⟨b.payload + lead, b.size - lead, .live⟩ with htail
  have hpieces : (l.split b.payload lead).pieces = before ++ first :: (tail :: after) := by
    rw [Ledger.split_eq ht hp, hb.2]
    simp [hfirst, htail]
  have hfree := Ledger.free_eq (hs'.tiled (b := first) (by simp [hpieces])) hpieces
  obtain ⟨x, left, right, y, har, hj⟩ :=
    Ledger.join_eq (l.split b.payload lead) before first (tail :: after)
  -- the block after the lead is the client's
  obtain rfl := har.right_nil (show Use.live ≠ .free by decide)
  obtain ⟨rfl, rfl⟩ : before = x ++ left ∧ tail :: after = y := ⟨har.before_eq, har.after_eq⟩
  replace hpieces : (l.split b.payload lead).pieces =
    x ++ left ++ first :: ([] ++ (tail :: after)) := hpieces
  replace har : Ledger.Around (x ++ left) ([] ++ (tail :: after)) x left [] (tail :: after) := har
  have hmid : Tiles b.payload [{ first with use := .free }, tail] b.stop :=
    tiles_cut hbs.2.2.2 hn hmod hrest
  rw [hp] at r
  have hself : ({ b with use := .live } : Piece) = b := by
    rw [← hb.2]
  obtain ⟨hread, hsize, hprev, w0⟩ := Rests.gap (u := .live) (by rwa [hself]) (unlisted hs hb)
  have hlt := w0.grounded.bounded
  have hstop := w0.le_stop
  unfold Piece.stop at hstop
  obtain ⟨h1, hrun1, w1, hw1, hlast1⟩ := w0.note (.leadReleased (b.payload + lead) lead)
  obtain ⟨h2, hrun2, w2, hw2, hlast2⟩ := w1.writeLead hbs.2.2.2 hn hmod hrest
  replace w2 : Laid h2 (x ++ left ++ [{ first with use := .free }]) tail.payload tail.payload
    ([] ++ (tail :: after)) false l.main := w2
  obtain ⟨h3, hrun3, w3, hw3, hlast3⟩ := w2.mergeListed (b := first) hs' hpieces rfl har
  rw [if_neg (List.cons_ne_nil _ _)] at hlast3
  have hout : ∀ k, Reserved (x ++ left ++ [{ first with use := .free }, tail] ++ after) k →
      Outside (l.used \ {b}) k := fun k hk =>
    (reserved_outside hs hp hmid hk).mono Set.subset_union_right
  refine ⟨h3, ?_, ?_, ?_, ?_, ?_⟩
  · unfold RequestM.releaseLead
    rw [bind_run hread, hsize, hprev, bind_run (sum_run (by unfold minBlock at hrest; omega)),
      bind_run hrun1, bind_run (difference_run (by unfold minBlock at hrest; omega)), ← bind_assoc]
    refine (bind_run hrun2).trans ?_
    rw [← bind_assoc]
    exact bind_run hrun3
  · rw [hfree, hj]
    have hflag : flagAfter true (x ++ [merge left first []]) = false := by
      rw [flagAfter_append]
      rfl
    have := (hflag ▸ w3).rest
    rwa [List.append_assoc, List.singleton_append] at this
  · rw [hfree, hj]
    exact ⟨x ++ [merge left first []], by simp⟩
  · refine ((hw1.mono fun _ hk => hk.elim).trans (hw2.mono hout)).trans
      (hw3.mono fun k hk => hout k ?_)
    simpa using hk.reserved
  · rw [hlast3, hlast2, hlast1]

end Work

end BoundaryTag
