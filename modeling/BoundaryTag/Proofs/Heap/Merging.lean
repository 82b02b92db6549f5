import BoundaryTag.Proofs.Heap.Writing
import BoundaryTag.Proofs.Ledger.Freeing

/-!
Merging.

A free block on no list stands where the gap of a layout was. Its free neighbours leave their lists, and
one free block is written over the three. What is merged is what the ledger merges.
-/

namespace BoundaryTag

open Heap HeapM Piece

section Vacant

variable {x left right y : List Piece} {b : Piece} {a z : Nat}

/-- Merged blocks are where the blocks were that they are made of. -/
lemma tiles_mid (ht : Tiles a (x ++ left ++ b :: (right ++ y)) z) :
    Tiles (merge left b right).payload (left ++ b :: right) (merge left b right).stop := by
  obtain ⟨-, hstop, hpay⟩ := Ledger.tiles_merge ht
  obtain ⟨h1, hs, hm, h2⟩ := tiles_middle.mp ht
  obtain ⟨i, -, h3⟩ := tiles_append.mp h1
  obtain ⟨j, h4, -⟩ := tiles_append.mp h2
  have hi := h3.stop_eq
  have hj := h4.stop_eq
  have hi' : i = (merge left b right).payload := by omega
  have hj' : j = (merge left b right).stop := by omega
  exact tiles_middle.mpr ⟨hi' ▸ h3, hs, hm, hj' ▸ h4⟩

/-- The bytes of merged blocks are those of the blocks. -/
lemma vacant_merge (hb : b.use = .free) (hl : ∀ c ∈ left, c.use = .free)
    (hr : ∀ c ∈ right, c.use = .free) (ht : Tiles a (x ++ left ++ b :: (right ++ y)) z) {k : Nat}
    (hk : Vacant (x ++ merge left b right :: y) k) :
    Vacant (x ++ left ++ b :: (right ++ y)) k := by
  obtain ⟨d, hd, hu, h1, h2⟩ := hk
  simp only [List.mem_append, List.mem_cons] at hd
  rcases hd with hd | rfl | hd
  · exact ⟨d, by simp [hd], hu, h1, h2⟩
  · obtain ⟨c, hc, h3, h4⟩ := (tiles_mid ht).exists_mem h1 h2
    have hfree : c.use = .free := by
      simp only [List.mem_append, List.mem_cons] at hc
      rcases hc with hc | rfl | hc
      · exact hl c hc
      · exact hb
      · exact hr c hc
    refine ⟨c, ?_, by simpa [Piece.isFree] using hfree, h3, h4⟩
    simp only [List.mem_append, List.mem_cons] at hc ⊢
    tauto
  · exact ⟨d, by simp [hd], hu, h1, h2⟩

/-- What tells of the merged block is what told of the first and the last of them. -/
lemma booked_merge (hb : b.use = .free) (hl : ∀ c ∈ left, c.use = .free)
    (hr : ∀ c ∈ right, c.use = .free) (ht : Tiles a (x ++ left ++ b :: (right ++ y)) z) {k : Nat}
    (hk : Booked (x ++ merge left b right :: y) k) : Booked (x ++ left ++ b :: (right ++ y)) k := by
  obtain ⟨d, hd, hk⟩ := hk
  simp only [List.mem_append, List.mem_cons] at hd
  rcases hd with hd | rfl | hd
  · exact ⟨d, by simp [hd], hk⟩
  · have hm := tiles_mid ht
    have hfree : ∀ c ∈ left ++ b :: right, c.isFree := by
      simp only [List.mem_append, List.mem_cons]
      rintro c (hc | rfl | hc)
      · simp [Piece.isFree, hl c hc]
      · simp [Piece.isFree, hb]
      · simp [Piece.isFree, hr c hc]
    have hsub : left ++ b :: right ⊆ x ++ left ++ b :: (right ++ y) := by
      intro c hc
      simp only [List.mem_append, List.mem_cons] at hc ⊢
      tauto
    have hne : left ++ b :: right ≠ [] := by simp
    have hstart := hm.head_payload (List.head_mem_head? hne)
    have hstop := hm.stop_last (List.getLast_mem_getLast? hne)
    have hhead := List.head_mem hne
    have hlast := List.getLast_mem hne
    rcases hk with ⟨h1, h2 | ⟨-, h2, h3⟩⟩ | ⟨-, h1, h2⟩
    · exact ⟨_, hsub hhead, .inl ⟨by omega, .inl (by omega)⟩⟩
    · have hsize := (hm.bounds hlast).2.2.1
      refine ⟨_, hsub hlast, .inl ⟨?_, .inr ⟨hfree _ hlast, by omega, by omega⟩⟩⟩
      unfold Piece.stop minBlock wordSize at *
      omega
    · exact ⟨_, hsub hhead, .inr ⟨hfree _ hhead, by omega, by omega⟩⟩
  · exact ⟨d, by simp [hd], hk⟩

end Vacant

namespace Laid

variable {h : Heap} {pre x left right y : List Piece} {m : Nat} {f : Bool} {main : MainLists}
  {b : Piece}

/-- The free block after the gap is found, if there is one. -/
lemma freeSize? (l : Laid h pre m m (right ++ y) f main) (hfree : ∀ c ∈ right, c.use = .free)
    (hy : ∀ c ∈ y.head?, c.use ≠ .free) :
    HeapM.freeSize? m h = .ok (right.head?.map Piece.size, h) := by
  unfold HeapM.freeSize?
  rw [bind_run stop_run]
  rcases hsplit : right ++ y with _ | ⟨c, rest⟩
  · -- the gap is where the region ends
    obtain ⟨rfl, rfl⟩ := List.append_eq_nil_iff.mp hsplit
    have hm : m = h.arena.stop := l.tiles_post
    rw [if_neg (by omega)]
    rfl
  · have hin : c ∈ pre ++ (right ++ y) := by simp [hsplit]
    have hbs := l.bounds hin
    have hpost := l.tiles_post
    rw [hsplit] at hpost
    obtain ⟨rfl, -⟩ := hpost
    rw [if_pos (by unfold Piece.stop minBlock at hbs; omega),
      bind_run (l.tagAt_run hin), l.allocated_header hin, l.size_header hin]
    rcases right with _ | ⟨r, right⟩
    · have hc : c.use ≠ .free := hy c (by rw [List.nil_append] at hsplit; simp [hsplit])
      simp only [Piece.isFree, hc]
      rfl
    · obtain ⟨rfl, -⟩ := List.cons.inj hsplit
      have hc : r.use = .free := hfree r List.mem_cons_self
      simp only [Piece.isFree, hc]
      rfl

/-- The free block after the gap taken off its list. -/
lemma absorbNext {n : Nat} (l : Laid h pre m m (right ++ y) f main) (hlen : right.length ≤ 1)
    (hin : ∀ c ∈ right, ∃ k, c.payload ∈ main k) (hn : n ≤ m) :
    ∃ h', HeapM.absorbNext n m (right.head?.map Piece.size) h = .ok (n + total right, h') ∧
      Laid h' pre m m (right ++ y) f (main.without (payloads right)) ∧
      Within main.links h h' ∧ h'.last = h.last := by
  match right, hlen with
  | [], _ =>
    refine ⟨h, rfl, ?_, .refl h, rfl⟩
    rw [payloads, List.map_nil, MainLists.without_nil]
    exact l
  | [r], _ =>
    have hr : r ∈ pre ++ ([r] ++ y) := by simp
    have hbs := l.bounds hr
    have hlt := l.grounded.bounded
    obtain ⟨hp, -⟩ := l.tiles_post
    obtain ⟨k, hk⟩ := hin r List.mem_cons_self
    obtain ⟨h', hrun, l', hw, hlast⟩ := l.removeFree hk
    refine ⟨h', ?_, l', hw, hlast⟩
    rw [List.head?_cons, Option.map_some, HeapM.absorbNext, ← hp, bind_run hrun,
      sum_run (by unfold Piece.stop at hbs; omega), total_cons, total_nil, Nat.add_zero]

/-- The free block before a block taken off its list, and then the one after it. -/
lemma absorbPrev {d : Piece} (l : Laid h (x ++ [d] ++ [b]) m m (right ++ y) f main)
    (hd : d.use = .free) (hlen : right.length ≤ 1) (hx : flagAfter true x = true)
    (hin : ∀ c ∈ [d] ++ right, ∃ k, c.payload ∈ main k) :
    ∃ h', HeapM.absorbPrev b.payload b.size m (right.head?.map Piece.size) h =
        .ok (⟨(merge [d] b right).payload, (merge [d] b right).size, true⟩, h') ∧
      Laid h' (x ++ [d] ++ [b]) m m (right ++ y) f (main.without (payloads ([d] ++ right))) ∧
      Within main.links h h' ∧ h'.last = h.last := by
  have hdin : d ∈ x ++ [d] ++ [b] ++ (right ++ y) := by simp
  have hbin : b ∈ x ++ [d] ++ [b] ++ (right ++ y) := by simp
  have hbb := l.bounds hbin
  have hlt := l.grounded.bounded
  obtain ⟨i, hxd, hib, -, -, him⟩ := tiles_append.mp l.tiles_pre
  obtain ⟨j, -, -, -, -, hdi⟩ := tiles_append.mp hxd
  have hdi : d.stop = b.payload := hdi.trans hib.symm
  have him : b.stop = m := him
  obtain ⟨k, hk⟩ := hin d (by simp)
  -- the tags of the block before
  have htags := l.tagged_pre
  rw [tagged_append, tagged_append] at htags
  obtain ⟨⟨-, hh, hf, -⟩, -⟩ := htags
  rw [hx] at hh hf
  obtain ⟨h8, hsz⟩ := l.size_lt hdin
  have hds : (d.tag true).size = d.size := Tag.size_make h8 hsz ..
  have hdp : (d.tag true).prevAllocated = true := Tag.prevAllocated_make h8 hsz ..
  have hfoot : h.footerBefore b.payload = .ok (d.tag true) := by
    rw [← hdi, l.footerBefore_eq hdin (by simpa [Piece.isFree] using hd), hh]
  obtain ⟨h1, hrun1, l1, hw1, hlast1⟩ := l.removeFree hk
  obtain ⟨h2, hrun2, l2, hw2, hlast2⟩ := l1.absorbNext (n := b.size) hlen (fun c hc => by
    obtain ⟨j, hj⟩ := hin c (by simp [hc])
    refine ⟨j, MainLists.mem_without.mpr ⟨hj, ?_⟩⟩
    have hcb := (l.tiles_post.bounds (List.mem_append_left _ hc)).1
    simp only [List.mem_singleton]
    unfold Piece.stop at *
    unfold minBlock at *
    omega) (by unfold Piece.stop at him; omega)
  have htot : total right ≤ h.arena.stop - m := by
    obtain ⟨j, h3, h4⟩ := tiles_append.mp l.tiles_post
    have := h3.stop_eq
    have := h4.le
    omega
  refine ⟨h2, ?_, ?_, hw1.trans (hw2.mono fun _ => MainLists.links_without), hlast2.trans hlast1⟩
  · have hdiff : b.payload - d.size = d.payload := by
      unfold Piece.stop at hdi
      omega
    unfold HeapM.absorbPrev
    rw [bind_run (reading_run hfoot), hds,
      bind_run (difference_run (by unfold Piece.stop at hdi; omega)), hdiff, bind_run (l.tagAt_run hdin), hh, bind_run hrun1, bind_run hrun2, hds,
      bind_run (sum_run (by unfold Piece.stop at *; omega)), hdp]
    simp only [merge, total_cons, total_nil, Nat.add_zero, ← hdiff]
    rw [Nat.add_comm, ← Nat.add_assoc]
    rfl
  · rw [MainLists.without_without] at l2
    exact l2

lemma tiles_whole (l : Laid h (x ++ left ++ [b]) m m (right ++ y) f main) :
    Tiles h.firstPayload (x ++ left ++ b :: (right ++ y)) h.arena.stop := by
  have := tiles_append.mpr ⟨m, l.tiles_pre, l.tiles_post⟩
  rwa [List.append_assoc, List.singleton_append] at this

/-- The free block written over the merged ones. Blocks that are not merged stay as they are. -/
lemma writeMerged (l : Laid h (x ++ left ++ [b]) m m (right ++ y) f main) (hb : b.use = .free)
    (hl : ∀ c ∈ left, c.use = .free) (hr : ∀ c ∈ right, c.use = .free)
    (hx : flagAfter true x = true) (hnew : ∀ d ∈ left ++ b :: right, ∀ c, d.payload ∉ main c) :
    ∃ h', (if (decide ((merge left b right).payload ≠ b.payload) ||
        decide ((merge left b right).size ≠ b.size)) = true then
          HeapM.writeFree (merge left b right).payload (.make (merge left b right).size false true)
        else pure ()) h = .ok ((), h') ∧
      Laid h' (x ++ [merge left b right]) (merge left b right).stop (merge left b right).stop y
        (flagAfter f right) main ∧
      Within (merge left b right).tagBytes h h' ∧ h'.last = h.last := by
  have ht := l.tiles_whole
  obtain ⟨htw, hstop, hpay⟩ := Ledger.tiles_merge ht
  by_cases hsame : left = [] ∧ right = []
  · obtain ⟨rfl, rfl⟩ := hsame
    have hself : merge [] b [] = b := by
      simp only [merge, total_nil, Nat.sub_zero, Nat.zero_add, Nat.add_zero, ← hb]
    have hm : b.stop = m := l.tiles_pre.stop_last (by simp)
    rw [hself, if_neg (by simp), hm]
    simp only [List.append_nil, List.nil_append] at l
    exact ⟨h, rfl, l, .refl h, rfl⟩
  · have hbig : (merge left b right).payload ≠ b.payload ∨ (merge left b right).size ≠ b.size := by
      simp only [merge]
      obtain ⟨hleft, -, -, hright⟩ := tiles_middle.mp ht
      obtain ⟨i, -, hleft⟩ := tiles_append.mp hleft
      obtain ⟨j, hright, -⟩ := tiles_append.mp hright
      have h1 := hleft.stop_eq
      rcases not_and_or.mp hsame with hne | hne
      · have h2 := hleft.minBlock_le hne
        unfold minBlock at h2
        omega
      · have h2 := hright.minBlock_le hne
        unfold minBlock at h2
        omega
    rw [if_pos (by simpa using hbig)]
    rw [List.append_assoc] at l
    obtain ⟨i, j, l1, h1, h2⟩ := l.punch fun d hd => hnew d (by simpa using hd)
    have h3 := h1.stop_eq
    have h4 := h2.stop_eq
    rw [total_append, total_cons, total_nil] at h3
    have hm : b.stop = m := h1.stop_last (by simp)
    obtain ⟨-, hsz, hmod, -⟩ := tiles_middle.mp htw
    have hi : (merge left b right).payload = i := by
      unfold Piece.stop at *
      omega
    have hj : (merge left b right).stop = j := by omega
    obtain ⟨h', hrun, l2, hw, hlast⟩ := l1.writeFree hi rfl hsz hmod hj.le
    rw [← hj, hx] at *
    exact ⟨h', hrun, l2, hw, hlast⟩

/-- The blocks that are not merged end in one that is in use, if there is one. -/
lemma flagAfter_rest (har : Ledger.Around (x ++ left) (right ++ y) x left right y) :
    flagAfter true x = true := by
  rcases List.eq_nil_or_concat x with rfl | ⟨x', c, rfl⟩
  · rfl
  · have := har.x_last c (by simp)
    simp [Piece.isFree, this]

/-- The free neighbours found and taken off their lists. -/
lemma absorb (l : Laid h (x ++ left ++ [b]) m m (right ++ y) f main)
    (har : Ledger.Around (x ++ left) (right ++ y) x left right y) (hll : left.length ≤ 1)
    (hrl : right.length ≤ 1) (hin : ∀ d ∈ left ++ right, ∃ c, d.payload ∈ main c) :
    ∃ h', (if (h.header b.payload).prevAllocated = true then do
        pure ⟨b.payload, ← HeapM.absorbNext b.size m (right.head?.map Piece.size), true⟩
      else HeapM.absorbPrev b.payload b.size m (right.head?.map Piece.size)) h =
        .ok (⟨(merge left b right).payload, (merge left b right).size, true⟩, h') ∧
      Laid h' (x ++ left ++ [b]) m m (right ++ y) f (main.without (payloads (left ++ right))) ∧
      Within main.links h h' ∧ h'.last = h.last := by
  obtain ⟨h8, hsz⟩ := l.size_lt (b := b) (by simp)
  have hx := flagAfter_rest har
  have hm : b.stop = m := l.tiles_pre.stop_last (by simp)
  have htag : h.header b.payload = b.tag (flagAfter true (x ++ left)) :=
    (tagged_append.mp l.tagged_pre).2.1
  have hprev : (h.header b.payload).prevAllocated = flagAfter true (x ++ left) :=
    htag ▸ Tag.prevAllocated_make h8 hsz ..
  rcases left with _ | ⟨d, left⟩
  · obtain ⟨h1, hrun, l1, hw, hlast⟩ := l.absorbNext (n := b.size) hrl
      (fun c hc => hin c (by simpa using hc)) (by unfold Piece.stop at hm; omega)
    refine ⟨h1, ?_, l1, hw, hlast⟩
    rw [hprev, List.append_nil, hx, if_pos rfl, bind_run hrun]
    simp [merge, HeapM.pure_run]
  · obtain rfl : left = [] := List.length_eq_zero_iff.mp (Nat.le_zero.mp (Nat.le_of_succ_le_succ hll))
    have hd : d.use = .free := har.left_free d (by simp)
    have hflag : flagAfter true (x ++ [d]) = false := by
      rw [flagAfter_append]
      simp [Piece.isFree, hd]
    rw [hprev, hflag]
    exact l.absorbPrev hd hrl hx hin

/-- **A free block merged** with its free neighbours, which leave their lists. Links are written, and the
tags of the merged block. -/
lemma coalesce (l : Laid h (x ++ left ++ [b]) m m (right ++ y) f main) (hb : b.use = .free)
    (hnew : ∀ c, b.payload ∉ main c)
    (har : Ledger.Around (x ++ left) (right ++ y) x left right y) (hll : left.length ≤ 1)
    (hrl : right.length ≤ 1) (hin : ∀ d ∈ left ++ right, ∃ c, d.payload ∈ main c) :
    ∃ h', HeapM.coalesce b.payload h = .ok ((merge left b right).payload, h') ∧
      Laid h' (x ++ [merge left b right]) (merge left b right).stop (merge left b right).stop y
        (flagAfter f right) (main.without (payloads (left ++ right))) ∧
      Within (fun k => main.links k ∨ (merge left b right).tagBytes k) h h' ∧
      h'.last = if y = [] then (merge left b right).payload else h.last := by
  have hbin : b ∈ x ++ left ++ [b] ++ (right ++ y) := by simp
  have hlt := l.grounded.bounded
  have hend := l.le_stop
  have hm : b.stop = m := l.tiles_pre.stop_last (by simp)
  obtain ⟨h1, hrun1, l1, hw1, hlast1⟩ := l.absorb har hll hrl hin
  have hnew1 : ∀ d ∈ left ++ b :: right, ∀ c,
      d.payload ∉ main.without (payloads (left ++ right)) c := by
    intro d hd c hc
    obtain ⟨hmem, hnot⟩ := MainLists.mem_without.mp hc
    by_cases hdb : d = b
    · exact hnew c (hdb ▸ hmem)
    · refine hnot (List.mem_map.mpr ⟨d, ?_, rfl⟩)
      simp only [List.mem_append, List.mem_cons] at hd ⊢
      tauto
  obtain ⟨h2, hrun2, l2, hw2, hlast2⟩ :=
    l1.writeMerged hb har.left_free har.right_free (flagAfter_rest har) hnew1
  obtain ⟨h3, hrun3, l3, hw3, hlast3⟩ :=
    l2.noteLast (p := (merge left b right).payload) rfl
  refine ⟨h3, ?_, l3, ?_, ?_⟩
  · have hta : (h.header b.payload).allocated = false := by
      rw [l.allocated_header hbin]
      simp [Piece.isFree, hb]
    have hsum : HeapM.sum b.payload b.size h = .ok (m, h) := by
      rw [sum_run (by unfold Piece.stop at hm; omega)]
      exact congrArg (fun k => Except.ok (k, h)) hm
    have hjoin : ∀ E : FreeRun → HeapM Nat, (if (h.header b.payload).prevAllocated = true then
        HeapM.absorbNext b.size m (right.head?.map Piece.size) >>= fun n =>
          pure ⟨b.payload, n, true⟩ >>= E
        else HeapM.absorbPrev b.payload b.size m (right.head?.map Piece.size) >>= E) h =
          E ⟨(merge left b right).payload, (merge left b right).size, true⟩ h1 := by
      intro E
      refine Eq.trans ?_ (bind_run (f := E) hrun1)
      split <;> simp only [bind_assoc]
    unfold HeapM.coalesce
    dsimp only
    rw [bind_run (l.tagAt_run hbin), hta, l.size_header hbin, Bool.not_false,
      bind_run (assume_run rfl), bind_run hsum, bind_run (l.freeSize? har.right_free har.y_head)]
    refine (hjoin _).trans ?_
    exact (ite_run hrun2).trans (bind_run hrun3)
  · exact ((hw1.mono fun _ => .inl).trans (hw2.mono fun _ => .inr)).trans
      (hw3.mono fun _ hk => hk.elim)
  · rw [hlast3, hlast2, hlast1]

/-- What merging writes is in free blocks. -/
lemma vacant_coalesce (l : Laid h (x ++ left ++ [b]) m m (right ++ y) f main) (hb : b.use = .free)
    (har : Ledger.Around (x ++ left) (right ++ y) x left right y) {k : Nat}
    (hk : main.links k ∨ (merge left b right).tagBytes k) :
    Vacant (x ++ left ++ b :: (right ++ y)) k := by
  rcases hk with hk | hk
  · have := l.links_vacant l.listed hk
    rwa [List.append_assoc, List.singleton_append] at this
  · have ht := l.tiles_whole
    have hsize := ((Ledger.tiles_merge ht).1.bounds (b := merge left b right) (by simp)).2.2.1
    exact vacant_merge hb har.left_free har.right_free ht
      ⟨_, by simp, rfl, bytes_of_tagBytes hsize hk⟩

/-- What merging writes is where the heap keeps account of free blocks. -/
lemma booked_coalesce (l : Laid h (x ++ left ++ [b]) m m (right ++ y) f main) (hb : b.use = .free)
    (har : Ledger.Around (x ++ left) (right ++ y) x left right y) {k : Nat}
    (hk : main.links k ∨ (merge left b right).tagBytes k) :
    Booked (x ++ left ++ b :: (right ++ y)) k := by
  rcases hk with hk | hk
  · have := links_booked l.listed hk
    rwa [List.append_assoc, List.singleton_append] at this
  · exact booked_merge hb har.left_free har.right_free l.tiles_whole (booked_of_tagBytes (by simp) hk)

/-- The header of a block that is merged with one before it is none of what merging and listing
write. -/
lemma buried (l : Laid h (x ++ left ++ [b]) m m (right ++ y) f main) (qs : List Nat)
    (hleft : left ≠ []) {k : Nat} (h1 : b.payload ≤ k + wordSize) (h2 : k < b.payload) :
    ¬ (main.links k ∨ (merge left b right).tagBytes k) ∧ ¬ Booked y k ∧
      ¬ ((main.without qs).add (merge left b right)).links k := by
  have ht := l.tiles_whole
  have hbin : b ∈ x ++ left ++ [b] ++ (right ++ y) := by simp
  have hlinks : ¬ main.links k := fun hk => l.links_off l.listed hk hbin ⟨h1, .inl h2⟩
  obtain ⟨htw, hstop, hpay⟩ := Ledger.tiles_merge ht
  obtain ⟨h3, h4, -, h5⟩ := tiles_middle.mp ht
  obtain ⟨i, -, h6⟩ := tiles_append.mp h3
  obtain ⟨j, h7, h8⟩ := tiles_append.mp h5
  have hlen := h6.minBlock_le hleft
  have hle := h7.le
  have hi := h6.stop_eq
  have hsum := (tiles_mid ht).stop_eq
  have hj := h7.stop_eq
  simp only [total_append, total_cons] at hsum
  refine ⟨?_, ?_, ?_⟩
  · rintro (hk | ⟨-, hk⟩)
    · exact hlinks hk
    · unfold Piece.stop minBlock wordSize at *
      rcases hk with hk | ⟨-, hk, -⟩ <;> omega
  · rintro ⟨d, hd, hk⟩
    have hd := (h8.bounds hd).1
    have hk : d.payload ≤ k + wordSize := hk.elim And.left fun h => Nat.le_add_right_of_le h.2.1
    unfold Piece.stop minBlock wordSize at *
    omega
  · rintro ⟨c, p, hp, h9, h10⟩
    rcases MainLists.mem_add.mp hp with ⟨rfl, -⟩ | hp
    · unfold Piece.stop minBlock alignment wordSize at *
      omega
    · exact hlinks (MainLists.links_without ⟨c, p, hp, h9, h10⟩)

end Laid

end BoundaryTag
