import BoundaryTag.Proofs.Heap.Auditing
import BoundaryTag.Proofs.Integrity

/-!
What is on the lists of a heap that the verifier accepts.

Each address on a list of such a heap is on one list once, and the header there is one that belongs on this
list. As many are on the main lists as there are free blocks. That the addresses are those of blocks, the
verifier does not find out. It is so exactly if the lists are in order.
-/

namespace BoundaryTag

open Heap

namespace Heap.Accepted

variable {h : Heap} {bs : List BlockInfo} {main : MainLists} {quick : Fin quickLists → List Nat}
  (k : h.Accepted bs main quick)

include k

/-- The walk sees the blocks that are in order, and comes to an end. -/
lemma walked (w : h.Situated) (hr : h.ready = true) :
    h.blocks = .ok bs ∧ bs.length < h.patience ∧ ∀ b ∈ bs, h.seen b.payload = b := by
  obtain ⟨⟨z, order, hz⟩, -⟩ := k.order
  have hclimb := (order.climbFrom_eq hz w.bounded).1
  exact ⟨order.blocks w hr hz, hclimb ▸ w.length_climb_lt (a := h.firstPayload) le_rfl,
    fun b hb => (mem_climbFrom (hclimb ▸ hb)).2.2.symm⟩

/-- The main lists are rings, and no two meet. -/
lemma ringed : Ringed h main := by
  refine ⟨fun c => (k.listing c).linked, fun c p hp => ((k.listing c).entries p hp).seat, fun c => ?_,
    fun c c' p hp hp' => ?_⟩
  · exact ((k.listing c).linked.nodup (by simp)).of_map _
  · exact ((k.listing c).entries p hp).filed.symm.trans ((k.listing c').entries p hp').filed

lemma ne_zero_of_quick {c : Fin quickLists} {p : Nat} (hp : p ∈ quick c) : p ≠ 0 :=
  ne_zero_of_seat (k.entries c p hp).seat

lemma nodup_quick (c : Fin quickLists) : (quick c).Nodup :=
  (k.shelves.chain c).nodup fun h0 => k.ne_zero_of_quick h0 rfl

/-- **No address is on two lists**, or twice on one. -/
lemma nodup :
    ((List.finRange mainLists).flatMap main ++ (List.finRange quickLists).flatMap quick).Nodup := by
  refine List.nodup_append.mpr ⟨nodup_flatMap_finRange k.ringed.nodup k.ringed.once, ?_, ?_⟩
  · refine nodup_flatMap_finRange k.nodup_quick fun c c' p hp hp' => ?_
    exact quickSize_inj ((k.entries c p hp).size.symm.trans (k.entries c' p hp').size)
  · rintro p hp q hq rfl
    obtain ⟨c, hp⟩ := mem_flatMap_finRange.mp hp
    obtain ⟨c', hq⟩ := mem_flatMap_finRange.mp hq
    have hfree := ((k.listing c).entries p hp).free
    rw [(k.entries c' p hq).allocated] at hfree
    cases hfree

/-- **The main lists can be read**: there are no more entries than blocks. -/
lemma mainList (w : h.Situated) (hr : h.ready = true) (c : Fin mainLists) : h.mainList c = .ok (main c) := by
  have hsub : main c ⊆ (List.finRange mainLists).flatMap main := fun p hp => mem_flatMap_finRange.mpr ⟨c, hp⟩
  have hfuel : (main c).length < h.patience :=
    calc (main c).length
      _ ≤ ((List.finRange mainLists).flatMap main).length :=
        (List.subperm_of_subset (k.ringed.nodup c) hsub).length_le
      _ = (bs.filter fun b => !b.allocated).length := List.length_flatMap.trans k.count
      _ ≤ bs.length := List.length_filter_le _ bs
      _ < h.patience := (k.walked w hr).2.1
  exact mainListFrom_eq (k.listing c).linked
    (fun p hp => (w.links_seat ((k.listing c).entries p hp).seat).1) hfuel

lemma quickList (w : h.Situated) (c : Fin quickLists) : h.quickList c = .ok (quick c) := by
  have hlen := k.depth c
  have hfuel : (quick c).length < h.patience := by
    unfold patience mainLists
    unfold quickDepth at hlen
    omega
  exact quickListFrom_eq (k.shelves.chain c)
    (fun p hp => ⟨k.ne_zero_of_quick hp, (w.links_seat (k.entries c p hp).seat).2.2⟩) hfuel

/-- Where all entries are blocks, all free blocks are entries, as there are as many of them. -/
lemma mem_main (hseen : ∀ b ∈ bs, h.seen b.payload = b)
    (hin : ∀ c, ∀ p ∈ main c, ∃ b ∈ bs, b.payload = p) {b : BlockInfo} (hb : b ∈ bs)
    (hfree : b.allocated = false) : b.payload ∈ main (mainClass b.size) := by
  let frees := (bs.filter fun b => !b.allocated).map (·.payload)
  have hfrees : ∀ b ∈ bs, b.allocated = false → b.payload ∈ frees := fun b hb hfree =>
    List.mem_map_of_mem (List.mem_filter.mpr ⟨hb, by rw [hfree]; rfl⟩)
  have hsub : (List.finRange mainLists).flatMap main ⊆ frees := by
    intro p hp
    obtain ⟨c, hp⟩ := mem_flatMap_finRange.mp hp
    obtain ⟨b, hb, rfl⟩ := hin c p hp
    have hentry := ((k.listing c).entries _ hp).free
    rw [hseen b hb] at hentry
    exact hfrees b hb hentry
  have hlen : frees.length ≤ ((List.finRange mainLists).flatMap main).length := by
    rw [List.length_flatMap, k.count, List.length_map]
  have hperm := (List.subperm_of_subset (List.nodup_append.mp k.nodup).1 hsub).perm_of_length_le hlen
  obtain ⟨c, hc⟩ := mem_flatMap_finRange.mp (hperm.mem_iff.mpr (hfrees b hb hfree))
  have hclass := ((k.listing c).entries _ hc).filed
  rw [hseen b hb] at hclass
  exact hclass ▸ hc

/-- Lists that are in order hold blocks only. -/
lemma entries_of_listsOrderly (w : h.Situated) (hr : h.ready = true) (lo : ListsOrderly h bs) :
    (∀ c, ∀ p ∈ main c, ∃ b ∈ bs, b.payload = p) ∧ ∀ c, ∀ p ∈ quick c, ∃ b ∈ bs, b.payload = p := by
  refine ⟨fun c p hp => ?_, fun c p hp => ?_⟩
  · obtain ⟨ps, hps, -, -, -, hmem⟩ := lo.main c
    obtain rfl := Except.ok.inj ((k.mainList w hr c).symm.trans hps)
    obtain ⟨b, hb, hbp, -⟩ := (hmem p).mp hp
    exact ⟨b, hb, hbp⟩
  · obtain ⟨ps, hps, -, -, -, hmem⟩ := lo.quick c
    obtain rfl := Except.ok.inj ((k.quickList w c).symm.trans hps)
    obtain ⟨b, hb, hbp, -⟩ := hmem p hp
    exact ⟨b, hb, hbp⟩

/-- Lists that hold blocks only are in order. -/
lemma listsOrderly (w : h.Situated) (hr : h.ready = true)
    (hmain : ∀ c, ∀ p ∈ main c, ∃ b ∈ bs, b.payload = p)
    (hquick : ∀ c, ∀ p ∈ quick c, ∃ b ∈ bs, b.payload = p) : ListsOrderly h bs := by
  obtain ⟨-, -, hseen⟩ := k.walked w hr
  refine ⟨fun c => ⟨main c, k.mainList w hr c, freeListLen_eq (k.mainList w hr c), k.ringed.nodup c,
    (k.listing c).linked, fun p => ⟨fun hp => ?_, ?_⟩⟩, fun c => ⟨quick c, k.quickList w c,
    k.shelves.quickListLen c, k.nodup_quick c, k.depth c, fun p hp => ?_⟩⟩
  · obtain ⟨b, hb, rfl⟩ := hmain c p hp
    obtain ⟨-, hfree, hclass⟩ := (k.listing c).entries _ hp
    rw [hseen b hb] at hfree hclass
    exact ⟨b, hb, rfl, hfree, hclass⟩
  · rintro ⟨b, hb, rfl, hfree, rfl⟩
    exact k.mem_main hseen hmain hb hfree
  · obtain ⟨b, hb, rfl⟩ := hquick c p hp
    obtain ⟨-, halloc, hsize⟩ := k.entries c _ hp
    rw [hseen b hb] at halloc hsize
    exact ⟨b, hb, rfl, halloc, hsize⟩

end Heap.Accepted

/-- **What the verifier finds out about the lists.** If it accepts a heap, whatever memory holds, the main lists
are rings and the quick lists chains; each address on them is on one list once, and the header there is one
that belongs on this list; and as many are on the main lists as there are free blocks. They are the free
blocks, and the quick lists hold allocated ones, if and only if all of the addresses are those of blocks. -/
theorem listed_of_verify {h : Heap} (w : h.Situated) (hr : h.ready = true)
    (hv : h.verify.run = .ok (.ok ())) :
    ∃ bs main quick, h.blocks = .ok bs ∧ h.Accepted bs main quick ∧
      (∀ c, h.mainList c = .ok (main c)) ∧ (∀ c, h.quickList c = .ok (quick c)) ∧
      ((List.finRange mainLists).flatMap main ++ (List.finRange quickLists).flatMap quick).Nodup ∧
      (ListsOrderly h bs ↔
        (∀ c, ∀ p ∈ main c, ∃ b ∈ bs, b.payload = p) ∧ ∀ c, ∀ p ∈ quick c, ∃ b ∈ bs, b.payload = p) := by
  obtain ⟨bs, main, quick, k⟩ := (w.verify hr).of_passes hv
  exact ⟨bs, main, quick, (k.walked w hr).1, k, k.mainList w hr, k.quickList w, k.nodup,
    k.entries_of_listsOrderly w hr, fun hin => k.listsOrderly w hr hin.1 hin.2⟩

/-- Here the first block is on a main list, and the second one on a quick list. -/
theorem listed_of_verify_two_lists :
    ∃ (h : Heap) (bs : List BlockInfo), h.Situated ∧ h.ready = true ∧ h.verify.run = .ok (.ok ()) ∧
      h.blocks = .ok bs ∧ ListsOrderly h bs := by
  let tiled := (((blank.forge 4112 (.make 208 false true)).forge 4312 (.make 208 false true)).forge 4320
    (.make 32 true false)).forge 4352 (.make 3840 true true)
  let h := { (tiled.put 4112 3).put 4120 3 with
    last := 4352
    heads := blank.heads.set 3 ⟨.block 4112, .block 4112⟩
    quick := blank.quick.set 0 ⟨1, 4320⟩ }
  obtain ⟨g, hr, hv, hblocks, hmains, hquicks⟩ : h.Grounded ∧ h.ready = true ∧ h.verify.run = .ok (.ok ()) ∧
      h.blocks = .ok [⟨4112, 208, false, true⟩, ⟨4320, 32, true, false⟩, ⟨4352, 3840, true, true⟩] ∧
      (∀ c, ∀ ps ∈ (h.mainList c).toOption, ∀ p ∈ ps, p ∈ [4112, 4320]) ∧
      ∀ c, ∀ ps ∈ (h.quickList c).toOption, ∀ p ∈ ps, p ∈ [4112, 4320] := by
    decide +kernel
  obtain ⟨bs, main, quick, hbs, -, hmain, hquick, -, hiff⟩ := listed_of_verify g.situated hr hv
  obtain rfl := Except.ok.inj (hbs.symm.trans hblocks)
  have hin : ∀ p ∈ [4112, 4320], ∃ b ∈ [(⟨4112, 208, false, true⟩ : BlockInfo), ⟨4320, 32, true, false⟩,
      ⟨4352, 3840, true, true⟩], b.payload = p := by
    decide
  refine ⟨h, _, g.situated, hr, hv, hbs, hiff.mpr ⟨fun c p hp => hin p ?_, fun c p hp => hin p ?_⟩⟩
  · exact hmains c (main c) (by rw [hmain c]; rfl) p hp
  · exact hquicks c (quick c) (by rw [hquick c]; rfl) p hp

/-- But that all are those of blocks is not found out: here an address in the middle of the second block is on
a main list in place of the first block, which is free, and another one is on a quick list. -/
theorem verify_misses_strangers :
    ¬ ∀ h : Heap, h.Situated → h.ready = true → h.verify.run = .ok (.ok ()) →
      ∃ bs, h.blocks = .ok bs ∧ ListsOrderly h bs := by
  intro hall
  let tiled := ((blank.forge 4112 (.make 208 false true)).forge 4312 (.make 208 false true)).forge 4320
    (.make 3872 true false)
  let strangers := (((tiled.forge 4352 (.make 208 false false)).put 4352 3).put 4360 3).forge 4384
    (.make 32 true false)
  let h := { strangers with
    last := 4320
    heads := blank.heads.set 3 ⟨.block 4352, .block 4352⟩
    quick := blank.quick.set 0 ⟨1, 4384⟩ }
  obtain ⟨g, hr, hv, hblocks, hmain, hquick⟩ : h.Grounded ∧ h.ready = true ∧ h.verify.run = .ok (.ok ()) ∧
      h.blocks = .ok [⟨4112, 208, false, true⟩, ⟨4320, 3872, true, false⟩] ∧
      h.mainList ⟨3, by decide⟩ = .ok [4352] ∧ h.quickList ⟨0, by decide⟩ = .ok [4384] := by
    decide +kernel
  obtain ⟨bs, hbs, lists⟩ := hall h g.situated hr hv
  obtain rfl := Except.ok.inj (hbs.symm.trans hblocks)
  obtain ⟨ps, hps, -, -, -, hmem⟩ := lists.main ⟨3, by decide⟩
  obtain rfl := Except.ok.inj (hps.symm.trans hmain)
  obtain ⟨b, hb, hbp, -⟩ := (hmem 4352).mp (by decide)
  revert b
  decide

end BoundaryTag
