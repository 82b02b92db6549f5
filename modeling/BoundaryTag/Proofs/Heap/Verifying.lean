import BoundaryTag.Heap.Verify
import BoundaryTag.Proofs.Heap.Reading
import BoundaryTag.Proofs.Heap.Validating

/-!
The verifier.

It accepts every heap that shows a sound ledger: the walk finds nothing against any block, each main list
comes back to its head after the blocks that the ledger has there, all of them together are as many as the
free blocks, and each quick list is as long as it counts.
-/

namespace BoundaryTag

open Heap HeapM Piece

/-! ### The walk -/

section Walk

variable {h : Heap} {l : Ledger}

lemma Shows.order (hs : l.Sound) (w : Shows h l) (h0 : l.arena.pages ≠ 0) : h.Order (walk true l.pieces) := by
  refine ⟨⟨_, w.inOrder hs h0, le_rfl⟩, fun i hi => ?_⟩
  obtain ⟨-, hlast⟩ := w.mirrors h0
  have hmem : i.payload ∈ (payloads l.pieces).getLast? := by
    rw [← walk_payloads (f := true), List.getLast?_map, hi]
    rfl
  rw [payloads, List.getLast?_map] at hmem
  obtain ⟨d, hd, hdi⟩ := Option.map_eq_some_iff.mp hmem
  exact hdi.symm.trans (hlast d hd).symm

/-- The walk of the verifier, and the last block. -/
lemma Shows.survey (hs : l.Sound) (w : Shows h l) (h0 : l.arena.pages ≠ 0) :
    ∃ s, h.survey.run = .ok (.ok s) ∧ s.free = (l.pieces.filter isFree).length := by
  obtain ⟨r, -⟩ := w.mirrors h0
  have hlt := r.grounded.bounded
  have order := w.order hs h0
  cases r.grounded.situated.survey (w.ready.mpr h0) with
  | refuses c run hd => exact absurd hd (order.not_disorder hlt)
  | passes s run hpass =>
    obtain ⟨bs, ⟨⟨z, hbs, hz⟩, -⟩, rfl⟩ := hpass
    obtain rfl := (w.inOrder hs h0).unique hbs le_rfl hz hlt
    refine ⟨_, run, ?_⟩
    rw [foldl_add_free, length_filter_walk]
    exact Nat.zero_add _

end Walk

/-! ### The main lists -/

section Main

variable {h : Heap} {l : Ledger} {c : Fin mainLists} {p : Nat}

/-- A block of a heap that shows a ledger is in its place. -/
lemma Shows.misplaced {b : Piece} (hs : l.Sound) (w : Shows h l) (hb : b ∈ l.pieces) :
    h.misplaced b.payload = false := by
  have r := (w.mirrors (hs.pages_ne hb)).rests
  have hbs := r.bounds hb
  have hmod : b.payload % alignment = 0 := r.payload_mod hb
  have h1 : ¬ b.payload < h.firstPayload := Nat.not_lt.mpr (r.tiles_post.bounds hb).1
  have h2 : ¬ h.arena.stop ≤ b.payload := by
    unfold Piece.stop minBlock at hbs
    omega
  unfold Heap.misplaced
  rw [hmod, decide_eq_false h1, decide_eq_false h2]
  rfl

/-- Nothing is found against a listed block after the one that its link leads back to. -/
lemma Shows.checkListed (hs : l.Sound) (w : Shows h l) (hp : p ∈ l.main c) :
    (h.checkListed c (h.prevLink (.block p)) (.block p)).run = .ok (.ok ()) := by
  obtain ⟨b, hb, rfl, hu, hclass⟩ := (hs.filed.mem c p).mp hp
  have hread := w.legible hs hb
  have hmis : h.misplaced (Link.block b.payload).addr = false := w.misplaced hs hb
  have halloc : (h.header b.payload).allocated = false := by
    rw [hread.allocated, Piece.isFree, hu]
    rfl
  have hblock : h.blockOf (.block b.payload) = .ok b.payload := rfl
  unfold Heap.checkListed
  rw [hmis]
  simp only [Bool.false_eq_true, ↓reduceIte]
  rw [check_bind (check_read hblock), check_bind (check_read hread.tag)]
  simp only [halloc, hread.size, hclass, Bool.false_eq_true, ne_eq, not_true_eq_false, decide_false,
    Bool.or_self, ↓reduceIte]
  rw [check_bind (check_read hread.prev)]
  simp only [not_true_eq_false, ↓reduceIte]
  rfl

/-- The links of a list are followed back to the head. -/
lemma Shows.checkListFrom {quota listed free : Nat} {x : Link} {ps : List Nat} (hs : l.Sound)
    (w : Shows h l) (hl : Linked h.nextLink h.prevLink x (ps.map .block) (.head c)) (hps : ps ⊆ l.main c)
    (hquota : ps.length ≤ quota) :
    (h.checkListFrom free c quota listed x (h.nextLink x)).run = .ok (.ok (listed + ps.length)) := by
  induction ps generalizing quota listed x with
  | nil =>
    have hclosed : (h.checkClosed c x).run = .ok (.ok ()) := by
      have hprev : h.prevOf (.head c) = .ok x := by
        rw [← hl.2]
        rfl
      unfold Heap.checkClosed
      rw [check_bind (check_read hprev)]
      simp only [ne_eq, not_true_eq_false, ↓reduceIte]
      rfl
    rw [hl.1]
    cases quota <;>
    · rw [Heap.checkListFrom, if_pos rfl, check_bind hclosed]
      rfl
  | cons p ps ih =>
    obtain ⟨quota, rfl⟩ := Nat.exists_eq_succ_of_ne_zero (Nat.ne_zero_of_lt hquota)
    obtain ⟨⟨hx, hback⟩, hrest⟩ := hl
    have hp := hps List.mem_cons_self
    obtain ⟨b, hb, rfl, -, -⟩ := (hs.filed.mem c p).mp hp
    have hne : (Link.block b.payload) ≠ .head c := by simp
    have hcheck := w.checkListed hs hp
    rw [hback] at hcheck
    rw [hx, Heap.checkListFrom, if_neg hne, check_bind hcheck,
      check_bind (check_read (w.legible hs hb).next),
      ih hrest (fun q hq => hps (List.mem_cons_of_mem _ hq)) (Nat.le_of_succ_le_succ hquota),
      List.length_cons, Nat.add_assoc, Nat.add_comm 1]

/-- The main lists together hold the free blocks. -/
lemma length_main (hs : l.Sound) :
    ((List.finRange mainLists).map fun c => (l.main c).length).sum =
      (l.pieces.filter isFree).length := by
  have hperm : ((List.finRange mainLists).flatMap l.main).Perm (payloads (l.pieces.filter isFree)) := by
    obtain ⟨a, z, ht⟩ := hs.exists_tiles
    have hsub : (payloads (l.pieces.filter isFree)).Nodup :=
      ht.nodup.sublist (List.filter_sublist.map _)
    refine (List.perm_ext_iff_of_nodup (hs.filed.nodup_all ht) hsub).mpr fun p => ?_
    rw [hs.filed.mem_all, payloads, List.mem_map]
    constructor
    · rintro ⟨b, hb, hp, hu⟩
      exact ⟨b, List.mem_filter.mpr ⟨hb, by simp [Piece.isFree, hu]⟩, hp⟩
    · rintro ⟨b, hb, hp⟩
      obtain ⟨hb, hu⟩ := List.mem_filter.mp hb
      exact ⟨b, hb, hp, by simpa [Piece.isFree] using hu⟩
  have := hperm.length_eq
  rwa [List.length_flatMap, payloads, List.length_map] at this

/-- All main lists are followed back to their heads, with no more blocks than there are free. -/
lemma Shows.foldl_checkList {free listed : Nat} {cs : List (Fin mainLists)} (hs : l.Sound)
    (w : Shows h l) (hle : listed + (cs.map fun c => (l.main c).length).sum ≤ free) :
    (cs.foldlM (h.checkList free) listed).run =
      .ok (.ok (listed + (cs.map fun c => (l.main c).length).sum)) := by
  induction cs generalizing listed with
  | nil => rfl
  | cons c cs ih =>
    rw [List.map_cons, List.sum_cons] at hle ⊢
    have hnext : h.nextOf (.head c) = .ok (h.nextLink (.head c)) := rfl
    have hcheck : (h.checkList free listed c).run = .ok (.ok (listed + (l.main c).length)) := by
      unfold Heap.checkList
      rw [check_bind (check_read hnext)]
      exact w.checkListFrom hs (w.ringed.ring c) (List.Subset.refl _) (by omega)
    rw [List.foldlM_cons, check_bind hcheck, ih (by omega), Nat.add_assoc]

lemma Shows.checkLists (hs : l.Sound) (w : Shows h l) :
    (h.checkLists (l.pieces.filter isFree).length).run = .ok (.ok ()) := by
  have hlen := length_main hs
  unfold Heap.checkLists
  rw [check_bind (w.foldl_checkList hs (by omega)), hlen, Nat.zero_add]
  simp only [ne_eq, not_true_eq_false, ↓reduceIte]
  rfl

end Main

/-! ### The quick lists -/

section Quick

variable {h : Heap} {l : Ledger} {c : Fin quickLists}

lemma Shows.checkQuickListed {p : Nat} (hs : l.Sound) (w : Shows h l) (hp : p ∈ l.quick c) :
    (h.checkQuickListed c p).run = .ok (.ok ()) := by
  obtain ⟨b, hb, rfl, hu, hsize⟩ := (hs.shelved.mem c p).mp hp
  have hread := w.legible hs hb
  have halloc : (h.header b.payload).allocated = true := by
    rw [hread.allocated, Piece.isFree, hu]
    rfl
  unfold Heap.checkQuickListed
  rw [w.misplaced hs hb]
  simp only [Bool.false_eq_true, ↓reduceIte]
  rw [check_bind (check_read hread.tag)]
  simp only [halloc, hread.size, hsize, Bool.not_true, Bool.false_eq_true, ne_eq, not_true_eq_false,
    decide_false, Bool.or_self, ↓reduceIte]
  rfl

/-- A chain is followed to its end. -/
lemma Shows.checkQuickFrom {quota a : Nat} {ps : List Nat} (hs : l.Sound) (w : Shows h l)
    (hc : Chain h a ps) (hps : ps ⊆ l.quick c) (hquota : ps.length ≤ quota) :
    (h.checkQuickFrom c quota a).run = .ok (.ok ps.length) := by
  induction ps generalizing quota a with
  | nil =>
    obtain rfl : a = 0 := hc
    cases quota <;> rfl
  | cons p ps ih =>
    obtain ⟨quota, rfl⟩ := Nat.exists_eq_succ_of_ne_zero (Nat.ne_zero_of_lt hquota)
    obtain ⟨rfl, hc⟩ := hc
    have hp := hps List.mem_cons_self
    obtain ⟨hne, hload⟩ := w.quick_link hs hp
    rw [Heap.checkQuickFrom, if_neg hne, check_bind (w.checkQuickListed hs hp),
      check_bind (check_read hload), check_bind (ih hc (fun q hq => hps (List.mem_cons_of_mem _ hq))
        (Nat.le_of_succ_le_succ hquota))]
    rfl

lemma Shows.checkQuick (hs : l.Sound) (w : Shows h l) (c : Fin quickLists) :
    (h.checkQuick c).run = .ok (.ok ()) := by
  unfold Heap.checkQuick
  rw [check_bind (w.checkQuickFrom hs (w.shelves.chain c) (List.Subset.refl _) (hs.shelved.length_le c)),
    w.shelves.len c]
  simp only [ne_eq, not_true_eq_false, ↓reduceIte]
  rfl

end Quick

/-- **The verifier accepts** a heap that shows a sound ledger. -/
lemma Shows.verify {h : Heap} {l : Ledger} (hs : l.Sound) (w : Shows h l) :
    h.verify.run = .ok (.ok ()) := by
  unfold Heap.verify
  by_cases h0 : l.arena.pages = 0
  · rw [w.ready_eq_false h0]
    rfl
  · obtain ⟨s, hsurvey, hfree⟩ := w.survey hs h0
    have hquick : ∀ cs : List (Fin quickLists), (cs.forM h.checkQuick).run = .ok (.ok ()) := by
      intro cs
      induction cs with
      | nil => rfl
      | cons c cs ih => exact (check_bind (w.checkQuick hs c)).trans ih
    rw [w.ready.mpr h0]
    simp only [Bool.not_true, Bool.false_eq_true, ↓reduceIte]
    rw [check_bind hsurvey, hfree, check_bind (w.checkLists hs)]
    exact hquick _

end BoundaryTag
