import BoundaryTag.Heap.Release
import BoundaryTag.Proofs.Heap.Validating

/-!
Pointers that no client holds.

The check refuses a block that no client has: the header of a free block says that it is free, and a
quick-listed block is found on the list of its size. A block that was handed back is such a block, or it
was merged with a free one before it. Then its header stands inside of the merged block, where nothing
has written since, and still says that it is free.
-/

namespace BoundaryTag

open Heap HeapM Piece

/-- The check takes the pointer for one that is not allocated. -/
def Heap.Refuses (h : Heap) (p : Nat) : Prop := (h.validate p).run = .ok (.error .notAllocated)

section Refuses

variable {h : Heap} {p : Nat}

lemma Heap.Refuses.check (r : h.Refuses p) :
    (h.check p).run = .ok (.error (.invalidPointer p .notAllocated)) :=
  check_of_validate r

/-- A run ends where it demands a valid pointer. -/
lemma Heap.Refuses.demandValid (r : h.Refuses p) :
    HeapM.demandValid p h = .error (.invalidPointer p .notAllocated) := by
  have hread : (h.validate p).run = .ok (.error .notAllocated) := r
  unfold HeapM.demandValid
  rw [bind_run (reading_run hread)]
  rfl

lemma Heap.Refuses.release (r : h.Refuses p) :
    HeapM.release p h = .error (.invalidPointer p .notAllocated) :=
  bind_halt r.demandValid

lemma Heap.Refuses.resize (r : h.Refuses p) (size : Nat) :
    (RequestM.resize p size).run h = .error (.invalidPointer p .notAllocated) :=
  RequestM.lift_halt r.demandValid

/-- A header of possible size that says that the block is free, or a block found on its quick list, is
refused. -/
lemma refuses_of_header {n : Nat} {t : Tag} (hmod : p % alignment = 0)
    (hstart : h.arena.start + alignment ≤ p) (hread : h.tagAt p = .ok t) (hn : t.size = n)
    (hsize : minBlock ≤ n) (hnmod : n % alignment = 0) (hend : p + n ≤ h.arena.stop)
    (hno : t.allocated = false ∨ h.isQuickListed p n = .ok true) : h.Refuses p := by
  have hbad := badSize_eq_false hsize hnmod
  have hpast : ¬ h.arena.stop < p + n := Nat.not_lt.mpr hend
  unfold Heap.Refuses
  rw [validate_eq hmod hstart (by unfold minBlock at hsize; omega), Heap.validateHeader,
    check_bind (check_read hread)]
  simp only [hn, hbad, hpast, Bool.false_eq_true, ↓reduceIte]
  cases ht : t.allocated with
  | false => rfl
  | true =>
    obtain hno := hno.resolve_left (by simp [ht])
    simp only [Bool.not_true, Bool.false_eq_true, ↓reduceIte]
    rw [check_bind (check_read hno)]
    rfl

end Refuses

section Blocks

variable {h h' : Heap} {l : Ledger} {b : Piece}

/-! ### Blocks that no client has -/

/-- A walk along a chain that the block is on. -/
lemma holdsFrom_eq_true {fuel a p : Nat} {ps : List Nat} (hc : Chain h a ps)
    (hread : ∀ q ∈ ps, q ≠ 0 ∧ h.loadAddr q = .ok (h.memory.word q).toNat) (hp : p ∈ ps)
    (hfuel : ps.length ≤ fuel) : h.holdsFrom p fuel a = .ok true := by
  induction ps generalizing fuel a with
  | nil => exact absurd hp List.not_mem_nil
  | cons q ps ih =>
    obtain ⟨fuel, rfl⟩ := Nat.exists_eq_succ_of_ne_zero (Nat.ne_of_gt (Nat.lt_of_lt_of_le
      (Nat.succ_pos _) hfuel))
    obtain ⟨rfl, hc⟩ := hc
    obtain ⟨hne, hload⟩ := hread a List.mem_cons_self
    rw [holdsFrom, if_neg hne]
    by_cases hap : a = p
    · rw [if_pos hap]
      rfl
    · rw [if_neg hap, bind_eq hload]
      exact ih hc (fun q hq => hread q (List.mem_cons_of_mem _ hq))
        ((List.mem_cons.mp hp).resolve_left (Ne.symm hap)) (Nat.le_of_succ_le_succ hfuel)

/-- A quick-listed block is among those that the check looks at. -/
lemma Shows.isQuickListed_quick (hs : l.Sound) (w : Shows h l) (hb : b ∈ l.pieces)
    (hu : b.use = .quick) : h.isQuickListed b.payload b.size = .ok true := by
  obtain ⟨c, hc⟩ := hs.shelved.size b hb hu
  unfold isQuickListed
  rw [hc, quickClass?_quickSize]
  exact holdsFrom_eq_true (w.shelves.chain c) (fun q hq => w.quick_link hs hq)
    ((hs.shelved.mem c _).mpr ⟨b, hb, rfl, hu, hc⟩) (hs.shelved.length_le c)

/-- **A block that no client has is refused.** -/
lemma Shows.refuses (hs : l.Sound) (w : Shows h l) (hb : b ∈ l.pieces) (hu : b.use ≠ .live) :
    h.Refuses b.payload := by
  have r := (w.mirrors (hs.pages_ne hb)).rests
  have hbs := r.bounds hb
  have hread := w.legible hs hb
  refine refuses_of_header (r.payload_mod hb) hbs.1 hread.tag hread.size hbs.2.2.1 hbs.2.2.2 hbs.2.1 ?_
  rcases huse : b.use with _ | _ | _
  · exact absurd huse hu
  · exact .inr (w.isQuickListed_quick hs hb huse)
  · left
    rw [hread.allocated, Piece.isFree, huse]
    rfl

/-! ### Blocks that were handed back -/

/-- A block handed back is refused where there is a block still. -/
lemma Shows.refuses_returned {l' : Ledger} {d : Piece} (hs : l.Sound) (hb : b ∈ l.live)
    (hs' : l'.Sound) (hl' : l'.live = l.live \ {b}) (w' : Shows h' l') (hd : d ∈ l'.pieces)
    (hdb : d.payload = b.payload) : h'.Refuses b.payload := by
  refine hdb ▸ w'.refuses hs' hd fun hu => ?_
  have hlive : d ∈ l.live \ {b} := hl' ▸ ⟨hd, hu⟩
  exact hlive.2 ((hs.tiled hb.1).eq_of_payload hlive.1.1 hb.1 hdb)

/-- A block freed is refused, also if it was merged with one before it. -/
lemma Shows.freeToMain_refuses (hs : l.Sound) (w : Shows h l) (hb : b ∈ l.live)
    (hrun : HeapM.freeToMain b.payload h = .ok ((), h')) : h'.Refuses b.payload := by
  have m := w.mirrors (hs.pages_ne hb.1)
  obtain ⟨h1, hrun1, m1, hw1, hstale⟩ := freeToMain_run hs hb m
  obtain ⟨h2, hrun2, w2, -⟩ := w.freeToMain hs hb
  rw [hrun] at hrun1 hrun2
  cases hrun1
  cases hrun2
  obtain ⟨hs', hl'⟩ := Ledger.sound_free hs hb
  by_cases hgone : ∀ d ∈ (l.free b.payload).pieces, d.payload ≠ b.payload
  · obtain ⟨g, hg⟩ := hstale hgone
    have hbs := m.rests.bounds hb.1
    have hmod := m.rests.payload_mod hb.1
    obtain ⟨h8, hlt⟩ := m.rests.size_lt hb.1
    rw [← hw1.setting.arena] at hbs
    have hread : h'.tagAt b.payload = .ok (({ b with use := .free } : Piece).tag g) := by
      rw [← hg]
      refine m1.rests.grounded.tagAt_eq ?_ ?_
      · unfold wordSize
        unfold alignment at hbs
        omega
      · unfold Piece.stop at hbs
        omega
    exact refuses_of_header hmod hbs.1 hread (Tag.size_make h8 hlt ..) hbs.2.2.1 hbs.2.2.2 hbs.2.1
      (.inl (Tag.allocated_make h8 hlt ..))
  · push Not at hgone
    obtain ⟨d, hd, hdb⟩ := hgone
    exact Shows.refuses_returned hs hb hs' hl' w2 hd hdb

/-- **A block released is refused.** -/
lemma Shows.releaseBlock_refuses (hs : l.Sound) (w : Shows h l) (hb : b ∈ l.live)
    (hrun : HeapM.releaseBlock b.payload h = .ok ((), h')) : h'.Refuses b.payload := by
  obtain ⟨h1, hrun1, w1, -⟩ := w.releaseBlock hs hb
  rw [hrun] at hrun1
  cases hrun1
  obtain ⟨hs', hl'⟩ := Ledger.sound_release hs hb
  rcases hq : quickClass? b.size with _ | c
  · have hread := w.legible hs hb.1
    have htag : HeapM.tagAt b.payload h = .ok (h.header b.payload, h) := reading_run hread.tag
    unfold HeapM.releaseBlock at hrun
    rw [bind_run htag, hread.size, hq] at hrun
    exact w.freeToMain_refuses hs hb hrun
  · have hin : b.payload ∈ (l.release b.payload).quick c := by
      unfold Ledger.release
      rw [hs.sizeAt_eq hb.1, hq]
      dsimp only
      split <;> simp [Ledger.push]
    obtain ⟨d, hd, hdb, -⟩ := (hs'.shelved.mem c _).mp hin
    exact Shows.refuses_returned hs hb hs' hl' w1 hd hdb

end Blocks

end BoundaryTag
