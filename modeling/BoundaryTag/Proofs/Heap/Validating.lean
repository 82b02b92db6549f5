import BoundaryTag.Heap.Validate
import BoundaryTag.Proofs.Heap.Shelving

/-!
Pointers that clients hold.

The check of a pointer lets a client's block pass: what it reads is the header of the block, the chain of
the quick list of its size, on which the block is not, and the tags of the block before it if that is
free.
-/

namespace BoundaryTag

open Heap HeapM Piece

variable {h : Heap} {l : Ledger} {b : Piece}

/-- The check says what was found. -/
lemma Heap.check_of_validate {p : Nat} {r : Except InvalidPointer Unit} (e : (h.validate p).run = .ok r) :
    (h.check p).run = .ok (r.mapError (.invalidPointer p)) := by
  unfold Heap.check
  rw [check_bind (check_read e)]
  rcases r with x | u
  · rfl
  · rfl

/-- A size that a block can have. -/
lemma badSize_eq_false {n : Nat} (hn : minBlock ≤ n) (hmod : n % alignment = 0) :
    badSize n = false := by
  unfold badSize
  rw [hmod, decide_eq_false (Nat.not_lt.mpr hn)]
  rfl

/-- A walk along a chain that the block is not on. -/
lemma holdsFrom_eq_false {fuel a p : Nat} {ps : List Nat} (hc : Chain h a ps)
    (hread : ∀ q ∈ ps, q ≠ 0 ∧ h.loadAddr q = .ok (h.memory.word q).toNat) (hp : p ∉ ps) :
    h.holdsFrom p fuel a = .ok false := by
  induction fuel generalizing a ps with
  | zero => rfl
  | succ fuel ih =>
    cases ps with
    | nil =>
      rw [holdsFrom, if_pos (show a = 0 from hc)]
      rfl
    | cons q ps =>
      obtain ⟨rfl, hc⟩ := hc
      obtain ⟨hne, hload⟩ := hread a List.mem_cons_self
      have hap : a ≠ p := fun he => hp (he ▸ List.mem_cons_self)
      rw [holdsFrom, if_neg hne, if_neg hap, bind_eq hload]
      exact ih hc (fun q hq => hread q (List.mem_cons_of_mem _ hq))
        fun hin => hp (List.mem_cons_of_mem _ hin)

/-- A client's block is on no quick list. -/
lemma Shows.isQuickListed_live (hs : l.Sound) (w : Shows h l) (hb : b ∈ l.live) (n : Nat) :
    h.isQuickListed b.payload n = .ok false := by
  unfold isQuickListed
  rcases quickClass? n with _ | c
  · rfl
  · refine holdsFrom_eq_false (w.shelves.chain c) (fun q hq => w.quick_link hs hq) fun hin => ?_
    have := (hs.shelved.eq_of_mem (hs.tiled hb.1) hb.1 hin).1
    rw [hb.2] at this
    cases this

/-- A block that says that its predecessor is free has a free predecessor. -/
lemma Rests.prevIsFree {before after : List Piece} {main : MainLists}
    (r : Rests h (before ++ b :: after) main) (hflag : flagAfter true before = false) :
    h.prevIsFree b.payload = .ok true := by
  rcases List.eq_nil_or_concat before with rfl | ⟨ps, d, rfl⟩
  · cases hflag
  rw [List.concat_eq_append] at r hflag
  rw [flagAfter_append] at hflag
  replace hflag : (!d.isFree) = false := hflag
  obtain ⟨m, w⟩ := r.cut
  have hd : d ∈ ps ++ [d] ++ b :: after := by simp
  have hdb := w.bounds hd
  have hstop : b.payload = d.stop := w.tiles_post.1.trans (w.tiles_pre.stop_last (by simp)).symm
  have hfirst : h.firstPayload ≤ d.payload :=
    (w.tiles_pre.bounds (List.mem_append_right _ List.mem_cons_self)).1
  obtain ⟨g, hh, -⟩ := w.tags hd
  obtain ⟨h8, hlt⟩ := w.size_lt hd
  have hts : (d.tag g).size = d.size := Tag.size_make h8 hlt ..
  have hta : (d.tag g).allocated = false := (Tag.allocated_make h8 hlt ..).trans hflag
  have hread : h.footerBefore (d.payload + d.size) = .ok (d.tag g) := by
    rw [← hh]
    exact w.footerBefore_eq hd (by simpa using hflag)
  have hback : d.payload + d.size - d.size = d.payload := Nat.add_sub_cancel ..
  have htag : h.tagAt d.payload = .ok (d.tag g) := by
    rw [w.tagAt_eq hd, hh]
  unfold Heap.prevIsFree
  rw [hstop, Piece.stop, if_neg, bind_eq hread, hts, if_neg, if_neg, hback, bind_eq htag, hta]
  · simp [pure, Except.pure]
  · omega
  · rw [badSize_eq_false hdb.2.2.1 hdb.2.2.2]
    exact Bool.false_ne_true
  · unfold minBlock at hdb
    omega

/-- What the header of a client's block tells passes the check. -/
lemma Shows.validateHeader (hs : l.Sound) (w : Shows h l) (hb : b ∈ l.live) :
    (h.validateHeader b.payload).run = .ok (.ok ()) := by
  obtain ⟨before, after, hp⟩ := List.append_of_mem hb.1
  have r := (w.mirrors (hs.pages_ne hb.1)).rests
  have hbs := r.bounds hb.1
  rw [hp] at r
  obtain ⟨-, hh, -⟩ := tagged_append.mp r.tagged_post
  have hin : b ∈ [] ++ (before ++ b :: after) := by simp
  obtain ⟨h8, hlt⟩ := r.size_lt hin
  have hsize : (h.header b.payload).size = b.size := r.size_header hin
  have halloc : (h.header b.payload).allocated = true := by
    rw [r.allocated_header hin, Piece.isFree, hb.2]
    rfl
  have hprev : (h.header b.payload).prevAllocated = flagAfter true before := by
    rw [hh]
    exact Tag.prevAllocated_make h8 hlt ..
  have hread := r.tagAt_eq hin
  have hbad := badSize_eq_false hbs.2.2.1 hbs.2.2.2
  have hstop : ¬ h.arena.stop < b.payload + b.size := Nat.not_lt.mpr hbs.2.1
  unfold Heap.validateHeader
  rw [check_bind (check_read hread)]
  simp only [hsize, hbad, hstop, halloc, Bool.not_true, Bool.false_eq_true, ↓reduceIte]
  rw [check_bind (check_read (w.isQuickListed_live hs hb b.size))]
  simp only [Bool.false_eq_true, ↓reduceIte, hprev]
  cases hflag : flagAfter true before with
  | true => rfl
  | false =>
    simp only [Bool.not_false, ↓reduceIte]
    rw [check_bind (check_read (r.prevIsFree hflag))]
    rfl

/-- Of a pointer to where a block may be, the check looks at the header. -/
lemma validate_eq {p : Nat} (hmod : p % alignment = 0) (hstart : h.arena.start + alignment ≤ p)
    (hstop : p < h.arena.stop) : h.validate p = h.validateHeader p := by
  have hzero : p ≠ 0 := by
    unfold alignment at hstart
    omega
  have hstart' : ¬ p < h.arena.start + wordSize := by
    unfold wordSize
    unfold alignment at hstart
    omega
  unfold Heap.validate
  simp only [hzero, hmod, hstart', Nat.not_le.mpr hstop, ne_eq, not_true_eq_false, ↓reduceIte]

/-- **A client's pointer passes the check.** -/
lemma Shows.validate (hs : l.Sound) (w : Shows h l) (hb : b ∈ l.live) :
    (h.validate b.payload).run = .ok (.ok ()) := by
  have r := (w.mirrors (hs.pages_ne hb.1)).rests
  have hbs := r.bounds hb.1
  have hstop : b.payload < h.arena.stop := by
    unfold Piece.stop minBlock at hbs
    omega
  rw [validate_eq (r.payload_mod hb.1) hbs.1 hstop]
  exact w.validateHeader hs hb

lemma Shows.demandValid (hs : l.Sound) (w : Shows h l) (hb : b ∈ l.live) :
    HeapM.demandValid b.payload h = .ok ((), h) := by
  unfold HeapM.demandValid
  rw [bind_run (reading_run (w.validate hs hb))]
  rfl

end BoundaryTag
