import BoundaryTag.Heap.Dump
import BoundaryTag.Proofs.Heap.Reading
import BoundaryTag.Proofs.Heap.Refusing

/-!
Inspecting a heap.

What only looks at a heap always comes to an end: the check of a pointer, whatever address that is and
whatever clients have written around it, the length of a list, and the dump. The heap may be strict, so
none of it reads outside of the region.
-/

namespace BoundaryTag

open Heap HeapM Piece

variable {h : Heap} {l : Ledger}

/-! ### Any pointer -/

/-- A search on a quick list ends, for whatever address. -/
lemma Shows.isQuickListed_total (hs : l.Sound) (w : Shows h l) (p n : Nat) :
    ∃ r, h.isQuickListed p n = .ok r := by
  unfold isQuickListed
  rcases quickClass? n with _ | c
  · exact ⟨false, rfl⟩
  · have hread := fun q (hq : q ∈ l.quick c) => w.quick_link hs hq
    by_cases hp : p ∈ l.quick c
    · exact ⟨true, holdsFrom_eq_true (w.shelves.chain c) hread hp (hs.shelved.length_le c)⟩
    · exact ⟨false, holdsFrom_eq_false (w.shelves.chain c) hread hp⟩

/-- The tags that tell of a predecessor lie in the region, whatever they say. -/
lemma Heap.Grounded.prevIsFree_total (g : h.Grounded) {p : Nat} (hp : p ≤ h.arena.stop) :
    ∃ r, h.prevIsFree p = .ok r := by
  unfold Heap.prevIsFree
  split_ifs with hfirst
  · exact ⟨false, rfl⟩
  have hback : p - 2 * wordSize + 2 * wordSize = p := by
    unfold firstPayload at hfirst
    omega
  have hfooter : h.footerBefore p = .ok (h.footer (p - 2 * wordSize) (2 * wordSize)) := by
    rw [← g.footerBefore_eq le_rfl (by unfold firstPayload at hfirst; omega) (by omega), hback]
  rw [bind_eq hfooter]
  split_ifs with hbad hlow
  · exact ⟨false, rfl⟩
  · exact ⟨false, rfl⟩
  · have htag := g.tagAt_eq (p := p - (h.footer (p - 2 * wordSize) (2 * wordSize)).size)
      (by unfold firstPayload at hlow; omega) (by omega)
    exact ⟨_, bind_eq htag⟩

/-- Whether the place of a pointer and its header are those of an allocated block. So much is known of it when
a quick list is searched. -/
structure Heap.Plausible (h : Heap) (p : Nat) : Prop where
  aligned : p % alignment = 0
  start_le : h.arena.start + wordSize ≤ p
  lt_stop : p < h.arena.stop
  size : badSize (h.header p).size = false
  fits : p + (h.header p).size ≤ h.arena.stop
  allocated : (h.header p).allocated = true

namespace Heap

variable {p : Nat} {e : Halt}

/-- What the header at an address of the region says is looked into to the end, if a search for the address on
a quick list ends. -/
lemma Grounded.validateHeader_total (g : h.Grounded) (hmod : p % alignment = 0)
    (hstart : h.arena.start + wordSize ≤ p) (hstop : p < h.arena.stop)
    (hlisted : h.Plausible p → ∃ r, h.isQuickListed p (h.header p).size = .ok r) :
    ∃ r, (h.validateHeader p).run = .ok r := by
  obtain ⟨free, hfree⟩ := g.prevIsFree_total hstop.le
  unfold Heap.validateHeader
  rw [check_bind (check_read (g.tagAt_eq hstart hstop.le))]
  refine check_demand fun hbad => check_demand fun hfits => check_demand fun halloc => ?_
  obtain ⟨listed, hlisted⟩ := hlisted ⟨hmod, hstart, hstop, by simpa using hbad, Nat.not_lt.mp hfits,
    by simpa using halloc⟩
  rw [check_bind (check_read hlisted)]
  refine check_demand fun _ => ?_
  split
  · rw [check_bind (check_read hfree)]
    split
    · exact ⟨_, rfl⟩
    · exact ⟨_, rfl⟩
  · exact ⟨_, rfl⟩

/-- The check of a plausible pointer halts where the search on a quick list does. -/
lemma Plausible.validate_halts (k : h.Plausible p) (g : h.Grounded)
    (he : h.isQuickListed p (h.header p).size = .error e) : (h.validate p).run = .error e := by
  have hstart := k.start_le
  have hzero : p ≠ 0 := by
    unfold wordSize at hstart
    omega
  unfold Heap.validate
  simp only [hzero, k.aligned, Nat.not_lt.mpr hstart, Nat.not_le.mpr k.lt_stop, ne_eq, not_true_eq_false, ↓reduceIte]
  unfold Heap.validateHeader
  rw [check_bind (check_read (g.tagAt_eq hstart k.lt_stop.le))]
  simp only [k.size, Nat.not_lt.mpr k.fits, k.allocated, Bool.not_true, Bool.false_eq_true, ↓reduceIte, he]
  rfl

section Validate

variable (hg : h.arena.start ≤ p → p < h.arena.stop → h.Grounded)

include hg

lemma validate_total (hlisted : h.Plausible p → ∃ r, h.isQuickListed p (h.header p).size = .ok r) :
    ∃ r, (h.validate p).run = .ok r := by
  unfold Heap.validate
  refine check_demand fun _ => check_demand fun hmod => check_demand fun hstart => check_demand fun hstop => ?_
  rw [Nat.not_lt] at hstart
  rw [Nat.not_le] at hstop
  exact (hg (Nat.le_of_add_right_le hstart) hstop).validateHeader_total (not_not.mp hmod) hstart hstop hlisted

/-- An address passes only if it has a header in the region, of possible size. -/
lemma of_validate (e : (h.validate p).run = .ok (.ok ())) :
    h.tagAt p = .ok (h.header p) ∧ minBlock ≤ (h.header p).size := by
  unfold Heap.validate at e
  obtain ⟨-, e⟩ := of_check_demand e
  obtain ⟨-, e⟩ := of_check_demand e
  obtain ⟨hstart, e⟩ := of_check_demand e
  obtain ⟨hstop, e⟩ := of_check_demand e
  rw [Nat.not_lt] at hstart
  rw [Nat.not_le] at hstop
  have htag := (hg (Nat.le_of_add_right_le hstart) hstop).tagAt_eq hstart hstop.le
  unfold Heap.validateHeader at e
  rw [check_bind (check_read htag)] at e
  obtain ⟨hbad, -⟩ := of_check_demand e
  refine ⟨htag, ?_⟩
  simp only [badSize, Bool.or_eq_true, decide_eq_true_eq, not_or] at hbad
  exact Nat.not_lt.mp hbad.1

/-- The usable size is told where the check passes, and else why it does not. -/
lemma usableSize_of_validate {r : Except InvalidPointer Unit} (e : (h.validate p).run = .ok r) :
    (h.usableSize p).run =
      .ok ((r.map fun _ => (h.header p).size - wordSize).mapError (.invalidPointer p)) := by
  have hcheck := check_of_validate e
  unfold Heap.usableSize
  rcases r with x | u
  · exact bind_eq hcheck
  · obtain ⟨htag, hsize⟩ := of_validate hg e
    have hword : wordSize ≤ (h.header p).size := (show wordSize ≤ minBlock by decide).trans hsize
    rw [check_bind hcheck, check_bind (check_read htag), difference_eq hword]
    rfl

end Validate

end Heap

/-- An address in the region: there are pages. -/
lemma Roomy.grounded_of_lt (r : Roomy h) {p : Nat} (hstart : h.arena.start ≤ p)
    (hstop : p < h.arena.stop) : h.Grounded := by
  refine r.grounded fun h0 => ?_
  unfold Arena.stop at hstop
  rw [h0] at hstop
  omega

lemma Shows.validate_total (hs : l.Sound) (w : Shows h l) (p : Nat) : ∃ r, (h.validate p).run = .ok r :=
  Heap.validate_total w.roomy.grounded_of_lt fun _ => w.isQuickListed_total hs p _

/-- **The check answers** for any address. -/
lemma Shows.check_total (hs : l.Sound) (w : Shows h l) (p : Nat) : ∃ r, (h.check p).run = .ok r := by
  obtain ⟨r, hr⟩ := w.validate_total hs p
  exact ⟨_, check_of_validate hr⟩

/-- **The usable size is told** for any address that passes the check. -/
lemma Shows.usableSize_total (hs : l.Sound) (w : Shows h l) (p : Nat) :
    ∃ r, (h.usableSize p).run = .ok r := by
  obtain ⟨r, hr⟩ := w.validate_total hs p
  exact ⟨_, Heap.usableSize_of_validate w.roomy.grounded_of_lt hr⟩

/-- A length is told for any number of a list. -/
lemma Shows.freeListLen_total (hs : l.Sound) (w : Shows h l) (n : Nat) : ∃ k, h.freeListLen n = .ok k := by
  by_cases hn : n < mainLists
  · exact ⟨_, w.freeListLen hs ⟨n, hn⟩⟩
  · exact ⟨0, dif_neg hn⟩

/-- A block of the walk ends in the region. -/
lemma Shows.walk_le (hs : l.Sound) (w : Shows h l) {b : BlockInfo} (hb : b ∈ walk true l.pieces) :
    b.payload + b.size ≤ h.arena.stop := by
  obtain ⟨d, hd, hp, hz, -⟩ := mem_walk hb
  rw [hp, hz]
  exact ((w.mirrors (hs.pages_ne hd)).rests.bounds hd).2.1

/-! ### The dump -/

lemma Shows.note (w : Shows h l) (e : Event) : ∃ h', HeapM.note e h = .ok ((), h') ∧ Shows h' l :=
  ⟨_, rfl, w.arena, w.roomy.setting rfl rfl rfl rfl, w.ready, fun h0 => (w.mirrors h0).note _,
    w.ringed.extend rfl rfl rfl le_rfl, w.shelves.len, fun c => (w.shelves.chain c).congr fun _ _ => rfl⟩

/-- A note as a step of a loop. -/
lemma Shows.note_step (w : Shows h l) (e : Event) :
    ∃ h', (HeapM.note e >>= fun _ => pure (ForInStep.yield PUnit.unit)) h =
      .ok (.yield PUnit.unit, h') ∧ Shows h' l := by
  obtain ⟨h', hrun, w'⟩ := w.note e
  exact ⟨h', bind_run hrun, w'⟩

/-- A step of a loop that is left out on a condition. -/
lemma Shows.note_if (w : Shows h l) (c : Prop) [Decidable c] (e : Event) :
    ∃ h', (if c then HeapM.note e >>= fun _ => pure (ForInStep.yield PUnit.unit)
      else pure (ForInStep.yield PUnit.unit)) h = .ok (.yield PUnit.unit, h') ∧ Shows h' l := by
  split
  · exact w.note_step e
  · exact ⟨h, rfl, w⟩

/-- The length of a main list is noted unless it is zero. -/
lemma Shows.note_length (hs : l.Sound) (w : Shows h l) (c : Fin mainLists) :
    ∃ h', (reading (·.listLen c) >>= fun n =>
      if 0 < n then HeapM.note (.freeList c n) >>= fun _ => pure (ForInStep.yield PUnit.unit)
      else pure (ForInStep.yield PUnit.unit)) h = .ok (.yield PUnit.unit, h') ∧ Shows h' l := by
  have hlen : h.listLen c = .ok (l.main c).length := (dif_pos c.isLt).symm.trans (w.freeListLen hs c)
  rw [bind_run (reading_run hlen)]
  exact w.note_if _ _

/-- A loop whose steps keep what is shown. -/
lemma Shows.loop {α : Type} {m : α → HeapM (ForInStep PUnit)} (xs : List α) (w : Shows h l)
    (hm : ∀ x h, Shows h l → ∃ h', m x h = .ok (.yield PUnit.unit, h') ∧ Shows h' l) :
    ∃ h', forIn xs PUnit.unit (fun x _ => m x) h = .ok (PUnit.unit, h') ∧ Shows h' l := by
  induction xs generalizing h with
  | nil => exact ⟨h, rfl, w⟩
  | cons x xs ih =>
    obtain ⟨h1, hrun1, w1⟩ := hm x h w
    obtain ⟨h2, hrun2, w2⟩ := ih w1
    rw [List.forIn_cons, bind_run hrun1]
    exact ⟨h2, hrun2, w2⟩

/-- **The dump** goes through. -/
lemma Shows.dump (hs : l.Sound) (w : Shows h l) : ∃ h', HeapM.dump h = .ok ((), h') := by
  obtain ⟨h1, hrun1, w1⟩ := w.note (.extent h.arena.start h.arena.stop h.pages)
  obtain ⟨h2, hrun2, w2⟩ := w1.loop (walk true l.pieces) fun b _ w => w.note_step (.block b)
  obtain ⟨h3, hrun3, w3⟩ := w2.loop (List.finRange quickLists) fun c _ w =>
    w.note_if (0 < (h.quick.get c).len) (.quickList c (h.quick.get c).len (quickSize c))
  obtain ⟨h4, hrun4, w4⟩ := w3.loop (List.finRange mainLists) fun c _ w => w.note_length hs c
  have hdump : HeapM.dumpAll h = .ok ((), h4) := by
    unfold HeapM.dumpAll
    rw [bind_run get_run, bind_run hrun1, bind_run (reading_run (w1.blocks hs)), bind_run hrun2,
      bind_run hrun3, bind_run hrun4]
    rfl
  unfold HeapM.dump
  rw [bind_run get_run]
  split
  · exact ⟨_, hdump⟩
  · exact ⟨_, rfl⟩

end BoundaryTag
