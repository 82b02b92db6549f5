import BoundaryTag.Proofs.Heap.Following
import BoundaryTag.Proofs.Heap.Showing
import BoundaryTag.Proofs.Heap.Surveying

/-!
The verifier on the lists of any memory.

The verifier follows the links of a main list from the head back to the head, and those of a quick list to
the null pointer, and goes on from an address only if a block could be there and the header there is one that
belongs on the list. So what it accepts is a ring or a chain of such addresses. A ring is led back along its
links, and a chain comes to its end, so neither can lead to an address twice.
-/

namespace BoundaryTag

open Heap

section Linked

variable {α : Type} {n p : α → α} {x y : α} {as : List α}

/-- **No node is led to twice** if the list does not lead through its start: else the links back from both
places would meet there. -/
lemma Linked.nodup (h : Linked n p x as y) (hx : x ∉ as) : as.Nodup := by
  induction as generalizing x with
  | nil => exact List.nodup_nil
  | cons a as ih =>
    obtain ⟨⟨-, hback⟩, hrest⟩ := h
    have ha : a ∉ as := by
      intro ha
      obtain ⟨s, t, rfl⟩ := List.append_of_mem ha
      have hprev := (linked_append.mp hrest).1.prev_mem
      rw [hback] at hprev
      exact hx (List.cons_subset_cons a (List.subset_append_left s _) hprev)
    exact List.nodup_cons.mpr ⟨ha, ih hrest ha⟩

end Linked

section Chain

variable {h : Heap} {a : Nat} {ps qs : List Nat}

/-- From an address on, there is one chain only. -/
lemma Chain.unique (hp : Chain h a ps) (hq : Chain h a qs) (hps : 0 ∉ ps) (hqs : 0 ∉ qs) : ps = qs := by
  induction ps generalizing a qs with
  | nil =>
    obtain rfl : a = 0 := hp
    cases qs with
    | nil => rfl
    | cons q qs => exact absurd (hq.1 ▸ List.mem_cons_self) hqs
  | cons p ps ih =>
    obtain ⟨rfl, hp⟩ := hp
    cases qs with
    | nil => exact absurd ((show a = 0 from hq) ▸ List.mem_cons_self) hps
    | cons q qs =>
      obtain ⟨rfl, hq⟩ := hq
      rw [ih hp hq (fun h0 => hps (List.mem_cons_of_mem _ h0)) (fun h0 => hqs (List.mem_cons_of_mem _ h0))]

lemma Chain.append {bs : List Nat} {b : Nat} (hc : Chain h a (ps ++ b :: bs)) : Chain h b (b :: bs) := by
  induction ps generalizing a with
  | nil => exact ⟨rfl, hc.2⟩
  | cons p ps ih => exact ih hc.2

/-- **No address is led to twice**: a chain that comes back does not end. -/
lemma Chain.nodup (hc : Chain h a ps) (hps : 0 ∉ ps) : ps.Nodup := by
  induction ps generalizing a with
  | nil => exact List.nodup_nil
  | cons p ps ih =>
    have hrest : 0 ∉ ps := fun h0 => hps (List.mem_cons_of_mem _ h0)
    refine List.nodup_cons.mpr ⟨fun hp => ?_, ih hc.2 hrest⟩
    obtain ⟨s, t, rfl⟩ := List.append_of_mem hp
    obtain ⟨rfl, hc⟩ := hc
    have hback : Chain h a (a :: t) := hc.append
    have hall : Chain h a (a :: (s ++ a :: t)) := ⟨rfl, hc⟩
    have hloop := hback.unique hall (fun h0 => hrest (List.mem_append_right s h0)) hps
    have hlen := congrArg List.length hloop
    simp only [List.length_cons, List.length_append] at hlen
    omega

end Chain

namespace Heap

/-- What makes an address one that belongs on a main list: a block could be there, and the header there is that
of a free block of the class. -/
structure MainEntry (h : Heap) (c : Fin mainLists) (p : Nat) : Prop where
  seat : h.Seat (.block p)
  free : (h.seen p).allocated = false
  filed : mainClass (h.seen p).size = c

/-- What makes an address one that belongs on a quick list. -/
structure QuickEntry (h : Heap) (c : Fin quickLists) (p : Nat) : Prop where
  seat : h.Seat (.block p)
  allocated : (h.seen p).allocated = true
  size : (h.seen p).size = quickSize c

/-- Past `prev`, the links of a main list lead to these entries and back to its head. -/
structure Listing (h : Heap) (c : Fin mainLists) (prev : Link) (ps : List Nat) : Prop where
  linked : Linked h.nextLink h.prevLink prev (ps.map .block) (.head c)
  entries : ∀ p ∈ ps, h.MainEntry c p

variable {h : Heap} {p a : Nat}

lemma Situated.seat_of_misplaced (w : h.Situated) (hp : ¬ h.misplaced p = true) : h.Seat (.block p) := by
  have hstop := w.stop_mod
  simp only [misplaced, Bool.or_eq_true, bne_iff_ne, decide_eq_true_eq, not_or, not_not, not_lt, not_le] at hp
  unfold firstPayload wordSize at hp
  unfold Seat
  unfold alignment at *
  omega

/-- The null pointer is no place for a block. -/
lemma ne_zero_of_seat (hp : h.Seat (.block p)) : p ≠ 0 := by
  obtain ⟨-, hstart, -⟩ := hp
  exact Nat.ne_of_gt (lt_of_lt_of_le (Nat.succ_pos _) (Nat.le_of_add_left_le hstart))

lemma misplaced_head (c : Fin mainLists) : h.misplaced (Link.head c).addr = true := by
  have hc := c.isLt
  have hlt : (Link.head c).addr < h.firstPayload := by
    show (c : Nat) < _
    unfold firstPayload wordSize
    unfold mainLists at hc
    omega
  unfold misplaced
  rw [decide_eq_true hlt, Bool.or_true, Bool.true_or]

/-! ### The main lists -/

section Main

variable {c : Fin mainLists} {prev cur : Link} {free quota listed : Nat}

/-- What a link leads to passes if it is an entry that leads back. -/
lemma Situated.checkListed (w : h.Situated) :
    Decides (h.checkListed c prev cur) (fun _ => ∃ p, cur = .block p ∧ h.MainEntry c p ∧ h.prevLink cur = prev)
      (fun x => x.ofWalk = false) := by
  unfold Heap.checkListed
  refine .demand (fun _ => rfl) fun hp => ?_
  rcases cur with d | p
  · exact absurd (misplaced_head d) hp
  have hseat := w.seat_of_misplaced hp
  have hblock : h.blockOf (.block p) = .ok p := rfl
  refine .read hblock (.read (w.tagAt_seat hseat) (.demand (fun _ => rfl) fun htag => ?_))
  simp only [Bool.or_eq_true, decide_eq_true_eq, not_or, Bool.not_eq_true, ne_eq, not_not] at htag
  refine .read (w.links_seat hseat).2.1 (.demand (fun _ => rfl) fun hback => ?_)
  exact .pass ⟨p, rfl, ⟨hseat, htag.1, htag.2⟩, not_not.mp hback⟩

/-- A list that leads to its head ends there. -/
lemma checkClosed_decides (hcur : h.nextLink prev = .head c) :
    Decides (do h.checkClosed c prev; return listed)
      (fun n => ∃ ps, h.Listing c prev ps ∧ n = listed + ps.length) (fun x => x.ofWalk = false) := by
  have hprev : h.prevOf (.head c) = .ok (h.prevLink (.head c)) := rfl
  have hclosed : Decides (h.checkClosed c prev) (fun _ => h.prevLink (.head c) = prev)
      (fun x => x.ofWalk = false) :=
    .read hprev (.demand (fun _ => rfl) fun hback => .pass (not_not.mp hback))
  exact .bind hclosed fun _ hback => .pass ⟨[], ⟨⟨hcur, hback⟩, fun p hp => absurd hp List.not_mem_nil⟩, rfl⟩

/-- **A main list is followed** from one link to the next, until it comes back to the head. -/
lemma Situated.checkListFrom (w : h.Situated) (hcur : h.nextLink prev = cur) :
    Decides (h.checkListFrom free c quota listed prev cur)
      (fun n => ∃ ps, h.Listing c prev ps ∧ n = listed + ps.length) (fun x => x.ofWalk = false) := by
  induction quota generalizing listed prev cur with
  | zero =>
    rw [Heap.checkListFrom]
    split
    · next hhead => exact checkClosed_decides (hcur.trans hhead)
    · exact .bind w.checkListed fun _ _ => .refuse rfl
  | succ quota ih =>
    rw [Heap.checkListFrom]
    split
    · next hhead => exact checkClosed_decides (hcur.trans hhead)
    · refine .bind w.checkListed ?_
      rintro - ⟨p, rfl, entry, hback⟩
      refine .read (w.links_seat entry.seat).1 ((ih rfl).mono ?_ fun _ hx => hx)
      rintro n ⟨ps, l, rfl⟩
      refine ⟨p :: ps, ⟨⟨⟨hcur, hback⟩, l.linked⟩, List.forall_mem_cons.mpr ⟨entry, l.entries⟩⟩, ?_⟩
      rw [List.length_cons, Nat.add_assoc, Nat.add_comm 1]

lemma Situated.checkList (w : h.Situated) :
    Decides (h.checkList free listed c) (fun n => ∃ ps, h.Listing c (.head c) ps ∧ n = listed + ps.length)
      (fun x => x.ofWalk = false) :=
  .read rfl (w.checkListFrom rfl)

/-- One list after the other is followed. -/
lemma Situated.foldlM_checkList (w : h.Situated) {cs : List (Fin mainLists)} (hcs : cs.Nodup) :
    Decides (cs.foldlM (h.checkList free) listed)
      (fun n => ∃ main : MainLists, (∀ c ∈ cs, h.Listing c (.head c) (main c)) ∧
        n = listed + (cs.map fun c => (main c).length).sum) (fun x => x.ofWalk = false) := by
  induction cs generalizing listed with
  | nil => exact .pass ⟨fun _ => [], fun c hc => absurd hc List.not_mem_nil, rfl⟩
  | cons c cs ih =>
    obtain ⟨hc, hcs⟩ := List.nodup_cons.mp hcs
    rw [List.foldlM_cons]
    refine .bind w.checkList ?_
    rintro - ⟨ps, l, rfl⟩
    refine (ih hcs).mono ?_ fun _ hx => hx
    rintro n ⟨main, hmain, rfl⟩
    have hother : ∀ d ∈ cs, Function.update main c ps d = main d := fun d hd =>
      Function.update_of_ne (ne_of_mem_of_not_mem hd hc) ps main
    refine ⟨Function.update main c ps, List.forall_mem_cons.mpr ⟨?_, fun d hd => ?_⟩, ?_⟩
    · rw [Function.update_self]
      exact l
    · rw [hother d hd]
      exact hmain d hd
    · rw [List.map_cons, List.sum_cons, Function.update_self, Nat.add_assoc,
        List.map_congr_left fun d hd => congrArg List.length (hother d hd)]

lemma Situated.checkLists (w : h.Situated) :
    Decides (h.checkLists free)
      (fun _ => ∃ main : MainLists, (∀ c, h.Listing c (.head c) (main c)) ∧
        ((List.finRange mainLists).map fun c => (main c).length).sum = free) (fun x => x.ofWalk = false) := by
  unfold Heap.checkLists
  refine .bind (w.foldlM_checkList (List.nodup_finRange mainLists)) ?_
  rintro n ⟨main, hmain, rfl⟩
  refine .demand (fun _ => rfl) fun hcount => .pass ⟨main, fun c => hmain c (List.mem_finRange c), ?_⟩
  rw [← not_not.mp hcount, Nat.zero_add]

end Main

/-! ### The quick lists -/

section Quick

variable {c : Fin quickLists} {cur quota : Nat}

lemma Situated.checkQuickListed (w : h.Situated) :
    Decides (h.checkQuickListed c cur) (fun _ => h.QuickEntry c cur) (fun x => x.ofWalk = false) := by
  unfold Heap.checkQuickListed
  refine .demand (fun _ => rfl) fun hp => ?_
  have hseat := w.seat_of_misplaced hp
  refine .read (w.tagAt_seat hseat) (.demand (fun _ => rfl) fun htag => ?_)
  simp only [Bool.or_eq_true, Bool.not_eq_true', decide_eq_true_eq, not_or, Bool.not_eq_false, ne_eq,
    not_not] at htag
  exact .pass ⟨hseat, htag.1, htag.2⟩

/-- **A quick list is followed** up to the null pointer. -/
lemma Situated.checkQuickFrom (w : h.Situated) :
    Decides (h.checkQuickFrom c quota cur)
      (fun n => ∃ ps, Chain h cur ps ∧ (∀ p ∈ ps, h.QuickEntry c p) ∧ n = ps.length ∧ n ≤ quota)
      (fun x => x.ofWalk = false) := by
  induction quota generalizing cur with
  | zero =>
    rw [Heap.checkQuickFrom]
    split
    · next h0 => exact .pass ⟨[], h0, fun p hp => absurd hp List.not_mem_nil, rfl, le_rfl⟩
    · exact .refuse rfl
  | succ quota ih =>
    rw [Heap.checkQuickFrom]
    split
    · next h0 => exact .pass ⟨[], h0, fun p hp => absurd hp List.not_mem_nil, rfl, Nat.zero_le _⟩
    · refine .bind w.checkQuickListed fun _ entry => .read (w.links_seat entry.seat).2.2 (.bind ih ?_)
      rintro n ⟨ps, hc, hentries, rfl, hle⟩
      exact .pass ⟨cur :: ps, ⟨rfl, hc⟩, List.forall_mem_cons.mpr ⟨entry, hentries⟩, rfl, Nat.succ_le_succ hle⟩

lemma Situated.checkQuick (w : h.Situated) :
    Decides (h.checkQuick c)
      (fun _ => ∃ ps, Chain h (h.quick.get c).first ps ∧ (∀ p ∈ ps, h.QuickEntry c p) ∧
        (h.quick.get c).len = ps.length ∧ ps.length ≤ quickDepth) (fun x => x.ofWalk = false) := by
  unfold Heap.checkQuick
  refine .bind w.checkQuickFrom ?_
  rintro n ⟨ps, hc, hentries, rfl, hle⟩
  exact .demand (fun _ => rfl) fun hlen => .pass ⟨ps, hc, hentries, (not_not.mp hlen).symm, hle⟩

end Quick

/-! ### The verifier -/

/-- A heap that the verifier accepts: the walk meets these blocks in order, the main lists are rings of entries,
as many as there are free blocks, and the quick lists chains of entries, as long as they count. -/
structure Accepted (h : Heap) (bs : List BlockInfo) (main : MainLists) (quick : Fin quickLists → List Nat) :
    Prop where
  order : h.Order bs
  listing : ∀ c, h.Listing c (.head c) (main c)
  count : ((List.finRange mainLists).map fun c => (main c).length).sum =
    (bs.filter fun b => !b.allocated).length
  shelves : Shelves h quick
  entries : ∀ c, ∀ p ∈ quick c, h.QuickEntry c p
  depth : ∀ c, (quick c).length ≤ quickDepth

/-- **The verifier comes to an end**, whatever memory holds. What it refuses is a disorder of the blocks, or if
they are in order, something on the lists. -/
lemma Situated.verify (w : h.Situated) (hr : h.ready = true) :
    Decides h.verify (fun _ => ∃ bs main quick, h.Accepted bs main quick)
      (fun x => h.Disorder x ∨ (∃ bs, h.Order bs) ∧ x.ofWalk = false) := by
  unfold Heap.verify
  rw [if_neg (by rw [hr]; decide)]
  refine .bind ((w.survey hr).mono (fun _ hs => hs) fun _ hx => .inl hx) ?_
  rintro s ⟨bs, order, rfl⟩
  refine .bind (w.checkLists.mono (fun _ hm => hm) fun _ hx => .inr ⟨⟨bs, order⟩, hx⟩) ?_
  rintro - ⟨main, hmain, hcount⟩
  refine (Decides.forM fun c => w.checkQuick (c := c)).mono ?_ fun _ hx => .inr ⟨⟨bs, order⟩, hx⟩
  intro _ hquick
  choose quick hchain hentries hlen hdepth using fun c => hquick c (List.mem_finRange c)
  refine ⟨bs, main, quick, order, hmain, ?_, ⟨hlen, hchain⟩, hentries, hdepth⟩
  rw [hcount, foldl_add_free]
  exact Nat.zero_add _

end Heap

end BoundaryTag
