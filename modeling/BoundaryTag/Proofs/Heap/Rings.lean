import BoundaryTag.Proofs.Heap.Links
import Mathlib.Data.List.Nodup

/-!
Taking a block out of its main list, and putting one in front.

The heap has a ring for every main list. Both edits find their links inside the region, succeed, and give
the rings of the edited lists. They write to links only.
-/

namespace BoundaryTag

open Heap

/-- The bytes that hold the links of listed blocks. -/
def MainLists.links (main : MainLists) (x : Nat) : Prop :=
  ∃ c, ∃ p ∈ main c, (Link.block p).area x

lemma MainLists.links_without {main : MainLists} {ps : List Nat} {x : Nat}
    (hx : (main.without ps).links x) : main.links x := by
  obtain ⟨c, p, hp, h⟩ := hx
  exact ⟨c, p, (MainLists.mem_without.mp hp).1, h⟩

lemma MainLists.without_singleton {main : MainLists} {c : Fin mainLists} {p : Nat} {as bs : List Nat}
    (hc : main c = as ++ p :: bs) (hnd : (main c).Nodup) : main.without [p] c = as ++ bs := by
  rw [hc, List.nodup_middle, List.nodup_cons] at hnd
  have hself : ∀ cs : List Nat, (∀ q ∈ cs, q ∈ as ++ bs) → cs.filter (· ∉ [p]) = cs := by
    intro cs hcs
    refine List.filter_eq_self.mpr fun q hq => ?_
    simp only [List.mem_singleton, decide_eq_true_eq]
    rintro rfl
    exact hnd.1 (hcs q hq)
  rw [MainLists.without, hc, List.filter_append, List.filter_cons_of_neg (by simp),
    hself as fun q hq => List.mem_append_left _ hq, hself bs fun q hq => List.mem_append_right _ hq]

/-- The main lists, as the heap's links have them. -/
structure Ringed (h : Heap) (main : MainLists) : Prop where
  ring : ∀ c, Linked h.nextLink h.prevLink (.head c) ((main c).map .block) (.head c)
  seat : ∀ c, ∀ p ∈ main c, h.Seat (.block p)
  nodup : ∀ c, (main c).Nodup
  once : ∀ c c' p, p ∈ main c → p ∈ main c' → c = c'

namespace Ringed

variable {h h' : Heap} {main : MainLists} {c c' : Fin mainLists} {p : Nat} {u v x : Link}

/-- The nodes of a ring. -/
def nodes (main : MainLists) (c : Fin mainLists) : List Link := .head c :: (main c).map .block

lemma mem_nodes : u ∈ nodes main c ↔ u = .head c ∨ ∃ p ∈ main c, u = .block p := by
  simp [nodes, eq_comm]

lemma nodup_nodes (r : Ringed h main) (c : Fin mainLists) : (nodes main c).Nodup := by
  refine List.nodup_cons.mpr ⟨by simp, List.Nodup.map ?_ (r.nodup c)⟩
  exact fun a b hab => Link.block.inj hab

lemma seat_of_mem (r : Ringed h main) (hu : u ∈ nodes main c) : h.Seat u := by
  rcases mem_nodes.mp hu with rfl | ⟨p, hp, rfl⟩
  · trivial
  · exact r.seat c p hp

lemma eq_of_mem (r : Ringed h main) (hu : u ∈ nodes main c) (hu' : u ∈ nodes main c') : c = c' := by
  rcases mem_nodes.mp hu with rfl | ⟨p, hp, rfl⟩ <;> rcases mem_nodes.mp hu' with he | ⟨q, hq, he⟩
  · exact Link.head.inj he
  · cases he
  · cases he
  · exact r.once c c' p hp (Link.block.inj he ▸ hq)

lemma area_of_mem (hu : u ∈ nodes main c) {x : Nat} (hx : u.area x) : main.links x := by
  rcases mem_nodes.mp hu with rfl | ⟨p, hp, rfl⟩
  · exact hx.elim
  · exact ⟨c, p, hp, hx⟩

lemma mem_turn : x ∈ (main c).map .block ++ [.head c] ↔ x ∈ nodes main c := by
  simp [nodes, or_comm]

/-- The neighbours of a listed block. -/
lemma neighbours (r : Ringed h main) (hp : p ∈ main c) :
    h.prevLink (.block p) ∈ nodes main c ∧ h.nextLink (.block p) ∈ nodes main c := by
  obtain ⟨as, bs, hc⟩ := List.append_of_mem hp
  have hring := r.ring c
  rw [hc, List.map_append, List.map_cons] at hring
  obtain ⟨h1, h2⟩ := linked_append.mp hring
  have hprev := h1.prev_mem
  have hnext := h2.next_mem
  simp only [nodes, hc, List.map_append, List.map_cons, List.mem_append, List.mem_cons,
    List.not_mem_nil, or_false] at hprev hnext ⊢
  tauto

/-- The rings depend on the links of their nodes only. -/
lemma congr (r : Ringed h main) (s : SameSetting h h')
    (hn : ∀ c, ∀ u ∈ nodes main c, h'.nextLink u = h.nextLink u ∧ h'.prevLink u = h.prevLink u) :
    Ringed h' main where
  ring c := (r.ring c).congr (fun z hz => (hn c z hz).1) fun z hz => (hn c z (mem_turn.mp hz)).2
  seat c p hp := s.seat.mpr (r.seat c p hp)
  nodup := r.nodup
  once := r.once

/-- Writes off the links leave the rings as they are. -/
lemma off {S : Nat → Prop} (r : Ringed h main) (s : SameSetting h h') (hoff : SameOff S h h')
    (hheads : h'.heads = h.heads) (hS : ∀ x, main.links x → ¬ S x) : Ringed h' main := by
  refine r.congr s fun c u hu => ?_
  rcases mem_nodes.mp hu with rfl | ⟨p, hp, rfl⟩
  · simp only [nextLink, prevLink, hheads, and_self]
  · constructor
    · refine congrArg Link.ofWord (hoff.word fun x h1 h2 => hS x ⟨c, p, hp, h1, ?_⟩)
      unfold wordSize alignment at *
      omega
    · refine congrArg Link.ofWord (hoff.word fun x h1 h2 => hS x ⟨c, p, hp, by omega, ?_⟩)
      unfold wordSize alignment at *
      omega

/-- A block whose neighbours lead to each other is out of its list. -/
lemma remove (r : Ringed h main) (hp : p ∈ main c) (s : SameSetting h h')
    (hn : ∀ x, h.Seat x → h'.nextLink x =
      if x = h.prevLink (.block p) then h.nextLink (.block p) else h.nextLink x)
    (hv : ∀ x, h.Seat x → h'.prevLink x =
      if x = h.nextLink (.block p) then h.prevLink (.block p) else h.prevLink x) :
    Ringed h' (main.without [p]) := by
  obtain ⟨hprev, hnext⟩ := r.neighbours hp
  refine ⟨fun c' => ?_, fun c' q hq => ?_, fun c' => (r.nodup c').filter _, ?_⟩
  · by_cases hc : c' = c
    · subst hc
      obtain ⟨as, bs, hsplit⟩ := List.append_of_mem hp
      have hring := r.ring c'
      have hnd := r.nodup_nodes c'
      have hseat : ∀ z ∈ nodes main c', h.Seat z := fun z hz => r.seat_of_mem hz
      have hturn : ((main c').map Link.block ++ [Link.head c']).Nodup :=
        (List.perm_append_singleton _ _).symm.nodup hnd
      rw [MainLists.without_singleton hsplit (r.nodup c'), List.map_append]
      unfold nodes at hnd hseat
      rw [hsplit, List.map_append, List.map_cons] at hring hnd hseat hturn
      refine hring.remove hnd hturn ?_ ?_ ?_ ?_
      · rw [hn _ (r.seat_of_mem hprev), if_pos rfl]
      · rw [hv _ (r.seat_of_mem hnext), if_pos rfl]
      · intro z hz hne
        rw [hn z (hseat z _), if_neg hne]
        simp only [List.mem_append, List.mem_cons] at hz ⊢
        tauto
      · intro z hz hne
        rw [hv z (hseat z _), if_neg hne]
        simp only [List.mem_append, List.mem_cons, List.not_mem_nil, or_false] at hz ⊢
        tauto
    · -- another ring has neither of the neighbours
      have hother : ∀ z ∈ nodes main c', ∀ u ∈ nodes main c, z ≠ u := by
        rintro z hz u hu rfl
        exact hc (r.eq_of_mem hz hu)
      rw [MainLists.without_eq_self fun hmem => hc (r.once _ _ _ hmem hp)]
      refine (r.ring c').congr (fun z hz => ?_) fun z hz => ?_
      · rw [hn z (r.seat_of_mem hz), if_neg (hother z hz _ hprev)]
      · have hz' := mem_turn.mp hz
        rw [hv z (r.seat_of_mem hz'), if_neg (hother z hz' _ hnext)]
  · exact s.seat.mpr (r.seat c' q (MainLists.mem_without.mp hq).1)
  · intro c1 c2 q h1 h2
    exact r.once c1 c2 q (MainLists.mem_without.mp h1).1 (MainLists.mem_without.mp h2).1

/-- A block between the head and the first block is in front of the list. -/
lemma add {b : Piece} (r : Ringed h main) (hb : h.Seat (.block b.payload))
    (hnew : ∀ c, b.payload ∉ main c) (s : SameSetting h h')
    (hn : ∀ x, h.Seat x → h'.nextLink x =
      if x = .head (mainClass b.size) then .block b.payload
      else if x = .block b.payload then h.nextLink (.head (mainClass b.size)) else h.nextLink x)
    (hv : ∀ x, h.Seat x → h'.prevLink x =
      if x = h.nextLink (.head (mainClass b.size)) then .block b.payload
      else if x = .block b.payload then .head (mainClass b.size) else h.prevLink x) :
    Ringed h' (main.add b) := by
  have hnode : ∀ {c' z}, z ∈ nodes main c' → z ≠ .block b.payload := by
    rintro c' z hz rfl
    rcases mem_nodes.mp hz with he | ⟨q, hq, he⟩
    · cases he
    · exact hnew c' (Link.block.inj he ▸ hq)
  have hf : h.nextLink (.head (mainClass b.size)) ∈ nodes main (mainClass b.size) :=
    mem_turn.mp (r.ring _).next_mem
  refine ⟨fun c' => ?_, fun c' q hq => ?_, fun c' => ?_, fun c1 c2 q hq1 hq2 => ?_⟩
  · by_cases hc : c' = mainClass b.size
    · subst hc
      have hnd := r.nodup_nodes (mainClass b.size)
      rw [MainLists.add, Function.update_self]
      refine (r.ring _).cons hnd ?_ ?_ ?_ ?_ (fun z hz => ?_) fun z hz hne => ?_
      · rw [hn _ hb, if_neg (by simp), if_pos rfl]
      · rw [hn _ (seat_head h _), if_pos rfl]
      · rw [hv _ hb, if_neg (Ne.symm (hnode hf)), if_pos rfl]
      · rw [hv _ (r.seat_of_mem hf), if_pos rfl]
      · have hzin := List.mem_cons_of_mem (.head (mainClass b.size)) hz
        have hzc : z ≠ .head (mainClass b.size) := by
          rintro rfl
          exact (List.nodup_cons.mp hnd).1 hz
        rw [hn z (r.seat_of_mem hzin), if_neg hzc, if_neg (hnode hzin)]
      · have hzin := mem_turn.mp hz
        rw [hv z (r.seat_of_mem hzin), if_neg hne, if_neg (hnode hzin)]
    · -- another ring has neither the head nor the first block
      have hother : ∀ z ∈ nodes main c', ∀ u ∈ nodes main (mainClass b.size), z ≠ u := by
        rintro z hz u hu rfl
        exact hc (r.eq_of_mem hz hu)
      rw [MainLists.add, Function.update_of_ne hc]
      refine (r.ring c').congr (fun z hz => ?_) fun z hz => ?_
      · rw [hn z (r.seat_of_mem hz), if_neg (hother z hz _ List.mem_cons_self), if_neg (hnode hz)]
      · have hzin := mem_turn.mp hz
        rw [hv z (r.seat_of_mem hzin), if_neg (hother z hzin _ hf), if_neg (hnode hzin)]
  · rcases MainLists.mem_add.mp hq with ⟨rfl, -⟩ | hq
    · exact s.seat.mpr hb
    · exact s.seat.mpr (r.seat c' q hq)
  · by_cases hc : c' = mainClass b.size
    · subst hc
      rw [MainLists.add, Function.update_self]
      exact List.nodup_cons.mpr ⟨hnew _, r.nodup _⟩
    · rw [MainLists.add, Function.update_of_ne hc]
      exact r.nodup c'
  · rcases MainLists.mem_add.mp hq1 with ⟨rfl, h1⟩ | hq1 <;>
      rcases MainLists.mem_add.mp hq2 with ⟨h3, h2⟩ | hq2
    · exact h1.symm.trans h2
    · exact absurd hq2 (hnew c2)
    · subst h3
      exact absurd hq1 (hnew c1)
    · exact r.once c1 c2 q hq1 hq2

end Ringed

namespace HeapM

open Ringed

variable {h : Heap} {main : MainLists} {c : Fin mainLists} {p n : Nat} {u v : Link}

lemma setNext_run (g : h.Grounded) (hu : h.Seat u) : setNext u v h = .ok ((), h.withNext u v) := by
  cases u with
  | head c => rfl
  | block a =>
    obtain ⟨-, h1, h2⟩ := hu
    exact store_run g _ (by omega) (by unfold wordSize alignment at *; omega)

lemma setPrev_run (g : h.Grounded) (hu : h.Seat u) : setPrev u v h = .ok ((), h.withPrev u v) := by
  cases u with
  | head c => rfl
  | block a =>
    obtain ⟨-, h1, h2⟩ := hu
    have hlt := g.bounded
    unfold alignment at *
    rw [setPrev, wrapAdd_of_lt (by unfold wordSize; omega)]
    exact store_run g _ (by omega) (by unfold wordSize; omega)

/-- **A block taken out of its list.** -/
lemma removeFree_run (g : h.Grounded) (r : Ringed h main) (hp : p ∈ main c) :
    ∃ h', removeFree p h = .ok ((), h') ∧ Ringed h' (main.without [p]) ∧
      Within main.links h h' ∧ h'.last = h.last := by
  obtain ⟨hu, hv⟩ := r.neighbours hp
  obtain ⟨-, hp1, hp2⟩ := r.seat c p hp
  have hlt := g.bounded
  set u := h.prevLink (.block p) with hu_def
  set v := h.nextLink (.block p) with hv_def
  have su := r.seat_of_mem hu
  have sv := r.seat_of_mem hv
  have w1 : Within u.area h (h.withNext u v) := within_withNext g su
  have g1 := w1.setting.grounded g
  have sv1 : (h.withNext u v).Seat v := w1.setting.seat.mpr sv
  have w2 : Within v.area (h.withNext u v) ((h.withNext u v).withPrev v u) := within_withPrev g1 sv1
  have w : Within main.links h ((h.withNext u v).withPrev v u) :=
    (w1.mono fun _ => area_of_mem hu).trans (w2.mono fun _ => area_of_mem hv)
  refine ⟨_, ?_, r.remove hp w.setting (fun x sx => ?_) fun x sx => ?_, w, ?_⟩
  · unfold alignment at hp1 hp2
    rw [removeFree, bind_run (load_run g (by omega) (by unfold wordSize; omega)),
      wrapAdd_of_lt (by unfold wordSize; omega),
      bind_run (load_run g (by omega) (by unfold wordSize; omega))]
    exact (bind_run (setNext_run g su)).trans (setPrev_run g1 sv1)
  · rw [nextLink_withPrev g1 sv1 (w1.setting.seat.mpr sx), nextLink_withNext g su sv sx]
  · rw [prevLink_withPrev g1 sv1 (w1.setting.seat.mpr su) (w1.setting.seat.mpr sx),
      prevLink_withNext g su sx]
  · cases u <;> cases v <;> rfl

/-- **A block put in front of the list of its class.** -/
lemma insertFree_run {b : Piece} (g : h.Grounded) (r : Ringed h main)
    (hb : h.Seat (.block b.payload)) (hsize : (h.header b.payload).size = b.size)
    (hnew : ∀ c, b.payload ∉ main c) :
    ∃ h', insertFree b.payload h = .ok ((), h') ∧ Ringed h' (main.add b) ∧
      Within (main.add b).links h h' ∧ h'.last = h.last := by
  obtain ⟨-, hp1, hp2⟩ := id hb
  have hlt := g.bounded
  set c := mainClass b.size with hc_def
  set f := h.nextLink (.head c) with hf_def
  have hf : f ∈ nodes main c := mem_turn.mp (r.ring c).next_mem
  have sf := r.seat_of_mem hf
  have hpin : Link.block b.payload ∈ nodes (main.add b) c := by
    simp [nodes, MainLists.add, ← hc_def]
  have hfin : f ∈ nodes (main.add b) c := by
    simp only [nodes, MainLists.add, ← hc_def, Function.update_self, List.map_cons,
      List.mem_cons] at hf ⊢
    tauto
  -- the four writes, one after the other
  set h1 := h.withNext (.block b.payload) f with h1_def
  have w1 : Within (Link.block b.payload).area h h1 := within_withNext g hb
  have g1 := w1.setting.grounded g
  have s1 : ∀ {x}, h1.Seat x ↔ h.Seat x := w1.setting.seat
  set h2 := h1.withPrev (.block b.payload) (.head c) with h2_def
  have w2 : Within (Link.block b.payload).area h1 h2 := within_withPrev g1 (s1.mpr hb)
  have g2 := w2.setting.grounded g1
  have s2 : ∀ {x}, h2.Seat x ↔ h.Seat x := w2.setting.seat.trans s1
  set h3 := h2.withPrev f (.block b.payload) with h3_def
  have w3 : Within f.area h2 h3 := within_withPrev g2 (s2.mpr sf)
  have g3 := w3.setting.grounded g2
  have s3 : ∀ {x}, h3.Seat x ↔ h.Seat x := w3.setting.seat.trans s2
  set h4 := h3.withNext (.head c) (.block b.payload) with h4_def
  have w4 : Within (Link.head c).area h3 h4 := within_withNext g3 (seat_head h3 c)
  have w : Within (main.add b).links h h4 :=
    (((w1.mono fun _ => area_of_mem hpin).trans (w2.mono fun _ => area_of_mem hpin)).trans
      (w3.mono fun _ => area_of_mem hfin)).trans (w4.mono fun _ hx => hx.elim)
  refine ⟨h4, ?_, r.add hb hnew w.setting (fun x sx => ?_) fun x sx => ?_, w, ?_⟩
  · have hput : h1.put (b.payload + wordSize) (Link.head c).word = h2 := rfl
    have hsame : h1.arena = h.arena := w1.setting.arena
    have hfirst : reading (·.nextOf (.head c)) h = .ok (f, h) := rfl
    unfold alignment at hp1 hp2
    rw [insertFree, bind_run (tagAt_run g (by unfold wordSize; omega) (by omega)), hsize, ← hc_def,
      bind_run hfirst, bind_run (store_run g _ (by omega) (by unfold wordSize; omega)),
      wrapAdd_of_lt (by unfold wordSize; omega)]
    change (store (b.payload + wordSize) (Link.head c).word >>= fun _ =>
      setPrev f (.block b.payload) >>= fun _ => setNext (.head c) (.block b.payload)) h1 = _
    rw [bind_run (store_run g1 _ (by rw [hsame]; omega) (by rw [hsame]; unfold wordSize; omega)), hput,
      bind_run (setPrev_run g2 (s2.mpr sf))]
    exact setNext_run g3 (seat_head h3 c)
  · rw [h4_def, nextLink_withNext g3 (seat_head h3 c) (s3.mpr hb) (s3.mpr sx), h3_def,
      nextLink_withPrev g2 (s2.mpr sf) (s2.mpr sx), h2_def,
      nextLink_withPrev g1 (s1.mpr hb) (s1.mpr sx), h1_def, nextLink_withNext g hb sf sx]
  · rw [h4_def, prevLink_withNext g3 (seat_head h3 c) (s3.mpr sx), h3_def,
      prevLink_withPrev g2 (s2.mpr sf) (s2.mpr hb) (s2.mpr sx), h2_def,
      prevLink_withPrev g1 (s1.mpr hb) (seat_head h1 c) (s1.mpr sx), h1_def,
      prevLink_withNext g hb sx]
  · rw [h4_def, h3_def, h2_def, h1_def]
    cases f <;> rfl

end HeapM

end BoundaryTag
