import BoundaryTag.Proofs.Heap.Settling
import BoundaryTag.Proofs.Ledger.Returning

/-!
Heaps that show a ledger.

A heap shows a ledger if it has the same arena, and its blocks, main lists and quick lists are those of
the ledger. What it shows is not touched by work that stays out of the blocks in use, nor by a change of
use that no tag tells.
-/

namespace BoundaryTag

open Heap HeapM Piece

/-- All pages that the arena may still hand out lie in memory. -/
structure Roomy (h : Heap) : Prop where
  aligned : h.arena.base % alignment = 0
  pages_le : h.arena.pages ≤ h.arena.supply.limit
  bounded : h.arena.base + h.arena.supply.limit * pageSize < addressSpace
  mapped : h.arena.supply.limit ≠ 0 → h.memory.base ≤ h.arena.base ∧
    h.arena.base + h.arena.supply.limit * pageSize ≤ h.memory.base + h.memory.extent

/-- A chain of quick-listed blocks, which ends with the null pointer. -/
def Chain (h : Heap) : Nat → List Nat → Prop
  | a, [] => a = 0
  | a, p :: ps => a = p ∧ Chain h (h.memory.word p).toNat ps

/-- The quick lists of the heap. -/
structure Shelves (h : Heap) (quick : Fin quickLists → List Nat) : Prop where
  len : ∀ c, (h.quick.get c).len = (quick c).length
  chain : ∀ c, Chain h (h.quick.get c).first (quick c)

/-- The heap is as the ledger says. -/
structure Shows (h : Heap) (l : Ledger) : Prop where
  arena : h.arena = l.arena
  roomy : Roomy h
  ready : h.ready = true ↔ l.arena.pages ≠ 0
  mirrors : l.arena.pages ≠ 0 → Mirrors h l
  ringed : Ringed h l.main
  shelves : Shelves h l.quick

section Setting

variable {h h' : Heap} {l : Ledger} {S : Nat → Prop}

lemma Heap.SameSetting.roomy (s : SameSetting h h') (r : Roomy h) : Roomy h' := by
  obtain ⟨ha, -, -, -, hb, he⟩ := s
  exact ⟨ha ▸ r.aligned, ha ▸ r.pages_le, ha ▸ r.bounded, ha ▸ hb ▸ he ▸ r.mapped⟩

lemma Arena.start_eq {a : Arena} (h0 : a.pages ≠ 0) : a.start = a.base := by
  unfold Arena.start
  split
  · rw [if_neg h0]
  · rfl

lemma Arena.stop_eq {a : Arena} (h0 : a.pages ≠ 0) : a.stop = a.base + a.pages * pageSize := by
  rw [Arena.stop, Arena.start_eq h0]

lemma Roomy.grounded (r : Roomy h) (h0 : h.arena.pages ≠ 0) : h.Grounded := by
  have h1 := Nat.mul_le_mul_right pageSize r.pages_le
  have h2 := r.bounded
  obtain ⟨hbase, h3⟩ := r.mapped fun hlimit => h0 (Nat.le_zero.mp (hlimit ▸ r.pages_le))
  refine ⟨?_, ?_, ?_, ?_⟩
  · rw [Arena.start_eq h0]
    exact r.aligned
  · rw [Arena.stop_eq h0]
    omega
  · rw [Arena.start_eq h0]
    exact hbase
  · rw [Arena.stop_eq h0]
    omega

lemma Shows.ready_eq_false (w : Shows h l) (h0 : l.arena.pages = 0) : h.ready = false := by
  rw [← Bool.not_eq_true, w.ready]
  exact not_not.mpr h0

lemma Shows.stop_eq (w : Shows h l) (h0 : l.arena.pages ≠ 0) : h.arena.stop = l.stop := by
  rw [w.arena, Arena.stop_eq h0]
  rfl

lemma Shows.first_eq (w : Shows h l) (h0 : l.arena.pages ≠ 0) : h.firstPayload = l.first := by
  rw [firstPayload, w.arena, Arena.start_eq h0]
  rfl

end Setting

/-! ### What can be read of a block -/

section Reading

variable {h : Heap} {l : Ledger} {b : Piece}

/-- Where the first word of a block is. -/
lemma Shows.word_bounds (w : Shows h l) (hs : l.Sound) (hmem : b ∈ l.pieces) :
    h.Grounded ∧ h.arena.start + alignment ≤ b.payload ∧ b.payload + wordSize ≤ h.arena.stop := by
  have r := (w.mirrors (hs.pages_ne hmem)).rests
  have hbs := r.bounds hmem
  refine ⟨r.grounded, hbs.1, ?_⟩
  unfold Piece.stop minBlock wordSize at *
  omega

/-- The header and the links of a block are there to be read. -/
structure Legible (h : Heap) (b : Piece) : Prop where
  tag : h.tagAt b.payload = .ok (h.header b.payload)
  size : (h.header b.payload).size = b.size
  allocated : (h.header b.payload).allocated = !b.isFree
  next : h.nextOf (.block b.payload) = .ok (h.nextLink (.block b.payload))
  prev : h.prevOf (.block b.payload) = .ok (h.prevLink (.block b.payload))

lemma Shows.legible (hs : l.Sound) (w : Shows h l) (hb : b ∈ l.pieces) : Legible h b := by
  have r := (w.mirrors (hs.pages_ne hb)).rests
  have hbs := r.bounds hb
  have hlt := r.grounded.bounded
  have h2 : b.payload + 2 * wordSize ≤ h.arena.stop := by
    unfold Piece.stop minBlock at hbs
    unfold wordSize
    omega
  refine ⟨r.tagAt_eq hb, r.size_header hb, r.allocated_header hb, ?_, ?_⟩
  · rw [nextOf, r.grounded.load_eq (by omega) (by omega)]
    rfl
  · rw [prevOf, wrapAdd_of_lt (by omega), r.grounded.load_eq (by omega) (by omega)]
    rfl

end Reading

/-! ### Quick lists -/

section Chains

variable {h h' : Heap} {ps : List Nat} {a : Nat} {quick : Fin quickLists → List Nat} {S : Nat → Prop}

lemma Chain.congr (hc : Chain h a ps) (hw : ∀ p ∈ ps, h'.memory.word p = h.memory.word p) :
    Chain h' a ps := by
  induction ps generalizing a with
  | nil => exact hc
  | cons p ps ih =>
    obtain ⟨rfl, hc⟩ := hc
    refine ⟨rfl, ?_⟩
    rw [hw a List.mem_cons_self]
    exact ih hc fun q hq => hw q (List.mem_cons_of_mem _ hq)

/-- Work outside of the quick-listed blocks leaves their chains alone. -/
lemma Shelves.off (s : Shelves h quick) (hslots : h'.quick = h.quick) (hoff : SameOff S h h')
    (hS : ∀ c, ∀ p ∈ quick c, ∀ x, p ≤ x → x < p + wordSize → ¬ S x) : Shelves h' quick := by
  refine ⟨fun c => hslots ▸ s.len c, fun c => ?_⟩
  rw [hslots]
  exact (s.chain c).congr fun p hp => hoff.word (hS c p hp)

end Chains

section Uses

variable {h h' : Heap} {l : Ledger} {b : Piece} {main : MainLists} {ps : List Piece} {f : Bool}
  {bs : Set Piece}

/-- The first word of a block in use. -/
lemma outside_word {a z : Nat} {x : Nat} (ht : Tiles a ps z) (hb : b ∈ ps) (hbs : b ∈ bs)
    (h1 : b.payload ≤ x) (h2 : x < b.payload + wordSize) : ¬ Outside bs x := by
  have hlen := (ht.bounds hb).2.2.1
  intro hout
  refine hout b hbs ⟨h1, ?_⟩
  unfold Piece.stop minBlock wordSize at *
  omega

/-- The chains are kept by work outside of the quick-listed blocks. -/
lemma Shelves.outside (hs : l.Sound) (s : Shelves h l.quick) (hslots : h'.quick = h.quick)
    (hoff : SameOff (Outside bs) h h') (hbs : ∀ d ∈ l.pieces, d.use = .quick → d ∈ bs) :
    Shelves h' l.quick := by
  refine s.off hslots hoff fun c p hp x h1 h2 => ?_
  obtain ⟨d, hd, rfl, hu, -⟩ := (hs.shelved.mem c p).mp hp
  exact outside_word (hs.tiled hd) hd (hbs d hd hu) h1 h2

/-- **Work on the blocks that keeps out of the quick-listed ones**: what the blocks are then is shown. -/
lemma Shows.renew {l' : Ledger} (hs : l.Sound) (w : Shows h l) (m : Mirrors h' l')
    (ha : l'.arena = l.arena) (hq : l'.quick = l.quick) (hw : Within (Outside bs) h h')
    (hbs : ∀ d ∈ l.pieces, d.use = .quick → d ∈ bs) : Shows h' l' := by
  refine ⟨?_, hw.setting.roomy w.roomy, ?_, fun _ => m, m.rests.ringed, ?_⟩
  · rw [hw.setting.arena, w.arena, ha]
  · rw [hw.setting.ready, w.ready, ha]
  · rw [hq]
    exact w.shelves.outside hs hw.quick hw.off hbs

/-- The same for work on a client's block. -/
lemma Shows.rework {l' : Ledger} (hs : l.Sound) (w : Shows h l) (hb : b ∈ l.live) (m : Mirrors h' l')
    (ha : l'.arena = l.arena) (hq : l'.quick = l.quick) (hw : Within (Outside (l.used \ {b})) h h') :
    Shows h' l' ∧ SameOff (Outside (l.live \ {b})) h h' := by
  refine ⟨w.renew hs m ha hq hw fun d hd hu => ⟨⟨hd, by rw [hu]; decide⟩, ?_⟩,
    hw.off.mono fun x hx => hx.mono ?_⟩
  · exact ne_of_use (by rw [hu, hb.2]; decide)
  · rintro d ⟨⟨hd, hu⟩, hdb⟩
    exact ⟨⟨hd, by rw [hu]; decide⟩, hdb⟩

/-! ### A change of use that no tag tells -/

variable {g : Piece → Piece}

lemma tagged_map (ht : Tagged h f ps)
    (hg : ∀ d ∈ ps, (g d).payload = d.payload ∧ (g d).size = d.size ∧ (g d).isFree = d.isFree) :
    Tagged h f (ps.map g) := by
  induction ps generalizing f with
  | nil => exact ht
  | cons d ps ih =>
    obtain ⟨h1, h2, h3⟩ := ht
    obtain ⟨hp, hz, hf⟩ := hg d List.mem_cons_self
    have htag : (g d).tag f = d.tag f := by rw [Piece.tag, Piece.tag, hz, hf]
    refine ⟨?_, ?_, ?_⟩
    · rw [hp, htag]
      exact h1
    · rw [hp, hz, hf, htag]
      exact h2
    · rw [hf]
      exact ih h3 fun e he => hg e (List.mem_cons_of_mem _ he)

lemma Rests.map (r : Rests h ps main)
    (hg : ∀ d ∈ ps, (g d).payload = d.payload ∧ (g d).size = d.size ∧ (g d).isFree = d.isFree) :
    Rests h (ps.map g) main := by
  refine ⟨r.grounded, rfl, r.tiles_post.map g fun d hd => ⟨(hg d hd).1, (hg d hd).2.1⟩, le_rfl,
    trivial, tagged_map r.tagged_post hg, r.ringed, fun c p hp => ?_⟩
  obtain ⟨d, hd, rfl, hu⟩ := r.listed c p hp
  have hd : d ∈ ps := hd
  obtain ⟨h1, -, h3⟩ := hg d hd
  refine ⟨g d, List.mem_map_of_mem hd, h1, ?_⟩
  have hfree : d.isFree = true := by simpa [Piece.isFree] using hu
  rw [hfree] at h3
  simpa [Piece.isFree] using h3

lemma lastIn_map (hlast : h.LastIn ps) (hg : ∀ d ∈ ps, (g d).payload = d.payload) :
    h.LastIn (ps.map g) := by
  intro d hd
  rw [List.getLast?_map] at hd
  obtain ⟨e, he, rfl⟩ := Option.map_eq_some_iff.mp hd
  rw [hlast e he, hg e (List.mem_of_mem_getLast? he)]

/-- Blocks that change hands, with a change of the quick lists and of bytes that are not reserved. -/
lemma Shows.reuse {S : Nat → Prop} {quick : Fin quickLists → List Nat} (w : Shows h l)
    (s : SameSetting h h') (hheads : h'.heads = h.heads) (hlast : h'.last = h.last)
    (hoff : SameOff S h h') (hS : ∀ x, S x → ¬ Reserved l.pieces x) (hsh : Shelves h' quick)
    (hg : ∀ d ∈ l.pieces, (g d).payload = d.payload ∧ (g d).size = d.size ∧ (g d).isFree = d.isFree)
    (h0 : l.arena.pages ≠ 0) : Shows h' { l with pieces := l.pieces.map g, quick } := by
  obtain ⟨r, hl⟩ := w.mirrors h0
  have hfirst : h'.firstPayload = h.firstPayload := by rw [firstPayload, s.arena]; rfl
  have hring : Ringed h' l.main := w.ringed.off s hoff hheads fun x hx hs =>
    hS x hs (r.links_vacant r.listed hx).reserved
  have hrest : Rests h' l.pieces l.main := by
    unfold Rests
    rw [hfirst]
    refine r.relink s hoff (fun x hx b hb ht => hS x hx ⟨b, hb, reserved_of_tagBytes ht⟩) hring ?_
    exact r.listed
  refine ⟨?_, s.roomy w.roomy, ?_, fun _ => ⟨hrest.map hg, ?_⟩, hring, hsh⟩
  · rw [s.arena, w.arena]
  · rw [s.ready, w.ready]
  · refine lastIn_map (fun d hd => ?_) fun d hd => (hg d hd).1
    rw [hlast, hl d hd]

end Uses

end BoundaryTag
