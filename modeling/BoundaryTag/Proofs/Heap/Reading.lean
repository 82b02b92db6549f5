import BoundaryTag.Proofs.Heap.Searching
import BoundaryTag.Proofs.Heap.Surveying

/-!
Reading a heap.

The walk over the blocks and the two kinds of lists are read off the memory of a heap that shows a ledger:
they are the blocks and the sequences of the ledger.
-/

namespace BoundaryTag

open Heap HeapM Piece

namespace Heap

/-- The blocks on a main list from the link `l` on. -/
def mainListFrom (h : Heap) (list : Fin mainLists) : Nat → Link → Except Halt (List Nat)
  | 0, _ => .error .endless
  | fuel + 1, l => do
    if l = .head list then return []
    return l.addr :: (← h.mainListFrom list fuel (← h.nextOf l))

/-- The blocks on a main list, from the front. -/
def mainList (h : Heap) (list : Fin mainLists) : Except Halt (List Nat) := do
  h.mainListFrom list h.patience (← h.nextOf (.head list))

/-- The blocks on a quick list from `cur` on. -/
def quickListFrom (h : Heap) : Nat → Nat → Except Halt (List Nat)
  | 0, _ => .error .endless
  | fuel + 1, cur => do
    if cur = 0 then return []
    return cur :: (← h.quickListFrom fuel (← h.loadAddr cur))

/-- The blocks on a quick list, from the newest on. -/
def quickList (h : Heap) (list : Fin quickLists) : Except Halt (List Nat) :=
  h.quickListFrom h.patience (h.quick.get list).first

end Heap

/-! ### The walk -/

section Walk

variable {h : Heap} {l : Ledger} {b : Piece} {ps : List Piece} {f : Bool} {a fuel : Nat}

lemma walk_payloads : (walk f ps).map BlockInfo.payload = payloads ps := by
  induction ps generalizing f with
  | nil => rfl
  | cons b rest ih => rw [walk, List.map_cons, ih, payloads, payloads, List.map_cons]

lemma walk_sizes : (walk f ps).map BlockInfo.size = ps.map Piece.size := by
  induction ps generalizing f with
  | nil => rfl
  | cons b rest ih => rw [walk, List.map_cons, ih, List.map_cons]

/-- A walk sees of a block its place, its size and whether it is free. -/
lemma walk_map {g : Piece → Piece}
    (hg : ∀ d ∈ ps, (g d).payload = d.payload ∧ (g d).size = d.size ∧ (g d).isFree = d.isFree) :
    walk f (ps.map g) = walk f ps := by
  induction ps generalizing f with
  | nil => rfl
  | cons b rest ih =>
    obtain ⟨hp, hz, hu⟩ := hg b List.mem_cons_self
    rw [List.map_cons, walk, walk, hp, hz, hu, ih fun d hd => hg d (List.mem_cons_of_mem _ hd)]

lemma length_filter_walk : ((walk f ps).filter fun b => !b.allocated).length = (ps.filter isFree).length := by
  induction ps generalizing f with
  | nil => rfl
  | cons b rest ih => cases hb : b.isFree <;> simp [walk, hb, ih]

lemma mem_walk {i : BlockInfo} (hi : i ∈ walk f ps) :
    ∃ b ∈ ps, i.payload = b.payload ∧ i.size = b.size ∧ i.allocated = !b.isFree := by
  induction ps generalizing f with
  | nil => exact absurd hi List.not_mem_nil
  | cons b rest ih =>
    rcases List.mem_cons.mp hi with rfl | hi
    · exact ⟨b, List.mem_cons_self, rfl, rfl, rfl⟩
    · obtain ⟨c, hc, h⟩ := ih hi
      exact ⟨c, List.mem_cons_of_mem _ hc, h⟩

lemma walk_mem (hb : b ∈ ps) :
    ∃ i ∈ walk f ps, i.payload = b.payload ∧ i.size = b.size ∧ i.allocated = !b.isFree := by
  induction ps generalizing f with
  | nil => exact absurd hb List.not_mem_nil
  | cons c rest ih =>
    rcases List.mem_cons.mp hb with rfl | hb
    · exact ⟨_, List.mem_cons_self, rfl, rfl, rfl⟩
    · obtain ⟨i, hi, h⟩ := ih hb
      exact ⟨i, List.mem_cons_of_mem _ hi, h⟩

lemma walk_getLast? (hb : b ∈ ps.getLast?) :
    ∃ i ∈ (walk f ps).getLast?, i.payload = b.payload ∧ i.size = b.size := by
  induction ps generalizing f with
  | nil => cases hb
  | cons c rest ih =>
    cases rest with
    | nil =>
      obtain rfl : c = b := Option.some.inj hb
      exact ⟨_, rfl, rfl, rfl⟩
    | cons d rest =>
      rw [List.getLast?_cons_cons] at hb
      obtain ⟨i, hi, h⟩ := ih (f := !c.isFree) hb
      rw [walk, walk, List.getLast?_cons_cons]
      exact ⟨i, hi, h⟩

/-- What holds of blocks next to each other holds in the walk, where each knows of the one before it. -/
lemma isChain_walk {R : BlockInfo → BlockInfo → Prop} {S : Piece → Piece → Prop} (hs : ps.IsChain S)
    (hR : ∀ b c g, S b c →
      R ⟨b.payload, b.size, !b.isFree, g⟩ ⟨c.payload, c.size, !c.isFree, !b.isFree⟩) :
    (walk f ps).IsChain R := by
  induction ps generalizing f with
  | nil => exact List.isChain_nil
  | cons b rest ih =>
    obtain ⟨hpair, hrest⟩ := List.isChain_cons.mp hs
    refine List.isChain_cons.mpr ⟨fun i hi => ?_, ih hrest⟩
    cases rest with
    | nil => cases hi
    | cons c rest =>
      obtain rfl : _ = i := Option.some.inj hi
      exact hR b c f (hpair c rfl)

/-- The block where a walk is, as its tags in memory show it. -/
lemma seen_eq {rest : List Piece} (g : h.Grounded) (ht : Tiles a (b :: rest) h.arena.stop)
    (htag : Tagged h f (b :: rest)) : h.seen b.payload = ⟨b.payload, b.size, !b.isFree, f⟩ := by
  obtain ⟨-, -, hmod, hrest⟩ := ht
  have hstop := hrest.le
  have hlt := g.bounded
  have h8 : b.size % 8 = 0 := by
    unfold alignment at hmod
    omega
  have hz : b.size < addressSpace := by
    unfold Piece.stop at hstop
    omega
  unfold seen BlockInfo.ofTag
  rw [htag.1, Piece.tag, Tag.size_make h8 hz, Tag.allocated_make h8 hz, Tag.prevAllocated_make h8 hz]

/-- Blocks whose tags are in memory are in order. -/
lemma inOrder_walk {prev : Option BlockInfo} (g : h.Grounded) (ht : Tiles a ps h.arena.stop)
    (htag : Tagged h f ps) (hc : Coalesced ps) (hprev : prev.all (·.allocated) = f)
    (hhead : ∀ b ∈ ps.head?, b.isFree → f = true) : h.InOrder prev a (walk f ps) h.arena.stop := by
  induction ps generalizing f a prev with
  | nil => exact ht
  | cons b rest ih =>
    have hseen := seen_eq g ht htag
    obtain ⟨rfl, hsize, hmod, hrest⟩ := ht
    obtain ⟨hheader, hfooter, htag⟩ := htag
    obtain ⟨hpair, hc⟩ := List.isChain_cons.mp hc
    have hfree (hb : (!b.isFree) = false) : b.isFree = true := by simpa using hb
    refine ⟨hseen.symm, ⟨hsize, hmod, hrest.le, hprev.symm, fun hb => ?_, fun hb i hi => ?_⟩,
      ih hrest htag hc rfl fun c hcm hcf => ?_⟩
    · exact Tag.decode_inj.mp ((hfooter (hfree hb)).trans hheader.symm)
    · rw [hhead b rfl (hfree hb)] at hprev
      obtain rfl : prev = some i := hi
      exact hprev
    · have := hpair c hcm
      unfold Piece.isFree at hcf ⊢
      simp only [decide_eq_true_eq] at hcf
      simpa [hcf] using this

/-- **The blocks of a ledger** are in order in a heap that shows it. -/
lemma Shows.inOrder (hs : l.Sound) (w : Shows h l) (h0 : l.arena.pages ≠ 0) :
    h.InOrder none h.firstPayload (walk true l.pieces) h.arena.stop := by
  obtain ⟨r, -⟩ := w.mirrors h0
  exact inOrder_walk r.grounded r.tiles_post r.tagged_post hs.coalesced rfl fun _ _ _ => rfl

/-- **The walk** over the heap sees the blocks of the ledger. -/
lemma Shows.blocks (hs : l.Sound) (w : Shows h l) : h.blocks = .ok (walk true l.pieces) := by
  by_cases h0 : l.arena.pages = 0
  · rw [hs.empty h0, Heap.blocks, walkStart, if_neg (Bool.eq_false_iff.mp (w.ready_eq_false h0)), patience,
      blocksFrom, if_pos le_rfl]
    rfl
  · obtain ⟨r, -⟩ := w.mirrors h0
    exact (w.inOrder hs h0).blocks r.grounded.situated (w.ready.mpr h0) le_rfl

end Walk

/-! ### The lists -/

section Lists

variable {h : Heap} {l : Ledger} {fuel : Nat}

lemma mainListFrom_eq {c : Fin mainLists} {x : Link} {ps : List Nat}
    (hl : Linked h.nextLink h.prevLink x (ps.map .block) (.head c))
    (hread : ∀ p ∈ ps, h.nextOf (.block p) = .ok (h.nextLink (.block p))) (hfuel : ps.length < fuel) :
    h.mainListFrom c fuel (h.nextLink x) = .ok ps := by
  induction ps generalizing fuel x with
  | nil =>
    obtain ⟨fuel, rfl⟩ := Nat.exists_eq_succ_of_ne_zero (Nat.ne_of_gt hfuel)
    rw [hl.1, Heap.mainListFrom, if_pos rfl]
    rfl
  | cons p ps ih =>
    obtain ⟨fuel, rfl⟩ := Nat.exists_eq_succ_of_ne_zero (Nat.ne_zero_of_lt hfuel)
    obtain ⟨⟨hx, -⟩, hrest⟩ := hl
    have hne : (Link.block p) ≠ .head c := by simp
    rw [hx, Heap.mainListFrom, if_neg hne, bind_eq (hread p List.mem_cons_self), bind_eq (ih hrest
      (fun q hq => hread q (List.mem_cons_of_mem _ hq)) (Nat.lt_of_succ_lt_succ hfuel))]
    rfl

/-- The blocks on a list are as many as are counted. -/
lemma countFrom_eq {c : Fin mainLists} {x : Link} {ps : List Nat}
    (hps : h.mainListFrom c fuel x = .ok ps) : h.countFrom c fuel x = .ok ps.length := by
  induction fuel generalizing x ps with
  | zero => cases hps
  | succ fuel ih =>
    unfold Heap.mainListFrom at hps
    unfold Heap.countFrom
    by_cases hx : x = .head c
    · rw [if_pos hx] at hps ⊢
      cases hps
      rfl
    · rw [if_neg hx] at hps ⊢
      rcases hn : h.nextOf x with e | y
      · rw [hn] at hps
        cases hps
      · rw [hn] at hps
        rcases hr : h.mainListFrom c fuel y with e | qs
        · rw [bind_eq rfl, hr] at hps
          cases hps
        · rw [bind_eq rfl, hr, bind_eq rfl] at hps
          cases hps
          rw [bind_eq rfl, bind_eq (ih hr)]
          rfl

/-- **A main list** is the ledger's. -/
lemma Shows.mainList (hs : l.Sound) (w : Shows h l) (c : Fin mainLists) :
    h.mainList c = .ok (l.main c) := by
  refine mainListFrom_eq (w.ringed.ring c) (fun p hp => ?_) (w.ringed.length_lt w.roomy.situated c)
  obtain ⟨b, hb, rfl, -, -⟩ := (hs.filed.mem c p).mp hp
  exact (w.legible hs hb).next

/-- A list that can be read is counted. -/
lemma freeListLen_eq {c : Fin mainLists} {ps : List Nat} (hps : h.mainList c = .ok ps) :
    h.freeListLen c = .ok ps.length := by
  unfold Heap.freeListLen
  rw [dif_pos c.isLt]
  exact countFrom_eq hps

lemma Shows.freeListLen (hs : l.Sound) (w : Shows h l) (c : Fin mainLists) :
    h.freeListLen c = .ok (l.main c).length :=
  freeListLen_eq (w.mainList hs c)

lemma quickListFrom_eq {a : Nat} {ps : List Nat} (hc : Chain h a ps)
    (hread : ∀ p ∈ ps, p ≠ 0 ∧ h.loadAddr p = .ok (h.memory.word p).toNat) (hfuel : ps.length < fuel) :
    h.quickListFrom fuel a = .ok ps := by
  induction ps generalizing fuel a with
  | nil =>
    obtain ⟨fuel, rfl⟩ := Nat.exists_eq_succ_of_ne_zero (Nat.ne_of_gt hfuel)
    rw [quickListFrom, if_pos (show a = 0 from hc)]
    rfl
  | cons p ps ih =>
    obtain ⟨fuel, rfl⟩ := Nat.exists_eq_succ_of_ne_zero (Nat.ne_zero_of_lt hfuel)
    obtain ⟨rfl, hc⟩ := hc
    obtain ⟨hne, hload⟩ := hread a List.mem_cons_self
    rw [quickListFrom, if_neg hne, bind_eq hload, bind_eq (ih hc
      (fun q hq => hread q (List.mem_cons_of_mem _ hq)) (Nat.lt_of_succ_lt_succ hfuel))]
    rfl

/-- **A quick list** is the ledger's. -/
lemma Shows.quickList (hs : l.Sound) (w : Shows h l) (c : Fin quickLists) :
    h.quickList c = .ok (l.quick c) := by
  have hlen := hs.shelved.length_le c
  refine quickListFrom_eq (w.shelves.chain c) (fun p hp => w.quick_link hs hp) ?_
  unfold patience mainLists quickDepth at *
  omega

lemma Shelves.quickListLen {quick : Fin quickLists → List Nat} (hsh : Shelves h quick) (c : Fin quickLists) :
    h.quickListLen c = (quick c).length := by
  have hslot : h.quick[(c : Nat)]? = some (h.quick.get c) := Vector.getElem?_eq_getElem c.isLt
  rw [Heap.quickListLen, hslot, ← hsh.len c]
  rfl

lemma Shows.quickListLen (w : Shows h l) (c : Fin quickLists) :
    h.quickListLen c = (l.quick c).length :=
  w.shelves.quickListLen c

end Lists

end BoundaryTag
