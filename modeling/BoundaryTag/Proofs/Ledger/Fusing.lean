import BoundaryTag.Proofs.Ledger.Returning

/-!
Free blocks put together.

To free a block is to mark it free, and to put it together with the free blocks next to it. To put together
what is marked now with what is marked later comes to the same as to mark all and put them together once. So
of many blocks that are freed it does not matter in which order they are.
-/

namespace BoundaryTag

namespace Piece

variable {b c : Piece} {ps qs : List Nat} {bs cs : List Piece}

/-- A block before others, put together with the first of them if both are free. -/
def absorb (b : Piece) : List Piece → List Piece
  | [] => [b]
  | c :: rest => if b.isFree && c.isFree then { b with size := b.size + c.size } :: rest else b :: c :: rest

/-- Every run of free blocks next to each other put together. -/
def fuse (bs : List Piece) : List Piece := bs.foldr absorb []

/-- The blocks at these addresses marked free. -/
def marked (ps : List Nat) (bs : List Piece) : List Piece :=
  bs.map fun b => if b.payload ∈ ps then { b with use := .free } else b

@[simp] lemma fuse_cons : fuse (b :: bs) = absorb b (fuse bs) := rfl

@[simp] lemma marked_cons :
    marked ps (b :: bs) = (if b.payload ∈ ps then { b with use := .free } else b) :: marked ps bs := rfl

@[simp] lemma marked_append : marked ps (bs ++ cs) = marked ps bs ++ marked ps cs := List.map_append

lemma absorb_free (hb : b.isFree) (hc : c.isFree) :
    absorb b (c :: bs) = { b with size := b.size + c.size } :: bs := by
  rw [absorb, hb, hc]
  rfl

lemma absorb_apart (h : ∀ c ∈ bs.head?, ¬ (b.use = .free ∧ c.use = .free)) : absorb b bs = b :: bs := by
  rcases bs with _ | ⟨c, bs⟩
  · rfl
  · have hbc := h c rfl
    rw [absorb, if_neg]
    simpa [isFree] using hbc

/-- Blocks that are put together one after the other may be put together before. -/
lemma absorb_absorb (hb : b.isFree) (hc : c.isFree) :
    absorb { b with size := b.size + c.size } bs = absorb b (absorb c bs) := by
  have hsum : ({ b with size := b.size + c.size } : Piece).isFree := hb
  rcases bs with _ | ⟨d, bs⟩
  · exact (absorb_free hb hc).symm
  · by_cases hd : d.isFree
    · rw [absorb_free hc hd, absorb_free hb (c := { c with size := c.size + d.size }) hc, absorb_free hsum hd,
        Nat.add_assoc]
    · have hapart : ∀ {e : Piece}, ∀ f ∈ (d :: bs).head?, ¬ (e.use = .free ∧ f.use = .free) := by
        rintro e f hf ⟨-, hu⟩
        obtain rfl : d = f := Option.some.inj hf
        exact hd (by simpa [isFree] using hu)
      rw [absorb_apart hapart, absorb_apart hapart, absorb_free hb hc]

/-- Blocks of which no two next to each other are free stay as they are. -/
lemma fuse_of_coalesced (h : Coalesced bs) : fuse bs = bs := by
  induction bs with
  | nil => rfl
  | cons b bs ih =>
    obtain ⟨hb, hbs⟩ := List.isChain_cons.mp h
    rw [fuse_cons, ih hbs, absorb_apart hb]

/-- In front of others they stay as they are, up to the last of them. -/
lemma fuse_append (h : Coalesced bs) (hlast : ∀ b ∈ bs.getLast?, b.use ≠ .free) :
    fuse (bs ++ cs) = bs ++ fuse cs := by
  induction bs with
  | nil => rfl
  | cons b bs ih =>
    obtain ⟨hb, hbs⟩ := List.isChain_cons.mp h
    rcases bs with _ | ⟨c, bs⟩
    · exact absorb_apart fun c _ hbc => hlast b rfl hbc.1
    · have hlast' : ∀ d ∈ (c :: bs).getLast?, d.use ≠ .free := by rwa [List.getLast?_cons_cons] at hlast
      rw [List.cons_append, fuse_cons, ih hbs hlast']
      exact absorb_apart hb

/-- What is marked after the blocks were put together could have been marked before. -/
lemma fuse_marked_fuse (ps : List Nat) (bs : List Piece) : fuse (marked ps (fuse bs)) = fuse (marked ps bs) := by
  induction bs with
  | nil => rfl
  | cons b bs ih =>
    -- a free block stays as it is when it is marked
    have hkeep : ∀ c : Piece, c.isFree → (if c.payload ∈ ps then { c with use := .free } else c) = c := by
      intro c hc
      have hu : c.use = .free := by simpa [isFree] using hc
      rw [← hu, ite_self]
    rw [fuse_cons, marked_cons, fuse_cons, ← ih]
    rcases hfuse : fuse bs with _ | ⟨c, cs⟩
    · rfl
    by_cases hbc : b.isFree ∧ c.isFree
    · obtain ⟨hb, hc⟩ := hbc
      rw [absorb_free hb hc, marked_cons, marked_cons, hkeep b hb, hkeep c hc, fuse_cons, fuse_cons,
        ← absorb_absorb hb hc, hkeep _ (show isFree { b with size := b.size + c.size } from hb)]
    · have hapart : ∀ d ∈ (c :: cs).head?, ¬ (b.use = .free ∧ d.use = .free) := by
        intro d hd
        obtain rfl : c = d := Option.some.inj hd
        simpa [isFree] using hbc
      rw [absorb_apart hapart, marked_cons, fuse_cons]

lemma marked_of_not_mem (h : ∀ b ∈ bs, b.payload ∉ ps) : marked ps bs = bs :=
  (List.map_congr_left fun b hb => if_neg (h b hb)).trans (List.map_id _)

lemma marked_marked : marked ps (marked qs bs) = marked (qs ++ ps) bs := by
  simp only [marked, List.map_map]
  refine List.map_congr_left fun b _ => ?_
  by_cases hq : b.payload ∈ qs <;> by_cases hp : b.payload ∈ ps <;> simp [hq, hp]

/-- It does not matter in which order the blocks are given. -/
lemma marked_perm (h : ps.Perm qs) : marked ps bs = marked qs bs := by
  simp only [marked, h.mem_iff]

end Piece

open Piece

namespace Ledger

variable {l : Ledger} {b : Piece} {ps : List Nat}

/-- A free block put together with those next to it, of which there is one at most on either side. -/
lemma fuse_around {a z : Nat} {x left right y : List Piece} (har : Around (x ++ left) (right ++ y) x left right y)
    (hbefore : Coalesced (x ++ left)) (hafter : Coalesced (right ++ y)) (hb : b.use = .free)
    (ht : Tiles a (x ++ left ++ b :: (right ++ y)) z) :
    fuse (x ++ left ++ b :: (right ++ y)) = x ++ merge left b right :: y := by
  have hisFree : ∀ {d : Piece}, d.use = .free → d.isFree := fun hu => by simpa [isFree] using hu
  obtain ⟨hx, hleft, -⟩ := coalesced_append.mp hbefore
  obtain ⟨hright, -, -⟩ := coalesced_append.mp hafter
  have hll := length_le_one_of_free hleft fun d hd => hisFree (har.left_free d hd)
  have hrl := length_le_one_of_free hright fun d hd => hisFree (har.right_free d hd)
  have hsecond : fuse (b :: (right ++ y)) = ⟨b.payload, b.size + total right, .free⟩ :: y := by
    rw [fuse_cons, fuse_of_coalesced hafter]
    rcases right with _ | ⟨e, _ | ⟨e', right⟩⟩
    · rw [List.nil_append, absorb_apart fun c hc hu => har.y_head c hc hu.2, total_nil, Nat.add_zero, ← hb]
    · rw [List.singleton_append, absorb_free (hisFree hb) (hisFree (har.right_free e List.mem_cons_self)),
        total_cons, total_nil, Nat.add_zero, ← hb]
    · simp at hrl
  rw [List.append_assoc, fuse_append hx har.x_last]
  refine congrArg (x ++ ·) ?_
  rcases left with _ | ⟨d, _ | ⟨d', left⟩⟩
  · rw [List.nil_append, hsecond, merge, total_nil, Nat.sub_zero, Nat.zero_add]
  · obtain ⟨m, h1, rfl, -⟩ := tiles_append.mp ht
    have hstop : d.payload + d.size = b.payload := h1.stop_last (by simp)
    have hd := har.left_free d List.mem_cons_self
    rw [List.singleton_append, fuse_cons, hsecond, absorb_free (hisFree hd) rfl, merge, total_cons, total_nil,
      Nat.add_zero, ← hstop, Nat.add_sub_cancel, ← hd, Nat.add_assoc]
  · simp at hll

/-- **A block freed** is marked free and put together with its neighbours. -/
lemma pieces_free (hs : l.Sound) (hb : b ∈ l.live) :
    (l.free b.payload).pieces = fuse (marked [b.payload] l.pieces) := by
  have ht := hs.tiled hb.1
  have hc := hs.coalesced
  obtain ⟨before, after, hp⟩ := List.append_of_mem hb.1
  obtain ⟨x, left, right, y, har, hj⟩ := join_eq l before b after
  rw [free_eq ht hp, hj]
  obtain ⟨rfl, rfl⟩ : before = x ++ left ∧ after = right ++ y := ⟨har.before_eq, har.after_eq⟩
  rw [hp] at ht hc ⊢
  obtain ⟨hbefore, hrest, -⟩ := coalesced_append.mp hc
  have hmark : marked [b.payload] (x ++ left ++ b :: (right ++ y)) =
      x ++ left ++ { b with use := .free } :: (right ++ y) := by
    rw [marked_append, marked_cons, marked_of_not_mem fun d hd => by simpa using ht.ne_before hd,
      marked_of_not_mem fun d hd => by simpa using ht.ne_after hd, if_pos List.mem_cons_self]
  rw [hmark, fuse_around har hbefore (List.isChain_cons.mp hrest).2 rfl (tiles_remark ht)]
  rfl

/-- **Blocks freed one after the other** are marked free and put together at once. -/
lemma pieces_foldl_free (hs : l.Sound) (hnd : ps.Nodup) (hps : ∀ p ∈ ps, ∃ d ∈ l.live, d.payload = p) :
    (ps.foldl free l).pieces = fuse (marked ps l.pieces) := by
  induction ps generalizing l with
  | nil =>
    have hid : marked [] l.pieces = l.pieces := by simp [marked]
    rw [hid, fuse_of_coalesced hs.coalesced, List.foldl_nil]
  | cons p ps ih =>
    obtain ⟨b, hb, rfl⟩ := hps p List.mem_cons_self
    obtain ⟨hp, hrest⟩ := List.nodup_cons.mp hnd
    have hps1 : ∀ q ∈ ps, ∃ d ∈ (l.free b.payload).live, d.payload = q := fun q hq => by
      obtain ⟨d, hd, rfl⟩ := hps q (List.mem_cons_of_mem _ hq)
      exact ⟨d, live_free_of_ne hs hb hd fun he => hp (he ▸ hq), rfl⟩
    rw [List.foldl_cons, ih (sound_free hs hb).1 hrest hps1, pieces_free hs hb, fuse_marked_fuse, marked_marked]
    rfl

/-- **A quick list flushed**: its blocks are marked free and put together at once. -/
lemma pieces_flush (hs : l.Sound) (c : Fin quickLists) :
    (l.flush c).pieces = fuse (marked (l.quick c) l.pieces) := by
  have hmark : marked (l.quick c) (l.withdraw c).pieces = marked (l.quick c) l.pieces := by
    simp only [marked, withdraw, List.map_map]
    refine List.map_congr_left fun d _ => ?_
    by_cases hin : d.payload ∈ l.quick c <;> simp [hin]
  rw [flush, pieces_foldl_free (sound_withdraw hs c) (hs.shelved.nodup c)
    fun p hp => ⟨_, mem_live_withdraw hs hp, rfl⟩, hmark]

end Ledger

end BoundaryTag
