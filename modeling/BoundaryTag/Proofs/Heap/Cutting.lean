import BoundaryTag.Proofs.Heap.Reading
import BoundaryTag.Proofs.Ledger.Answers

/-!
Blocks that are cut.

What is cut off a client's block, at either end, is freed. So it is one block with the free ones next to it,
and all other blocks stay where they are: the blocks in front of the cut and behind it are the same lists as
before.
-/

namespace BoundaryTag

namespace Piece

/-- The size that a block keeps when it is cut to `need` bytes: a rest too small for a block stays with it. -/
def cutTo (b : Piece) (need : Nat) : Nat := if b.size - need < minBlock then b.size else need

/-- The free blocks in front of `q`, when the block `b` behind the free blocks `left` is cut there. -/
def leadTo (b : Piece) (q : Nat) (left : List Piece) : List Piece :=
  if q = b.payload then left else [merge left ⟨b.payload, q - b.payload, b.use⟩ []]

/-- The free blocks from `q` on, when the block `b` in front of the free blocks `right` is cut there. -/
def tailFrom (b : Piece) (q : Nat) (right : List Piece) : List Piece :=
  if q = b.stop then right else [merge [] ⟨q, b.stop - q, b.use⟩ right]

/-- The bytes of the block from `q` on. -/
def restFrom (b : Piece) (q : Nat) : Piece := ⟨q, b.stop - q, b.use⟩

end Piece

open Piece

variable {b : Piece} {need q : Nat}

lemma cutTo_of_fits (h : minBlock ≤ b.size - need) : b.cutTo need = need := if_neg (Nat.not_lt.mpr h)

lemma cutTo_of_not_fits (h : ¬ minBlock ≤ b.size - need) : b.cutTo need = b.size := if_pos (Nat.not_le.mp h)

/-- What a block keeps is what is needed, or as little more as cannot be a block. -/
lemma snug_cutTo (hle : need ≤ b.size) (hmod : need % alignment = 0) (hsize : b.size % alignment = 0) :
    Snug need (b.cutTo need) := by
  unfold Snug cutTo
  split
  · unfold minBlock alignment at *
    omega
  · exact .inl rfl

namespace Ledger

variable {l : Ledger} {before after : List Piece}

/-- **A block trimmed**: what follows it is what was cut off, merged with the free blocks behind it. -/
lemma pieces_trim (hs : l.Sound) (hb : b ∈ l.live) (hp : l.pieces = before ++ b :: after)
    (hn : minBlock ≤ need) (hmod : need % alignment = 0) :
    (l.trim b.payload need).pieces = before ++ ⟨b.payload, b.cutTo need, .live⟩ ::
      (b.tailFrom (b.payload + b.cutTo need) (after.takeWhile isFree) ++ after.dropWhile isFree) := by
  have hu := hb.2
  unfold trim
  rw [hs.sizeAt_eq hb.1]
  by_cases hrest : minBlock ≤ b.size - need
  · obtain ⟨hs1, -⟩ := sound_split hs hb hn hrest hmod
    have hsplit := split_eq (hs.tiled hb.1) hp need
    have hq : b.payload + need ≠ b.stop := by
      unfold Piece.stop minBlock at *
      omega
    have hlen : b.stop - (b.payload + need) = b.size - need := by
      unfold Piece.stop
      omega
    have hsp : (l.split b.payload need).pieces =
        (before ++ [⟨b.payload, need, .live⟩]) ++ ⟨b.payload + need, b.size - need, .live⟩ :: after := by
      rw [hsplit, hu]
      simp
    have hfree := free_eq (hs1.tiled (b := ⟨b.payload + need, b.size - need, .live⟩) (by simp [hsp])) hsp
    rw [if_pos hrest, cutTo_of_fits hrest, tailFrom, if_neg hq, hlen, hfree, join]
    -- the block in front of the cut is in use
    rw [List.rdropWhile_concat_neg _ _ _ (by simp [isFree]), List.rtakeWhile_concat_neg _ _ _ (by simp [isFree]),
      hu, List.append_assoc]
    rfl
  · rw [if_neg hrest, cutTo_of_not_fits hrest, tailFrom,
      if_pos (show b.payload + b.size = b.stop from rfl), List.takeWhile_append_dropWhile, hp, ← hu]

/-- **A block that begins further on**: what was in front is merged with the free blocks before it. -/
lemma pieces_skipTo (hs : l.Sound) (hb : b ∈ l.live) (hp : l.pieces = before ++ b :: after)
    (hq : q = b.payload ∨ b.payload + minBlock ≤ q ∧ (q - b.payload) % alignment = 0)
    (hrest : minBlock ≤ b.stop - q) :
    (l.skipTo b.payload q).pieces = before.rdropWhile isFree ++
      b.leadTo q (before.rtakeWhile isFree) ++ ⟨q, b.stop - q, .live⟩ :: after := by
  have hu := hb.2
  unfold skipTo leadTo
  by_cases he : q = b.payload
  · have hself : (⟨q, b.stop - q, .live⟩ : Piece) = b := by
      rw [he, Piece.stop, Nat.add_sub_cancel_left, ← hu]
    rw [if_pos he, if_pos he, List.rdropWhile_append_rtakeWhile, hself, hp]
  · obtain ⟨hle, hmod⟩ := hq.resolve_left he
    have hsum : b.payload + (q - b.payload) = q := by omega
    have hlen : b.size - (q - b.payload) = b.stop - q := by
      unfold Piece.stop
      omega
    obtain ⟨hs1, -⟩ := sound_split (n := q - b.payload) hs hb (by omega) (by omega) hmod
    have hsplit := split_eq (hs.tiled hb.1) hp (q - b.payload)
    have hsp : (l.split b.payload (q - b.payload)).pieces =
        before ++ ⟨b.payload, q - b.payload, .live⟩ :: (⟨q, b.stop - q, .live⟩ :: after) := by
      rw [hsplit, hu, hsum, hlen]
      simp
    have hfree := free_eq (hs1.tiled (b := ⟨b.payload, q - b.payload, .live⟩) (by simp [hsp])) hsp
    rw [if_neg he, if_neg he, hfree, join]
    -- the block behind the cut is in use
    rw [List.takeWhile_cons_of_neg (by simp [isFree]), List.dropWhile_cons_of_neg (by simp [isFree]), hu,
      List.append_assoc]
    rfl

/-- **A block cut at both ends.** -/
lemma pieces_carve (hs : l.Sound) (hb : b ∈ l.live) (hp : l.pieces = before ++ b :: after)
    (hq : q = b.payload ∨ b.payload + minBlock ≤ q ∧ (q - b.payload) % alignment = 0)
    (hn : minBlock ≤ need) (hmod : need % alignment = 0) (hroom : need ≤ b.stop - q) :
    ((l.skipTo b.payload q).trim q need).pieces = before.rdropWhile isFree ++
      b.leadTo q (before.rtakeWhile isFree) ++ ⟨q, (b.restFrom q).cutTo need, .live⟩ ::
        ((b.restFrom q).tailFrom (q + (b.restFrom q).cutTo need) (after.takeWhile isFree) ++
          after.dropWhile isFree) := by
  have hrest := hn.trans hroom
  obtain ⟨hs1, hl1⟩ := sound_skipTo hs hb hq hrest
  have hb1 : b.restFrom q ∈ (l.skipTo b.payload q).live := by
    rw [hl1, restFrom, hb.2]
    exact .inl rfl
  have hp1 := pieces_skipTo hs hb hp hq hrest
  rw [← hb.2] at hp1
  exact pieces_trim hs1 hb1 hp1 hn hmod

/-- What remains is with the client. -/
lemma mem_carve (hs : l.Sound) (hb : b ∈ l.live)
    (hq : q = b.payload ∨ b.payload + minBlock ≤ q ∧ (q - b.payload) % alignment = 0)
    (hn : minBlock ≤ need) (hmod : need % alignment = 0) (hroom : need ≤ b.stop - q) :
    ⟨q, (b.restFrom q).cutTo need, .live⟩ ∈ ((l.skipTo b.payload q).trim q need).live ∧
      Snug need ((b.restFrom q).cutTo need) := by
  obtain ⟨before, after, hp⟩ := List.append_of_mem hb.1
  obtain ⟨-, -, -, hsize⟩ := (hs.tiled hb.1).bounds hb.1
  refine ⟨⟨?_, rfl⟩, snug_cutTo (b := b.restFrom q) hroom hmod ?_⟩
  · rw [pieces_carve hs hb hp hq hn hmod hroom]
    simp
  · show (b.stop - q) % alignment = 0
    unfold Piece.stop minBlock alignment at *
    omega

end Ledger

/-- The block `b` of a heap cut to `need` bytes from `q` on, in the heap after: what is cut off at either end
is free, in one block with the free ones next to it. All others are where they were. -/
def CutOut (b : Piece) (q need : Nat) (h h' : Heap) : Prop :=
  ∃ x left right y, Ledger.Around (x ++ left) (right ++ y) x left right y ∧
    h.blocks = .ok (walk true (x ++ left ++ b :: (right ++ y))) ∧
    h'.blocks = .ok (walk true (x ++ b.leadTo q left ++ ⟨q, (b.restFrom q).cutTo need, .live⟩ ::
      ((b.restFrom q).tailFrom (q + (b.restFrom q).cutTo need) right ++ y)))

/-- A heap that shows a ledger before and after such a cut. -/
lemma Shows.cutOut {h h' : Heap} {l : Ledger} (hs : l.Sound) (w : Shows h l) (hb : b ∈ l.live)
    (hq : q = b.payload ∨ b.payload + minBlock ≤ q ∧ (q - b.payload) % alignment = 0)
    (hn : minBlock ≤ need) (hmod : need % alignment = 0) (hroom : need ≤ b.stop - q)
    (hs' : ((l.skipTo b.payload q).trim q need).Sound)
    (w' : Shows h' ((l.skipTo b.payload q).trim q need)) : CutOut b q need h h' := by
  obtain ⟨before, after, hp⟩ := List.append_of_mem hb.1
  have har := Ledger.around before after
  refine ⟨_, _, _, _, ⟨rfl, rfl, har.left_free, har.right_free, har.x_last, har.y_head⟩, ?_, ?_⟩
  · rw [w.blocks hs, hp, ← har.before_eq, ← har.after_eq]
  · rw [w'.blocks hs', Ledger.pieces_carve hs hb hp hq hn hmod hroom]

end BoundaryTag
