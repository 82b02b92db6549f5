import BoundaryTag.Heap.Placement
import BoundaryTag.Proofs.Heap.Rings
import BoundaryTag.Proofs.Ledger.Tiling

/-!
The blocks in memory.

A heap is laid out in blocks up to an address, has a gap there of which nothing is known, and is laid out
in blocks again from where the gap ends. A heap at rest has no gap. Work on a block opens a gap where the
block was, and closes it with blocks that are written there.
-/

namespace BoundaryTag

open Heap HeapM Piece

namespace Piece

/-- The header of a block, after a block that is allocated or not. -/
def tag (b : Piece) (prevAllocated : Bool) : Tag := .make b.size (!b.isFree) prevAllocated

/-- The bytes of a block: from its header on, up to the next header. -/
def bytes (b : Piece) (x : Nat) : Prop := b.payload ≤ x + wordSize ∧ x + wordSize < b.stop

/-- The bytes that a client may use of its block: all but the header. -/
def usable (b : Piece) (x : Nat) : Prop := b.payload ≤ x ∧ x + wordSize < b.stop

/-- The bytes of a block that no client has: all of a free block, the header of any other. -/
def reserved (b : Piece) (x : Nat) : Prop :=
  b.payload ≤ x + wordSize ∧ (x < b.payload ∨ b.isFree ∧ x + wordSize < b.stop)

/-- The bytes of the tags of a block. -/
def tagBytes (b : Piece) (x : Nat) : Prop :=
  b.payload ≤ x + wordSize ∧
    (x < b.payload ∨ b.isFree ∧ b.stop ≤ x + 2 * wordSize ∧ x + wordSize < b.stop)

lemma reserved_of_tagBytes {b : Piece} {x : Nat} (h : b.tagBytes x) : b.reserved x :=
  ⟨h.1, h.2.imp id fun hf => ⟨hf.1, hf.2.2⟩⟩

/-- The bytes in which the heap keeps account of a block: its tags, and the links of a free one. -/
def booked (b : Piece) (x : Nat) : Prop :=
  b.tagBytes x ∨ b.isFree ∧ b.payload ≤ x ∧ x < b.payload + alignment

lemma reserved_of_booked {b : Piece} {x : Nat} (hsize : minBlock ≤ b.size) (h : b.booked x) :
    b.reserved x := by
  rcases h with h | ⟨hu, h1, h2⟩
  · exact reserved_of_tagBytes h
  · refine ⟨by omega, .inr ⟨hu, ?_⟩⟩
    unfold Piece.stop minBlock alignment wordSize at *
    omega

end Piece

/-- The bytes of the blocks that no client has. -/
def Reserved (ps : List Piece) (x : Nat) : Prop := ∃ b ∈ ps, b.reserved x

/-- The bytes of the free blocks. -/
def Vacant (ps : List Piece) (x : Nat) : Prop := ∃ b ∈ ps, b.isFree ∧ b.bytes x

lemma Vacant.reserved {ps : List Piece} {x : Nat} (h : Vacant ps x) : Reserved ps x := by
  obtain ⟨b, hb, hu, h1, h2⟩ := h
  exact ⟨b, hb, h1, .inr ⟨hu, h2⟩⟩

/-- The bytes in which the heap keeps account of its blocks. -/
def Booked (ps : List Piece) (x : Nat) : Prop := ∃ b ∈ ps, b.booked x

lemma booked_of_tagBytes {ps : List Piece} {b : Piece} {x : Nat} (hb : b ∈ ps) (h : b.tagBytes x) :
    Booked ps x :=
  ⟨b, hb, .inl h⟩

lemma Booked.mono {ps qs : List Piece} {x : Nat} (h : Booked ps x) (hsub : ps ⊆ qs) : Booked qs x := by
  obtain ⟨b, hb, hx⟩ := h
  exact ⟨b, hsub hb, hx⟩

lemma Booked.reserved {ps : List Piece} {x : Nat} (h : Booked ps x) (hsize : ∀ b ∈ ps, minBlock ≤ b.size) :
    Reserved ps x := by
  obtain ⟨b, hb, hx⟩ := h
  exact ⟨b, hb, reserved_of_booked (hsize b hb) hx⟩

/-! ### Tags -/

/-- The tags of consecutive blocks are in memory. The block before the first is allocated or not. -/
def Tagged (h : Heap) (prevAllocated : Bool) : List Piece → Prop
  | [] => True
  | b :: rest =>
    h.header b.payload = b.tag prevAllocated ∧
      (b.isFree → h.footer b.payload b.size = b.tag prevAllocated) ∧ Tagged h (!b.isFree) rest

/-- Whether the last of the blocks is allocated. -/
def flagAfter (prevAllocated : Bool) (ps : List Piece) : Bool :=
  ps.foldl (fun _ b => !b.isFree) prevAllocated

section Tags

variable {h h' : Heap} {f : Bool} {ps qs : List Piece} {b : Piece} {a z : Nat} {S : Nat → Prop}

@[simp] lemma flagAfter_nil : flagAfter f [] = f := rfl

@[simp] lemma flagAfter_cons : flagAfter f (b :: ps) = flagAfter (!b.isFree) ps := rfl

@[simp] lemma flagAfter_append : flagAfter f (ps ++ qs) = flagAfter (flagAfter f ps) qs :=
  List.foldl_append

lemma tagged_append : Tagged h f (ps ++ qs) ↔ Tagged h f ps ∧ Tagged h (flagAfter f ps) qs := by
  induction ps generalizing f with
  | nil => simp [Tagged]
  | cons b ps ih => simp only [List.cons_append, Tagged, ih, flagAfter_cons, and_assoc]

/-- The tags of one block among others. -/
lemma Tagged.mem (ht : Tagged h f ps) (hb : b ∈ ps) :
    ∃ g, h.header b.payload = b.tag g ∧ (b.isFree → h.footer b.payload b.size = b.tag g) := by
  obtain ⟨before, after, rfl⟩ := List.append_of_mem hb
  obtain ⟨-, h1, h2, -⟩ := tagged_append.mp ht
  exact ⟨_, h1, h2⟩

/-- Work off the tags leaves them as they are. -/
lemma Tagged.off (ht : Tagged h f ps) (hps : Tiles a ps z) (ha : wordSize ≤ a)
    (hkey : h'.key = h.key) (hoff : SameOff S h h')
    (hS : ∀ b ∈ ps, ∀ x, b.tagBytes x → ¬ S x) : Tagged h' f ps := by
  induction ps generalizing f a with
  | nil => trivial
  | cons b ps ih =>
    obtain ⟨hh, hf, hr⟩ := ht
    have hbs := hps.bounds List.mem_cons_self
    refine ⟨?_, fun hfree => ?_, ?_⟩
    · rw [hoff.header hkey (by omega) fun x h1 h2 => hS b List.mem_cons_self x ⟨h1, .inl h2⟩]
      exact hh
    · rw [Heap.footer, hkey,
        hoff.word fun x h1 h2 => hS b List.mem_cons_self x ⟨?_, .inr ⟨hfree, ?_, ?_⟩⟩]
      · exact hf hfree
      all_goals
        unfold Piece.stop minBlock wordSize at *
        omega
    · exact ih hr hps.2.2.2 (by unfold Piece.stop; omega) fun c hc => hS c (List.mem_cons_of_mem _ hc)

variable {p : Nat}

lemma header_put_self (g : h.Grounded) (hp : h.arena.start + wordSize ≤ p) (t : Tag) :
    (h.put (p - wordSize) (t.encode h.key)).header p = t := by
  have hb := g.base_le
  show Tag.decode ((h.put (p - wordSize) (t.encode h.key)).memory.word (p - wordSize)) h.key = t
  rw [word_put_self (by omega), Tag.decode_encode]

lemma footer_put_self (g : h.Grounded) {size : Nat} (hsize : 2 * wordSize ≤ size)
    (hp : h.arena.start ≤ p) (t : Tag) :
    (h.put (p + size - 2 * wordSize) (t.encode h.key)).footer p size = t := by
  have hb := g.base_le
  show Tag.decode ((h.put (p + size - 2 * wordSize) (t.encode h.key)).memory.word
    (p + size - 2 * wordSize)) h.key = t
  rw [word_put_self (by omega), Tag.decode_encode]

end Tags

/-! ### Layouts -/

/-- The heap is laid out in the blocks `pre`, up to `m`, and in the blocks `post`, from `n` on. The
header of the first block after the gap says `f` of the block before it. -/
structure Laid (h : Heap) (pre : List Piece) (m n : Nat) (post : List Piece) (f : Bool)
    (main : MainLists) : Prop where
  grounded : h.Grounded
  tiles_pre : Tiles h.firstPayload pre m
  tiles_post : Tiles n post h.arena.stop
  gap : m ≤ n
  tagged_pre : Tagged h true pre
  tagged_post : Tagged h f post
  ringed : Ringed h main
  listed : ∀ c, ∀ p ∈ main c, ∃ b ∈ pre ++ post, b.payload = p ∧ b.use = .free

/-- The tracked last block is the last of these, if there are any. -/
def Heap.LastIn (h : Heap) (ps : List Piece) : Prop := ∀ b ∈ ps.getLast?, h.last = b.payload

namespace Laid

variable {h h' : Heap} {pre mid post ps : List Piece} {m n k : Nat} {f : Bool} {main main' : MainLists}
  {b c : Piece} {S : Nat → Prop}

/-- Blocks on either side of the gap are apart. -/
lemma apart (l : Laid h pre m n post f main) (hb : b ∈ pre ++ post) (hc : c ∈ pre ++ post) :
    b = c ∨ b.stop ≤ c.payload ∨ c.stop ≤ b.payload := by
  have hgap := l.gap
  rcases List.mem_append.mp hb with hb | hb <;> rcases List.mem_append.mp hc with hc | hc
  · exact l.tiles_pre.apart hb hc
  · have h1 := (l.tiles_pre.bounds hb).2.1
    have h2 := (l.tiles_post.bounds hc).1
    omega
  · have h1 := (l.tiles_pre.bounds hc).2.1
    have h2 := (l.tiles_post.bounds hb).1
    omega
  · exact l.tiles_post.apart hb hc

lemma start_le (l : Laid h pre m n post f main) : h.arena.start + alignment ≤ m := by
  have := l.tiles_pre.le
  unfold firstPayload wordSize at this
  unfold alignment
  omega

lemma le_stop (l : Laid h pre m n post f main) : n ≤ h.arena.stop := l.tiles_post.le

lemma payload_mod (l : Laid h pre m n post f main) (hb : b ∈ pre ++ post) :
    b.payload % alignment = 0 := by
  have h1 := l.grounded.aligned
  rcases List.mem_append.mp hb with hb | hb
  · refine l.tiles_pre.payload_mod ?_ hb
    unfold firstPayload wordSize alignment at *
    omega
  · refine l.tiles_post.payload_mod ?_ hb
    have h2 := l.tiles_post.stop_eq
    have h3 := l.tiles_post.total_mod
    unfold Arena.stop pageSize alignment at *
    omega

/-- Where a block lies. -/
lemma bounds (l : Laid h pre m n post f main) (hb : b ∈ pre ++ post) :
    h.arena.start + alignment ≤ b.payload ∧ b.stop ≤ h.arena.stop ∧ minBlock ≤ b.size ∧
      b.size % alignment = 0 := by
  have h1 := l.start_le
  have h2 := l.gap
  have h3 := l.le_stop
  rcases List.mem_append.mp hb with hb | hb
  · obtain ⟨h4, h5, h6, h7⟩ := l.tiles_pre.bounds hb
    unfold firstPayload wordSize at h4
    exact ⟨h4, by omega, h6, h7⟩
  · obtain ⟨h4, h5, h6, h7⟩ := l.tiles_post.bounds hb
    exact ⟨by omega, h5, h6, h7⟩

/-- The tags of a block. -/
lemma tags (l : Laid h pre m n post f main) (hb : b ∈ pre ++ post) :
    ∃ g, h.header b.payload = b.tag g ∧ (b.isFree → h.footer b.payload b.size = b.tag g) := by
  rcases List.mem_append.mp hb with hb | hb
  · exact l.tagged_pre.mem hb
  · exact l.tagged_post.mem hb

/-- A block is larger than its tags and links, and ends below the last address. -/
lemma size_lt (l : Laid h pre m n post f main) (hb : b ∈ pre ++ post) :
    b.size % 8 = 0 ∧ b.size < addressSpace := by
  obtain ⟨h1, h2, -, h4⟩ := l.bounds hb
  have h5 := l.grounded.bounded
  unfold Piece.stop alignment at *
  omega

lemma size_header (l : Laid h pre m n post f main) (hb : b ∈ pre ++ post) :
    (h.header b.payload).size = b.size := by
  obtain ⟨g, hg, -⟩ := l.tags hb
  obtain ⟨h8, hlt⟩ := l.size_lt hb
  rw [hg, Piece.tag, Tag.size_make h8 hlt]

lemma allocated_header (l : Laid h pre m n post f main) (hb : b ∈ pre ++ post) :
    (h.header b.payload).allocated = !b.isFree := by
  obtain ⟨g, hg, -⟩ := l.tags hb
  obtain ⟨h8, hlt⟩ := l.size_lt hb
  rw [hg, Piece.tag, Tag.allocated_make h8 hlt]

lemma tagAt_eq (l : Laid h pre m n post f main) (hb : b ∈ pre ++ post) :
    h.tagAt b.payload = .ok (h.header b.payload) := by
  obtain ⟨h1, h2, -⟩ := l.bounds hb
  refine l.grounded.tagAt_eq ?_ ?_
  · unfold wordSize
    unfold alignment at h1
    omega
  · unfold Piece.stop at h2
    omega

lemma tagAt_run (l : Laid h pre m n post f main) (hb : b ∈ pre ++ post) :
    HeapM.tagAt b.payload h = .ok (h.header b.payload, h) :=
  reading_run (l.tagAt_eq hb)

/-- The footer of a free block is its header. -/
lemma footerBefore_eq (l : Laid h pre m n post f main) (hb : b ∈ pre ++ post) (hu : b.isFree) :
    h.footerBefore b.stop = .ok (h.header b.payload) := by
  obtain ⟨h1, h2, h3, -⟩ := l.bounds hb
  obtain ⟨g, hh, hf⟩ := l.tags hb
  rw [Piece.stop, l.grounded.footerBefore_eq, hf hu, hh]
  · unfold minBlock at h3
    unfold wordSize
    omega
  · omega
  · exact h2

/-- Work off the blocks, by which the links, the heads and the lists may change. -/
lemma relink (l : Laid h pre m n post f main) (s : SameSetting h h') (hoff : SameOff S h h')
    (hS : ∀ x, S x → ∀ b ∈ pre ++ post, ¬ b.tagBytes x) (r : Ringed h' main')
    (hmain : ∀ c, ∀ p ∈ main' c, ∃ b ∈ pre ++ post, b.payload = p ∧ b.use = .free) :
    Laid h' pre m n post f main' := by
  have hfirst : h'.firstPayload = h.firstPayload := by rw [firstPayload, s.arena]; rfl
  have ha := l.start_le
  have hgap := l.gap
  refine ⟨s.grounded l.grounded, hfirst ▸ l.tiles_pre, ?_, l.gap, ?_, ?_, r, hmain⟩
  · rw [s.arena]
    exact l.tiles_post
  · refine l.tagged_pre.off l.tiles_pre ?_ s.key hoff fun b hb x hx hs => ?_
    · unfold firstPayload wordSize
      omega
    · exact hS x hs b (List.mem_append_left _ hb) hx
  · refine l.tagged_post.off l.tiles_post ?_ s.key hoff fun b hb x hx hs => ?_
    · unfold wordSize
      unfold alignment at ha
      omega
    · exact hS x hs b (List.mem_append_right _ hb) hx

/-- The links are off the tags. -/
lemma links_off (l : Laid h pre m n post f main)
    (hmain : ∀ c, ∀ p ∈ main' c, ∃ b ∈ pre ++ post, b.payload = p ∧ b.use = .free) {x : Nat}
    (hx : main'.links x) (hb : b ∈ pre ++ post) : ¬ b.tagBytes x := by
  obtain ⟨c, p, hp, h1, h2⟩ := hx
  obtain ⟨d, hd, rfl, -⟩ := hmain c p hp
  have hds := (l.bounds hd).2.2.1
  rintro ⟨h3, h4⟩
  rcases l.apart hb hd with rfl | h5 | h5
  · unfold Piece.stop minBlock alignment wordSize at *
    omega
  · rcases h4 with h4 | ⟨-, h4, h6⟩ <;> unfold Piece.stop minBlock alignment wordSize at * <;> omega
  · unfold Piece.stop minBlock alignment wordSize at *
    omega

/-- The links are those of free blocks. -/
lemma links_booked (hmain : ∀ c, ∀ p ∈ main' c, ∃ b ∈ ps, b.payload = p ∧ b.use = .free) {x : Nat}
    (hx : main'.links x) : Booked ps x := by
  obtain ⟨c, p, hp, h1, h2⟩ := hx
  obtain ⟨d, hd, rfl, hu⟩ := hmain c p hp
  exact ⟨d, hd, .inr ⟨by simpa [Piece.isFree] using hu, h1, h2⟩⟩

/-- The links are in free blocks. -/
lemma links_vacant (l : Laid h pre m n post f main)
    (hmain : ∀ c, ∀ p ∈ main' c, ∃ b ∈ pre ++ post, b.payload = p ∧ b.use = .free) {x : Nat}
    (hx : main'.links x) : Vacant (pre ++ post) x := by
  obtain ⟨c, p, hp, h1, h2⟩ := hx
  obtain ⟨d, hd, rfl, hu⟩ := hmain c p hp
  have hds := (l.bounds hd).2.2.1
  refine ⟨d, hd, by simpa [Piece.isFree] using hu, ?_, ?_⟩ <;>
  unfold Piece.stop minBlock alignment wordSize at * <;> omega

end Laid

end BoundaryTag
