import BoundaryTag.Proofs.Heap.Guard

/-!
Walks over any memory.

A walk goes on by the sizes that it finds in the headers, and memory may hold anything there. `climb` is the
walk as far as it goes up: it stays in the region, and as each step takes it up by a word at least, it comes
to an end. The walk over the heap is no other, unless a size leads past the last address. There the sum
wraps around, to an address below.
-/

namespace BoundaryTag

namespace Tag

lemma size_mod (t : Tag) : t.size % wordSize = 0 := Nat.mul_mod_left _ _

lemma size_lt (t : Tag) : t.size < addressSpace :=
  lt_of_le_of_lt (Nat.div_mul_le_self _ _) t.word.toNat_lt

end Tag

namespace Heap

/-- The region is aligned, lies in memory and ends below the last address. It may hold anything. -/
structure Situated (h : Heap) : Prop where
  aligned : h.arena.start % alignment = 0
  bounded : h.arena.stop < addressSpace
  mapped : ∀ x, h.arena.start ≤ x → x < h.arena.stop →
    h.memory.base ≤ x ∧ x < h.memory.base + h.memory.extent

instance (h : Heap) : Decidable h.Grounded :=
  decidable_of_iff (h.arena.start % alignment = 0 ∧ h.arena.stop < addressSpace ∧
    h.memory.base ≤ h.arena.start ∧ h.arena.stop ≤ h.memory.base + h.memory.extent)
    ⟨fun ⟨h1, h2, h3, h4⟩ => ⟨h1, h2, h3, h4⟩, fun g => ⟨g.aligned, g.bounded, g.base_le, g.stop_le⟩⟩

/-- The block at an address, as the word before has it. -/
def seen (h : Heap) (p : Nat) : BlockInfo := .ofTag p (h.header p)

/-- The heap with another header written at an address. -/
def forge (h : Heap) (p : Nat) (t : Tag) : Heap := h.put (p - wordSize) (t.encode h.key)

/-- A heap over one page of zeros. It is ready, but nothing is in it: not even the header of a block. -/
def blank : Heap :=
  { Heap.new { Arena.ofBuffer 4096 4096 0x5bd1e995 with pages := 1 } (.zeroed 4096 4096) with
    key := 0x5bd1e995, ready := true }

/-- The blocks from an address on, as long as their sizes lead up. -/
def climbFrom (h : Heap) (a : Nat) : List BlockInfo :=
  if _ : a < h.arena.stop then
    if _ : 0 < (h.seen a).size ∧ a + (h.seen a).size < addressSpace then
      h.seen a :: h.climbFrom (a + (h.seen a).size)
    else [h.seen a]
  else []
termination_by h.arena.stop - a
decreasing_by omega

/-- The blocks of the heap, up to the first whose size leads nowhere or past the last address. -/
def climb (h : Heap) : List BlockInfo := h.climbFrom h.walkStart

variable {h : Heap} {a fuel : Nat} {b : BlockInfo} {bs : List BlockInfo}

lemma Grounded.situated (g : h.Grounded) : h.Situated := by
  have hbase := g.base_le
  have hstop := g.stop_le
  exact ⟨g.aligned, g.bounded, fun x _ _ => by omega⟩

/-- With an address in it, the region is not empty. -/
lemma Situated.grounded (w : h.Situated) (h1 : h.arena.start ≤ a) (h2 : a < h.arena.stop) : h.Grounded := by
  have hfirst := w.mapped h.arena.start le_rfl (by omega)
  have hlast := w.mapped (h.arena.stop - 1) (by omega) (by omega)
  exact ⟨w.aligned, w.bounded, hfirst.1, by omega⟩

lemma Situated.guarded (w : h.Situated) : h.guarded.Situated := ⟨w.aligned, w.bounded, w.mapped⟩

/-- A heap under guard is watchful wherever its region is. -/
lemma Situated.watchful (w : h.Situated) : h.guarded.Watchful := Heap.watchful rfl w.aligned w.bounded

/-- A header is read in the region. -/
lemma Situated.blockAt_eq (w : h.Situated) (h1 : h.arena.start + wordSize ≤ a) (h2 : a < h.arena.stop) :
    h.blockAt a = .ok (h.seen a) :=
  bind_eq ((w.grounded (Nat.le_of_add_right_le h1) h2).tagAt_eq h1 (Nat.le_of_lt h2))

lemma Situated.stop_mod (w : h.Situated) : h.arena.stop % alignment = 0 := by
  have hmod := w.aligned
  unfold Arena.stop pageSize
  unfold alignment at hmod ⊢
  omega

/-! ### Going up -/

/-- A climb stays in the region, and sees what is in the headers. -/
lemma mem_climbFrom (hb : b ∈ h.climbFrom a) :
    a ≤ b.payload ∧ b.payload < h.arena.stop ∧ b = h.seen b.payload := by
  induction a using climbFrom.induct h with
  | case1 a hstop hup ih =>
    rw [climbFrom, dif_pos hstop, dif_pos hup] at hb
    rcases List.mem_cons.mp hb with rfl | hb
    · exact ⟨le_rfl, hstop, rfl⟩
    · obtain ⟨h1, h2⟩ := ih hb
      exact ⟨by omega, h2⟩
  | case2 a hstop hup =>
    rw [climbFrom, dif_pos hstop, dif_neg hup] at hb
    obtain rfl := List.mem_singleton.mp hb
    exact ⟨le_rfl, hstop, rfl⟩
  | case3 a hstop =>
    rw [climbFrom, dif_neg hstop] at hb
    exact absurd hb List.not_mem_nil

lemma climbFrom_pairwise : (h.climbFrom a).Pairwise fun b c => b.payload < c.payload := by
  induction a using climbFrom.induct h with
  | case1 a hstop hup ih =>
    rw [climbFrom, dif_pos hstop, dif_pos hup]
    refine List.pairwise_cons.mpr ⟨fun c hc => ?_, ih⟩
    have hle := (mem_climbFrom hc).1
    have hpos := hup.1
    show a < c.payload
    omega
  | case2 a hstop hup =>
    rw [climbFrom, dif_pos hstop, dif_neg hup]
    exact List.pairwise_singleton _ _
  | case3 a hstop =>
    rw [climbFrom, dif_neg hstop]
    exact List.Pairwise.nil

/-- Each step of a climb takes it up by a word at least. -/
lemma length_climbFrom : (h.climbFrom a).length * wordSize < h.arena.stop - a + wordSize := by
  induction a using climbFrom.induct h with
  | case1 a hstop hup ih =>
    have hmod : (h.seen a).size % wordSize = 0 := Tag.size_mod _
    have hpos := hup.1
    rw [climbFrom, dif_pos hstop, dif_pos hup, List.length_cons]
    unfold wordSize at *
    omega
  | case2 a hstop hup =>
    rw [climbFrom, dif_pos hstop, dif_neg hup, List.length_singleton]
    omega
  | case3 a hstop =>
    rw [climbFrom, dif_neg hstop, List.length_nil]
    unfold wordSize
    omega

/-- The headers are the same under guard, and so is the climb. -/
lemma climbFrom_guarded : h.guarded.climbFrom a = h.climbFrom a := by
  have hseen : ∀ p, h.guarded.seen p = h.seen p := fun _ => rfl
  have harena : h.guarded.arena = h.arena := rfl
  induction a using climbFrom.induct h with
  | case1 a hstop hup ih =>
    rw [climbFrom, harena, dif_pos hstop, hseen, dif_pos hup, ih, climbFrom.eq_def h a, dif_pos hstop, dif_pos hup]
  | case2 a hstop hup =>
    rw [climbFrom, harena, dif_pos hstop, hseen, dif_neg hup, climbFrom.eq_def h a, dif_pos hstop, dif_neg hup]
  | case3 a hstop => rw [climbFrom, harena, dif_neg hstop, climbFrom.eq_def h a, dif_neg hstop]

/-- There is room for a header before any block. -/
lemma start_add_word_le (h1 : h.firstPayload ≤ a) : h.arena.start + wordSize ≤ a := by
  unfold firstPayload wordSize at h1
  unfold wordSize
  omega

/-- The header of a block in the region is in the region. -/
lemma contains_header (h1 : h.firstPayload ≤ a) (h2 : a < h.arena.stop) :
    h.arena.contains (a - wordSize) wordSize := by
  have hword := start_add_word_le h1
  simp only [Arena.contains, Bool.and_eq_true, decide_eq_true_eq]
  omega

/-! ### The walk -/

lemma walkStart_eq (hr : h.ready = true) : h.walkStart = h.firstPayload := if_pos hr

/-- Where no size leads past the last address, the walk climbs. -/
lemma Situated.blocksFrom_eq (w : h.Situated) (ha : h.arena.start + wordSize ≤ a)
    (hup : ∀ b ∈ h.climbFrom a, b.payload + b.size < addressSpace)
    (hfuel : (h.climbFrom a).length < fuel) : h.blocksFrom fuel a = .ok (h.climbFrom a) := by
  induction a using climbFrom.induct h generalizing fuel with
  | case1 a hstop hlead ih =>
    rw [climbFrom, dif_pos hstop, dif_pos hlead] at hup hfuel ⊢
    obtain ⟨fuel, rfl⟩ := Nat.exists_eq_succ_of_ne_zero (Nat.ne_zero_of_lt hfuel)
    have hnext : h.walkNext (h.seen a) = a + (h.seen a).size :=
      (if_neg (Nat.ne_of_gt hlead.1)).trans (wrapAdd_of_lt hlead.2)
    rw [blocksFrom, if_neg (Nat.not_le.mpr hstop), bind_eq (w.blockAt_eq ha hstop), hnext,
      bind_eq (ih (by omega) (fun b hb => hup b (List.mem_cons_of_mem _ hb)) (Nat.lt_of_succ_lt_succ hfuel))]
    rfl
  | case2 a hstop hlead =>
    rw [climbFrom, dif_pos hstop, dif_neg hlead] at hup hfuel ⊢
    obtain ⟨fuel, rfl⟩ := Nat.exists_eq_succ_of_ne_zero (Nat.ne_zero_of_lt hfuel)
    obtain ⟨fuel, rfl⟩ := Nat.exists_eq_succ_of_ne_zero (Nat.ne_zero_of_lt (Nat.lt_of_succ_lt_succ hfuel))
    have hzero : (h.seen a).size = 0 := by
      have hlt : a + (h.seen a).size < addressSpace := hup _ List.mem_cons_self
      omega
    have hnext : h.walkNext (h.seen a) = h.arena.stop := if_pos hzero
    have hend : h.blocksFrom (fuel + 1) h.arena.stop = .ok [] := if_pos le_rfl
    rw [blocksFrom, if_neg (Nat.not_le.mpr hstop), bind_eq (w.blockAt_eq ha hstop), hnext, bind_eq hend]
    rfl
  | case3 a hstop =>
    rw [climbFrom, dif_neg hstop] at hfuel ⊢
    obtain ⟨fuel, rfl⟩ := Nat.exists_eq_succ_of_ne_zero (Nat.ne_zero_of_lt hfuel)
    exact if_pos (Nat.not_lt.mp hstop)

/-- A walk that takes a step ends with what the next ones see. -/
lemma of_blocksFrom (hstop : a < h.arena.stop) (e : h.blocksFrom fuel a = .ok bs) :
    ∃ b rest fuel', h.blockAt a = .ok b ∧ bs = b :: rest ∧ h.blocksFrom fuel' (h.walkNext b) = .ok rest := by
  cases fuel with
  | zero => cases e
  | succ fuel =>
    rw [blocksFrom, if_neg (Nat.not_le.mpr hstop)] at e
    rcases hb : h.blockAt a with x | b <;> rw [hb] at e
    · cases e
    · rcases hrest : h.blocksFrom fuel (h.walkNext b) with x | rest <;> rw [bind_eq rfl, hrest] at e
      · cases e
      · cases e
        exact ⟨b, rest, fuel, rfl, rfl, hrest⟩

lemma payload_of_blockAt (e : h.blockAt a = .ok b) : b.payload = a := by
  unfold blockAt at e
  rcases ht : h.tagAt a with x | t <;> rw [ht] at e <;> cases e
  rfl

/-- A block with a size that blocks can have, which ends in the heap. -/
def possible (h : Heap) (b : BlockInfo) : Bool := !(badSize b.size || h.overruns b)

lemma possible_iff : h.possible b = true ↔ badSize b.size = false ∧ b.payload + b.size ≤ h.arena.stop := by
  simp [possible, overruns]

lemma soundBlocksFrom_of_blocksFrom (hlt : h.arena.stop < addressSpace) (e : h.blocksFrom fuel a = .ok bs) :
    h.soundBlocksFrom a = .ok (bs.takeWhile h.possible ++ (bs.dropWhile h.possible).take 1) := by
  induction bs generalizing a fuel with
  | nil =>
    have hend : ¬ a < h.arena.stop := fun hstop => by
      obtain ⟨b, rest, -, -, hbs, -⟩ := of_blocksFrom hstop e
      cases hbs
    rw [soundBlocksFrom, dif_neg hend]
    rfl
  | cons b rest ih =>
    have hstop : a < h.arena.stop := by
      by_contra hend
      cases fuel with
      | zero => cases e
      | succ fuel =>
        rw [blocksFrom, if_pos (Nat.not_lt.mp hend)] at e
        cases e
    obtain ⟨c, rest', fuel', hc, hbs, hrest⟩ := of_blocksFrom hstop e
    obtain ⟨rfl, rfl⟩ := List.cons.inj hbs
    rw [soundBlocksFrom, dif_pos hstop, bind_eq hc]
    rcases hpos : h.possible b with _ | _
    · -- the walk stops here, and so does what is taken of it
      rw [List.takeWhile_cons_of_neg (by simp [hpos]), List.dropWhile_cons_of_neg (by simp [hpos])]
      rw [possible, Bool.not_eq_false'] at hpos
      rw [if_pos hpos]
      rfl
    · obtain ⟨hsize, hfits⟩ := possible_iff.mp hpos
      have hne : 0 < b.size := by
        simp only [badSize, Bool.or_eq_false_iff, decide_eq_false_iff_not] at hsize
        exact lt_of_lt_of_le (by decide) (Nat.not_lt.mp hsize.1)
      have hnext : h.walkNext b = a + b.size := by
        rw [walkNext, if_neg (Nat.ne_of_gt hne), wrapAdd_of_lt (lt_of_le_of_lt hfits hlt), payload_of_blockAt hc]
      rw [List.takeWhile_cons_of_pos hpos, List.dropWhile_cons_of_pos hpos]
      rw [possible, Bool.not_eq_true'] at hpos
      rw [if_neg (by simp [hpos]), dif_pos hne, bind_eq (ih (hnext ▸ hrest))]
      rfl

/-- **The careful walk** sees what the walk over the heap sees, up to the first block that cannot be one. -/
theorem soundBlocks_of_blocks (hlt : h.arena.stop < addressSpace) (e : h.blocks = .ok bs) :
    h.soundBlocks = .ok (bs.takeWhile h.possible ++ (bs.dropWhile h.possible).take 1) :=
  soundBlocksFrom_of_blocksFrom hlt e

/-- Where a size leads past the last address, the walk goes down. -/
lemma Situated.not_ascending (w : h.Situated) (ha : h.arena.start + wordSize ≤ a)
    (hwrap : ∃ b ∈ h.climbFrom a, addressSpace ≤ b.payload + b.size) (e : h.blocksFrom fuel a = .ok bs) :
    ¬ bs.Pairwise fun b c => b.payload < c.payload := by
  intro hpair
  obtain ⟨b, hb, hwrap⟩ := hwrap
  induction a using climbFrom.induct h generalizing fuel bs with
  | case1 a hstop hlead ih =>
    rw [climbFrom, dif_pos hstop, dif_pos hlead] at hb
    obtain ⟨c, rest, fuel', hc, rfl, hrest⟩ := of_blocksFrom hstop e
    obtain rfl := Except.ok.inj ((w.blockAt_eq ha hstop).symm.trans hc)
    have hnext : h.walkNext (h.seen a) = a + (h.seen a).size :=
      (if_neg (Nat.ne_of_gt hlead.1)).trans (wrapAdd_of_lt hlead.2)
    rcases List.mem_cons.mp hb with rfl | hb
    · exact absurd hlead.2 (Nat.not_lt.mpr hwrap)
    · exact ih (by omega) (hnext ▸ hrest) (List.pairwise_cons.mp hpair).2 hb
  | case2 a hstop hlead =>
    rw [climbFrom, dif_pos hstop, dif_neg hlead] at hb
    obtain rfl := List.mem_singleton.mp hb
    have hpast : addressSpace ≤ a + (h.seen a).size := hwrap
    have hsize : (h.seen a).size < addressSpace := Tag.size_lt _
    have hend := w.bounded
    have hnext : h.walkNext (h.seen a) = a + (h.seen a).size - addressSpace := by
      rw [walkNext, if_neg (by omega)]
      show (a + (h.seen a).size) % addressSpace = _
      rw [Nat.mod_eq_sub_mod hpast, Nat.mod_eq_of_lt (by omega)]
    obtain ⟨c, rest, fuel', hc, rfl, hrest⟩ := of_blocksFrom hstop e
    obtain rfl := Except.ok.inj ((w.blockAt_eq ha hstop).symm.trans hc)
    rw [hnext] at hrest
    obtain ⟨d, rest', _, hd, rfl, -⟩ := of_blocksFrom (by omega) hrest
    have hlt : a < d.payload := (List.pairwise_cons.mp hpair).1 d List.mem_cons_self
    have hdown := payload_of_blockAt hd
    omega
  | case3 a hstop =>
    rw [climbFrom, dif_neg hstop] at hb
    exact absurd hb List.not_mem_nil

/-- There are fewer blocks on a climb than a walk has steps. -/
lemma Situated.length_climb_lt (w : h.Situated) (ha : h.arena.start + alignment ≤ a) :
    (h.climbFrom a).length < h.patience := by
  have hlen := length_climbFrom (h := h) (a := a)
  unfold patience
  by_cases hstop : a < h.arena.stop
  · have g := w.grounded (Nat.le_of_add_right_le ha) hstop
    have hbase := g.base_le
    have hend := g.stop_le
    unfold wordSize at hlen
    unfold alignment at ha
    omega
  · unfold wordSize at hlen
    omega

end Heap

end BoundaryTag
