import BoundaryTag.Proofs.Heap.Layout

/-!
Work on a layout.

Each step of the heap's work on blocks succeeds on a laid out heap: a block is listed or unlisted, a
block is written where the gap begins or ends, or the block after the gap is told of what is before it.
-/

namespace BoundaryTag

open Heap HeapM Piece

/-! ### Tags -/

section Tags

variable {h : Heap} {b : Piece} {t : Tag}

lemma bytes_of_tagBytes (hsize : minBlock ≤ b.size) {x : Nat} (hx : b.tagBytes x) : b.bytes x := by
  refine ⟨hx.1, ?_⟩
  rcases hx.2 with h1 | ⟨-, -, h1⟩
  · unfold Piece.stop minBlock wordSize at *
    omega
  · exact h1

/-- A header written. -/
lemma writeHeader_run (g : h.Grounded) (ha : h.arena.start + wordSize ≤ b.payload)
    (hn : b.payload ≤ h.arena.stop) (t : Tag) :
    ∃ h', setHeader b.payload t h = .ok ((), h') ∧ h'.header b.payload = t ∧
      Within b.tagBytes h h' ∧ h'.heads = h.heads ∧ h'.last = h.last := by
  have hw := within_put (h := h) (a := b.payload - wordSize)
    (by have := g.base_le; omega) (t.encode h.key)
  refine ⟨_, setHeader_run g _ ha hn, header_put_self g ha t, hw.mono ?_, rfl, rfl⟩
  rintro x ⟨h1, h2⟩
  exact ⟨by omega, .inl (by omega)⟩

/-- The footer of a free block written. -/
lemma writeFooter_run (g : h.Grounded) (ha : h.arena.start + wordSize ≤ b.payload)
    (hn : b.stop ≤ h.arena.stop) (hsize : minBlock ≤ b.size) (hu : b.isFree) (ht : t.size = b.size) :
    ∃ h', setFooter b.payload t h = .ok ((), h') ∧ h'.footer b.payload b.size = t ∧
      h'.header b.payload = h.header b.payload ∧ Within b.tagBytes h h' ∧ h'.heads = h.heads ∧
      h'.last = h.last := by
  have hstop : b.payload + b.size = b.stop := rfl
  have htwo : 2 * wordSize ≤ b.size := by
    unfold minBlock wordSize at *
    omega
  have hbase : h.memory.base ≤ b.payload + b.size - 2 * wordSize := by
    have := g.base_le
    omega
  have hw := within_put hbase (t.encode h.key)
  have hrun := setFooter_run (p := b.payload) g (ht ▸ htwo) (by omega) (by omega)
  rw [ht] at hrun
  refine ⟨_, hrun, footer_put_self g htwo (by omega) t, ?_, hw.mono ?_, rfl, rfl⟩
  · refine congrArg (Tag.decode · _) (word_put_of_disjoint hbase _ (.inl ?_))
    omega
  · rintro x ⟨h1, h2⟩
    exact ⟨by omega, .inr ⟨hu, by omega, by omega⟩⟩

end Tags

namespace Laid

variable {h h' : Heap} {pre post x left right y : List Piece} {m n k : Nat} {f g : Bool}
  {main main' : MainLists} {b c : Piece}

/-- Blocks on both sides of the gap given up to it. -/
lemma punch (l : Laid h (x ++ left) m n (right ++ y) f main)
    (hl : ∀ b ∈ left ++ right, ∀ c, b.payload ∉ main c) :
    ∃ i j, Laid h x i j y (flagAfter f right) main ∧ Tiles i left m ∧ Tiles n right j := by
  obtain ⟨i, h1, h2⟩ := tiles_append.mp l.tiles_pre
  obtain ⟨j, h3, h4⟩ := tiles_append.mp l.tiles_post
  have h5 := h2.le
  have h6 := h3.le
  have h7 := l.gap
  refine ⟨i, j, ⟨l.grounded, h1, h4, by omega, (tagged_append.mp l.tagged_pre).1,
    (tagged_append.mp l.tagged_post).2, l.ringed, fun c p hp => ?_⟩, h2, h3⟩
  obtain ⟨d, hd, rfl, hu⟩ := l.listed c p hp
  refine ⟨d, ?_, rfl, hu⟩
  have h8 : d ∉ left := fun hmem => hl d (by simp [hmem]) c hp
  have h9 : d ∉ right := fun hmem => hl d (by simp [hmem]) c hp
  simp only [List.mem_append] at hd ⊢
  tauto

/-! ### Lists -/

/-- A listed block is a free one. -/
lemma removeFree {p : Nat} {c : Fin mainLists} (l : Laid h pre m n post f main) (hp : p ∈ main c) :
    ∃ h', HeapM.removeFree p h = .ok ((), h') ∧ Laid h' pre m n post f (main.without [p]) ∧
      Within main.links h h' ∧ h'.last = h.last := by
  obtain ⟨h', hrun, hr, hw, hlast⟩ := removeFree_run l.grounded l.ringed hp
  refine ⟨h', hrun, l.relink hw.setting hw.off (fun x hx b hb => l.links_off l.listed hx hb) hr ?_,
    hw, hlast⟩
  exact fun c q hq => l.listed c q (MainLists.mem_without.mp hq).1

/-- With a free block put in front of a list, what is listed are free blocks. -/
lemma listed_add (l : Laid h pre m n post f main) (hb : b ∈ pre ++ post) (hu : b.use = .free)
    (c : Fin mainLists) (p : Nat) (hp : p ∈ main.add b c) :
    ∃ d ∈ pre ++ post, d.payload = p ∧ d.use = .free := by
  rcases MainLists.mem_add.mp hp with ⟨rfl, -⟩ | hp
  · exact ⟨b, hb, rfl, hu⟩
  · exact l.listed c p hp

lemma insertFree (l : Laid h pre m n post f main) (hb : b ∈ pre ++ post) (hu : b.use = .free)
    (hnew : ∀ c, b.payload ∉ main c) :
    ∃ h', HeapM.insertFree b.payload h = .ok ((), h') ∧ Laid h' pre m n post f (main.add b) ∧
      Within (main.add b).links h h' ∧ h'.last = h.last := by
  have hbs := l.bounds hb
  have hseat : h.Seat (.block b.payload) := by
    refine ⟨l.payload_mod hb, hbs.1, ?_⟩
    unfold Piece.stop minBlock alignment at *
    omega
  have hlist := l.listed_add hb hu
  obtain ⟨h', hrun, hr, hw, hlast⟩ :=
    insertFree_run l.grounded l.ringed hseat (l.size_header hb) hnew
  exact ⟨h', hrun, l.relink hw.setting hw.off (fun x hx d hd => l.links_off hlist hx hd) hr hlist,
    hw, hlast⟩

/-! ### Blocks -/

/-- Work in the gap. -/
lemma write {S : Nat → Prop} (l : Laid h pre m n post f main) (w : Within S h h')
    (hheads : h'.heads = h.heads) (hS : ∀ x, S x → m ≤ x + wordSize ∧ x + wordSize < n) :
    Laid h' pre m n post f main := by
  have hoff : ∀ x, S x → ∀ b ∈ pre ++ post, ¬(b.payload ≤ x + wordSize ∧ x + wordSize < b.stop) := by
    rintro x hx b hb ⟨h1, h2⟩
    obtain ⟨h3, h4⟩ := hS x hx
    rcases List.mem_append.mp hb with hb | hb
    · have := (l.tiles_pre.bounds hb).2.1
      omega
    · have := (l.tiles_post.bounds hb).1
      omega
  refine l.relink w.setting w.off (fun x hx b hb ht => ?_)
    (l.ringed.off w.setting w.off hheads fun x hx hs => ?_) l.listed
  · have hbs := (l.bounds hb).2.2.1
    refine hoff x hx b hb ⟨ht.1, ?_⟩
    rcases ht.2 with h1 | ⟨-, -, h1⟩
    · unfold Piece.stop minBlock wordSize at *
      omega
    · exact h1
  · obtain ⟨c, p, hp, h1, h2⟩ := hx
    obtain ⟨d, hd, rfl, -⟩ := l.listed c p hp
    have hds := (l.bounds hd).2.2.1
    refine hoff x hs d hd ⟨by omega, ?_⟩
    unfold Piece.stop minBlock alignment wordSize at *
    omega

/-- A block whose tags are written where the gap begins. -/
lemma fill_pre (l : Laid h pre m n post f main) (hp : b.payload = m) (hsize : minBlock ≤ b.size)
    (hmod : b.size % alignment = 0) (hstop : b.stop ≤ n)
    (hh : h.header b.payload = b.tag (flagAfter true pre))
    (hf : b.isFree → h.footer b.payload b.size = b.tag (flagAfter true pre)) :
    Laid h (pre ++ [b]) b.stop n post f main := by
  refine ⟨l.grounded, tiles_append.mpr ⟨m, l.tiles_pre, hp, hsize, hmod, rfl⟩, l.tiles_post, hstop,
    tagged_append.mpr ⟨l.tagged_pre, hh, hf, trivial⟩, l.tagged_post, l.ringed, fun c p hp => ?_⟩
  obtain ⟨d, hd, hdp, hu⟩ := l.listed c p hp
  refine ⟨d, ?_, hdp, hu⟩
  simp only [List.mem_append] at hd ⊢
  tauto

/-- A block whose tags are written where the gap ends. -/
lemma fill_post (l : Laid h pre m n post (!b.isFree) main) (hn : b.stop = n)
    (hsize : minBlock ≤ b.size) (hmod : b.size % alignment = 0) (hm : m ≤ b.payload)
    (hh : h.header b.payload = b.tag g) (hf : b.isFree → h.footer b.payload b.size = b.tag g) :
    Laid h pre m b.payload (b :: post) g main := by
  refine ⟨l.grounded, l.tiles_pre, ⟨rfl, hsize, hmod, hn ▸ l.tiles_post⟩, hm, l.tagged_pre,
    ⟨hh, hf, l.tagged_post⟩, l.ringed, fun c p hp => ?_⟩
  obtain ⟨d, hd, hdp, hu⟩ := l.listed c p hp
  refine ⟨d, ?_, hdp, hu⟩
  simp only [List.mem_append, List.mem_cons] at hd ⊢
  tauto

/-- A header written in the gap. -/
lemma setHeader (l : Laid h pre m n post f main) (hm : m ≤ b.payload) (hn : b.stop ≤ n)
    (hsize : minBlock ≤ b.size) (g : Bool) :
    ∃ h', HeapM.setHeader b.payload (b.tag g) h = .ok ((), h') ∧ Laid h' pre m n post f main ∧
      h'.header b.payload = b.tag g ∧ Within b.tagBytes h h' ∧ h'.last = h.last := by
  have h1 := l.start_le
  have h2 := l.le_stop
  have h3 : b.payload ≤ b.stop := Nat.le_add_right _ _
  have hstart : h.arena.start + wordSize ≤ b.payload := by
    unfold wordSize
    unfold alignment at h1
    omega
  obtain ⟨h', hrun, hh, hw, hheads, hlast⟩ := writeHeader_run l.grounded hstart (by omega) (b.tag g)
  refine ⟨h', hrun, l.write hw hheads fun x hx => ?_, hh, hw, hlast⟩
  obtain ⟨h4, h5⟩ := bytes_of_tagBytes hsize hx
  omega

/-- **A client's block written** where the gap begins. -/
lemma writeUsed (l : Laid h pre m n post f main) (hp : b.payload = m) (hu : b.isFree = false)
    (hsize : minBlock ≤ b.size) (hmod : b.size % alignment = 0) (hn : b.stop ≤ n) :
    ∃ h', HeapM.setHeader b.payload (b.tag (flagAfter true pre)) h = .ok ((), h') ∧
      Laid h' (pre ++ [b]) b.stop n post f main ∧ Within b.tagBytes h h' ∧ h'.last = h.last := by
  obtain ⟨h', hrun, l', hh, hw, hlast⟩ := l.setHeader hp.ge hn hsize (flagAfter true pre)
  exact ⟨h', hrun, l'.fill_pre hp hsize hmod hn hh (by simp [hu]), hw, hlast⟩

/-- **A free block written** where the gap begins. -/
lemma writeFree (l : Laid h pre m n post f main) (hp : b.payload = m) (hu : b.isFree)
    (hsize : minBlock ≤ b.size) (hmod : b.size % alignment = 0) (hn : b.stop ≤ n) :
    ∃ h', HeapM.writeFree b.payload (b.tag (flagAfter true pre)) h = .ok ((), h') ∧
      Laid h' (pre ++ [b]) b.stop n post f main ∧ Within b.tagBytes h h' ∧ h'.last = h.last := by
  obtain ⟨h1, hrun1, l1, hh1, hw1, hlast1⟩ := l.setHeader hp.ge hn hsize (flagAfter true pre)
  have hstart := l1.start_le
  have hstop := l1.le_stop
  have hlt := l1.grounded.bounded
  have h8 : b.size % 8 = 0 := by
    unfold alignment at hmod
    omega
  have hsz : b.size < addressSpace := by
    unfold Piece.stop at hn
    omega
  have hta : (b.tag (flagAfter true pre)).allocated = false :=
    (Tag.allocated_make h8 hsz ..).trans (by simp [hu])
  have ha : h1.arena.start + wordSize ≤ b.payload := by
    unfold wordSize
    unfold alignment at hstart
    omega
  obtain ⟨h2, hrun2, hf2, hh2, hw2, hheads2, hlast2⟩ := writeFooter_run l1.grounded ha (hn.trans hstop)
    hsize hu (Tag.size_make h8 hsz ..)
  have l2 := l1.write hw2 hheads2 fun x hx => by
    obtain ⟨h4, h5⟩ := bytes_of_tagBytes hsize hx
    omega
  refine ⟨h2, ?_, l2.fill_pre hp hsize hmod hn (hh2.trans hh1) fun _ => hf2,
    hw1.trans hw2, hlast2.trans hlast1⟩
  rw [HeapM.writeFree, bind_run (assume_run (by rw [hta]; rfl)), bind_run hrun1]
  exact hrun2

/-! ### Flags -/

/-- New tags of the block after the gap. -/
lemma retag {rest : List Piece} (l : Laid h pre m n (c :: rest) f main)
    (w : Within c.tagBytes h h') (hheads : h'.heads = h.heads)
    (hh : h'.header c.payload = c.tag g) (hf : c.isFree → h'.footer c.payload c.size = c.tag g) :
    Laid h' pre m n (c :: rest) g main := by
  have hfirst : h'.firstPayload = h.firstPayload := by
    rw [firstPayload, w.setting.arena]
    rfl
  have hin : c ∈ pre ++ c :: rest := by simp
  have hbs := l.bounds hin
  have hgap := l.gap
  have hcn := l.tiles_post.1
  obtain ⟨-, -, -, hrest⟩ := l.tiles_post
  refine ⟨w.setting.grounded l.grounded, hfirst ▸ l.tiles_pre, w.setting.arena ▸ l.tiles_post, hgap,
    ?_, ⟨hh, hf, ?_⟩, l.ringed.off w.setting w.off hheads fun x hx => l.links_off l.listed hx hin,
    l.listed⟩
  · refine l.tagged_pre.off l.tiles_pre ?_ w.setting.key w.off fun b hb x hx hc => ?_
    · unfold firstPayload wordSize
      omega
    · have h1 := (l.tiles_pre.bounds hb).2.1
      have h2 := (l.tiles_pre.bounds hb).2.2.1
      have h3 := hc.1
      rcases hx.2 with h4 | ⟨-, -, h4⟩ <;> unfold Piece.stop minBlock wordSize at * <;> omega
  · refine l.tagged_post.2.2.off hrest ?_ w.setting.key w.off fun b hb x hx hc => ?_
    · unfold Piece.stop wordSize
      unfold alignment at hbs
      omega
    · have h1 := (hrest.bounds hb).1
      have h2 := hx.1
      rcases hc.2 with h4 | ⟨-, -, h4⟩ <;> unfold Piece.stop minBlock wordSize at * <;> omega

/-- **The block after the gap is told** whether its predecessor is allocated. -/
lemma setSuccessorFlag {p size : Nat} (l : Laid h pre m m post f main) (hp : p + size = m) (g : Bool) :
    ∃ h', HeapM.setSuccessorFlag p size g h = .ok ((), h') ∧ Laid h' pre m m post g main ∧
      Within (Booked post) h h' ∧ h'.last = h.last := by
  have hlt := l.grounded.bounded
  have hstop := l.le_stop
  have hsum : HeapM.sum p size h = .ok (m, h) := by
    rw [sum_run (by omega), hp]
  unfold HeapM.setSuccessorFlag
  rw [bind_run hsum, bind_run stop_run]
  cases post with
  | nil =>
    have hm : m = h.arena.stop := l.tiles_post
    rw [if_neg (by omega)]
    exact ⟨h, rfl, ⟨l.grounded, l.tiles_pre, l.tiles_post, l.gap, l.tagged_pre, trivial, l.ringed,
      l.listed⟩, .refl h, rfl⟩
  | cons c rest =>
    have hin : c ∈ pre ++ c :: rest := by simp
    have hbs := l.bounds hin
    obtain ⟨h8, hsz⟩ := l.size_lt hin
    obtain ⟨rfl, -⟩ := l.tiles_post
    have hmlt : c.payload < h.arena.stop := by
      unfold Piece.stop minBlock at hbs
      omega
    have htag : (h.header c.payload).withPrevAllocated g = c.tag g := by
      rw [Tag.withPrevAllocated, l.size_header hin, l.allocated_header hin]
      rfl
    have hta : (c.tag g).allocated = !c.isFree := Tag.allocated_make h8 hsz ..
    have ha : h.arena.start + wordSize ≤ c.payload := by
      unfold wordSize
      unfold alignment at hbs
      omega
    have hbooked : ∀ x, c.tagBytes x → Booked (c :: rest) x := fun x => booked_of_tagBytes List.mem_cons_self
    obtain ⟨h1, hrun1, hh1, hw1, hheads1, hlast1⟩ := writeHeader_run l.grounded ha hmlt.le (c.tag g)
    rw [if_pos hmlt, bind_run (l.tagAt_run hin), htag, bind_run hrun1, hta, Bool.not_not]
    by_cases hfree : c.isFree = true
    · -- the footer follows the header
      rw [if_pos hfree]
      have harena : h1.arena = h.arena := hw1.setting.arena
      obtain ⟨h2, hrun2, hf2, hh2, hw2, hheads2, hlast2⟩ := writeFooter_run
        (hw1.setting.grounded l.grounded) (harena ▸ ha) (harena ▸ hbs.2.1) hbs.2.2.1 hfree
        (Tag.size_make h8 hsz _ g)
      exact ⟨h2, hrun2, l.retag (hw1.trans hw2) (hheads2.trans hheads1) (hh2.trans hh1) fun _ => hf2,
        (hw1.trans hw2).mono hbooked, hlast2.trans hlast1⟩
    · rw [if_neg hfree]
      exact ⟨h1, rfl, l.retag hw1 hheads1 hh1 fun h => absurd h hfree, hw1.mono hbooked, hlast1⟩

/-- **The last block is kept track of.** -/
lemma noteLast {p size : Nat} (l : Laid h pre m m post f main) (hp : p + size = m) :
    ∃ h', HeapM.noteLast p size h = .ok ((), h') ∧ Laid h' pre m m post f main ∧
      Within (fun _ => False) h h' ∧ h'.last = if post = [] then p else h.last := by
  have hlt := l.grounded.bounded
  have hstop := l.le_stop
  have hsum : HeapM.sum p size h = .ok (m, h) := by
    rw [sum_run (by omega), hp]
  unfold HeapM.noteLast
  rw [bind_run hsum, bind_run stop_run]
  cases post with
  | nil =>
    have hm : m = h.arena.stop := l.tiles_post
    rw [if_pos hm, if_pos rfl]
    have hw : Within (fun _ => False) h { h with last := p } :=
      ⟨⟨rfl, rfl, rfl, rfl, rfl, rfl⟩, rfl, fun _ _ => rfl⟩
    exact ⟨_, rfl, l.write hw rfl fun x hx => hx.elim, hw, rfl⟩
  | cons c rest =>
    have hbs := l.bounds (b := c) (by simp)
    obtain ⟨hcm, -⟩ := l.tiles_post
    have hne : m ≠ h.arena.stop := by
      unfold Piece.stop minBlock at hbs
      omega
    rw [if_neg hne, if_neg (List.cons_ne_nil _ _)]
    exact ⟨h, rfl, l, .refl h, rfl⟩

end Laid

end BoundaryTag
