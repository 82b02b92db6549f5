import BoundaryTag.Heap.Verify
import BoundaryTag.Proofs.Heap.Deciding
import BoundaryTag.Proofs.Heap.Wandering
import Mathlib.Data.List.TakeWhile

/-!
The verifier's walk over any memory.

The walk goes on as long as each block is proper: as it must be by its own header, its footer, and the block
before it. It stops at the first one that is not, and what it reports is an offence of that block. Blocks
that are all proper are in order, and there is only one way in which they can be: it is the climb.
-/

namespace BoundaryTag

namespace Tag

lemma decode_inj {u v key : UInt64} : decode u key = decode v key ↔ u = v := by
  refine ⟨fun e => ?_, fun e => e ▸ rfl⟩
  rw [← encode_decode u key, e, encode_decode]

end Tag

/-- Whether a report is of the walk over the blocks, and not of a list. -/
def Corruption.ofWalk : Corruption → Bool
  | badSize .. | overrun .. | stalePrevAlloc .. | footerMismatch .. | uncoalesced .. | staleLast .. => true
  | misfiled .. | misfiledQuick .. | quickLength .. | lostBlock .. => false

namespace Heap

/-- A block as it must be after `prev`. It has the size of a block and ends in the region, its header says of
the block before what that one is, and if it is free, its footer is the same word as its header, and the
block before is not free. -/
structure Proper (h : Heap) (prev : Option BlockInfo) (b : BlockInfo) : Prop where
  size_ge : minBlock ≤ b.size
  size_mod : b.size % alignment = 0
  stop_le : b.payload + b.size ≤ h.arena.stop
  flag : b.prevAllocated = prev.all (·.allocated)
  footer : b.allocated = false →
    h.memory.word (b.payload + b.size - 2 * wordSize) = h.memory.word (b.payload - wordSize)
  apart : b.allocated = false → ∀ a ∈ prev, a.allocated = true

/-- What a block does against the rules, and the report of it. -/
inductive Offence (h : Heap) (prev : Option BlockInfo) (b : BlockInfo) : Corruption → Prop
  | badSize (bad : b.size < minBlock ∨ b.size % alignment ≠ 0) : Offence h prev b (.badSize b.payload b.size)
  | overrun (past : h.arena.stop < b.payload + b.size) : Offence h prev b (.overrun b.payload)
  | stalePrevAlloc (stale : b.prevAllocated ≠ prev.all (·.allocated)) :
    Offence h prev b (.stalePrevAlloc b.payload)
  | footerMismatch (free : b.allocated = false) (differ :
      h.memory.word (b.payload + b.size - 2 * wordSize) ≠ h.memory.word (b.payload - wordSize)) :
    Offence h prev b (.footerMismatch b.payload)
  | uncoalesced (a : BlockInfo) (before : prev = some a) (frees : a.allocated = false ∧ b.allocated = false) :
    Offence h prev b (.uncoalesced a.payload b.payload)

/-- From `a` to `z`, the blocks that the headers show follow on each other, each of them proper after the one
before. -/
def InOrder (h : Heap) : Option BlockInfo → Nat → List BlockInfo → Nat → Prop
  | _, a, [], z => a = z
  | prev, a, b :: rest, z => b = h.seen a ∧ h.Proper prev b ∧ h.InOrder (some b) (a + b.size) rest z

variable {h : Heap} {prev : Option BlockInfo} {a z : Nat} {b : BlockInfo} {bs pre : List BlockInfo}

lemma Offence.not_proper {c : Corruption} (ho : h.Offence prev b c) : ¬ h.Proper prev b := by
  intro p
  cases ho with
  | badSize bad => exact bad.elim (Nat.not_lt.mpr p.size_ge) (absurd p.size_mod)
  | overrun past => exact absurd p.stop_le (Nat.not_le.mpr past)
  | stalePrevAlloc stale => exact stale p.flag
  | footerMismatch free differ => exact differ (p.footer free)
  | uncoalesced a before frees => exact absurd (p.apart frees.2 a before) (Bool.eq_false_iff.mp frees.1)

/-! ### Blocks in order -/

lemma getLast?_cons_or (b : BlockInfo) (bs : List BlockInfo) (prev : Option BlockInfo) :
    bs.getLast?.or (some b) = (b :: bs).getLast?.or prev := by
  rw [List.getLast?_cons]
  cases bs.getLast? <;> rfl

lemma Proper.size_pos (p : h.Proper prev b) : 0 < b.size := lt_of_lt_of_le (by decide) p.size_ge

/-- Blocks in order stay in the region. -/
lemma InOrder.le_stop (o : h.InOrder prev a bs z) (ha : a ≤ h.arena.stop) : z ≤ h.arena.stop := by
  induction bs generalizing prev a with
  | nil => exact (show a = z from o) ▸ ha
  | cons b rest ih =>
    obtain ⟨rfl, p, hrest⟩ := o
    exact ih hrest p.stop_le

/-- Blocks in order up to the end are the climb, and no size leads past the last address. -/
lemma InOrder.climbFrom_eq (o : h.InOrder prev a bs z) (hz : h.arena.stop ≤ z)
    (hlt : h.arena.stop < addressSpace) :
    h.climbFrom a = bs ∧ ∀ b ∈ bs, b.payload + b.size < addressSpace := by
  induction bs generalizing prev a with
  | nil =>
    have haz : a = z := o
    rw [climbFrom, dif_neg (by omega)]
    exact ⟨rfl, fun b hb => absurd hb List.not_mem_nil⟩
  | cons b rest ih =>
    obtain ⟨rfl, p, hrest⟩ := o
    have hpos := p.size_pos
    have hstop : a + (h.seen a).size ≤ h.arena.stop := p.stop_le
    obtain ⟨hclimb, hup⟩ := ih hrest
    rw [climbFrom, dif_pos (by omega), dif_pos ⟨hpos, by omega⟩, hclimb]
    refine ⟨rfl, fun b hb => ?_⟩
    rcases List.mem_cons.mp hb with rfl | hb
    · exact lt_of_le_of_lt hstop hlt
    · exact hup b hb

/-- There is one way only in which blocks can be in order up to the end. -/
lemma InOrder.unique {prev' : Option BlockInfo} {z' : Nat} {bs' : List BlockInfo} (o : h.InOrder prev a bs z)
    (o' : h.InOrder prev' a bs' z') (hz : h.arena.stop ≤ z) (hz' : h.arena.stop ≤ z')
    (hlt : h.arena.stop < addressSpace) : bs = bs' :=
  (o.climbFrom_eq hz hlt).1.symm.trans (o'.climbFrom_eq hz' hlt).1

/-- The walk over a heap whose blocks are in order sees these blocks. -/
lemma InOrder.blocks (o : h.InOrder none h.firstPayload bs z) (w : h.Situated) (hr : h.ready = true)
    (hz : h.arena.stop ≤ z) : h.blocks = .ok bs := by
  obtain ⟨hclimb, hup⟩ := o.climbFrom_eq hz w.bounded
  have hword : h.arena.start + wordSize ≤ h.firstPayload := start_add_word_le le_rfl
  rw [Heap.blocks, walkStart_eq hr, w.blocksFrom_eq hword (hclimb ▸ hup) (w.length_climb_lt le_rfl), hclimb]

lemma InOrder.possible (o : h.InOrder prev a bs z) : ∀ b ∈ bs, h.possible b = true := by
  induction bs generalizing prev a with
  | nil => exact fun b hb => absurd hb List.not_mem_nil
  | cons b rest ih =>
    obtain ⟨-, p, hrest⟩ := o
    intro c hc
    rcases List.mem_cons.mp hc with rfl | hc
    · refine possible_iff.mpr ⟨?_, p.stop_le⟩
      simp [badSize, Nat.not_lt.mpr p.size_ge, p.size_mod]
    · exact ih hrest c hc

/-- To the careful walk, nothing is lost of blocks in order. -/
theorem InOrder.soundBlocks (o : h.InOrder none h.firstPayload bs z) (w : h.Situated) (hr : h.ready = true)
    (hz : h.arena.stop ≤ z) : h.soundBlocks = .ok bs := by
  have hall := o.possible
  rw [soundBlocks_of_blocks w.bounded (o.blocks w hr hz), List.takeWhile_eq_self_iff.mpr hall,
    List.dropWhile_eq_nil_iff.mpr hall, List.take_nil, List.append_nil]

/-- Where blocks in order can be followed up to the end, the one that comes next is proper. -/
lemma InOrder.proper_next {z' : Nat} (o : h.InOrder prev a bs z') (hz' : h.arena.stop ≤ z')
    (hpre : h.InOrder prev a pre z) (hz : z < h.arena.stop) : h.Proper (pre.getLast?.or prev) (h.seen z) := by
  induction pre generalizing prev a bs with
  | nil =>
    obtain rfl : a = z := hpre
    cases bs with
    | nil => exact absurd (show a = z' from o) (by omega)
    | cons b rest =>
      obtain ⟨rfl, p, -⟩ := o
      exact p
  | cons b pre ih =>
    obtain ⟨rfl, p, hpre⟩ := hpre
    have hstop : a + (h.seen a).size ≤ h.arena.stop := p.stop_le
    have hpos := p.size_pos
    cases bs with
    | nil => exact absurd (show a = z' from o) (by omega)
    | cons b' rest =>
      obtain ⟨rfl, -, hrest⟩ := o
      exact getLast?_cons_or _ pre prev ▸ ih hrest hpre

/-! ### The walk -/

variable {s : Survey}

lemma badSize_iff {size : Nat} : badSize size = true ↔ size < minBlock ∨ size % alignment ≠ 0 := by
  simp [badSize]

lemma foldl_add_free :
    (bs.foldl Survey.add s).free = s.free + (bs.filter fun b => !b.allocated).length := by
  induction bs generalizing s with
  | nil => rfl
  | cons b rest ih =>
    rw [List.foldl_cons, ih, Survey.add]
    rcases hb : b.allocated with _ | _
    · rw [List.filter_cons_of_pos (by rw [hb]; rfl), List.length_cons]
      simp only [Bool.false_eq_true, if_false]
      omega
    · rw [List.filter_cons_of_neg (by rw [hb]; decide)]
      rfl

lemma foldl_add_last : (bs.foldl Survey.add s).last = bs.getLast?.or s.last := by
  induction bs generalizing s with
  | nil => rfl
  | cons b rest ih =>
    rw [List.foldl_cons, ih]
    exact getLast?_cons_or b rest s.last

/-- A block is checked in full. -/
lemma Situated.surveyBlock (w : h.Situated) (h1 : h.firstPayload ≤ a) (h2 : a < h.arena.stop) :
    Decides (h.surveyBlock s (h.seen a)) (fun _ => h.Proper s.last (h.seen a))
      (h.Offence s.last (h.seen a)) := by
  have hword := start_add_word_le h1
  have g := w.grounded (Nat.le_of_add_right_le hword) h2
  unfold Heap.surveyBlock
  refine .demand (fun hbad => .badSize (badSize_iff.mp hbad)) fun hgood => ?_
  rw [badSize_iff, not_or, Nat.not_lt, not_not] at hgood
  obtain ⟨hmin, hmod⟩ := hgood
  refine .demand (fun hover => .overrun (of_decide_eq_true hover)) fun hover => ?_
  have hstop : a + (h.seen a).size ≤ h.arena.stop := Nat.not_lt.mp fun hlt => hover (decide_eq_true hlt)
  refine .demand .stalePrevAlloc fun hflag => ?_
  have hflag := not_not.mp hflag
  by_cases hfree : (h.seen a).allocated = false
  · rw [if_pos (by rw [hfree]; rfl)]
    have hfoot : h.footerBefore (a + (h.seen a).size) = .ok (h.footer a (h.seen a).size) :=
      g.footerBefore_eq (by unfold minBlock at hmin; unfold wordSize; omega) (Nat.le_of_add_right_le hword) hstop
    have htag : h.tagAt a = .ok (h.header a) := g.tagAt_eq hword (Nat.le_of_lt h2)
    refine .read hfoot (.read htag ?_)
    refine .demand (fun hne => .footerMismatch hfree (mt Tag.decode_inj.mpr hne)) fun heq => ?_
    have heq := Tag.decode_inj.mp (not_not.mp heq)
    have hproper (hapart : ∀ b ∈ s.last, b.allocated = true) : h.Proper s.last (h.seen a) :=
      ⟨hmin, hmod, hstop, hflag, fun _ => heq, fun _ => hapart⟩
    rcases hlast : s.last with _ | ⟨p, n, _ | _, f⟩
    · exact .pass (hlast ▸ hproper fun b hb => nomatch hlast.symm.trans hb)
    · exact .refuse (Offence.uncoalesced ⟨p, n, false, f⟩ rfl ⟨rfl, hfree⟩)
    · refine Decides.pass (a := ()) (hlast ▸ hproper fun b hb => ?_)
      obtain rfl := Option.some.inj (hlast.symm.trans hb)
      rfl
  · rw [if_neg (by simpa using hfree)]
    exact .pass ⟨hmin, hmod, hstop, hflag, fun hf => absurd hf hfree, fun hf => absurd hf hfree⟩

/-- **The walk of the verifier** goes on as long as the blocks are proper. -/
lemma Situated.surveyFrom (w : h.Situated) (h1 : h.firstPayload ≤ a) :
    Decides (h.surveyFrom s a)
      (fun s' => ∃ bs z, h.InOrder s.last a bs z ∧ h.arena.stop ≤ z ∧ s' = bs.foldl Survey.add s)
      (fun c => ∃ bs z, h.InOrder s.last a bs z ∧ z < h.arena.stop ∧
        h.Offence (bs.getLast?.or s.last) (h.seen z) c) := by
  induction s, a using surveyFrom.induct h with
  | case1 s a hstop ih =>
    rw [Heap.surveyFrom, dif_pos hstop]
    refine .read (w.blockAt_eq (start_add_word_le h1) hstop) ?_
    refine .bind ((w.surveyBlock h1 hstop).mono (fun _ p => p) fun c ho => ⟨[], a, rfl, hstop, ho⟩) fun _ p => ?_
    rw [dif_pos p.size_pos]
    refine (ih _ p.size_pos (Nat.le_add_right_of_le h1)).mono ?_ ?_
    · rintro s' ⟨bs, z, o, hz, rfl⟩
      exact ⟨h.seen a :: bs, z, ⟨rfl, p, o⟩, hz, rfl⟩
    · rintro c ⟨bs, z, o, hz, ho⟩
      exact ⟨h.seen a :: bs, z, ⟨rfl, p, o⟩, hz, getLast?_cons_or _ bs s.last ▸ ho⟩
  | case2 s a hstop =>
    rw [Heap.surveyFrom, dif_neg hstop]
    exact .pass ⟨[], a, rfl, Nat.not_lt.mp hstop, rfl⟩

/-- The walk over a heap meets what is not as it must be: a block that is not proper, after proper ones, or at
the end a last block that is not the one that is known. -/
inductive Disorder (h : Heap) : Corruption → Prop
  | block {c : Corruption} (bs : List BlockInfo) (z : Nat) (order : h.InOrder none h.firstPayload bs z)
    (before : z < h.arena.stop) (offence : h.Offence bs.getLast? (h.seen z) c) : Disorder h c
  | last (bs : List BlockInfo) (b : BlockInfo) (z : Nat) (order : h.InOrder none h.firstPayload bs z)
    (stop : h.arena.stop ≤ z) (mem : bs.getLast? = some b) (stale : b.payload ≠ h.last) :
    Disorder h (.staleLast h.last b.payload)

/-- The walk over a heap meets proper blocks only, up to the one that is known as the last. -/
structure Order (h : Heap) (bs : List BlockInfo) : Prop where
  order : ∃ z, h.InOrder none h.firstPayload bs z ∧ h.arena.stop ≤ z
  last : ∀ b ∈ bs.getLast?, b.payload = h.last

/-- Where the blocks are in order, the last one is all there can be a disorder about. -/
lemma InOrder.of_disorder {c : Corruption} (o : h.InOrder none h.firstPayload bs z) (hz : h.arena.stop ≤ z)
    (hlt : h.arena.stop < addressSpace) (hd : h.Disorder c) :
    ∃ b ∈ bs.getLast?, b.payload ≠ h.last ∧ c = .staleLast h.last b.payload := by
  cases hd with
  | block pre z' order before offence =>
    have hproper := o.proper_next hz order before
    rw [Option.or_none] at hproper
    exact absurd hproper offence.not_proper
  | last bs' b z' order stop mem stale =>
    obtain rfl := o.unique order hz stop hlt
    exact ⟨b, mem, stale, rfl⟩

lemma Order.not_disorder {c : Corruption} (o : h.Order bs) (hlt : h.arena.stop < addressSpace) :
    ¬ h.Disorder c := by
  obtain ⟨⟨z, order, hz⟩, hlast⟩ := o
  intro hd
  obtain ⟨b, hb, hstale, -⟩ := order.of_disorder hz hlt hd
  exact hstale (hlast b hb)

lemma Situated.survey (w : h.Situated) (hr : h.ready = true) :
    Decides h.survey (fun s => ∃ bs, h.Order bs ∧ s = bs.foldl Survey.add {}) h.Disorder := by
  unfold Heap.survey
  rw [walkStart_eq hr]
  refine .bind ((w.surveyFrom le_rfl).mono (fun _ hs => hs) ?_) ?_
  · rintro c ⟨bs, z, o, hz, ho⟩
    exact .block bs z o hz (by simpa using ho)
  rintro s ⟨bs, z, o, hz, rfl⟩
  have hlast : (bs.foldl Survey.add {}).last = bs.getLast? := foldl_add_last.trans Option.or_none
  rw [hlast]
  rcases hb : bs.getLast? with _ | b
  · exact .pass ⟨bs, ⟨⟨z, o, hz⟩, fun b hb' => by simp [hb] at hb'⟩, rfl⟩
  · refine .demand (fun hstale => .last bs b z o hz hb hstale) fun hgood => ?_
    refine .pass ⟨bs, ⟨⟨z, o, hz⟩, fun b' hb' => ?_⟩, rfl⟩
    obtain rfl := Option.some.inj (hb.symm.trans hb')
    exact not_not.mp hgood

end Heap

end BoundaryTag
