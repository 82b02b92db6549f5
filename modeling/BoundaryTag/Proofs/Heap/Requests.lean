import BoundaryTag.Proofs.Heap.Carving
import BoundaryTag.Proofs.Heap.Refusing
import BoundaryTag.Proofs.Heap.Searching

/-!
Requests to a heap.

A heap that shows a sound ledger answers every request as the ledger does, and shows afterwards what the
ledger is then. The usable bytes of the blocks that clients keep are the same as before.
-/

namespace BoundaryTag

open Heap HeapM Piece

variable {h : Heap} {l : Ledger} {b : Piece} {size : Nat}

/-! ### Allocating -/

lemma orOutOfMemory_some (a : Nat) :
    (RequestM.orOutOfMemory size (some a)).run h = .ok (.ok a, h) := rfl

lemma orOutOfMemory_none :
    (RequestM.orOutOfMemory size none).run h = .ok (.error (.outOfMemory size), h) := rfl

lemma Shows.allocate (size : Nat) (hs : l.Sound) (w : Shows h l) :
    ∃ h', (RequestM.allocate size).run h = .ok ((l.allocate size).1, h') ∧
      Shows h' (l.allocate size).2 ∧ SameOff (Outside l.live) h h' := by
  unfold RequestM.allocate Ledger.allocate
  by_cases h0 : size = 0
  · rw [if_pos h0, if_pos h0]
    exact ⟨h, rfl, w, .refl h⟩
  rw [if_neg h0, if_neg h0]
  rcases hk : blockSize? size with _ | need
  · exact ⟨h, RequestM.bind_run_error orOutOfMemory_none, w, .refl h⟩
  · obtain ⟨hn, hmod, -⟩ := blockSize?_some hk
    obtain ⟨h', hrun, w', hoff⟩ := w.allocateBlock hn hmod hs
    rw [RequestM.bind_run (orOutOfMemory_some need), RequestM.bind_run (RequestM.lift_run hrun)]
    dsimp only
    rcases ho : l.obtainBlock need with ⟨_ | p, l'⟩ <;> rw [ho] at w'
    · exact ⟨h', RequestM.bind_run_error orOutOfMemory_none, w', hoff⟩
    · exact ⟨h', RequestM.bind_run (orOutOfMemory_some p), w', hoff⟩

/-- A new block is none of those that clients have. -/
lemma subset_sdiff_new {live live' : Set Piece} {p s : Nat} (hl : live' = {⟨p, s, .live⟩} ∪ live)
    (hnew : ∀ d ∈ live, d.payload ≠ p) : live ⊆ live' \ {⟨p, s, .live⟩} := by
  intro d hd
  rw [hl]
  exact ⟨.inr hd, fun he => hnew d hd (congrArg Piece.payload he)⟩

/-- The block that an answer gives to a client, in the ledger after it. -/
lemma Ledger.Settled.block {r : Request} {live : Set Piece} {p : Nat} {l' : Ledger}
    (hset : Ledger.Settled r live (.ok (some p), l')) (hr : r.returns = none) :
    ∃ s, ⟨p, s, .live⟩ ∈ l'.live ∧ r.size + wordSize ≤ s ∧ live ⊆ l'.live \ {⟨p, s, .live⟩} := by
  obtain ⟨-, hnew, k, s, hk, hsnug, hl⟩ := hset
  rw [Ledger.kept_of_none hr] at hnew hl
  obtain ⟨-, -, hle, -⟩ := blockSize?_some hk
  refine ⟨s, by rw [hl]; exact .inl rfl, ?_, subset_sdiff_new hl hnew⟩
  unfold Snug at hsnug
  omega

/-- The bytes that were asked for are zero. -/
lemma Shows.allocateZeroed (size : Nat) (hs : l.Sound) (w : Shows h l) :
    ∃ h', (RequestM.allocateZeroed size).run h = .ok ((l.allocate size).1, h') ∧
      Shows h' (l.allocate size).2 ∧ SameOff (Outside l.live) h h' ∧
      ∀ p, (l.allocate size).1 = .ok (some p) → ∀ i < size, h'.memory.byte (p + i) = 0 := by
  obtain ⟨h1, hrun1, w1, hoff1⟩ := w.allocate size hs
  have hset : Ledger.Settled (.allocate size) l.live (l.allocate size) :=
    Ledger.settled_allocate rfl rfl hs
  unfold RequestM.allocateZeroed
  rcases hans : l.allocate size with ⟨_ | _ | p, l'⟩ <;> rw [hans] at hrun1 w1 hset
  · exact ⟨h1, RequestM.bind_run_error hrun1, w1, hoff1, fun _ he => by cases he⟩
  · exact ⟨h1, RequestM.bind_run hrun1, w1, hoff1, fun _ he => by cases he⟩
  · obtain ⟨s, hin, hle, hsub⟩ := hset.block rfl
    have hbase := (w1.word_bounds hset.1 hin.1).1.base_le
    have hstart := (w1.word_bounds hset.1 hin.1).2.1
    obtain ⟨hreach, w2, hoff2⟩ := w1.setBytes hset.1 hin le_rfl (n := size)
      (by have : size + wordSize ≤ s := hle; simp only [Piece.stop]; omega) fun _ => 0
    have hrun2 : storeBytes p size (fun _ => 0) h1 = .ok ((), _) := if_pos hreach
    refine ⟨_, ?_, w2, hoff1.trans (hoff2.mono fun x hx => hx.mono hsub), fun q he i hi => ?_⟩
    · rw [RequestM.bind_run hrun1]
      exact RequestM.bind_run (RequestM.lift_run hrun2)
    · obtain rfl : p = q := Option.some.inj (Except.ok.inj he)
      have hle : h1.memory.base ≤ p := by
        simp only at hstart
        omega
      exact (Memory.byte_setBytes hle _ _ _).trans (if_pos ⟨Nat.le_add_right _ _, by omega⟩)

/-! ### Allocating at a multiple -/

/-- The target of an aligned request is where the ledger has it, if it lies below the last address. -/
lemma alignedTarget_run {p align : Nat} (hpos : 0 < align) (hlt : p + align + minBlock < addressSpace) :
    RequestM.alignedTarget p align h = .ok (Ledger.alignedFrom p align, h) := by
  unfold RequestM.alignedTarget Ledger.alignedFrom
  have hup : roundDown (p + (align - 1)) align = roundUp p align := rfl
  have h1 := le_roundUp (n := p) hpos
  by_cases hp : p % align = 0
  · rw [if_pos hp, if_pos hp]
    rfl
  rw [if_neg hp, if_neg hp, bind_run (sum_run (by omega)), hup, bind_run (difference_run h1)]
  split
  · exact sum_run (by omega)
  · rfl

/-- An aligned block made of a block that has room for it. -/
lemma Shows.alignBlock {align need : Nat} (hs : l.Sound) (w : Shows h l) (hb : b ∈ l.live)
    (hpow : align.isPowerOfTwo) (halign : minBlock ≤ align) (hn : minBlock ≤ need)
    (hmod : need % alignment = 0) (hroom : need + align + alignment ≤ b.size) :
    ∃ h', (do
        let lead ← HeapM.difference (← RequestM.alignedTarget b.payload align) b.payload
        let aligned ← if lead = 0 then pure b.payload else RequestM.releaseLead b.payload lead
        HeapM.place aligned need
        HeapM.assume (aligned % align = 0)
        return some aligned : RequestM (Option Nat)).run h =
          .ok (.ok (some (Ledger.alignedFrom b.payload align)), h') ∧
      Shows h' ((l.skipTo b.payload (Ledger.alignedFrom b.payload align)).trim
        (Ledger.alignedFrom b.payload align) need) ∧
      SameOff (Outside (l.live \ {b})) h h' := by
  have r := (w.mirrors (hs.pages_ne hb.1)).rests
  have hbs := r.bounds hb.1
  have hlt := r.grounded.bounded
  have hpm : b.payload % alignment = 0 := r.payload_mod hb.1
  have hpos : 0 < align := Nat.lt_of_lt_of_le (by decide) halign
  obtain ⟨hqmod, hq⟩ := alignedFrom_bounds hpos (align_mod hpow halign) hpm
  have htarget := alignedTarget_run (h := h) (p := b.payload) hpos (by
    unfold Piece.stop at hbs
    unfold minBlock alignment at *
    omega)
  generalize Ledger.alignedFrom b.payload align = q at *
  have hle : b.payload ≤ q := by omega
  rw [RequestM.bind_run (RequestM.lift_run htarget),
    RequestM.bind_run (RequestM.lift_run (difference_run hle))]
  rcases hq with rfl | ⟨hq1, hq2, hq3⟩
  · obtain ⟨h1, hrun1, w1, hoff1⟩ := w.place hs hb hn hmod (by omega)
    obtain ⟨-, s, -, hlive⟩ := Ledger.sound_trim hs hb hn hmod (by omega)
    refine ⟨h1, ?_, ?_, hoff1.mono fun x hx => hx.mono (hlive ▸ Set.subset_union_right)⟩
    · rw [Nat.sub_self, if_pos rfl]
      rw [RequestM.bind_run (RequestM.pure_run b.payload), RequestM.bind_run (RequestM.lift_run hrun1),
        RequestM.bind_run (RequestM.lift_run (assume_run (decide_eq_true hqmod)))]
      rfl
    · rw [Ledger.skipTo, if_pos rfl]
      exact w1
  · obtain ⟨h1, h2, hrun1, hrun2, w2, hoff2⟩ := w.carve hs hb hq1 hq3 hn hmod (by
      unfold Piece.stop
      omega)
    refine ⟨h2, ?_, w2, hoff2⟩
    rw [if_neg (by unfold minBlock at hq1; omega)]
    rw [RequestM.bind_run (RequestM.lift_run hrun1), RequestM.bind_run (RequestM.lift_run hrun2),
      RequestM.bind_run (RequestM.lift_run (assume_run (decide_eq_true hqmod)))]
    rfl

lemma Shows.allocateAligned (size align : Nat) (hs : l.Sound) (w : Shows h l) :
    ∃ h', (RequestM.allocateAligned size align).run h = .ok ((l.allocateAligned size align).1, h') ∧
      Shows h' (l.allocateAligned size align).2 ∧ SameOff (Outside l.live) h h' := by
  unfold RequestM.allocateAligned Ledger.allocateAligned
  by_cases halign : ¬ align.isPowerOfTwo ∨ align < minBlock
  · rw [if_pos halign, if_pos halign]
    exact ⟨h, rfl, w, .refl h⟩
  rw [if_neg halign, if_neg halign]
  by_cases h0 : size = 0
  · rw [if_pos h0, if_pos h0]
    exact ⟨h, rfl, w, .refl h⟩
  rw [if_neg h0, if_neg h0]
  rcases hk : blockSize? size with _ | need
  · exact ⟨h, RequestM.bind_run_error orOutOfMemory_none, w, .refl h⟩
  rw [paddedSize?_eq]
  rcases hpad : blockSize? (size + align + minBlock) with _ | padded
  · refine ⟨h, ?_, w, .refl h⟩
    exact (RequestM.bind_run (orOutOfMemory_some need)).trans
      (RequestM.bind_run_error orOutOfMemory_none)
  obtain ⟨hn1, hn2, hn3, hn4, -⟩ := blockSize?_some hk
  obtain ⟨hp1, hp2, hp3, -⟩ := blockSize?_some hpad
  obtain ⟨h1, hrun1, w1, hoff1⟩ := w.allocateBlock hp1 hp2 hs
  have hserved := Ledger.served_obtainBlock hp1 hp2 hs
  rw [RequestM.bind_run (orOutOfMemory_some need), RequestM.bind_run (orOutOfMemory_some padded),
    RequestM.bind_run (RequestM.lift_run hrun1)]
  dsimp only
  rcases ho : l.obtainBlock padded with ⟨_ | p, l'⟩ <;> rw [ho] at w1 hserved
  · exact ⟨h1, RequestM.bind_run_error orOutOfMemory_none, w1, hoff1⟩
  rw [RequestM.bind_run (orOutOfMemory_some p)]
  obtain ⟨hs1, ⟨s, hsnug, hl⟩, hnew⟩ := hserved
  obtain ⟨hpow, hle⟩ := accepted_of_not_refused halign
  have ham := align_mod hpow hle
  obtain ⟨h2, hrun2, w2, hoff2⟩ := w1.alignBlock (b := ⟨p, s, .live⟩) hs1
    (by rw [hl]; exact .inl rfl) hpow hle hn1 hn2 (by
      unfold Snug at hsnug
      unfold minBlock wordSize alignment at *
      simp only
      omega)
  exact ⟨h2, hrun2, w2, hoff1.trans (hoff2.mono fun x hx => hx.mono (subset_sdiff_new hl hnew))⟩

/-! ### Handing back -/

lemma Shows.release (hs : l.Sound) (w : Shows h l) (hb : b ∈ l.live) :
    ∃ h', HeapM.release b.payload h = .ok ((), h') ∧ Shows h' (l.release b.payload) ∧
      SameOff (Outside (l.live \ {b})) h h' := by
  unfold HeapM.release
  rw [bind_run (w.demandValid hs hb)]
  exact w.releaseBlock hs hb

/-- The `n` bytes from `src` on are found again from `dst` on. -/
def Copied (h h' : Heap) (src dst n : Nat) : Prop :=
  ∀ i < n, h'.memory.byte (dst + i) = h.memory.byte (src + i)

/-- The first bytes of a client's block copied to another one. -/
lemma Shows.copyInto {c : Piece} {n : Nat} (hs : l.Sound) (w : Shows h l) (hb : b ∈ l.live)
    (hc : c ∈ l.live) (hnb : n + wordSize ≤ b.size) (hnc : n + wordSize ≤ c.size) :
    ∃ h', HeapM.copyBytes b.payload c.payload n h = .ok ((), h') ∧ Shows h' l ∧
      SameOff (Outside (l.live \ {c})) h h' ∧ Copied h h' b.payload c.payload n := by
  have r := (w.mirrors (hs.pages_ne hb.1)).rests
  have hbs := r.bounds hb.1
  have hcs := r.bounds hc.1
  have hbase := r.grounded.base_le
  obtain ⟨hreach, w', hoff⟩ := w.setBytes hs hc le_rfl (n := n) (by unfold Piece.stop; omega)
    fun i => h.memory.byte (b.payload + i)
  have hsrc : h.reaches b.payload n = true := by
    refine r.grounded.reaches (by omega) ?_
    unfold Piece.stop at hbs
    omega
  refine ⟨{ h with memory := h.memory.copy b.payload c.payload n }, ?_, w', hoff, fun i hi => ?_⟩
  · unfold HeapM.copyBytes
    rw [hsrc, hreach]
    rfl
  · rw [Memory.byte_copy (by omega), if_pos (by omega), Nat.add_sub_cancel_left]

/-- **A client's block moved**: its bytes are copied to a new block, and it is released and refused from
then on. -/
lemma Shows.moveTo {need : Nat} (hs : l.Sound) (w : Shows h l) (hb : b ∈ l.live)
    (hk : blockSize? size = some need) :
    ∃ h', (RequestM.moveTo b.payload b.size need size).run h =
        .ok ((match (l.obtainBlock need).1 with
          | none => .error (.outOfMemory size)
          | some q => .ok q), h') ∧
      Shows h' (match (l.obtainBlock need).1 with
        | none => (l.obtainBlock need).2
        | some _ => (l.obtainBlock need).2.release b.payload) ∧
      SameOff (Outside (match (l.obtainBlock need).1 with
        | none => l.live
        | some _ => l.live \ {b})) h h' ∧
      ∀ q, (l.obtainBlock need).1 = some q →
        Copied h h' b.payload q (min (b.size - wordSize) size) ∧ h'.Refuses b.payload := by
  obtain ⟨hn, hmod, hsize, -⟩ := blockSize?_some hk
  obtain ⟨h1, hrun1, w1, hoff1⟩ := w.allocateBlock hn hmod hs
  have hserved := Ledger.served_obtainBlock hn hmod hs
  have hword : wordSize ≤ b.size :=
    (show wordSize ≤ minBlock by decide).trans ((hs.tiled hb.1).bounds hb.1).2.2.1
  have hothers : SameOff (Outside (l.live \ {b})) h h1 := hoff1.mono fun x hx => hx.mono Set.sdiff_subset
  unfold RequestM.moveTo
  rw [RequestM.bind_run (RequestM.lift_run hrun1)]
  rcases ho : l.obtainBlock need with ⟨_ | q, l'⟩ <;> rw [ho] at w1 hserved
  · exact ⟨h1, RequestM.bind_run_error orOutOfMemory_none, w1, hoff1, fun _ he => by cases he⟩
  obtain ⟨hs1, ⟨s, hsnug, hl⟩, hnew⟩ := hserved
  have hb1 : b ∈ l'.live := by
    rw [hl]
    exact .inr hb
  have hq : (⟨q, s, .live⟩ : Piece) ∈ l'.live := by
    rw [hl]
    exact .inl rfl
  have hsub := subset_sdiff_new hl hnew
  set n := min (b.size - wordSize) size with hndef
  obtain ⟨h2, hrun2, w2, hoff2, hcopy2⟩ := w1.copyInto (n := n) hs1 hb1 hq (by omega)
    (by unfold Snug at hsnug; simp only; omega)
  obtain ⟨h3, hrun3, w3, hoff3⟩ := w2.releaseBlock hs1 hb1
  refine ⟨h3, ?_, w3, hothers.trans ((hoff2.mono fun x hx => hx.mono fun d hd => hsub hd.1).trans
    (hoff3.mono fun x hx => hx.mono fun d hd => ⟨(hsub hd.1).1, hd.2⟩)), ?_⟩
  · rw [RequestM.bind_run (orOutOfMemory_some q), RequestM.bind_run (RequestM.lift_run
      (difference_run hword)), RequestM.bind_run (RequestM.lift_run hrun2)]
    exact RequestM.bind_run (RequestM.lift_run hrun3)
  · intro q' he
    refine ⟨fun i hi => ?_, w2.releaseBlock_refuses hs1 hb1 hrun3⟩
    obtain rfl : q = q' := Option.some.inj he
    -- the new block keeps the copy, and the old one its bytes up to it
    have hkept : h3.memory.byte (q + i) = h2.memory.byte (q + i) := by
      refine hoff3 _ fun hout => hout ⟨q, s, .live⟩ ⟨hq, fun he => (hsub hb).2 he.symm⟩
        ⟨Nat.le_add_right _ _, ?_⟩
      unfold Snug at hsnug
      simp only [Piece.stop]
      omega
    have hbyte1 : h1.memory.byte (b.payload + i) = h.memory.byte (b.payload + i) := by
      refine hoff1 _ fun hout => hout b hb ⟨Nat.le_add_right _ _, ?_⟩
      unfold Piece.stop
      omega
    rw [hkept, hcopy2 i hi, hbyte1]

/-- **A client's block resized**. If it stays where it is, what is left of it has the bytes that it had;
else it is refused from then on, and a block that it is moved to has its bytes. -/
lemma Shows.resize (size : Nat) (hs : l.Sound) (w : Shows h l) (hb : b ∈ l.live) :
    ∃ h', (RequestM.resize b.payload size).run h = .ok ((l.resize b.payload size).1, h') ∧
      Shows h' (l.resize b.payload size).2 ∧
      SameOff (Outside (Ledger.lasting l.live (l.resize b.payload size).2.live)) h h' ∧
      (size = 0 → h'.Refuses b.payload) ∧
      ∀ q, (l.resize b.payload size).1 = .ok (some q) → q ≠ b.payload →
        Copied h h' b.payload q (min (b.size - wordSize) size) ∧ h'.Refuses b.payload := by
  have hset : Ledger.Settled (.resize b.payload size) l.live (l.resize b.payload size) :=
    Ledger.settled_resize hs hb
  have hkept := Ledger.kept_of_some (r := .resize b.payload size) hs hb rfl
  unfold RequestM.resize
  unfold Ledger.resize at hset ⊢
  rw [RequestM.bind_run (RequestM.lift_run (w.demandValid hs hb))]
  by_cases h0 : size = 0
  · obtain ⟨h1, hrun1, w1, hoff1⟩ := w.releaseBlock hs hb
    rw [if_pos h0] at hset
    rw [if_pos h0, if_pos h0]
    refine ⟨h1, RequestM.bind_run (RequestM.lift_run hrun1), w1, hoff1.mono fun x hx => hx.mono ?_,
      fun _ => w.releaseBlock_refuses hs hb hrun1, fun _ he => by cases he⟩
    exact fun d hd => hkept ▸ hset.2 ▸ hd.1
  rw [if_neg h0] at hset
  rw [if_neg h0, if_neg h0]
  rcases hk : blockSize? size with _ | need
  · exact ⟨h, RequestM.bind_run_error orOutOfMemory_none, w, .refl h, fun he => absurd he h0,
      fun _ he => by cases he⟩
  rw [hk] at hset
  obtain ⟨hn, hmod, -⟩ := blockSize?_some hk
  have hread := w.legible hs hb.1
  have htag : HeapM.tagAt b.payload h = .ok (h.header b.payload, h) := reading_run hread.tag
  rw [RequestM.bind_run (orOutOfMemory_some need), RequestM.bind_run (RequestM.lift_run htag),
    hread.size]
  dsimp only at hset ⊢
  rw [hs.sizeAt_eq hb.1] at hset ⊢
  by_cases hgrow : b.size < need
  · obtain ⟨h1, hrun1, w1, hoff1, hcopy⟩ := w.moveTo hs hb hk
    have hserved := Ledger.served_obtainBlock hn hmod hs
    rw [if_neg (Nat.not_le.mpr hgrow)] at hset
    rw [if_pos hgrow, if_neg (Nat.not_le.mpr hgrow)]
    rcases ho : l.obtainBlock need with ⟨_ | q, l'⟩ <;> rw [ho] at hrun1 w1 hoff1 hcopy hserved hset
    · refine ⟨h1, RequestM.bind_run_error hrun1, w1, hoff1.mono fun x hx => hx.mono ?_,
        fun he => absurd he h0, fun _ he => by cases he⟩
      exact fun d hd => hset.2 ▸ hd.1
    · refine ⟨h1, RequestM.bind_run hrun1, w1, hoff1.mono fun x hx => hx.mono ?_,
        fun he => absurd he h0, fun q' he _ => by cases he; exact hcopy q rfl⟩
      exact hkept ▸ hset.lasting_subset hserved.2.2
  have hle := Nat.not_lt.mp hgrow
  rw [if_neg hgrow, if_pos hle]
  by_cases hcut : need < b.size
  · obtain ⟨h1, hrun1, w1, hoff1⟩ := w.place hs hb hn hmod hle
    rw [if_pos hcut]
    refine ⟨h1, RequestM.bind_run (RequestM.lift_run hrun1), w1, hoff1.mono fun x hx => hx.mono ?_,
      fun he => absurd he h0, fun q he hne => ?_⟩
    · exact fun d hd => hd.1
    · cases he
      exact absurd rfl hne
  · have hkeep : l.trim b.payload need = l := Ledger.trim_eq_self hs hb.1 (by
      unfold minBlock
      omega)
    rw [if_neg hcut, hkeep]
    exact ⟨h, rfl, w, .refl h, fun he => absurd he h0, fun q he hne => by
      cases he
      exact absurd rfl hne⟩

/-! ### All requests -/

/-- What clients that have these blocks may ask for. -/
def Request.Permitted (live : Set Piece) : Request → Prop
  | .release p => ∃ b ∈ live, b.payload = p
  | .resize p _ => ∃ b ∈ live, b.payload = p
  | .write addr _ => ∃ b ∈ live, b.usable addr
  | _ => True

/-- The byte that a client stores. -/
def Request.stores (x : Nat) : Request → Prop
  | .write addr _ => x = addr
  | _ => False

/-- **A request served**: the answer is the ledger's, what is shown is the ledger after it, and the blocks
that clients have where they had one have the bytes that they had, but for the byte that a client
stores. -/
lemma Shows.serve_request {r : Request} (hs : l.Sound) (w : Shows h l) (hr : r.Permitted l.live) :
    ∃ h', r.serve h = .ok ((l.answer r).1, h') ∧ Shows h' (l.answer r).2 ∧
      SameOff (fun x => Outside (Ledger.lasting l.live (l.answer r).2.live) x ∨ r.stores x) h h' := by
  cases r with
  | allocate size =>
    obtain ⟨h', hrun, w', hoff⟩ := w.allocate size hs
    have hset := Ledger.settled_allocate (r := .allocate size) rfl rfl hs
    exact ⟨h', hrun, w', hoff.mono fun x hx => .inl (hx.mono (hset.lasting_subset_of_none rfl))⟩
  | allocateZeroed size =>
    obtain ⟨h', hrun, w', hoff, -⟩ := w.allocateZeroed size hs
    have hset := Ledger.settled_allocate (r := .allocateZeroed size) rfl rfl hs
    exact ⟨h', hrun, w', hoff.mono fun x hx => .inl (hx.mono (hset.lasting_subset_of_none rfl))⟩
  | allocateAligned size align =>
    obtain ⟨h', hrun, w', hoff⟩ := w.allocateAligned size align hs
    have hset : Ledger.Settled (.allocateAligned size align) l.live (l.allocateAligned size align) :=
      Ledger.settled_allocateAligned align hs
    exact ⟨h', hrun, w', hoff.mono fun x hx => .inl (hx.mono (hset.lasting_subset_of_none rfl))⟩
  | release p =>
    obtain ⟨b, hb, rfl⟩ := hr
    obtain ⟨h', hrun, w', hoff⟩ := w.release hs hb
    refine ⟨h', (bind_run hrun).trans rfl, w', hoff.mono fun x hx => .inl (hx.mono fun d hd => ?_)⟩
    exact (Ledger.sound_release hs hb).2 ▸ hd.1
  | resize p size =>
    obtain ⟨b, hb, rfl⟩ := hr
    obtain ⟨h', hrun, w', hoff, -⟩ := w.resize size hs hb
    exact ⟨h', hrun, w', hoff.mono fun x => .inl⟩
  | write addr byte =>
    obtain ⟨b, hb, hx⟩ := hr
    have hbase := (w.mirrors (hs.pages_ne hb.1)).rests.grounded.base_le
    have hbs := (w.mirrors (hs.pages_ne hb.1)).rests.bounds hb.1
    have hin : h.memory.base ≤ addr := by
      have := hx.1
      omega
    have hbyte : ∀ x, x ≠ addr → (h.memory.setByte addr byte).byte x = h.memory.byte x := by
      intro x hne
      rw [Memory.byte_setByte hin, if_neg hne]
    have hw := w.writeUsable (m := h.memory.setByte addr byte) hs hb (Memory.base_setByte ..)
      (Memory.extent_setByte ..) fun x hout => hbyte x fun he => hout (he ▸ hx)
    exact ⟨_, rfl, hw.1, fun x hout => hbyte x fun he => hout (.inr he)⟩

end BoundaryTag
