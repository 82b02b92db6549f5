import BoundaryTag.Proofs.Ledger.Returning
import BoundaryTag.Proofs.Ledger.Serving

/-!
Requests to a sound ledger.

Whatever clients ask for, the ledger stays sound. A request that is granted takes the block that it
hands back from the clients and gives them the block in the answer, which is snug; one that fails
changes nothing for them.
-/

namespace BoundaryTag

open Piece Ledger

/-! ### Sizes -/

section Sizes

variable {n k : Nat}

lemma blockSize?_some (h : blockSize? n = some k) :
    minBlock ≤ k ∧ k % alignment = 0 ∧ n + wordSize ≤ k ∧ k ≤ max minBlock (n + wordSize + 15) ∧
      k < addressSpace := by
  unfold blockSize? at h
  split at h
  · next hlt =>
    cases h
    have hpos : 0 < alignment := by decide
    have h1 := le_roundUp (n := n + wordSize) hpos
    have h2 := roundUp_lt (n := n + wordSize) hpos
    have h3 := roundUp_mod (n + wordSize) alignment
    unfold minBlock alignment addressSpace at *
    omega
  · cases h

/-- The sum that a block for aligned use is found for is in range wherever there is such a block. -/
lemma paddedSize?_eq {align : Nat} :
    RequestM.paddedSize? n align = blockSize? (n + align + minBlock) := by
  unfold RequestM.paddedSize?
  split
  · rfl
  · next hge => exact (if_neg fun hlt => hge (by omega)).symm

variable {p align : Nat}

/-- Where an aligned block begins: at the block, or with room for a block before it. -/
lemma alignedFrom_bounds (ha : 0 < align) (ham : align % alignment = 0) (hp : p % alignment = 0) :
    alignedFrom p align % align = 0 ∧ (alignedFrom p align = p ∨
      p + minBlock ≤ alignedFrom p align ∧ alignedFrom p align ≤ p + align + alignment ∧
        (alignedFrom p align - p) % alignment = 0) := by
  have h1 := le_roundUp (n := p) ha
  have h2 := roundUp_lt (n := p) ha
  have h3 := roundUp_mod p align
  have h4 : roundUp p align % alignment = 0 :=
    Nat.mod_eq_zero_of_dvd
      (Nat.dvd_trans (Nat.dvd_of_mod_eq_zero ham) (Nat.dvd_of_mod_eq_zero h3))
  unfold alignedFrom
  split
  · next hpa => exact ⟨hpa, .inl rfl⟩
  · next hpa =>
    have h5 : roundUp p align ≠ p := fun he => hpa (he ▸ h3)
    split
    · refine ⟨by rw [Nat.add_mod_right, h3], .inr ?_⟩
      unfold minBlock alignment at *
      omega
    · refine ⟨h3, .inr ?_⟩
      unfold minBlock alignment at *
      omega

/-- The alignments that are accepted. -/
lemma accepted_of_not_refused (h : ¬ (¬ align.isPowerOfTwo ∨ align < minBlock)) :
    align.isPowerOfTwo ∧ minBlock ≤ align := by
  rwa [not_or, not_not, Nat.not_lt] at h

/-- An alignment that is accepted is a multiple of the heap's own. -/
lemma align_mod (h2 : align.isPowerOfTwo) (hle : minBlock ≤ align) : align % alignment = 0 := by
  obtain ⟨k, rfl⟩ := h2
  have h4 : 4 ≤ k := by
    by_contra hk
    have := Nat.pow_le_pow_right (n := 2) (by decide) (show k ≤ 3 by omega)
    unfold minBlock at hle
    omega
  obtain ⟨j, rfl⟩ := Nat.exists_eq_add_of_le h4
  rw [Nat.pow_add]
  exact Nat.mul_mod_right _ _

/-- Small alignments divide the heap's own. -/
lemma mod_of_isPowerOfTwo (h2 : align.isPowerOfTwo) (hle : align ≤ alignment) (hp : p % alignment = 0) :
    p % align = 0 := by
  obtain ⟨k, rfl⟩ := h2
  have h4 : k ≤ 4 := (Nat.pow_le_pow_iff_right (by decide)).mp (show 2 ^ k ≤ 2 ^ 4 from hle)
  exact Nat.mod_eq_zero_of_dvd (Nat.dvd_trans (Nat.pow_dvd_pow 2 h4) (Nat.dvd_of_mod_eq_zero hp))

/-- Great ones are no smaller than a block. -/
lemma minBlock_le_of_isPowerOfTwo (h2 : align.isPowerOfTwo) (hlt : ¬ align ≤ alignment) :
    minBlock ≤ align := by
  obtain ⟨k, rfl⟩ := h2
  have h5 : 5 ≤ k := by
    by_contra hk
    exact hlt (Nat.pow_le_pow_right (n := 2) (by decide) (show k ≤ 4 by omega))
  exact Nat.pow_le_pow_right (n := 2) (by decide) h5

end Sizes

/-- A request is refused for its alignment. -/
def Request.Misaligned : Request → Prop
  | allocateAligned _ align => ¬ align.isPowerOfTwo ∨ align < minBlock
  | _ => False

lemma Request.Misaligned.returns {r : Request} (h : r.Misaligned) : r.returns = none := by
  cases r with
  | allocateAligned => rfl
  | _ => cases h

namespace Ledger

variable {l : Ledger}

/-! ### The parts of a request -/

/-- What a request leaves with the clients, besides what it gives them. -/
def kept (r : Request) (live : Set Piece) : Set Piece :=
  {b | b ∈ live ∧ r.returns ≠ some b.payload}

/-- What an answer may be, for clients that have the blocks in `live`. -/
def Settled (r : Request) (live : Set Piece) : Answer × Ledger → Prop
  | (.error _, l) => l.Sound ∧ l.live = live
  | (.ok none, l) => l.Sound ∧ l.live = kept r live
  | (.ok (some p), l) => l.Sound ∧ (∀ b ∈ kept r live, b.payload ≠ p) ∧
      ∃ k s, blockSize? r.size = some k ∧ Snug k s ∧ l.live = {⟨p, s, .live⟩} ∪ kept r live

lemma kept_of_none {r : Request} {live : Set Piece} (h : r.returns = none) : kept r live = live := by
  ext b
  simp [kept, h]

/-- The clients keep all but the block that they hand back. -/
lemma kept_of_some {r : Request} {b : Piece} (hs : l.Sound) (hb : b ∈ l.live)
    (h : r.returns = some b.payload) : kept r l.live = l.live \ {b} := by
  ext d
  simp only [kept, h, Set.mem_ofPred_eq, Set.mem_sdiff, Set.mem_singleton_iff, ne_eq,
    Option.some.injEq]
  refine and_congr_right fun hd => not_congr ⟨fun he => ?_, fun he => he ▸ rfl⟩
  exact ((hs.tiled hb.1).eq_of_payload hb.1 hd.1 he).symm

/-- The blocks that clients have where they had one before: those that they keep, and one that is resized
in place. -/
def lasting (live live' : Set Piece) : Set Piece := {b | b ∈ live' ∧ ∃ d ∈ live, d.payload = b.payload}

section Lasting

variable {r : Request} {live : Set Piece} {a : Answer} {l' : Ledger}

lemma Settled.kept_subset (hset : Settled r live (a, l')) : kept r live ⊆ lasting live l'.live := by
  intro d hd
  refine ⟨?_, d, hd.1, rfl⟩
  rcases a with _ | _ | p
  · exact hset.2.symm ▸ hd.1
  · exact hset.2.symm ▸ hd
  · obtain ⟨-, -, _, _, -, -, hl⟩ := hset
    rw [hl]
    exact .inr hd

/-- If the block in an answer is none that clients had, those that last are those that are kept. -/
lemma Settled.lasting_subset {p : Nat} (hset : Settled r live (.ok (some p), l'))
    (hnew : ∀ d ∈ live, d.payload ≠ p) : lasting live l'.live ⊆ kept r live := by
  obtain ⟨-, -, _, _, -, -, hl⟩ := hset
  rintro d ⟨hd, c, hc, hcd⟩
  rw [hl] at hd
  rcases hd with rfl | hd
  · exact absurd hcd (hnew c hc)
  · exact hd

lemma Settled.lasting_subset_of_none (hset : Settled r live (a, l')) (hr : r.returns = none) :
    lasting live l'.live ⊆ live := by
  rcases a with _ | _ | p
  · exact fun d hd => hset.2 ▸ hd.1
  · have hl : l'.live = live := hset.2.trans (kept_of_none hr)
    exact fun d hd => hl ▸ hd.1
  · have hnew := hset.2.1
    rw [kept_of_none hr] at hnew
    exact (hset.lasting_subset hnew).trans fun d hd => hd.1

end Lasting

variable {size need : Nat}

lemma settled_allocate {r : Request} (hr : r.returns = none) (hsize : r.size = size) (hs : l.Sound) :
    Settled r l.live (l.allocate size) := by
  unfold allocate
  split
  · exact ⟨hs, (kept_of_none hr).symm⟩
  · split
    · exact ⟨hs, rfl⟩
    · next need hk =>
      obtain ⟨h1, h2, -⟩ := blockSize?_some hk
      have hserved := served_obtainBlock h1 h2 hs
      split
      · next l' ho =>
        rw [ho] at hserved
        exact hserved
      · next p l' ho =>
        rw [ho] at hserved
        obtain ⟨hs1, ⟨s, hsnug, hl⟩, hnew⟩ := hserved
        refine ⟨hs1, fun b hb => hnew b hb.1, need, s, hsize ▸ hk, hsnug, ?_⟩
        rw [hl, kept_of_none hr]

/-- The lead of a client's block freed: the client has the rest. -/
lemma sound_skipTo {b : Piece} {q : Nat} (hs : l.Sound) (hb : b ∈ l.live)
    (hq : q = b.payload ∨ b.payload + minBlock ≤ q ∧ (q - b.payload) % alignment = 0)
    (hrest : minBlock ≤ b.stop - q) :
    (l.skipTo b.payload q).Sound ∧
      (l.skipTo b.payload q).live = {⟨q, b.stop - q, .live⟩} ∪ (l.live \ {b}) := by
  have hu := hb.2
  unfold skipTo
  rcases hq with rfl | ⟨hle, hmod⟩
  · rw [if_pos rfl]
    refine ⟨hs, ?_⟩
    have hself : (⟨b.payload, b.stop - b.payload, .live⟩ : Piece) = b := by
      rw [Piece.stop, Nat.add_sub_cancel_left, ← hu]
    rw [hself, Set.union_sdiff_self, Set.singleton_union, Set.insert_eq_of_mem hb]
  · have hne : q ≠ b.payload := by
      unfold minBlock at *
      omega
    rw [if_neg hne]
    have hsum : b.payload + (q - b.payload) = q := by omega
    have hlen : b.size - (q - b.payload) = b.stop - q := by
      unfold Piece.stop
      omega
    obtain ⟨hs1, hl1⟩ := sound_split (n := q - b.payload) hs hb (by omega) (by omega) hmod
    rw [hsum, hlen] at hl1
    obtain ⟨hs2, hl2⟩ := sound_free hs1 (b := ⟨b.payload, q - b.payload, .live⟩) (by simp [hl1])
    refine ⟨hs2, ?_⟩
    rw [hl2, hl1]
    ext d
    simp only [Set.mem_sdiff, Set.mem_union, Set.mem_insert_iff, Set.mem_singleton_iff]
    constructor
    · tauto
    · rintro (rfl | ⟨hd, hdb⟩)
      · refine ⟨.inl (.inr rfl), fun he => hne ?_⟩
        exact congrArg Piece.payload he
      · refine ⟨.inr ⟨hd, hdb⟩, ?_⟩
        rintro rfl
        exact hdb ((hs.tiled hb.1).eq_of_payload hd.1 hb.1 rfl)

/-- A client's block cut down to the `need` bytes from `q` on. -/
lemma sound_carve {b : Piece} {q : Nat} (hs : l.Sound) (hb : b ∈ l.live)
    (hq : q = b.payload ∨ b.payload + minBlock ≤ q ∧ (q - b.payload) % alignment = 0)
    (hn : minBlock ≤ need) (hmod : need % alignment = 0) (hroom : need ≤ b.stop - q) :
    ((l.skipTo b.payload q).trim q need).Sound ∧ ∃ t, Snug need t ∧
      ((l.skipTo b.payload q).trim q need).live = {⟨q, t, .live⟩} ∪ (l.live \ {b}) ∧
      ∀ d ∈ l.live \ {b}, d.payload ≠ q := by
  obtain ⟨hs1, hl1⟩ := sound_skipTo hs hb hq (hn.trans hroom)
  obtain ⟨hs2, t, htsnug, hl2⟩ :=
    sound_trim (b := ⟨q, b.stop - q, .live⟩) hs1 (by rw [hl1]; exact .inl rfl) hn hmod hroom
  have hnew : ∀ d ∈ l.live \ {b}, d.payload ≠ q := by
    rintro d ⟨hd, hdb⟩ he
    have hlt := (hs.tiled hb.1).lt_stop hd.1
    rcases (hs.tiled hb.1).apart hb.1 hd.1 with rfl | h | h
    · exact hdb rfl
    · unfold minBlock at *
      omega
    · omega
  refine ⟨hs2, t, htsnug, ?_, hnew⟩
  rw [hl2, hl1, Set.union_sdiff_left, Set.sdiff_singleton_eq_self fun hd => hnew _ hd rfl]

lemma settled_allocateAligned (align : Nat) (hs : l.Sound) :
    Settled (.allocateAligned size align) l.live (l.allocateAligned size align) := by
  unfold allocateAligned
  split
  · exact ⟨hs, rfl⟩
  next halign =>
  obtain ⟨h2, hle⟩ := accepted_of_not_refused halign
  split
  · exact ⟨hs, (kept_of_none rfl).symm⟩
  split
  · next need padded hk hpad =>
    obtain ⟨hn1, hn2, hn3, hn4, -⟩ := blockSize?_some hk
    obtain ⟨hp1, hp2, hp3, -⟩ := blockSize?_some hpad
    have hserved := served_obtainBlock hp1 hp2 hs
    split
    · next l' ho =>
      rw [ho] at hserved
      exact hserved
    · next p l' ho =>
      rw [ho] at hserved
      obtain ⟨hs1, ⟨s, hsnug, hl⟩, hnew⟩ := hserved
      have hb : (⟨p, s, .live⟩ : Piece) ∈ l'.live := by simp [hl]
      have hpm : p % alignment = 0 := by
        refine (hs1.tiled hb.1).payload_mod ?_ hb.1
        have := hs1.aligned
        unfold first wordSize alignment at *
        omega
      have ham := align_mod h2 hle
      have hpos : 0 < align := Nat.lt_of_lt_of_le (by decide) hle
      obtain ⟨-, hq⟩ := alignedFrom_bounds hpos ham hpm
      dsimp only
      generalize alignedFrom p align = q at hq
      have hroom : need ≤ p + s - q := by
        unfold Snug at hsnug
        unfold minBlock wordSize alignment at *
        omega
      obtain ⟨hs2, t, htsnug, hl2, hnew'⟩ :=
        sound_carve hs1 hb (hq.imp id fun h => ⟨h.1, h.2.2⟩) hn1 hn2 hroom
      have hrest : l'.live \ {⟨p, s, .live⟩} = l.live := by
        rw [hl, Set.union_sdiff_left, Set.sdiff_singleton_eq_self fun hd => hnew _ hd rfl]
      rw [hrest] at hl2 hnew'
      exact ⟨hs2, fun d hd => hnew' d hd.1, need, t, hk, htsnug,
        hl2.trans (congrArg _ (kept_of_none rfl).symm)⟩
  · exact ⟨hs, rfl⟩

lemma settled_release {b : Piece} (hs : l.Sound) (hb : b ∈ l.live) :
    Settled (.release b.payload) l.live (.ok none, l.release b.payload) := by
  obtain ⟨hs1, hl1⟩ := sound_release hs hb
  exact ⟨hs1, hl1.trans (kept_of_some hs hb rfl).symm⟩

lemma settled_resize {b : Piece} (hs : l.Sound) (hb : b ∈ l.live) :
    Settled (.resize b.payload size) l.live (l.resize b.payload size) := by
  have hkept := kept_of_some (r := .resize b.payload size) hs hb rfl
  unfold resize
  split
  · obtain ⟨hs1, hl1⟩ := sound_release hs hb
    exact ⟨hs1, hl1.trans hkept.symm⟩
  split
  · exact ⟨hs, rfl⟩
  next need hk =>
  obtain ⟨h1, h2, -⟩ := blockSize?_some hk
  rw [hs.sizeAt_eq hb.1]
  split
  · next hle =>
    obtain ⟨hs1, s, hsnug, hl1⟩ := sound_trim hs hb h1 h2 hle
    refine ⟨hs1, ?_, need, s, hk, hsnug, hkept ▸ hl1⟩
    rintro d ⟨-, hd⟩ he
    exact hd (congrArg some he.symm)
  · have hserved := served_obtainBlock h1 h2 hs
    split
    · next l' ho =>
      rw [ho] at hserved
      exact hserved
    · next q l' ho =>
      rw [ho] at hserved
      obtain ⟨hs1, ⟨s, hsnug, hl1⟩, hnew⟩ := hserved
      obtain ⟨hs2, hl2⟩ := sound_release hs1 (b := b) (by simp [hl1, hb])
      refine ⟨hs2, fun d hd => hnew d hd.1, need, s, hk, hsnug, ?_⟩
      rw [hl2, hl1, hkept]
      ext d
      simp only [Set.mem_sdiff, Set.mem_union, Set.mem_singleton_iff]
      constructor
      · tauto
      · rintro (rfl | hd)
        · refine ⟨.inl rfl, ?_⟩
          rintro rfl
          exact hnew _ hb rfl
        · exact ⟨.inr hd.1, hd.2⟩

/-- **A request answered**: the ledger stays sound, and the clients have what the answer says. -/
lemma settled_answer {r : Request} (hs : l.Sound)
    (hr : ∀ p, r.returns = some p → ∃ b ∈ l.live, b.payload = p) :
    Settled r l.live (l.answer r) := by
  cases r with
  | allocate size => exact settled_allocate rfl rfl hs
  | allocateZeroed size => exact settled_allocate rfl rfl hs
  | allocateAligned size align => exact settled_allocateAligned align hs
  | release p =>
    obtain ⟨b, hb, rfl⟩ := hr p rfl
    exact settled_release hs hb
  | resize p size =>
    obtain ⟨b, hb, rfl⟩ := hr p rfl
    exact settled_resize hs hb
  | write addr byte => exact ⟨hs, (kept_of_none rfl).symm⟩

/-! ### What an answer tells -/

/-- An aligned block begins at a multiple. -/
lemma alignedFrom_mod (p align : Nat) : alignedFrom p align % align = 0 := by
  unfold alignedFrom
  split
  · assumption
  · split
    · rw [Nat.add_mod_right, roundUp_mod]
    · exact roundUp_mod p align

lemma mod_allocateAligned {align q : Nat} (h : (l.allocateAligned size align).1 = .ok (some q)) :
    q % align = 0 := by
  unfold allocateAligned at h
  split at h
  · cases h
  · split at h
    · cases h
    · split at h
      · split at h
        · cases h
        · cases h
          exact alignedFrom_mod ..
      · cases h

lemma allocate_none (h : (l.allocate size).1 = .ok none) : size = 0 := by
  unfold allocate at h
  split at h
  · assumption
  · split at h
    · cases h
    · split at h <;> cases h

/-- Only a request for no bytes is granted without a block. -/
lemma answer_none {r : Request} (h : (l.answer r).1 = .ok none) : r.size = 0 := by
  cases r with
  | allocate size => exact allocate_none h
  | allocateZeroed size => exact allocate_none h
  | allocateAligned size align =>
    simp only [answer, allocateAligned] at h
    split at h
    · cases h
    · split at h
      · assumption
      · split at h
        · split at h <;> cases h
        · cases h
  | release p => rfl
  | resize p size =>
    simp only [answer, resize] at h
    split at h
    · assumption
    · split at h
      · cases h
      · split at h
        · cases h
        · split at h <;> cases h
  | write addr byte => rfl

lemma allocate_error {e : AllocError} (h : (l.allocate size).1 = .error e) : e = .outOfMemory size := by
  unfold allocate at h
  split at h
  · cases h
  · split at h
    · exact (Except.error.inj h).symm
    · split at h
      · exact (Except.error.inj h).symm
      · cases h

/-- **A request fails for its alignment, or for want of memory.** -/
lemma answer_error {r : Request} {e : AllocError} (h : (l.answer r).1 = .error e) :
    (r.Misaligned → e.errno = .invalidArgument) ∧ (¬ r.Misaligned → e.errno = .outOfMemory) := by
  cases r with
  | allocate size =>
    obtain rfl := allocate_error h
    exact ⟨False.elim, fun _ => rfl⟩
  | allocateZeroed size =>
    obtain rfl := allocate_error h
    exact ⟨False.elim, fun _ => rfl⟩
  | allocateAligned size align =>
    simp only [answer, allocateAligned] at h
    split at h
    · next halign =>
      cases h
      exact ⟨fun _ => rfl, fun hnot => absurd halign hnot⟩
    · next halign =>
      refine ⟨fun hmis => absurd hmis halign, fun _ => ?_⟩
      split at h
      · cases h
      · split at h
        · split at h <;> cases h
          rfl
        · cases h
          rfl
  | release p => cases h
  | resize p size =>
    refine ⟨False.elim, fun _ => ?_⟩
    simp only [answer, resize] at h
    split at h
    · cases h
    · split at h
      · cases h
        rfl
      · split at h
        · cases h
        · split at h <;> cases h
          rfl
  | write addr byte => cases h

/-- One that is refused for its alignment does fail. -/
lemma answer_misaligned {r : Request} (h : r.Misaligned) : ∃ e, (l.answer r).1 = .error e := by
  cases r with
  | allocateAligned size align => exact ⟨_, congrArg Prod.fst (if_pos h)⟩
  | _ => cases h

/-- One for no bytes that is not is granted without a block. -/
lemma answer_empty {r : Request} (h : ¬ r.Misaligned) (h0 : r.size = 0) : (l.answer r).1 = .ok none := by
  cases r with
  | allocate size => exact congrArg Prod.fst (if_pos h0)
  | allocateZeroed size => exact congrArg Prod.fst (if_pos h0)
  | allocateAligned size align => exact congrArg Prod.fst ((if_neg h).trans (if_pos h0))
  | release p => rfl
  | resize p size => exact congrArg Prod.fst (if_pos h0)
  | write addr byte => rfl

lemma misaligned_of_error {r : Request} {e : AllocError} (h : (l.answer r).1 = .error e)
    (h0 : r.size = 0) : r.Misaligned := by
  by_contra hmis
  rw [answer_empty hmis h0] at h
  cases h

lemma size_ne_of_some {r : Request} {p : Nat} (h : (l.answer r).1 = .ok (some p)) : r.size ≠ 0 := by
  intro h0
  by_cases hmis : r.Misaligned
  · obtain ⟨e, he⟩ := answer_misaligned (l := l) hmis
    rw [h] at he
    cases he
  · rw [answer_empty hmis h0] at h
    cases h

/-- Where nothing is granted, no page is asked for. -/
lemma arena_answer {r : Request} (h : (l.answer r).1 = .ok none) : (l.answer r).2.arena = l.arena := by
  have h0 := answer_none h
  have hnot : ¬ r.Misaligned := fun hmis => by
    obtain ⟨e, he⟩ := answer_misaligned hmis (l := l)
    rw [he] at h
    cases h
  cases r with
  | allocate size => exact congrArg (Ledger.arena ∘ Prod.snd) (if_pos h0)
  | allocateZeroed size => exact congrArg (Ledger.arena ∘ Prod.snd) (if_pos h0)
  | allocateAligned size align =>
    exact congrArg (Ledger.arena ∘ Prod.snd) ((if_neg hnot).trans (if_pos h0))
  | release p => exact arena_release p
  | resize p size =>
    exact (congrArg (Ledger.arena ∘ Prod.snd) (if_pos h0)).trans (arena_release p)
  | write addr byte => rfl

end Ledger

end BoundaryTag
