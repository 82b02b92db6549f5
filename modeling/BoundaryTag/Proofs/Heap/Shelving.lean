import BoundaryTag.Heap.QuickList
import BoundaryTag.Proofs.Heap.Showing

/-!
Work on the quick lists.

A heap that shows a ledger shows, after a block is freed, taken off a quick list or put on one, the ledger
after the same. Clients keep the bytes of all other blocks. A flush walks along links that stand in blocks
that are freed one by one, so it needs the bytes of those that are still to come.
-/

namespace BoundaryTag

open Heap HeapM Piece

variable {h : Heap} {l : Ledger} {b : Piece} {c : Fin quickLists}

/-- **A client's block freed** in a heap that shows a ledger. -/
lemma Shows.freeToMain (hs : l.Sound) (hb : b ∈ l.live) (w : Shows h l) :
    ∃ h', HeapM.freeToMain b.payload h = .ok ((), h') ∧ Shows h' (l.free b.payload) ∧
      SameOff (Outside (l.live \ {b})) h h' ∧ Within (fun x => Booked l.pieces x ∨ b.usable x) h h' := by
  have h0 := hs.pages_ne hb.1
  obtain ⟨h', hrun, hm, hw, -⟩ := freeToMain_run hs hb (w.mirrors h0)
  obtain ⟨w', hoff⟩ := w.rework hs hb hm (Ledger.arena_free ..) (Ledger.quick_free ..)
    (hw.mono fun _ => booked_outside hs hb)
  exact ⟨h', hrun, w', hoff, hw⟩

/-! ### Flushing -/

/-- A chain of clients' blocks freed from its first block on. -/
lemma freeChain_run {n fuel a : Nat} {ps : List Nat} (hs : l.Sound) (w : Shows h l) (hnd : ps.Nodup)
    (hps : ∀ p ∈ ps, ⟨p, n, .live⟩ ∈ l.live) (hc : Chain h a ps) (hfuel : ps.length < fuel) :
    ∃ h', freeChain fuel a h = .ok ((), h') ∧ Shows h' (ps.foldl Ledger.free l) ∧
      SameOff (Outside {d | d ∈ l.live ∧ d.payload ∉ ps}) h h' := by
  induction ps generalizing fuel a l h with
  | nil =>
    obtain rfl : a = 0 := hc
    obtain ⟨fuel, rfl⟩ := Nat.exists_eq_succ_of_ne_zero (Nat.ne_of_gt hfuel)
    exact ⟨h, rfl, w, .refl h⟩
  | cons p ps ih =>
    obtain ⟨fuel, rfl⟩ := Nat.exists_eq_succ_of_ne_zero (Nat.ne_zero_of_lt hfuel)
    obtain ⟨rfl, hc⟩ := hc
    obtain ⟨hp, hnd⟩ := List.nodup_cons.mp hnd
    have hin := hps a List.mem_cons_self
    have ht := hs.tiled hin.1
    have h0 := hs.pages_ne hin.1
    have hbs := (w.mirrors h0).rests.bounds hin.1
    have hlen := (ht.bounds hin.1).2.2.1
    obtain ⟨h1, hrun1, w1, hoff1, -⟩ := w.freeToMain hs hin
    obtain ⟨hs1, hl1⟩ := Ledger.sound_free hs hin
    have hrest : ∀ q ∈ ps, (⟨q, n, .live⟩ : Piece) ∈ l.live \ {⟨a, n, .live⟩} := by
      intro q hq
      refine ⟨hps q (List.mem_cons_of_mem _ hq), fun he => hp ?_⟩
      have hqa : q = a := congrArg Piece.payload he
      exact hqa ▸ hq
    have hc1 : Chain h1 (h.memory.word a).toNat ps := by
      refine hc.congr fun q hq => hoff1.word fun x hx1 hx2 => ?_
      exact outside_word ht (hrest q hq).1.1 (hrest q hq) hx1 hx2
    obtain ⟨h2, hrun2, w2, hoff2⟩ :=
      ih hs1 w1 hnd (fun q hq => hl1 ▸ hrest q hq) hc1 (Nat.lt_of_succ_lt_succ hfuel)
    have ha0 : a ≠ 0 := by
      unfold alignment at hbs
      simp only at hbs
      omega
    refine ⟨h2, ?_, w2, (hoff1.mono fun x hx => hx.mono ?_).trans (hoff2.mono fun x hx => hx.mono ?_)⟩
    · rw [freeChain, if_neg ha0, bind_run (loadAddr_run (w.mirrors h0).rests.grounded ?_ ?_)]
      · exact (bind_run hrun1).trans hrun2
      · unfold alignment at hbs
        simp only at hbs
        omega
      · unfold Piece.stop minBlock wordSize at *
        simp only at hbs hlen
        omega
    · rintro d ⟨hd, hdp⟩
      refine ⟨hd, ?_⟩
      rintro rfl
      exact hdp List.mem_cons_self
    · rintro d ⟨hd, hdp⟩
      rw [hl1]
      refine ⟨⟨hd, ?_⟩, fun hmem => hdp (List.mem_cons_of_mem _ hmem)⟩
      rintro rfl
      exact hdp List.mem_cons_self

/-- The slot of one quick list changed. -/
lemma Shelves.setSlot {quick : Fin quickLists → List Nat} {h' : Heap} {t : QuickSlot} {ps : List Nat}
    (hsh : Shelves h quick) (hslots : h'.quick = h.quick.set c t c.isLt) (hlen : t.len = ps.length)
    (hc : Chain h' t.first ps)
    (hoth : ∀ c', c' ≠ c → Chain h' (h.quick.get c').first (quick c')) :
    Shelves h' (Function.update quick c ps) := by
  refine ⟨fun c' => ?_, fun c' => ?_⟩ <;> rw [hslots, get_set] <;> by_cases he : c' = c
  · subst he
    rw [if_pos rfl, Function.update_self]
    exact hlen
  · rw [if_neg he, Function.update_of_ne he]
    exact hsh.len c'
  · subst he
    rw [if_pos rfl, Function.update_self]
    exact hc
  · rw [if_neg he, Function.update_of_ne he]
    exact hoth c' he

/-- **A quick list flushed.** -/
lemma Shows.flush (hs : l.Sound) (w : Shows h l) (h0 : l.arena.pages ≠ 0) (c : Fin quickLists) :
    ∃ h', HeapM.flush c h = .ok ((), h') ∧ Shows h' (l.flush c) ∧
      SameOff (Outside l.live) h h' := by
  have hs1 := Ledger.sound_withdraw hs c
  set h1 : Heap :=
    { h with quick := h.quick.set c emptySlot c.isLt
             journal := h.journal.add (.flushing c (h.quick.get c).len) } with hh1
  have hchain : ∀ {a ps}, Chain h a ps → Chain h1 a ps := fun hc => hc.congr fun _ _ => rfl
  have w1 : Shows h1 (l.withdraw c) := by
    refine w.reuse (S := fun _ => False) ⟨rfl, rfl, rfl, rfl, rfl, rfl⟩ rfl rfl (fun _ _ => rfl)
      (fun x hx => hx.elim) ?_ (fun d hd => ?_) h0
    · exact w.shelves.setSlot rfl rfl rfl fun c' _ => hchain (w.shelves.chain c')
    · by_cases hin : d.payload ∈ l.quick c
      · obtain ⟨hu, -⟩ := hs.shelved.eq_of_mem (hs.tiled hd) hd hin
        simp [hin, Piece.isFree, hu]
      · simp [hin]
  have hfuel : (l.quick c).length < h1.patience := by
    have hlen := hs.shelved.length_le c
    unfold patience mainLists quickDepth at *
    omega
  obtain ⟨h2, hrun2, w2, hoff2⟩ := freeChain_run hs1 w1 (hs.shelved.nodup c)
    (fun p hp => Ledger.mem_live_withdraw hs hp) (hchain (w.shelves.chain c)) hfuel
  refine ⟨h2, ?_, w2, fun x hx => ?_⟩
  · rw [HeapM.flush]
    exact hrun2
  · refine hoff2 x fun hout => hx (hout.mono fun d hd => ?_)
    rw [Ledger.live_withdraw hs c]
    exact ⟨.inl hd, hs.not_mem_quick hd.1 (by rw [hd.2]; decide)⟩

/-! ### One block -/

/-- A block marked in the ledger is a change of each block by itself. -/
lemma mark_eq_map (p : Nat) (use : Use) :
    l.mark p use =
      { l with pieces := l.pieces.map fun d => if d.payload = p then { d with use } else d } := by
  rw [Ledger.mark, replaceAt_singleton]

/-- A block of the ledger that is in use may change to another use. -/
lemma mark_same {u : Use} {d : Piece} (hs : l.Sound) (hmem : b ∈ l.pieces) (hb : b.use ≠ .free)
    (hu : u ≠ .free) (hd : d ∈ l.pieces) :
    (if d.payload = b.payload then { d with use := u } else d).payload = d.payload ∧
      (if d.payload = b.payload then { d with use := u } else d).size = d.size ∧
      (if d.payload = b.payload then { d with use := u } else d).isFree = d.isFree := by
  by_cases he : d.payload = b.payload
  · obtain rfl := (hs.tiled hd).eq_of_payload hd hmem he
    simp [Piece.isFree, hb, hu]
  · simp [he]

/-- The link of a quick-listed block can be read. -/
lemma Shows.quick_link {p : Nat} (hs : l.Sound) (w : Shows h l) (hp : p ∈ l.quick c) :
    p ≠ 0 ∧ h.loadAddr p = .ok (h.memory.word p).toNat := by
  obtain ⟨d, hd, rfl, -⟩ := (hs.shelved.mem c p).mp hp
  obtain ⟨g, h1, h2⟩ := w.word_bounds hs hd
  unfold alignment at h1
  exact ⟨by omega, g.loadAddr_eq (by omega) h2⟩

/-- The first words of two blocks are apart. -/
lemma words_apart {d : Piece} (hs : l.Sound) (hb : b ∈ l.pieces) (hd : d ∈ l.pieces) (hne : d ≠ b) :
    d.payload + wordSize ≤ b.payload ∨ b.payload + wordSize ≤ d.payload := by
  have ht := hs.tiled hb
  have h1 := (ht.bounds hb).2.2.1
  have h2 := (ht.bounds hd).2.2.1
  rcases ht.apart hd hb with h3 | h3 | h3
  · exact absurd h3 hne
  · unfold Piece.stop minBlock wordSize at *
    omega
  · unfold Piece.stop minBlock wordSize at *
    omega

/-- The first block of a chain, or the null pointer, is an address. -/
lemma Shows.first_lt (w : Shows h l) (hs : l.Sound) (c : Fin quickLists) :
    (h.quick.get c).first < addressSpace := by
  have hc := w.shelves.chain c
  rcases hq : l.quick c with _ | ⟨p, ps⟩
  · rw [hq] at hc
    rw [show (h.quick.get c).first = 0 from hc]
    decide
  · rw [hq] at hc
    obtain ⟨d, hd, hdp, -⟩ := (hs.shelved.mem c p).mp (by simp [hq])
    obtain ⟨g, -, h2⟩ := w.word_bounds hs hd
    have := g.bounded
    rw [hc.1, ← hdp]
    omega

/-- **A client's block put on the quick list of its size**, which is not full. -/
lemma Shows.push (hs : l.Sound) (w : Shows h l) (hb : b ∈ l.live)
    (hlen : (l.quick c).length < quickDepth) :
    ∃ h', (slot c >>= fun t => storeAddr b.payload t.first >>= fun _ =>
        HeapM.sum t.len 1 >>= fun n => setSlot c ⟨n, b.payload⟩) h = .ok ((), h') ∧
      Shows h' (l.push c b.payload) ∧ SameSetting h h' ∧ SameOff b.usable h h' := by
  have ht := hs.tiled hb.1
  obtain ⟨g, h1, h2⟩ := w.word_bounds hs hb.1
  have hfirst := w.first_lt hs c
  have hbase := g.base_le
  set t := h.quick.get c with htdef
  have htlen : t.len = (l.quick c).length := w.shelves.len c
  set h' : Heap := { h.put b.payload (.ofNat t.first) with
    quick := h.quick.set c ⟨t.len + 1, b.payload⟩ c.isLt } with hh'
  have hput := within_put (h := h) (a := b.payload) (by omega) (.ofNat t.first)
  have hkeep : ∀ {a ps}, Chain h a ps → (∀ q ∈ ps, ∃ c, q ∈ l.quick c) → Chain h' a ps := by
    intro a ps hc hps
    refine hc.congr fun q hq => word_put_of_disjoint (by omega) _ ?_
    obtain ⟨c', hc'⟩ := hps q hq
    obtain ⟨d, hd, rfl, hu, -⟩ := (hs.shelved.mem c' q).mp hc'
    exact words_apart hs hb.1 hd (ne_of_use (by rw [hu, hb.2]; decide))
  have hself : (h'.memory.word b.payload).toNat = t.first := by
    show ((h.put b.payload (.ofNat t.first)).memory.word b.payload).toNat = t.first
    rw [word_put_self (by omega), UInt64.toNat_ofNat']
    exact Nat.mod_eq_of_lt hfirst
  have hset : SameSetting h h' := hput.setting.trans ⟨rfl, rfl, rfl, rfl, rfl, rfl⟩
  refine ⟨h', ?_, ?_, hset, fun x hx => hput.off x fun hin => hx ⟨hin.1, ?_⟩⟩
  · have hslot : slot c h = .ok (t, h) := rfl
    rw [bind_run hslot, storeAddr, bind_run (store_run g _ (by omega) h2),
      bind_run (sum_run (by unfold addressSpace quickDepth at *; omega))]
    rfl
  · rw [Ledger.push, mark_eq_map]
    refine w.reuse hset rfl rfl hput.off
      (fun x hx hr => ?_) ?_ (fun d hd => mark_same hs hb.1 (by rw [hb.2]; decide) (by decide) hd)
      (hs.pages_ne hb.1)
    · refine outside_word ht hb.1 (Set.mem_singleton b) hx.1 hx.2 (hr.outside ht fun d hd => ?_)
      rw [Set.mem_singleton_iff.mp hd, hb.2]
      exact ⟨hb.1, by decide⟩
    · refine w.shelves.setSlot rfl (by rw [List.length_cons, htlen]) ⟨rfl, ?_⟩ fun c' _ => ?_
      · rw [hself]
        exact hkeep (w.shelves.chain c) fun q hq => ⟨c, hq⟩
      · exact hkeep (w.shelves.chain c') fun q hq => ⟨c', hq⟩
  · have hbs := (ht.bounds hb.1).2.2.1
    unfold Piece.stop minBlock wordSize at *
    omega

/-- Where the heap keeps account of its blocks, and what a client has of one, is off the other blocks of
clients. -/
lemma booked_outside_live (hs : l.Sound) (hb : b ∈ l.live) {k : Nat} (hk : Booked l.pieces k ∨ b.usable k) :
    Outside (l.live \ {b}) k :=
  (booked_outside hs hb hk).mono fun _ hd => ⟨⟨hd.1.1, by rw [hd.1.2]; decide⟩, hd.2⟩

/-- A client's block that goes on no quick list, or on one that is not full, is released without a change to
another block in use. -/
lemma Shows.releaseOne (hs : l.Sound) (w : Shows h l) (hb : b ∈ l.live)
    (hroom : ∀ c, quickClass? b.size = some c → (l.quick c).length < quickDepth) :
    ∃ h', HeapM.releaseBlock b.payload h = .ok ((), h') ∧ Shows h' (l.release b.payload) ∧
      SameSetting h h' ∧ SameOff (fun x => Booked l.pieces x ∨ b.usable x) h h' := by
  have r := (w.mirrors (hs.pages_ne hb.1)).rests
  unfold HeapM.releaseBlock Ledger.release
  rw [bind_run (r.tagAt_run hb.1), r.size_header hb.1, hs.sizeAt_eq hb.1]
  rcases hq : quickClass? b.size with _ | c
  · obtain ⟨h', hrun, w', -, hw⟩ := w.freeToMain hs hb
    exact ⟨h', hrun, w', hw.setting, hw.off⟩
  · have hlen := hroom c hq
    have hslot : slot c h = .ok (h.quick.get c, h) := rfl
    have hfull : (h.quick.get c).len = (l.quick c).length := w.shelves.len c
    simp only [pushQuick]
    rw [bind_run hslot, hfull, if_neg hlen.ne, if_neg hlen.ne]
    obtain ⟨h', hrun, w', hset, hoff⟩ := w.push hs hb hlen
    exact ⟨h', hrun, w', hset, hoff.mono fun _ => .inr⟩

/-- **A client's block released** to the quick list of its size, which is flushed if it is full, or to
the main lists. -/
lemma Shows.releaseBlock (hs : l.Sound) (w : Shows h l) (hb : b ∈ l.live) :
    ∃ h', HeapM.releaseBlock b.payload h = .ok ((), h') ∧ Shows h' (l.release b.payload) ∧
      SameOff (Outside (l.live \ {b})) h h' := by
  by_cases hroom : ∀ c, quickClass? b.size = some c → (l.quick c).length < quickDepth
  · obtain ⟨h', hrun, w', -, hoff⟩ := w.releaseOne hs hb hroom
    exact ⟨h', hrun, w', hoff.mono fun _ => booked_outside_live hs hb⟩
  push Not at hroom
  obtain ⟨c, hq, hlen⟩ := hroom
  have h0 := hs.pages_ne hb.1
  have r := (w.mirrors h0).rests
  have hfull := (hs.shelved.length_le c).antisymm hlen
  have hslot : slot c h = .ok (h.quick.get c, h) := rfl
  have hcount : (h.quick.get c).len = (l.quick c).length := w.shelves.len c
  unfold HeapM.releaseBlock Ledger.release
  rw [bind_run (r.tagAt_run hb.1), r.size_header hb.1, hs.sizeAt_eq hb.1, hq]
  simp only [pushQuick]
  rw [bind_run hslot, hcount, if_pos hfull, if_pos hfull]
  obtain ⟨hs1, hl1, hq1⟩ := Ledger.sound_flush hs c
  obtain ⟨h1, hrun1, w1, hoff1⟩ := w.flush hs h0 c
  obtain ⟨h2, hrun2, w2, -, hoff2⟩ := w1.push (c := c) hs1 (hl1 ▸ hb)
    (by rw [hq1, Function.update_self]; decide)
  refine ⟨h2, (bind_run hrun1).trans hrun2, w2, (hoff1.mono fun x hx => hx.mono ?_).trans
    (hoff2.mono fun x hx => ?_)⟩
  · exact Set.sdiff_subset
  · exact booked_outside_live hs hb (.inr hx)

/-- **The newest block of a quick list** taken off it for a client. -/
lemma Shows.pop {p : Nat} {rest : List Nat} (hs : l.Sound) (w : Shows h l)
    (hq : l.quick c = p :: rest) :
    ∃ h', popQuick c (quickSize c) h = .ok (some p, h') ∧
      Shows h' { l.mark p .live with quick := Function.update l.quick c rest } ∧
      SameSetting h h' ∧ h'.memory = h.memory := by
  obtain ⟨b, hmem, rfl, hu, hsize⟩ := (hs.shelved.mem c p).mp (by simp [hq])
  have h0 := hs.pages_ne hmem
  have r := (w.mirrors h0).rests
  obtain ⟨g, h1, h2⟩ := w.word_bounds hs hmem
  have hc := w.shelves.chain c
  rw [hq] at hc
  obtain ⟨hfirst, hrest⟩ := hc
  have hlen : (h.quick.get c).len = rest.length + 1 := by
    rw [w.shelves.len c, hq, List.length_cons]
  set t : QuickSlot := ⟨rest.length, (h.memory.word b.payload).toNat⟩ with ht
  refine ⟨{ h with quick := h.quick.set c t c.isLt }, ?_, ?_, ⟨rfl, rfl, rfl, rfl, rfl, rfl⟩, rfl⟩
  · have hslot : slot c h = .ok (h.quick.get c, h) := rfl
    have hb0 : b.payload ≠ 0 := by
      unfold alignment at h1
      omega
    unfold popQuick
    rw [bind_run get_run, bind_run hslot, hfirst]
    unfold patience popFrom
    rw [if_neg hb0, bind_run (loadAddr_run g (by omega) h2),
      bind_run (r.tagAt_run hmem), r.size_header hmem, if_pos hsize.ge, bind_run hslot,
      bind_run (difference_run (by omega)), hlen]
    rfl
  · rw [mark_eq_map]
    refine w.reuse (S := fun _ => False) ⟨rfl, rfl, rfl, rfl, rfl, rfl⟩ rfl rfl (fun _ _ => rfl)
      (fun x hx => hx.elim) ?_
      (fun d hd => mark_same hs hmem (by rw [hu]; decide) (by decide) hd) h0
    refine w.shelves.setSlot rfl rfl (hrest.congr fun _ _ => rfl) fun c' _ => ?_
    exact (w.shelves.chain c').congr fun _ _ => rfl

/-- An empty quick list has no block to take. -/
lemma Shows.pop_none {n : Nat} (w : Shows h l) (hq : l.quick c = []) :
    popQuick c n h = .ok (none, h) := by
  have hc := w.shelves.chain c
  rw [hq] at hc
  have hslot : slot c h = .ok (h.quick.get c, h) := rfl
  unfold popQuick
  rw [bind_run get_run, bind_run hslot, show (h.quick.get c).first = 0 from hc]
  unfold patience popFrom
  rw [if_pos rfl]
  rfl

end BoundaryTag
