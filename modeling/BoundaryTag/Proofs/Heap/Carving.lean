import BoundaryTag.Proofs.Heap.Shelving
import BoundaryTag.Proofs.Ledger.Answers

/-!
Work on a client's block.

A client may write to the usable bytes of its blocks, and the heap may cut the block down from either end.
Both are shown, and leave the usable bytes of all other blocks alone.
-/

namespace BoundaryTag

open Heap HeapM Piece

variable {h : Heap} {l : Ledger} {b : Piece} {need : Nat}

/-! ### Writing to a block -/

/-- **Usable bytes of a client's block written**: the heap shows what it did. -/
lemma Shows.writeUsable {m : Memory} (hs : l.Sound) (w : Shows h l) (hb : b ∈ l.live)
    (hbase : m.base = h.memory.base) (hextent : m.extent = h.memory.extent)
    (hoff : SameOff b.usable h { h with memory := m }) :
    Shows { h with memory := m } l ∧ SameOff (Outside (l.live \ {b})) h { h with memory := m } := by
  have ht := hs.tiled hb.1
  have hw : Within b.usable h { h with memory := m } :=
    ⟨⟨rfl, rfl, rfl, rfl, hbase, hextent⟩, rfl, hoff⟩
  refine ⟨?_, hoff.mono fun x hx => usable_outside ht hb.1 hx fun d hd => ⟨hd.1.1, hd.2⟩⟩
  have hmap : l = { l with pieces := l.pieces.map id, quick := l.quick } := by
    rw [List.map_id]
  rw [hmap]
  refine w.reuse hw.setting rfl rfl hoff (fun x hx hr => ?_) ?_ (fun d _ => ⟨rfl, rfl, rfl⟩)
    (hs.pages_ne hb.1)
  · refine (hr.outside ht fun d hd => ?_ : Outside {b} x) b rfl hx
    obtain rfl := Set.mem_singleton_iff.mp hd
    exact ⟨hb.1, by rw [hb.2]; decide⟩
  · refine w.shelves.outside hs rfl (?_ : SameOff (Outside {d | d ∈ l.pieces ∧ d.use = .quick}) h _)
      fun d hd hu => ⟨hd, hu⟩
    refine hoff.mono fun x hx => usable_outside ht hb.1 hx fun d hd => ⟨hd.1, ?_⟩
    exact ne_of_use (by rw [hd.2, hb.2]; decide)

/-- Some of a client's usable bytes stored. -/
lemma Shows.setBytes {a n : Nat} (hs : l.Sound) (w : Shows h l) (hb : b ∈ l.live)
    (ha : b.payload ≤ a) (hn : a + n + wordSize ≤ b.stop) (f : Nat → UInt8) :
    h.reaches a n = true ∧ Shows { h with memory := h.memory.setBytes a f n } l ∧
      SameOff (Outside (l.live \ {b})) h { h with memory := h.memory.setBytes a f n } := by
  have r := (w.mirrors (hs.pages_ne hb.1)).rests
  have hbs := r.bounds hb.1
  have hbase := r.grounded.base_le
  refine ⟨r.grounded.reaches (by omega) (by omega),
    w.writeUsable hs hb (Memory.base_setBytes ..) (Memory.extent_setBytes ..) fun x hx => ?_⟩
  show (h.memory.setBytes a f n).byte x = h.memory.byte x
  rw [Memory.byte_setBytes (by omega), if_neg]
  rintro ⟨h1, h2⟩
  exact hx ⟨by omega, by omega⟩

/-! ### Cutting a block down -/

/-- Where a block in use has its place in the ledger before, it has it after. -/
lemma Ledger.mem_used {l' : Ledger} {d : Piece} (hs : l.Sound) (hs' : l'.Sound)
    (hq : l'.quick = l.quick) (hd : d ∈ l.used) (hlive : d ∈ l.live → d ∈ l'.live) : d ∈ l'.used := by
  obtain ⟨hmem, hu⟩ := hd
  rcases huse : d.use with _ | _ | _
  · obtain ⟨h1, h2⟩ := hlive ⟨hmem, huse⟩
    exact ⟨h1, hu⟩
  · obtain ⟨c, hc⟩ := hs.shelved.size d hmem huse
    have hin : d.payload ∈ l'.quick c := by
      rw [hq]
      exact (hs.shelved.mem c _).mpr ⟨d, hmem, rfl, huse, hc⟩
    obtain ⟨e, he, hep, heu, hec⟩ := (hs'.shelved.mem c _).mp hin
    have : e = d := by
      cases e
      cases d
      simp only at hep heu hec huse hc
      rw [hep, heu, hec, huse, hc]
    exact ⟨this ▸ he, hu⟩
  · exact absurd huse hu

/-- A client's block cut down: the ledger that is shown, and what was written to show it. -/
lemma Shows.placeLive {before after : List Piece} (hs : l.Sound) (w : Shows h l) (hb : b ∈ l.live)
    (hp : l.pieces = before ++ b :: after) (hn : minBlock ≤ need) (hmod : need % alignment = 0)
    (hle : need ≤ b.size) :
    ∃ h', HeapM.place b.payload need h = .ok ((), h') ∧ Mirrors h' (l.trim b.payload need) ∧
      Within (Booked (before ++ b.parts need ++ after)) h h' := by
  obtain ⟨r, hlast⟩ := w.mirrors (hs.pages_ne hb.1)
  have hself : ({ b with use := .live } : Piece) = b := by
    rw [← hb.2]
  rw [hp] at hlast
  exact place_run (u := .live) hs hb hp (by rwa [hself, ← hp])
    (lastIn_after (x := before ++ [b]) (by simpa using hlast) rfl) hn hmod hle

/-- **A client's block cut down** to `need` bytes. What is left of it has the bytes that it had. -/
lemma Shows.place (hs : l.Sound) (w : Shows h l) (hb : b ∈ l.live) (hn : minBlock ≤ need)
    (hmod : need % alignment = 0) (hle : need ≤ b.size) :
    ∃ h', HeapM.place b.payload need h = .ok ((), h') ∧ Shows h' (l.trim b.payload need) ∧
      SameOff (Outside (l.trim b.payload need).live) h h' := by
  obtain ⟨before, after, hp⟩ := List.append_of_mem hb.1
  obtain ⟨h', hrun, m, hw⟩ := w.placeLive hs hb hp hn hmod hle
  obtain ⟨w', -⟩ := w.rework hs hb m (Ledger.arena_trim ..) (Ledger.quick_trim ..)
    (hw.mono fun x hx => (parts_outside hs hb hp hn hmod hx).mono Set.subset_union_right)
  exact ⟨h', hrun, w',
    hw.off.mono fun x hx => (parts_outside hs hb hp hn hmod hx).mono Set.subset_union_left⟩

/-- **A client's block cut down from both ends**: what is before `q` is freed, then what the rest has
beyond `need` bytes. -/
lemma Shows.carve {q : Nat} (hs : l.Sound) (w : Shows h l) (hb : b ∈ l.live)
    (hq : b.payload + minBlock ≤ q) (hqmod : (q - b.payload) % alignment = 0)
    (hn : minBlock ≤ need) (hmod : need % alignment = 0) (hle : need ≤ b.stop - q) :
    ∃ h1 h2, RequestM.releaseLead b.payload (q - b.payload) h = .ok (q, h1) ∧
      HeapM.place q need h1 = .ok ((), h2) ∧ Shows h2 ((l.skipTo b.payload q).trim q need) ∧
      SameOff (Outside (l.live \ {b})) h h2 := by
  obtain ⟨before, after, hp⟩ := List.append_of_mem hb.1
  obtain ⟨r, hlast⟩ := w.mirrors (hs.pages_ne hb.1)
  have hne : q ≠ b.payload := by
    unfold minBlock at hq
    omega
  have hsum : b.payload + (q - b.payload) = q := by omega
  have hlen : b.size - (q - b.payload) = b.stop - q := by
    unfold Piece.stop
    omega
  rw [hp] at hlast
  obtain ⟨h1, hrun1, r1, ⟨ps, hp1⟩, hw1, hlast1⟩ := releaseLead_run hs hb hp r
    (by omega) hqmod (hlen ▸ hn.trans hle)
  have hskip : (l.split b.payload (q - b.payload)).free b.payload = l.skipTo b.payload q := by
    rw [Ledger.skipTo, if_neg hne]
  obtain ⟨hs2, hl2⟩ := Ledger.sound_skipTo hs hb (.inr ⟨hq, hqmod⟩) (hn.trans hle)
  rw [hskip] at r1 hp1
  rw [hsum, hlen] at hp1
  rw [hsum] at hrun1
  set l2 := l.skipTo b.payload q with hl2def
  set rest : Piece := ⟨q, b.stop - q, .live⟩ with hrest
  have hquick : l2.quick = l.quick := by
    rw [← hskip, Ledger.quick_free]
    rfl
  have harena : l2.arena = l.arena := by
    rw [← hskip, Ledger.arena_free, Ledger.arena_split]
  have hself : ({ rest with use := .live } : Piece) = rest := rfl
  obtain ⟨h2, hrun2, m2, hw2⟩ := place_run (b := rest) (u := .live) hs2 (by rw [hl2]; exact .inl rfl) hp1
    (by rwa [hself, ← hp1]) (lastIn_after (x := before ++ [b]) (by simpa using hlast) hlast1) hn hmod hle
  have hsub : l.used \ {b} ⊆ l2.used \ {rest} := by
    rintro d ⟨hd, hdb⟩
    refine ⟨Ledger.mem_used hs hs2 hquick hd fun hlive => ?_, ?_⟩
    · rw [hl2]
      exact .inr ⟨hlive, hdb⟩
    · rintro rfl
      rcases (hs.tiled hb.1).apart hb.1 hd.1 with h3 | h3 | h3
      · exact hdb h3.symm
      · simp only [hrest] at h3
        unfold minBlock at *
        omega
      · simp only [hrest, Piece.stop] at h3
        unfold minBlock at *
        omega
  refine ⟨h1, h2, hrun1, hrun2, w.rework hs hb m2 ?_ ?_ (hw1.trans (hw2.mono fun x hx =>
    (parts_outside hs2 (by rw [hl2]; exact .inl rfl) hp1 hn hmod hx).mono (hsub.trans Set.subset_union_right)))⟩
  · rw [Ledger.arena_trim, harena]
  · rw [Ledger.quick_trim, hquick]

end BoundaryTag
