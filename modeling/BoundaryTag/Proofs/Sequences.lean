import BoundaryTag.Proofs.Heap.Recovering
import BoundaryTag.Proofs.Heap.Rewriting
import BoundaryTag.Proofs.Session

/-!
The main lists as sequences.

Where the heads and the links have a ring for each of ten disjoint sequences of blocks, the work on lists is
work on sequences: a block is put in front of one, or taken out of one wherever it stands, and a search or a
count goes through one from the front. Nothing is asked of the heap but that its region is in memory. Only
heads and links are written, and those of a block put in front and taken out again come back as they were.
-/

namespace BoundaryTag

open Heap HeapM

/-! ### Free blocks -/

/-- The blocks on the lists are free blocks, by their tags, and no two of them share a byte. -/
structure Heap.FreeBlocks (h : Heap) (main : MainLists) : Prop where
  free : ∀ c, ∀ p ∈ main c, (h.header p).allocated = false ∧ minBlock ≤ (h.header p).size ∧
    h.footer p (h.header p).size = h.header p
  apart : ∀ c c', ∀ p ∈ main c, ∀ q ∈ main c',
    p = q ∨ p + (h.header p).size ≤ q ∨ q + (h.header q).size ≤ p

/-- The heap `h'` has the lists `main'` where `h` had `main`, and was made from it by writing heads and links
only. Free blocks on the lists stay what they are. -/
structure Relists (h h' : Heap) (main main' : MainLists) : Prop where
  ringed : Ringed h' main'
  rewrites : Rewrites (fun x => main.links x ∨ main'.links x) h h'
  last : h'.last = h.last
  blocks : h.FreeBlocks main → h.FreeBlocks main' →
    h'.FreeBlocks main' ∧ ∀ c, ∀ p ∈ main' c, h'.header p = h.header p

section Blocks

variable {h h' : Heap} {main main' : MainLists}

/-- Links are no part of the tags of free blocks, neither before a block's links nor behind them. -/
lemma Heap.FreeBlocks.not_links {c : Fin mainLists} {p x : Nat} (fb : h.FreeBlocks main) (hp : p ∈ main c)
    (hx : p ≤ x + wordSize ∧ x < p ∨ p + alignment ≤ x ∧ x + wordSize < p + (h.header p).size) :
    ¬ main.links x := by
  rintro ⟨c', q, hq, h1, h2⟩
  have hsize := (fb.free c p hp).2.1
  have hsize' := (fb.free c' q hq).2.1
  rcases fb.apart c c' p hp q hq with rfl | h3 | h3 <;> unfold alignment wordSize minBlock at * <;> omega

/-- Free blocks stay what they are where only their links are written. -/
lemma Heap.FreeBlocks.off (fb : h.FreeBlocks main) (hseat : ∀ c, ∀ p ∈ main c, h.Seat (.block p))
    (hkey : h'.key = h.key) (hoff : SameOff main.links h h') :
    h'.FreeBlocks main ∧ ∀ c, ∀ p ∈ main c, h'.header p = h.header p := by
  have hheader : ∀ c, ∀ p ∈ main c, h'.header p = h.header p := fun c p hp => by
    obtain ⟨-, hstart, -⟩ := hseat c p hp
    unfold alignment at hstart
    refine hoff.header hkey (by unfold wordSize; omega) fun x h1 h2 => fb.not_links hp (.inl ⟨?_, h2⟩)
    omega
  have hfooter : ∀ c, ∀ p ∈ main c, h'.footer p (h.header p).size = h.footer p (h.header p).size :=
    fun c p hp => by
      have hsize := (fb.free c p hp).2.1
      unfold Heap.footer
      rw [hkey]
      refine congrArg (Tag.decode · h.key) (hoff.word fun x h1 h2 => fb.not_links hp (.inr ?_))
      unfold alignment wordSize minBlock at *
      omega
  refine ⟨⟨fun c p hp => ?_, fun c c' p hp q hq => ?_⟩, hheader⟩
  · rw [hheader c p hp, hfooter c p hp]
    exact fb.free c p hp
  · rw [hheader c p hp, hheader c' q hq]
    exact fb.apart c c' p hp q hq

lemma Heap.FreeBlocks.mono (fb : h.FreeBlocks main) (hsub : ∀ c, main' c ⊆ main c) : h.FreeBlocks main' :=
  ⟨fun c p hp => fb.free c p (hsub c hp), fun c c' p hp q hq => fb.apart c c' p (hsub c hp) q (hsub c' hq)⟩

end Blocks

namespace Ringed

variable {h : Heap} {main : MainLists} {c : Fin mainLists} {b : Nat} {as bs : List Nat}

/-- As many blocks are counted as there are on the ring. -/
lemma freeListLen (w : h.Situated) (r : Ringed h main) (c : Fin mainLists) :
    h.freeListLen c = .ok (main c).length :=
  freeListLen_eq (mainListFrom_eq (r.ring c) (fun p hp => (w.links_seat (r.seat c p hp)).1)
    (r.length_lt w c))

/-- A block taken out of its sequence, wherever it stands there. -/
lemma takeOut (w : h.Situated) (r : Ringed h main) (hc : main c = as ++ b :: bs) :
    ∃ h', HeapM.removeFree b h = .ok ((), h') ∧ Relists h h' main (Function.update main c (as ++ bs)) := by
  have hb : b ∈ main c := by simp [hc]
  have hwithout : main.without [b] = Function.update main c (as ++ bs) := by
    funext d
    by_cases hd : d = c
    · subst hd
      rw [Function.update_self, MainLists.without_singleton hc (r.nodup d)]
    · rw [Function.update_of_ne hd, MainLists.without_eq_self fun hmem => hd (r.once _ _ _ hmem hb)]
  obtain ⟨h', hrun, hr, hw, hlast⟩ := removeFree_run (w.grounded_seat (r.seat c b hb)) r hb
  rw [hwithout] at hr
  refine ⟨h', hrun, hr, ⟨hw.mono fun _ => .inl, silent_removeFree b hrun⟩, hlast, fun fb _ => ?_⟩
  have hsub : ∀ d, Function.update main c (as ++ bs) d ⊆ main d := fun d p hp => by
    rw [← hwithout] at hp
    exact (MainLists.mem_without.mp hp).1
  obtain ⟨hfb, hheader⟩ := fb.off r.seat hw.setting.key hw.off
  exact ⟨hfb.mono hsub, fun d p hp => hheader d p (hsub d hp)⟩

section Front

variable (w : h.Situated) (r : Ringed h main) (hseat : h.Seat (.block b)) (hnew : ∀ d, b ∉ main d)
  (hc : mainClass (h.header b).size = c)

include w r hseat hnew hc

/-- A block put in front of the sequence of its class. -/
lemma putFront : ∃ h', HeapM.insertFree b h = .ok ((), h') ∧
    Relists h h' main (Function.update main c (b :: main c)) := by
  subst hc
  obtain ⟨h', hrun, hr, hw, hlast⟩ :=
    insertFree_run (b := ⟨b, (h.header b).size, .free⟩) (w.grounded_seat hseat) r hseat rfl hnew
  refine ⟨h', hrun, hr, ⟨hw.mono fun _ => .inr, silent_insertFree b hrun⟩, hlast, fun _ fb => ?_⟩
  exact fb.off (fun d p hp => hw.setting.seat.mp (hr.seat d p hp)) hw.setting.key hw.off

/-- A block put in front and taken out again has left no trace but in its own links. -/
lemma putFront_takeOut : ∃ h1 h2, HeapM.insertFree b h = .ok ((), h1) ∧
    Relists h h1 main (Function.update main c (b :: main c)) ∧ HeapM.removeFree b h1 = .ok ((), h2) ∧
    h2.heads = h.heads ∧ h2.last = h.last ∧ Rewrites (Link.block b).area h h2 := by
  obtain ⟨h1, hrun1, w1⟩ := r.putFront w hseat hnew hc
  have hfront : Function.update main c (b :: main c) c = [] ++ b :: main c := Function.update_self ..
  obtain ⟨h2, hrun2, w2⟩ :=
    w1.ringed.takeOut (w1.rewrites.setting.grounded (w.grounded_seat hseat)).situated hfront
  have hback : Function.update (Function.update main c (b :: main c)) c ([] ++ main c) = main := by
    rw [Function.update_idem, List.nil_append, Function.update_eq_self]
  rw [hback] at w2
  have hw : Rewrites (fun x => main.links x ∨ MainLists.links (Function.update main c (b :: main c)) x) h h2 :=
    w1.rewrites.trans (w2.rewrites.mono fun _ => Or.symm)
  obtain ⟨hheads, hlinks⟩ := r.unique w2.ringed
  refine ⟨h1, h2, hrun1, w1, hrun2, hheads, w2.last.trans w1.last,
    ⟨⟨hw.setting, hw.quick, fun x hx => ?_⟩, hw.journal⟩⟩
  -- a byte is in a link of a listed block, which is determined by the sequences, or is not written
  by_cases hmain : main.links x
  · obtain ⟨d, p, hp, h3, h4⟩ := hmain
    obtain ⟨hnext, hprev⟩ := hlinks d p hp
    by_cases hlow : x < p + wordSize
    · exact Memory.byte_of_word hnext h3 hlow
    · refine Memory.byte_of_word hprev (by omega) ?_
      unfold alignment wordSize at *
      omega
  · refine hw.off x (not_or.mpr ⟨hmain, ?_⟩)
    rintro ⟨d, p, hp, harea⟩
    by_cases hd : d = c
    · subst hd
      rw [Function.update_self] at hp
      rcases List.mem_cons.mp hp with rfl | hp
      · exact hx harea
      · exact hmain ⟨d, p, hp, harea⟩
    · rw [Function.update_of_ne hd] at hp
      exact hmain ⟨d, p, hp, harea⟩

end Front

end Ringed

/-- **The main lists are sequences.** Where heads and links have a ring for each of the disjoint sequences
`main`, a block of class `c` that is on none of them is put in front of the sequence `c`, and is gone without a
trace when it is taken out again; a block is taken out wherever it stands in its sequence, and the others stay in
their order; and a search ends with the first block of a sequence that is large enough, a count with the length.
Nothing but heads and links is written. -/
theorem mainLists_sequences {h : Heap} {main : MainLists} (w : h.Situated) (r : Ringed h main) :
    (∀ b c, h.Seat (.block b) → (∀ d, b ∉ main d) → mainClass (h.header b).size = c →
      ∃ h1 h2, insertFree b h = .ok ((), h1) ∧
        Relists h h1 main (Function.update main c (b :: main c)) ∧
        removeFree b h1 = .ok ((), h2) ∧
        h2.heads = h.heads ∧ h2.last = h.last ∧ Rewrites (Link.block b).area h h2) ∧
    (∀ c as b bs, main c = as ++ b :: bs →
      ∃ h', removeFree b h = .ok ((), h') ∧
        Relists h h' main (Function.update main c (as ++ bs))) ∧
    ∀ c, (∀ need, h.findFit c need = .ok ((main c).find? fun p => need ≤ (h.header p).size)) ∧
      h.freeListLen c = .ok (main c).length :=
  ⟨fun _ _ hseat hnew hc => r.putFront_takeOut w hseat hnew hc, fun _ _ _ _ hc => r.takeOut w hc,
    fun c => ⟨r.findFit w c, r.freeListLen w c⟩⟩

/-! ### Reachable heaps -/

/-- What is on the main lists of a ledger are free blocks of the heap. -/
lemma Shows.freeBlocks {h : Heap} {l : Ledger} (hs : l.Sound) (w : Shows h l) : h.FreeBlocks l.main := by
  have hlisted : ∀ {c p}, p ∈ l.main c → ∃ b ∈ l.pieces, b.payload = p ∧ b.use = .free := fun hp => by
    obtain ⟨b, hb, hpay, hu, -⟩ := (hs.filed.mem _ _).mp hp
    exact ⟨b, hb, hpay, hu⟩
  refine ⟨fun c p hp => ?_, fun c c' p hp q hq => ?_⟩
  · obtain ⟨b, hb, rfl, hu⟩ := hlisted hp
    have r := (w.mirrors (hs.pages_ne hb)).rests
    have hfree : b.isFree = true := by simpa [Piece.isFree] using hu
    obtain ⟨f, hheader, hfooter⟩ := r.tags hb
    refine ⟨?_, ?_, ?_⟩
    · rw [r.allocated_header hb, hfree]
      rfl
    · rw [r.size_header hb]
      exact (r.bounds hb).2.2.1
    · rw [r.size_header hb, hheader]
      exact hfooter hfree
  · obtain ⟨b, hb, rfl, -⟩ := hlisted hp
    obtain ⟨d, hd, rfl, -⟩ := hlisted hq
    have r := (w.mirrors (hs.pages_ne hb)).rests
    rw [r.size_header hb, r.size_header hd]
    exact (r.apart hb hd).imp_left (congrArg Piece.payload)

/-- The heap of every session has a ring of free blocks for each main list. -/
lemma Session.Reachable.ringed {s : Session} (hs : s.Reachable) : ∃ main, s.heap.Situated ∧
    Ringed s.heap main ∧ s.heap.FreeBlocks main ∧ ∀ c, s.heap.mainList c = .ok (main c) := by
  obtain ⟨l, k⟩ := hs.has_ledger
  exact ⟨l.main, k.shows.roomy.situated, k.shows.ringed, k.shows.freeBlocks k.sound, k.shows.mainList k.sound⟩

/-- Three blocks of one size are on a list. The second of them is taken out. -/
theorem mainLists_sequences_three : ∃ (h h' : Heap) (main : MainLists), h.Situated ∧ Ringed h main ∧
    main (mainClass 208) = [4944, 4528, 4112] ∧ removeFree 4528 h = .ok ((), h') ∧
    Relists h h' main (Function.update main (mainClass 208) [4944, 4112]) ∧
    h.findFit (mainClass 208) 1 = .ok (some 4944) ∧ h.freeListLen (mainClass 208) = .ok 3 := by
  have hend : (Session.sample.serveAll [.allocate 200, .allocate 200, .allocate 200, .allocate 200,
      .allocate 200, .allocate 200, .release 4112, .release 4528, .release 4944]).map
        (fun x => (x.2.heap.mainList (mainClass 208), (x.2.heap.header 4944).size)) =
          some (.ok [4944, 4528, 4112], 208) := by
    decide +kernel
  obtain ⟨⟨as, s⟩, hs, hrest⟩ := Option.map_eq_some_iff.mp hend
  obtain ⟨hlist, hsize⟩ := Prod.mk.inj hrest
  obtain ⟨main, w, r, -, hmain⟩ := (Session.sample_reachable hs).ringed
  have hthree : main (mainClass 208) = [4944, 4528, 4112] := Except.ok.inj ((hmain (mainClass 208)).symm.trans hlist)
  obtain ⟨-, hremove, hread⟩ := mainLists_sequences w r
  obtain ⟨h', hrun, hrelists⟩ := hremove (mainClass 208) [4944] 4528 [4112] hthree
  obtain ⟨hfit, hlen⟩ := hread (mainClass 208)
  refine ⟨s.heap, h', main, w, r, hthree, hrun, hrelists, ?_, ?_⟩
  · rw [hfit, hthree, List.find?_cons, hsize]
    rfl
  · rw [hlen, hthree]
    rfl

end BoundaryTag
