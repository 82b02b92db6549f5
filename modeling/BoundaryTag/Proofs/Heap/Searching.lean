import BoundaryTag.Proofs.Heap.Following
import BoundaryTag.Proofs.Heap.Growing
import Mathlib.Data.List.Find

/-!
Searching for blocks.

A search along the links of a list finds what the ledger finds in its sequence of blocks, and comes to an
end there because the list is shorter than memory is large. What is found is taken off its list and given
to the client in the heap as in the ledger. A search that asks for pages ends with the pages of the arena.
-/

namespace BoundaryTag

open Heap HeapM Piece

variable {h : Heap} {l : Ledger} {c : Fin mainLists} {need : Nat}

/-! ### Finding -/

lemma Roomy.situated {h : Heap} (r : Roomy h) : h.Situated := by
  by_cases h0 : h.arena.pages = 0
  · have hstop : h.arena.stop = h.arena.start := by rw [Arena.stop, h0, Nat.zero_mul, Nat.add_zero]
    have hbounded := r.bounded
    have hstart : h.arena.start = 0 ∨ h.arena.start = h.arena.base := by
      unfold Arena.start
      split
      · exact .inl (if_pos h0)
      · exact .inr rfl
    refine ⟨?_, ?_, fun x _ _ => by omega⟩
    · rcases hstart with e | e <;> rw [e]
      · rfl
      · exact r.aligned
    · rw [hstop]
      rcases hstart with e | e <;> omega
  · exact (r.grounded h0).situated

lemma Shows.findFit (hs : l.Sound) (w : Shows h l) (c : Fin mainLists) (need : Nat) :
    h.findFit c need = .ok ((l.main c).find? fun p => need ≤ l.sizeAt p) := by
  refine (w.ringed.findFit w.roomy.situated c need).trans (congrArg Except.ok (List.find?_congr fun p hp => ?_))
  obtain ⟨b, hb, rfl, -, -⟩ := (hs.filed.mem c p).mp hp
  rw [(w.legible hs hb).size, hs.sizeAt_eq hb]

lemma Shows.lowestFit (hs : l.Sound) (w : Shows h l) (lists : List (Fin mainLists)) :
    HeapM.lowestFit need lists h =
      .ok (lists.findSome? fun c => (l.main c).find? fun p => need ≤ l.sizeAt p, h) := by
  induction lists with
  | nil => rfl
  | cons c rest ih =>
    rw [HeapM.lowestFit, bind_run (reading_run (w.findFit hs c need)), List.findSome?_cons]
    cases (l.main c).find? fun p => need ≤ l.sizeAt p with
    | none => exact ih
    | some p => rfl

lemma listsFor_eq (need : Nat) : listsFor need = Ledger.classesFor need := by
  unfold listsFor Ledger.classesFor
  generalize mainClass need = c
  revert c
  decide

/-- **The search** of the heap finds what the ledger finds. -/
lemma Shows.fit? (hs : l.Sound) (w : Shows h l) :
    HeapM.lowestFit need (listsFor need) h = .ok (l.fit? need, h) := by
  rw [w.lowestFit hs, listsFor_eq]
  rfl

/-! ### Taking -/

/-- A block found, taken off its list and given to a client. -/
lemma Shows.takeFit {p : Nat} (hs : l.Sound) (w : Shows h l) (hn : minBlock ≤ need)
    (hmod : need % alignment = 0) (hf : l.fit? need = some p) :
    ∃ h', HeapM.takeFit need h = .ok (some p, h') ∧ Shows h' (l.take p need) ∧
      SameOff (Outside l.live) h h' ∧
      Within (fun x => Booked l.pieces x ∨ Booked (l.take p need).pieces x) h h' := by
  obtain ⟨b, hmem, rfl, hu, hle⟩ := Ledger.fit?_eq_some hs hf
  obtain ⟨before, after, hp⟩ := List.append_of_mem hmem
  have ht := hs.tiled hmem
  obtain ⟨r, hlast⟩ := w.mirrors (hs.pages_ne hmem)
  have hin : b.payload ∈ l.main (mainClass b.size) := (hs.filed.mem _ _).mpr ⟨b, hmem, rfl, hu, rfl⟩
  obtain ⟨h1, hrun1, w1, hw1, hlast1⟩ := r.removeFree hin
  obtain ⟨hs2, hl2⟩ := Ledger.sound_mark_free hs hmem hu
  set l2 := Ledger.mark { l with main := l.main.without [b.payload] } b.payload .live with hl2def
  have hp2 : l2.pieces = before ++ { b with use := .live } :: after := by
    rw [hl2def, Ledger.mark_eq (l := { l with main := l.main.without [b.payload] }) ht hp .live]
    simp
  have hfirst : h1.firstPayload = h.firstPayload := by
    rw [firstPayload, hw1.setting.arena]
    rfl
  have hself : ({ b with use := .free } : Piece) = b := by
    rw [← hu]
  have r1 : Rests h1 (before ++ { { b with use := .live } with use := .free } :: after) l2.main := by
    unfold Rests
    rw [hfirst, hself, ← hp]
    exact w1
  rw [hp] at hlast
  obtain ⟨h2, hrun2, m2, hw2⟩ := place_run (b := { b with use := .live }) (u := .free) hs2
    (by simp [hl2]) hp2 r1 (lastIn_after (x := before ++ [b]) (by simpa using hlast) hlast1) hn hmod hle
  have hsub : l.used ⊆ l2.used \ {{ b with use := .live }} := by
    rintro d ⟨hd, hdu⟩
    refine ⟨⟨?_, hdu⟩, ?_⟩
    · rw [hp2, List.append_cons]
      refine (mem_replace (hp ▸ ht)).mpr (.inr ⟨hp ▸ hd, ?_⟩)
      rintro rfl
      exact hdu hu
    · rintro rfl
      have := congrArg Piece.use (ht.eq_of_payload hd hmem rfl)
      rw [hu] at this
      cases this
  have hw : Within (Outside l.used) h h2 :=
    (hw1.mono fun x hx => (r.links_vacant r.listed hx).reserved.outside ht fun d hd => hd).trans
      (hw2.mono fun x hx => (parts_outside hs2 (by simp [hl2]) hp2 hn hmod hx).mono
        (hsub.trans Set.subset_union_right))
  refine ⟨h2, ?_, w.renew hs m2 (Ledger.arena_take ..) (Ledger.quick_trim ..) hw
    fun d hd hdu => ⟨hd, by rw [hdu]; decide⟩, hw.off.mono fun x hx => hx.mono fun d hd => ?_,
    (hw1.mono fun x hx => .inl (Laid.links_booked r.listed hx)).trans (hw2.mono fun x hx => .inr ?_)⟩
  · unfold HeapM.takeFit
    rw [bind_run (w.fit? hs), hf]
    exact (bind_run hrun1).trans ((bind_run hrun2).trans rfl)
  · exact ⟨hd.1, by rw [hd.2]; decide⟩
  · rwa [Ledger.take_eq hs hp hu hn hmod]

lemma Shows.takeFit_none (hs : l.Sound) (w : Shows h l) (hf : l.fit? need = none) :
    HeapM.takeFit need h = .ok (none, h) := by
  unfold HeapM.takeFit
  rw [bind_run (w.fit? hs), hf]
  rfl

/-! ### Growing until a block fits -/

section Serve

variable (hn : minBlock ≤ need) (hmod : need % alignment = 0)

include hn hmod

/-- **A block from the main lists**, with as many pages more as it takes, or as there are. -/
lemma Shows.takeGrowing {room : Nat} (hs : l.Sound) (w : Shows h l) (h0 : l.arena.pages ≠ 0)
    (hroom : l.arena.room ≤ room) :
    ∃ h', HeapM.takeGrowing need room h = .ok ((l.serveGrowing need).1, h') ∧
      Shows h' (l.serveGrowing need).2 ∧ SameOff (Outside l.live) h h' := by
  induction room generalizing l h with
  | zero =>
    unfold HeapM.takeGrowing
    rcases hf : l.fit? need with _ | p
    · obtain ⟨h1, hrun1, w1, hoff1, -⟩ := w.grow hs h0
      have hg : l.grow = (false, l.grow.2) := by
        rcases hgrow : l.grow with ⟨_ | _, l'⟩
        · rfl
        · have := l.room_grow hgrow
          omega
      rw [Ledger.serveGrowing_refused hf hg, bind_run (w.takeFit_none hs hf)]
      exact ⟨h1, (bind_run hrun1).trans rfl, w1, hoff1.mono fun _ => Clear.outside_live⟩
    · obtain ⟨h1, hrun1, w1, hoff1, -⟩ := w.takeFit hs hn hmod hf
      rw [Ledger.serveGrowing_some hf]
      exact ⟨h1, (bind_run hrun1).trans rfl, w1, hoff1⟩
  | succ room ih =>
    unfold HeapM.takeGrowing
    rcases hf : l.fit? need with _ | p
    · obtain ⟨h1, hrun1, w1, hoff1, -⟩ := w.grow hs h0
      replace hoff1 : SameOff (Outside l.live) h h1 := hoff1.mono fun _ => Clear.outside_live
      obtain ⟨hs1, hl1, hp1⟩ := Ledger.sound_grow hs h0
      rw [bind_run (w.takeFit_none hs hf)]
      rcases hgrow : l.grow with ⟨_ | _, l'⟩ <;> rw [hgrow] at hrun1 w1 hs1 hl1 hp1
      · rw [Ledger.serveGrowing_refused hf hgrow]
        exact ⟨h1, (bind_run hrun1).trans rfl, w1, hoff1⟩
      · rw [Ledger.serveGrowing_granted hf hgrow]
        have hless : l'.arena.room < l.arena.room := l.room_grow hgrow
        obtain ⟨h2, hrun2, w2, hoff2⟩ := ih hs1 w1 hp1 (Nat.le_of_lt_succ (hless.trans_le hroom))
        exact ⟨h2, (bind_run hrun1).trans hrun2, w2, hoff1.trans (hl1 ▸ hoff2)⟩
    · obtain ⟨h1, hrun1, w1, hoff1, -⟩ := w.takeFit hs hn hmod hf
      rw [Ledger.serveGrowing_some hf]
      exact ⟨h1, (bind_run hrun1).trans rfl, w1, hoff1⟩

/-- **A block** from the quick list of its size, or from the main lists. -/
lemma Shows.serve (hs : l.Sound) (w : Shows h l) (h0 : l.arena.pages ≠ 0) :
    ∃ h', (do
        if let some list := quickClass? need then
          if let some block ← popQuick list need then return some block
        HeapM.takeGrowing need (← get).arena.room : HeapM (Option Nat)) h =
          .ok ((l.serve need).1, h') ∧
      Shows h' (l.serve need).2 ∧ SameOff (Outside l.live) h h' := by
  have hroom : l.arena.room ≤ h.arena.room := by rw [w.arena]
  have hgrowing := w.takeGrowing hn hmod hs h0 hroom
  unfold Ledger.serve
  rcases hq : quickClass? need with _ | c
  · exact hgrowing
  · obtain rfl := quickClass?_eq_some.mp hq
    dsimp only
    rcases hlist : l.quick c with _ | ⟨p, rest⟩
    · rw [bind_run (w.pop_none hlist)]
      exact hgrowing
    · obtain ⟨h1, hrun1, w1, -, hmem⟩ := w.pop hs hlist
      exact ⟨h1, (bind_run hrun1).trans rfl, w1, fun x _ => by rw [hmem]⟩

/-- **A block, after the first page if that is missing.** -/
lemma Shows.allocateBlock (hs : l.Sound) (w : Shows h l) :
    ∃ h', HeapM.allocateBlock need h = .ok ((l.obtainBlock need).1, h') ∧
      Shows h' (l.obtainBlock need).2 ∧ SameOff (Outside l.live) h h' := by
  unfold HeapM.allocateBlock Ledger.obtainBlock
  rw [bind_run get_run]
  by_cases h0 : l.arena.pages = 0
  · obtain ⟨h1, hrun1, w1, -⟩ := w.setUp hs h0
    obtain ⟨hs1, hl1, hp1⟩ := Ledger.sound_setUp hs h0
    have hoff1 : SameOff (Outside l.live) h h1 := by
      intro x hx
      refine absurd (fun d hd => ?_) hx
      exact absurd h0 (hs.pages_ne hd.1)
    rw [if_pos h0, w.ready_eq_false h0]
    rcases hup : l.setUp with ⟨_ | _, l'⟩ <;> rw [hup] at hrun1 w1 hs1 hl1 hp1
    · exact ⟨h1, (bind_run hrun1).trans rfl, w1, hoff1⟩
    · obtain ⟨h2, hrun2, w2, hoff2⟩ := w1.serve hn hmod hs1 (hp1 rfl)
      exact ⟨h2, (bind_run hrun1).trans hrun2, w2, hoff1.trans (hl1 ▸ hoff2)⟩
  · have hready : h.ready = true := w.ready.mpr h0
    rw [if_neg h0, hready]
    exact w.serve hn hmod hs h0

end Serve

end BoundaryTag
