import BoundaryTag.Proofs.Growth

/-!
Blocks that are used again.

A block that comes back serves a request for as much again, if it goes where the search for such a block
looks. A block that is sixteen bytes larger than needed goes on a quick list where it does not, if it is
small. Then the request is served from what else there is, or takes a page.
-/

namespace BoundaryTag

open Heap Piece

/-- A block of `size` bytes that comes back, or what else there is, serves a request for a block of `need`
bytes, where `bs` are all blocks and `quick` those on the quick list of its size. It must be exactly as
large, or too large for a quick list, or its quick list is full and therefore flushed. -/
def Reusable (need size : Nat) (bs : List BlockInfo) (quick : List Nat) : Prop :=
  size = need ∨ maxQuickBlock < size ∨ Offers need bs ∨ quick.length = quickDepth

instance (need size : Nat) (bs : List BlockInfo) (quick : List Nat) :
    Decidable (Reusable need size bs quick) :=
  inferInstanceAs (Decidable (_ ∨ _ ∨ _ ∨ _))

namespace Session

/-- There is a block at `p`, and no client holds it. -/
def Idle (s : Session) (p : Nat) : Prop :=
  ¬ s.holds p ∧ ∃ bs, s.heap.blocks = .ok bs ∧ ∃ b ∈ bs, b.payload = p

/-- A request for `n` bytes is served with a block that is there. -/
def Reuses (s : Session) (n : Nat) : Prop :=
  ∃ q t, s.step (.allocate n) = .ok (.ok (some q), t) ∧ s.Idle q ∧ t.heap.arena = s.heap.arena

/-- A request for `n` bytes takes one page, and fails if it does not get it. -/
structure TakesPage (s : Session) (n : Nat) : Prop where
  granted : s.heap.arena.grow.1 ≠ none → ∃ q t, s.step (.allocate n) = .ok (.ok (some q), t) ∧
    t.heap.arena = s.heap.arena.after 1 ∧ t.heap.arena.pages = s.heap.arena.pages + 1
  refused : s.heap.arena.grow.1 = none → ∃ t, s.step (.allocate n) = .ok (.error (.outOfMemory n), t) ∧
    t.heap.arena = s.heap.arena.after 1

end Session

namespace Ledger

variable {l l' : Ledger} {n need p : Nat} {b : Piece}

lemma allocate_some (h : l.allocate n = (.ok (some p), l')) :
    0 < n ∧ ∃ need, blockSize? n = some need ∧ l.obtainBlock need = (some p, l') := by
  unfold allocate at h
  split at h
  · cases h
  · next hn =>
    split at h
    · cases h
    · next need hneed =>
      split at h <;> cases h
      next ho => exact ⟨Nat.pos_of_ne_zero hn, need, hneed, ho⟩

/-- **What a block that comes back is good for.** The block was given for `need` bytes, so if it is larger,
the quick list of `need` bytes is empty. -/
lemma restocked_iff (hs : l.Sound) (hb : b ∈ l.live) (hle : need ≤ b.size)
    (hexact : b.size = need ∨ l.quickFor need = []) :
    ((l.release b.payload).quickFor need ≠ [] ∨ (l.release b.payload).Stocks need) ↔
      Reusable need b.size (walk true l.pieces) (l.quickFor b.size) := by
  obtain ⟨-, -, hmin, hmod⟩ := (hs.tiled hb.1).bounds hb.1
  have hlarge := quickClass?_eq_none hmin hmod
  unfold Reusable
  rw [offers_walk]
  rcases hq : quickClass? b.size with _ | c
  · -- it is freed, and the request may be served from it
    refine iff_of_true (.inr ?_) (.inr (.inl (hlarge.mp hq)))
    rw [release_eq hs hb, hq]
    exact stocks_free hs hb (.inl hle)
  have hsmall : ¬ maxQuickBlock < b.size := fun h => by
    rw [hlarge.mpr h] at hq
    cases hq
  by_cases hne : b.size = need
  · -- it goes on the quick list where the search begins
    subst hne
    obtain ⟨ps, hps⟩ := quickFor_release_self hs hb hq
    exact iff_of_true (.inl (hps ▸ List.cons_ne_nil _ _)) (.inl rfl)
  · -- it goes on another one
    have hnil := (quickFor_release_of_ne hs hb (Ne.symm hne)).trans (hexact.resolve_left hne)
    have hquick : l.quickFor b.size = l.quick c := by
      rw [quickClass?_eq_some.mp hq, quickFor_quickSize]
    rw [hquick, stocks_release hs hb hq hle]
    tauto

end Ledger

namespace Session

variable {s t : Session} {l : Ledger} {n need p : Nat} {b : Piece}

/-- A request that was served, by the search for its block. -/
lemma Has.given (k : s.Has l) (e : s.step (.allocate n) = .ok (.ok (some p), t)) :
    ∃ need l', 0 < n ∧ blockSize? n = some need ∧ l.obtainBlock need = (some p, l') ∧ t.Has l' := by
  obtain ⟨hans, k', -⟩ := k.of_step (r := .allocate n) trivial e
  rw [Ledger.answer] at hans k'
  obtain ⟨hn, need, hneed, ho⟩ := Ledger.allocate_some (Prod.ext hans.symm rfl)
  exact ⟨need, _, hn, hneed, ho, k'⟩

lemma Has.idle (k : s.Has l) (hb : b ∈ l.pieces) (hu : b.use ≠ .live) : s.Idle b.payload := by
  obtain ⟨i, hi, hp, -⟩ := walk_mem (f := true) hb
  refine ⟨fun hheld => ?_, _, k.shows.blocks k.sound, i, hi, hp⟩
  obtain ⟨c, hc, hcb, hcu⟩ := (k.holds_iff _).mp hheld
  exact hu ((k.sound.tiled hb).eq_of_payload hc hb hcb ▸ hcu)

/-- With a block on the quick list, or a free one that is large enough, a request is served from these. -/
lemma Has.reuses (k : s.Has l) (h0 : l.arena.pages ≠ 0) (hn : 0 < n) (hneed : blockSize? n = some need)
    (h : l.quickFor need ≠ [] ∨ l.Stocks need) : s.Reuses n := by
  have w := k.allots h0 hn hneed
  rcases hq : l.quickFor need with _ | ⟨q, ps⟩
  · obtain ⟨i, hi, hfree, -, t, e, harena⟩ := w.fit hq (offers_walk.mpr (h.resolve_left (not_not.mpr hq)))
    obtain ⟨b, hb, hp, -, halloc⟩ := mem_walk hi
    have hu : b.use = .free := by simpa [hfree, isFree] using halloc
    exact ⟨_, t, e, hp ▸ k.idle hb (by rw [hu]; decide), harena⟩
  · obtain ⟨t, e, -, harena⟩ := w.quick q ps hq
    obtain ⟨c, -, hlist, -⟩ := Ledger.serve_quick hq
    obtain ⟨b, hb, rfl, hu, -⟩ := (k.sound.shelved.mem c q).mp (hlist ▸ List.mem_cons_self)
    exact ⟨_, t, e, k.idle hb (by rw [hu]; decide), harena⟩

/-- Without, it takes a page, if a page is enough. -/
lemma Has.takesPage (k : s.Has l) (h0 : l.arena.pages ≠ 0) (hn : 0 < n) (hneed : blockSize? n = some need)
    (h : ¬ (l.quickFor need ≠ [] ∨ l.Stocks need)) (hpage : need ≤ pageSize) : s.TakesPage n := by
  have w := k.allots h0 hn hneed
  rw [not_or, not_not] at h
  obtain ⟨hq, hnone⟩ := h
  have hoff : ¬ Offers need (walk true l.pieces) := mt offers_walk.mp hnone
  have hone : pagesMissing need ((freeEnd (walk true l.pieces)).elim 0 BlockInfo.size) = 1 := by
    have hpos : 0 < need := lt_of_lt_of_le (by decide) (blockSize?_some hneed).1
    have hlt := Ledger.tail_lt k.sound hpos hnone
    rw [(freeEnd_walk k.sound).1, pagesMissing_succ hlt, pagesMissing_of_le (by omega)]
  constructor
  · intro hgrant
    have hgrants : s.heap.arena.Grants 1 := Arena.grants_succ.mpr ⟨hgrant, Arena.grants_zero⟩
    obtain ⟨t, e, h⟩ := w.growth hq hoff 1 hone hgrants
    exact ⟨_, t, e, h⟩
  · intro hrefused
    have hneeded : pagesNeeded need (l.quickFor need) (walk true l.pieces) = 1 := by
      rw [pagesNeeded, if_neg (by simp [hq, hoff]), hone]
    exact w.refusal 0 (by rw [hneeded]; decide) Arena.grants_zero hrefused

end Session

/-- **What is released can be used again, if its size fits the lists.** In every session that a run ends in,
let a block be given for `n` bytes and released. If it is as large as needed, or too large for a quick list,
or its quick list was full, or another free block is large enough, then a next request for `n` bytes is
served with a block that no client holds, and no page is asked for. Else the request takes exactly one page,
and fails if there is none. -/
theorem reuse_after_release {s t : Session} {n p : Nat} (hs : s.Reachable)
    (e : s.step (.allocate n) = .ok (.ok (some p), t)) :
    ∃ need size bs quick u, blockSize? n = some need ∧ t.heap.blocks = .ok bs ∧
      (∃ b ∈ bs, b.payload = p ∧ b.size = size) ∧ (size = need ∨ size = need + alignment) ∧
      t.heap.quickFor size = .ok quick ∧ t.step (.release p) = .ok (.ok none, u) ∧
      u.heap.arena = t.heap.arena ∧
      if Reusable need size bs quick then u.Reuses n else u.TakesPage n := by
  obtain ⟨l, k⟩ := hs.has_ledger
  obtain ⟨need, l1, hn, hneed, ho, k1⟩ := k.given e
  obtain ⟨hmin, hmod, -⟩ := blockSize?_some hneed
  have hserved := Ledger.served_obtainBlock hmin hmod k.sound
  rw [ho] at hserved
  obtain ⟨-, ⟨size, hsnug, hlive⟩, -⟩ := hserved
  have hb : (⟨p, size, .live⟩ : Piece) ∈ l1.live := hlive ▸ .inl rfl
  obtain ⟨i, hi, hp, hsize, -⟩ := walk_mem (f := true) hb.1
  obtain ⟨u, e', k2, -⟩ := k1.step (r := .release p) (k1.held _ hb)
  have h0 : (l1.release p).arena.pages ≠ 0 := by
    rw [Ledger.arena_release]
    exact k1.sound.pages_ne hb.1
  have hle : need ≤ size := by
    unfold Snug at hsnug
    omega
  have hexact : size = need ∨ l1.quickFor need = [] :=
    (Ledger.exact_or_quick_nil k.sound ho).imp_left fun hmem =>
      congrArg Piece.size ((k1.sound.tiled hb.1).eq_of_payload hb.1 hmem.1 (Eq.refl p))
  have hiff := Ledger.restocked_iff k1.sound hb hle hexact
  refine ⟨need, size, _, _, u, hneed, k1.shows.blocks k1.sound, ⟨i, hi, hp, hsize⟩, hsnug,
    k1.shows.quickFor k1.sound size, e', k1.arena_eq k2 (Ledger.arena_release p), ?_⟩
  split
  · next hreuse => exact k2.reuses h0 hn hneed (hiff.mpr hreuse)
  · next hnot =>
    refine k2.takesPage h0 hn hneed (mt hiff.mp hnot) ?_
    obtain ⟨hne, hsmall, -⟩ := not_or.mp hnot |>.imp_right not_or.mp
    unfold maxQuickBlock pageSize at *
    simp only [minBlock, quickLists, alignment] at *
    omega

/-- Here the last 48 bytes of the arena are given for 24, and released. The next request looks for a block of
32 bytes and finds none. -/
theorem reuse_of_larger_block :
    ∃ s t u : Session, s.step (.allocate 24) = .ok (.ok (some 12240), t) ∧
      t.step (.release 12240) = .ok (.ok none, u) ∧ u.TakesPage 24 := by
  obtain ⟨as, s, hs⟩ := Session.sample_serves [.allocate 8120] (by decide +kernel)
  have hanswer : (s.step (.allocate 24)).map Prod.fst = .ok (.ok (some 12240)) :=
    Session.shown hs (by decide +kernel)
  have hblocks : (s.step (.allocate 24)).bind (·.2.heap.blocks) =
      .ok [⟨4112, 8128, true, true⟩, ⟨12240, 48, true, true⟩] :=
    Session.shown hs (by decide +kernel)
  have hquick : (s.step (.allocate 24)).bind (·.2.heap.quickFor 48) = .ok [] :=
    Session.shown hs (by decide +kernel)
  obtain ⟨t, e⟩ := Session.step_of_answer hanswer
  rw [e] at hblocks hquick
  obtain ⟨need, size, bs, quick, u, hneed, hbs, ⟨b, hb, hp, hsize⟩, -, hq, e', -, h⟩ :=
    reuse_after_release (Session.sample_reachable hs) e
  obtain rfl := Except.ok.inj (hbs.symm.trans hblocks)
  obtain rfl : 32 = need := Option.some.inj ((show blockSize? 24 = some 32 by decide).symm.trans hneed)
  obtain rfl : size = 48 := by
    simp only [List.mem_cons, List.not_mem_nil, or_false] at hb
    rcases hb with rfl | rfl
    · cases hp
    · exact hsize.symm
  obtain rfl := Except.ok.inj (hq.symm.trans hquick)
  rw [if_neg (by decide)] at h
  exact ⟨s, t, u, e, e', h⟩

/-- So it is not true that what is released can always be used again: here the arena has no page left. -/
theorem release_without_reuse :
    ¬ ∀ (s t u : Session) (n p : Nat), s.Reachable → 0 < n → s.step (.allocate n) = .ok (.ok (some p), t) →
      t.step (.release p) = .ok (.ok none, u) → u.Reuses n := by
  intro hreuse
  obtain ⟨as, s, hs⟩ := Session.sample_serves [.allocate 8120] (by decide +kernel)
  have hgiven : (s.step (.allocate 24)).map Prod.fst = .ok (.ok (some 12240)) :=
    Session.shown hs (by decide +kernel)
  have hreleased : ((s.step (.allocate 24)).bind (·.2.step (.release 12240))).map Prod.fst = .ok (.ok none) :=
    Session.shown hs (by decide +kernel)
  have hrefused : (((s.step (.allocate 24)).bind (·.2.step (.release 12240))).bind
      (·.2.step (.allocate 24))).map Prod.fst = .ok (.error (.outOfMemory 24)) :=
    Session.shown hs (by decide +kernel)
  obtain ⟨t, e⟩ := Session.step_of_answer hgiven
  rw [e] at hreleased hrefused
  obtain ⟨u, e'⟩ := Session.step_of_answer hreleased
  rw [Except.bind, e'] at hrefused
  obtain ⟨q, v, e'', -⟩ := hreuse s t u 24 12240 (Session.sample_reachable hs) (by decide) e e'
  rw [Except.bind, e''] at hrefused
  cases hrefused

end BoundaryTag
