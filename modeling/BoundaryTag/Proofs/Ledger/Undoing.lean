import BoundaryTag.Proofs.Ledger.Recycling

/-!
Taking and giving back.

A block that is taken from the main lists has no free block next to it but the rest that was split off. Freed,
it is the block that it was, and in front of its list; so the next search finds it again, and takes it as
before. A block that goes on a quick list is the first to leave it.
-/

namespace BoundaryTag

open Piece

namespace Ledger

variable {l l' : Ledger} {n need p : Nat} {b : Piece} {before after : List Piece} {c : Fin quickLists}

/-! ### A block given back to the main lists -/

/-- A free block moved to the front of its list. -/
def refile (l : Ledger) (b : Piece) : Ledger := { l with main := (l.main.without [b.payload]).add b }

/-- A block that is split and put together is what it was. -/
lemma merge_rest (hu : b.use = .free) (hle : need ≤ b.size) :
    merge [] ⟨b.payload, need, .live⟩ [⟨b.payload + need, b.size - need, .free⟩] = b := by
  have hsum : 0 + need + (b.size - need) = b.size := by omega
  simp only [merge, total_cons, total_nil, Nat.add_zero, Nat.sub_zero, hsum, ← hu]

/-- Where a block can be split, no other begins. -/
lemma rest_unlisted (hs : l.Sound) (hmem : b ∈ l.pieces) (hn : minBlock ≤ need)
    (hrest : minBlock ≤ b.size - need) (c : Fin mainLists) : b.payload + need ∉ l.main c := by
  intro hc
  obtain ⟨d, hd, hdp, -⟩ := (hs.filed.mem c _).mp hc
  have hlt := (hs.tiled hd).lt_stop hd
  unfold minBlock at hn hrest
  rcases (hs.tiled hd).apart hmem hd with rfl | h | h
  · omega
  · unfold Piece.stop at h
    omega
  · omega

/-- **What is freed after it was taken** is where it was, and in front of its list. -/
lemma free_take (hs : l.Sound) (hmem : b ∈ l.pieces) (hu : b.use = .free) (hn : minBlock ≤ need)
    (hmod : need % alignment = 0) (hle : need ≤ b.size) :
    (l.take b.payload need).free b.payload = l.refile b := by
  obtain ⟨before, after, hp⟩ := List.append_of_mem hmem
  obtain ⟨hbefore, hafter⟩ := beside_free hs hp hu
  obtain ⟨hs1, -⟩ := sound_take hs hmem hu hn hmod hle
  have htake := take_eq hs hp hu hn hmod
  have hself : ({ b with use := .free } : Piece) = b := by rw [← hu]
  unfold Piece.parts at htake
  by_cases hrest : b.size - need < minBlock
  · rw [if_pos hrest, if_pos hrest] at htake
    have hp1 : (l.take b.payload need).pieces = before ++ { b with use := .live } :: after := by
      simp [htake]
    have hfree := free_eq (hs1.tiled (b := { b with use := .live }) (by simp [hp1])) hp1
    rw [join_alone _ hbefore hafter, hself] at hfree
    simp only at hfree
    rw [hfree, htake, refile, hp]
  · -- the rest is the only free block beside it
    rw [if_neg hrest, if_neg hrest] at htake
    set tail : Piece := ⟨b.payload + need, b.size - need, .free⟩ with htail
    have hp1 : (l.take b.payload need).pieces = before ++ ⟨b.payload, need, .live⟩ :: ([tail] ++ after) := by
      simp [htake]
    have hfree := free_eq (hs1.tiled (b := ⟨b.payload, need, .live⟩) (by simp [hp1])) hp1
    have hnew : ∀ c, tail.payload ∉ l.main.without [b.payload] c := fun c hc =>
      rest_unlisted hs hmem hn (not_lt.mp hrest) c (MainLists.mem_without.mp hc).1
    rw [join_next _ hbefore (by simp [htail]) hafter, merge_rest hu hle] at hfree
    simp only at hfree
    rw [hfree, htake, refile, hp]
    simp only [payloads, List.map_cons, List.map_nil, MainLists.without_add hnew]

/-- The search finds the block again, -/
lemma fit?_refile (hs : l.Sound) (hmem : b ∈ l.pieces) (hf : l.fit? need = some b.payload) :
    (l.refile b).fit? need = some b.payload := by
  obtain ⟨d, hd, hdp, hu, hle⟩ := fit?_eq_some hs hf
  obtain rfl := (hs.tiled hd).eq_of_payload hd hmem hdp
  obtain ⟨lower, c, higher, hclasses, hc, hlower⟩ := List.findSome?_eq_some_iff.mp hf
  obtain ⟨-, rfl⟩ := hs.filed.eq_of_mem (hs.tiled hd) hd (List.mem_of_find?_eq_some hc)
  have hsize : ∀ q, (l.refile d).sizeAt q = l.sizeAt q := fun _ => rfl
  refine List.findSome?_eq_some_iff.mpr ⟨lower, _, higher, hclasses, ?_, fun c hin => ?_⟩
  · have hfront : (l.refile d).main (mainClass d.size) = d.payload :: _ := Function.update_self ..
    rw [hfront]
    exact List.find?_cons_of_pos (by simpa [hsize, hs.sizeAt_eq hd] using hle)
  · -- a lower class has another list, which it was not found on
    have hmiss := hlower c hin
    have hne : c ≠ mainClass d.size := by
      rintro rfl
      rw [hc] at hmiss
      cases hmiss
    have hsame : (l.refile d).main c = l.main c := by
      refine (Function.update_of_ne hne ..).trans (MainLists.without_eq_self fun hin => hne ?_)
      exact (hs.filed.eq_of_mem (hs.tiled hd) hd hin).2.symm
    rw [hsame]
    exact hmiss

/-- and takes it as before. -/
lemma take_refile (l : Ledger) (b : Piece) (need : Nat) :
    (l.refile b).take b.payload need = l.take b.payload need := by
  have hnew : ∀ c, b.payload ∉ l.main.without [b.payload] c := fun c hc =>
    (MainLists.mem_without.mp hc).2 (List.mem_singleton_self _)
  rw [take, take, refile, MainLists.without_add hnew]

/-! ### On a quick list -/

/-- **A block put on a quick list** is the first to be taken off it. -/
lemma serve_push (hs : l.Sound) (hb : b ∈ l.live) :
    (l.push c b.payload).serve (quickSize c) = (some b.payload, l) := by
  have ht := hs.tiled hb.1
  obtain ⟨before, after, hp⟩ := List.append_of_mem hb.1
  have hself : ({ b with use := .live } : Piece) = b := by rw [← hb.2]
  have hlist : (l.push c b.payload).quick c = b.payload :: l.quick c := Function.update_self ..
  obtain ⟨d, hd, hlist', hserve⟩ := serve_quick (quickFor_quickSize.trans hlist)
  obtain rfl := quickSize_inj hd
  rw [hserve]
  have hpush : (l.push c b.payload).pieces = before ++ { b with use := .quick } :: after := by
    rw [push, mark_eq ht hp .quick]
    simp
  have ht' : Tiles l.first (l.push c b.payload).pieces l.stop := by
    rw [hpush]
    exact tiles_remark (hp ▸ ht)
  have hmark := mark_eq (b := { b with use := .quick }) ht' hpush .live
  rw [hmark]
  simp only [push, Function.update_idem, Function.update_eq_self, hself, List.append_assoc,
    List.singleton_append, ← hp]
  rfl

/-! ### Where a block comes from -/

/-- A block from the main lists was found when there were pages enough. -/
lemma obtained_growing (l : Ledger) (hs : l.Sound) (h0 : l.arena.pages ≠ 0)
    (e : l.serveGrowing need = (some p, l')) :
    ∃ k : Ledger, k.Sound ∧ k.quick = l.quick ∧ k.fit? need = some p ∧ l' = k.take p need := by
  -- on the pages that the arena has left
  induction hr : l.arena.room using Nat.strong_induction_on generalizing l with
  | h r ih =>
    rcases hf : l.fit? need with _ | q
    · obtain ⟨hs1, -, h1⟩ := sound_grow hs h0
      have hquick := quick_grow (l := l)
      rcases hg : l.grow with ⟨_ | _, l1⟩ <;> rw [hg] at hs1 h1 hquick
      · rw [serveGrowing_refused hf hg] at e
        cases e
      · rw [serveGrowing_granted hf hg] at e
        obtain ⟨k, hk⟩ := ih _ (hr ▸ room_grow l hg) l1 hs1 h1 e rfl
        exact ⟨k, hk.1, hk.2.1.trans hquick, hk.2.2⟩
    · rw [serveGrowing_some hf] at e
      cases e
      exact ⟨l, hs, rfl, hf, rfl⟩

/-- A block came off the quick list of its size, or that was empty and it was found on the main lists. -/
inductive Came (need p : Nat) (l' : Ledger) : Prop
  | quick (k : Ledger) (c : Fin quickLists) (rest : List Nat) (hs : k.Sound) (hneed : need = quickSize c)
    (hq : k.quick c = p :: rest) (he : l' = { k.mark p .live with quick := Function.update k.quick c rest })
  | main (k : Ledger) (hs : k.Sound) (hq : k.quickFor need = [])
    (hf : k.fit? need = some p) (he : l' = k.take p need)

lemma came_serve (hs : l.Sound) (h0 : l.arena.pages ≠ 0) (e : l.serve need = (some p, l')) : Came need p l' := by
  rcases hq : l.quickFor need with _ | ⟨q, rest⟩
  · rw [serve_of_quick_nil hq] at e
    obtain ⟨k, hk, hquick, hf, he⟩ := obtained_growing l hs h0 e
    exact .main k hk ((quickFor_congr hquick).trans hq) hf he
  · obtain ⟨c, hneed, hlist, hserve⟩ := serve_quick hq
    cases e.symm.trans hserve
    exact .quick l c rest hs hneed hlist rfl

lemma came_obtainBlock (hs : l.Sound) (e : l.obtainBlock need = (some p, l')) : Came need p l' := by
  unfold obtainBlock at e
  split at e
  · next h0 =>
    obtain ⟨hs1, -, h1⟩ := sound_setUp hs h0
    split at e
    · next l1 hup =>
      rw [hup] at hs1 h1
      exact came_serve hs1 (h1 rfl) e
    · cases e
  · next h0 => exact came_serve hs h0 e

/-! ### A block given back and taken again -/

/-- The quick list of the size that was needed has room for the block. -/
lemma Came.room (k : Came (quickSize c) p l') : (l'.quick c).length < quickDepth := by
  rcases k with ⟨k, d, rest, hs, hneed, hq, rfl⟩ | ⟨k, hs, hq, hf, rfl⟩
  · obtain rfl := quickSize_inj hneed
    have hlen := hs.shelved.length_le c
    rw [hq, List.length_cons] at hlen
    simpa using Nat.lt_of_succ_le hlen
  · rw [quickFor_quickSize] at hq
    rw [quick_take, hq]
    decide

/-- A block that goes on no quick list, for which it is too large, was found on the main lists. -/
lemma Came.free (k : Came need b.payload l') (hn : minBlock ≤ need) (hmod : need % alignment = 0)
    (hb : b ∈ l'.live) (hlarge : quickClass? b.size = none) :
    (l'.free b.payload).quickFor need = [] ∧ (l'.free b.payload).fit? need = some b.payload ∧
      (l'.free b.payload).take b.payload need = l' := by
  rcases k with ⟨k, c, rest, hs, hneed, hq, rfl⟩ | ⟨k, hs, hq, hf, rfl⟩
  · -- what comes off a quick list is as small as its list
    obtain ⟨hs1, hl1, -⟩ := sound_pop hs hq
    have hin : (⟨b.payload, quickSize c, .live⟩ : Piece) ∈
        ({ k.mark b.payload .live with quick := Function.update k.quick c rest } : Ledger).live :=
      hl1 ▸ .inl rfl
    rw [(hs1.tiled hb.1).eq_of_payload hb.1 hin.1 rfl, quickClass?_quickSize] at hlarge
    cases hlarge
  · obtain ⟨d, hd, hdp, hu, hle⟩ := fit?_eq_some hs hf
    rw [← hdp] at hf ⊢
    rw [free_take hs hd hu hn hmod hle]
    exact ⟨(quickFor_congr rfl).trans hq, fit?_refile hs hd hf, take_refile k d need⟩

/-- **What was given is given again after it was handed back**, and the ledger is as it was: if the block has
the size that was needed, or is too large for the quick lists. -/
lemma obtainBlock_release (hs : l.Sound) (hn : minBlock ≤ need) (hmod : need % alignment = 0)
    (e : l.obtainBlock need = (some b.payload, l')) (hb : b ∈ l'.live)
    (hsize : b.size = need ∨ maxQuickBlock < b.size) :
    (∀ c, quickClass? b.size = some c → (l'.quick c).length < quickDepth) ∧
      ((l'.release b.payload).quickFor need ≠ [] ∨ ∃ q, (l'.release b.payload).fit? need = some q) ∧
      (l'.release b.payload).obtainBlock need = (some b.payload, l') := by
  have hs' : l'.Sound := by
    have hserved := served_obtainBlock hn hmod hs
    rw [e] at hserved
    exact hserved.1
  have k := came_obtainBlock hs e
  have h0 := hs'.pages_ne hb.1
  have hbs := (hs'.tiled hb.1).bounds hb.1
  rw [release_eq hs' hb]
  rcases hq : quickClass? b.size with _ | c
  · obtain ⟨hnil, hfit, htake⟩ := k.free hn hmod hb hq
    have hpages : (l'.free b.payload).arena.pages ≠ 0 := by rwa [arena_free]
    refine ⟨by simp, .inr ⟨_, hfit⟩, ?_⟩
    · dsimp only
      rw [obtainBlock, if_neg hpages, serve_of_quick_nil hnil, serveGrowing_some hfit, htake]
  · obtain hc := quickClass?_eq_some.mp hq
    have hneed : need = quickSize c := by
      rcases hsize with h | h
      · rw [← h, hc]
      · rw [(quickClass?_eq_none hbs.2.2.1 hbs.2.2.2).mpr h] at hq
        cases hq
    subst hneed
    have hroom := k.room
    refine ⟨fun d hd => ?_, .inl ?_, ?_⟩
    · cases hd
      exact hroom
    · dsimp only
      rw [if_neg hroom.ne, quickFor_quickSize]
      simp [push]
    · dsimp only
      rw [if_neg hroom.ne, obtainBlock, if_neg (show (l'.push c b.payload).arena.pages ≠ 0 from h0)]
      exact serve_push hs' hb

end Ledger

end BoundaryTag
