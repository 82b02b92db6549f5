import BoundaryTag.Proofs.Ledger.Freeing
import Mathlib.Order.BooleanAlgebra.Set

/-!
The edits that requests are made of.

A block is cut, given to a client, taken from a quick list or put on one. The ledger stays sound, and
the blocks that clients have change by that one block.
-/

namespace BoundaryTag

open Piece

/-- A block cut for a request has just the bytes needed, or sixteen more, which cannot stand alone. -/
def Snug (need size : Nat) : Prop := size = need ∨ size = need + alignment

/-- What a client's block is cut into: the bytes needed, and the rest if that can stand alone. -/
def Piece.parts (b : Piece) (need : Nat) : List Piece :=
  if b.size - need < minBlock then [b] else [⟨b.payload, need, b.use⟩, ⟨b.payload + need, b.size - need, .free⟩]

variable {before after mid : List Piece} {b d : Piece} {a z : Nat}

lemma Piece.tiles_parts {need : Nat} (hsize : minBlock ≤ b.size) (hb : b.size % alignment = 0)
    (hn : minBlock ≤ need) (hmod : need % alignment = 0) : Tiles b.payload (b.parts need) b.stop := by
  unfold parts
  split
  · exact ⟨rfl, hsize, hb, rfl⟩
  · next h => exact tiles_cut hb hn hmod (Nat.not_lt.mp h)

/-! ### One block replaced by others in use -/

lemma tiles_replace (ht : Tiles a (before ++ b :: after) z) (hm : Tiles b.payload mid b.stop) :
    Tiles a (before ++ mid ++ after) z := by
  obtain ⟨h1, -, -, h2⟩ := tiles_middle.mp ht
  exact tiles_append.mpr ⟨_, tiles_append.mpr ⟨_, h1, hm⟩, h2⟩

lemma tiles_remark {u : Use} (ht : Tiles a (before ++ b :: after) z) :
    Tiles a (before ++ { b with use := u } :: after) z := by
  rw [tiles_middle] at ht ⊢
  exact ht

lemma mem_replace (ht : Tiles a (before ++ b :: after) z) :
    d ∈ before ++ mid ++ after ↔ d ∈ mid ∨ (d ∈ before ++ b :: after ∧ d ≠ b) := by
  have h1 : d ∈ before → d ≠ b := by
    rintro hd rfl
    exact ht.ne_before hd rfl
  have h2 : d ∈ after → d ≠ b := by
    rintro hd rfl
    exact ht.ne_after hd rfl
  simp only [List.mem_append, List.mem_cons]
  tauto

/-- Blocks in use separate the free ones. -/
lemma coalesced_replace (hc : Coalesced (before ++ b :: after)) (hne : mid ≠ [])
    (hm : ∀ c ∈ mid, c.use ≠ .free) : Coalesced (before ++ mid ++ after) := by
  obtain ⟨h1, h2, -⟩ := Ledger.coalesced_append.mp hc
  have h2 : Coalesced after := (List.isChain_cons.mp h2).2
  have hmid : Coalesced mid :=
    List.Pairwise.isChain (List.pairwise_of_forall_mem_list fun c hc' d _ hcd => hm c hc' hcd.1)
  refine Ledger.coalesced_append.mpr ⟨Ledger.coalesced_append.mpr ⟨h1, hmid, ?_⟩, h2, ?_⟩
  · intro c _ d hd hcd
    exact hm d (List.mem_of_mem_head? hd) hcd.2
  · intro c hc' d _ hcd
    rw [List.getLast?_append_of_ne_nil _ hne] at hc'
    exact hm c (List.mem_of_mem_getLast? hc') hcd.1

namespace Ledger

variable {l : Ledger} {c : Fin quickLists} {main : MainLists} {quick : Fin quickLists → List Nat}

lemma sound_replace (hs : l.Sound) (hp : l.pieces = before ++ b :: after)
    (ht : Tiles b.payload mid b.stop) (hne : mid ≠ []) (hm : ∀ c ∈ mid, c.use ≠ .free)
    (hf : Filed main (before ++ mid ++ after)) (hq : Shelved quick (before ++ mid ++ after)) :
    Sound { l with pieces := before ++ mid ++ after, main, quick } := by
  have hmem : b ∈ l.pieces := by simp [hp]
  exact ⟨hs.aligned, fun h0 => absurd h0 (hs.pages_ne hmem),
    fun _ => tiles_replace (hp ▸ hs.tiled hmem) ht, coalesced_replace (hp ▸ hs.coalesced) hne hm,
    hf, hq⟩

/-- A block that is given another use, and is not free then. -/
lemma sound_remark {u : Use} (hs : l.Sound) (hp : l.pieces = before ++ b :: after) (hu : u ≠ .free)
    (hf : Filed main (before ++ [{ b with use := u }] ++ after))
    (hq : Shelved quick (before ++ [{ b with use := u }] ++ after)) :
    Sound { l with pieces := before ++ [{ b with use := u }] ++ after, main, quick } := by
  have hmem : b ∈ l.pieces := by simp [hp]
  have hbs := (hs.tiled hmem).bounds hmem
  exact sound_replace hs hp ⟨rfl, hbs.2.2.1, hbs.2.2.2, rfl⟩ (List.cons_ne_nil _ _)
    (by simpa using hu) hf hq

lemma live_replace (ht : Tiles a l.pieces z) (hp : l.pieces = before ++ b :: after) :
    ({ l with pieces := before ++ mid ++ after, main, quick } : Ledger).live =
      {c | c ∈ mid ∧ c.use = .live} ∪ (l.live \ {b}) := by
  rw [hp] at ht
  ext c
  simp only [mem_live, mem_replace ht, hp, Set.mem_union, Set.mem_ofPred_eq, Set.mem_sdiff,
    Set.mem_singleton_iff]
  tauto

/-- A block given to a client joins the clients' blocks. -/
lemma live_give (ht : Tiles a l.pieces z) (hp : l.pieces = before ++ b :: after) (hu : b.use ≠ .live) :
    ({ l with pieces := before ++ [{ b with use := .live }] ++ after, main, quick } : Ledger).live =
      {⟨b.payload, b.size, .live⟩} ∪ l.live := by
  rw [live_replace ht hp]
  have hnot : b ∉ l.live := fun hb => hu hb.2
  rw [Set.sdiff_singleton_eq_self hnot]
  congr 1
  ext c
  simp only [List.mem_singleton, Set.mem_ofPred_eq, Set.mem_singleton_iff]
  exact ⟨fun h => h.1, fun h => ⟨h, by rw [h]⟩⟩

/-- The bookkeeping does not see a client's block that others take the place of. -/
lemma mem_replace_of_use (ht : Tiles a (before ++ b :: after) z) (hb : b.use ≠ d.use)
    (hm : ∀ c ∈ mid, c.use ≠ d.use) :
    d ∈ before ++ mid ++ after ↔ d ∈ before ++ b :: after := by
  rw [mem_replace ht]
  constructor
  · rintro (hd | ⟨hd, -⟩)
    · exact absurd rfl (hm d hd)
    · exact hd
  · intro hd
    refine .inr ⟨hd, ?_⟩
    rintro rfl
    exact hb rfl

/-! ### Cutting -/

/-- A client's block cut in two, both with the client. -/
lemma sound_split {n : Nat} (hs : l.Sound) (hb : b ∈ l.live) (hn : minBlock ≤ n)
    (hr : minBlock ≤ b.size - n) (hmod : n % alignment = 0) :
    (l.split b.payload n).Sound ∧ (l.split b.payload n).live =
      {⟨b.payload, n, .live⟩, ⟨b.payload + n, b.size - n, .live⟩} ∪ (l.live \ {b}) := by
  obtain ⟨hmem, hu⟩ := hb
  have ht := hs.tiled hmem
  have hbs := ht.bounds hmem
  obtain ⟨before, after, hp⟩ := List.append_of_mem hmem
  rw [split_eq ht hp, hu]
  have hmid : Tiles b.payload [⟨b.payload, n, .live⟩, ⟨b.payload + n, b.size - n, .live⟩] b.stop :=
    tiles_cut hbs.2.2.2 hn hmod hr
  have hlive : ∀ c ∈ ([⟨b.payload, n, .live⟩, ⟨b.payload + n, b.size - n, .live⟩] : List Piece),
      c.use = .live := by simp
  have htp := hp ▸ ht
  constructor
  · refine sound_replace hs hp hmid (List.cons_ne_nil _ _)
      (fun c hc => by rw [hlive c hc]; decide) ?_ ?_
    · refine hs.filed.congr fun c hc => ?_
      rw [hp, mem_replace_of_use htp (by rw [hu, hc]; decide)
        fun d hd => by rw [hlive d hd, hc]; decide]
    · refine hs.shelved.congr fun c hc => ?_
      rw [hp, mem_replace_of_use htp (by rw [hu, hc]; decide)
        fun d hd => by rw [hlive d hd, hc]; decide]
  · rw [live_replace ht hp]
    congr 1
    ext c
    simp only [List.mem_cons, List.not_mem_nil, or_false, Set.mem_ofPred_eq, Set.mem_insert_iff,
      Set.mem_singleton_iff]
    constructor
    · exact fun h => h.1
    · intro h
      exact ⟨h, by rcases h with rfl | rfl <;> rfl⟩

@[simp] lemma arena_trim (p need : Nat) : (l.trim p need).arena = l.arena := by
  unfold trim
  split
  · rw [arena_free, arena_split]
  · rfl

@[simp] lemma quick_free (p : Nat) : (l.free p).quick = l.quick := by
  unfold free
  split <;> rfl

@[simp] lemma quick_trim (p need : Nat) : (l.trim p need).quick = l.quick := by
  unfold trim
  split
  · rw [quick_free]
    rfl
  · rfl

/-- **A client's block trimmed** keeps what is needed, and other blocks stay. -/
lemma sound_trim {need : Nat} (hs : l.Sound) (hb : b ∈ l.live) (hn : minBlock ≤ need)
    (hmod : need % alignment = 0) (hle : need ≤ b.size) :
    (l.trim b.payload need).Sound ∧ ∃ s, Snug need s ∧
      (l.trim b.payload need).live = {⟨b.payload, s, .live⟩} ∪ (l.live \ {b}) := by
  obtain ⟨hmem, hu⟩ := id hb
  have ht := hs.tiled hmem
  obtain ⟨before, after, hp⟩ := List.append_of_mem hmem
  have hbs := ht.bounds hmem
  unfold trim
  rw [hs.sizeAt_eq hmem]
  by_cases hrest : minBlock ≤ b.size - need
  · rw [if_pos hrest]
    obtain ⟨hs', hl'⟩ := sound_split hs hb hn hrest hmod
    have hin : (⟨b.payload + need, b.size - need, .live⟩ : Piece) ∈ (l.split b.payload need).live := by
      simp [hl']
    obtain ⟨hsf, hlf⟩ := sound_free hs' hin
    refine ⟨hsf, need, .inl rfl, ?_⟩
    rw [hlf, hl']
    -- the rest is none of the blocks that were there
    have hrest' : ∀ c ∈ l.pieces, c ≠ b → c ≠ ⟨b.payload + need, b.size - need, .live⟩ := by
      rintro c hc hcb rfl
      rcases ht.apart hmem hc with h | h | h
      · exact hcb h.symm
      · simp only [Piece.stop] at h
        unfold minBlock at *
        omega
      · simp only [Piece.stop] at h
        unfold minBlock at *
        omega
    have hne : (⟨b.payload, need, .live⟩ : Piece) ≠ ⟨b.payload + need, b.size - need, .live⟩ := by
      intro h
      have := congrArg Piece.payload h
      unfold minBlock at *
      simp only at this
      omega
    ext c
    simp only [Set.mem_sdiff, Set.mem_union, Set.mem_insert_iff, Set.mem_singleton_iff, mem_live]
    constructor
    · tauto
    · rintro (rfl | ⟨⟨hc, hcu⟩, hcb⟩)
      · exact ⟨.inl (.inl rfl), hne⟩
      · exact ⟨.inr ⟨⟨hc, hcu⟩, hcb⟩, hrest' c hc hcb⟩
  · rw [if_neg hrest]
    refine ⟨hs, b.size, ?_, ?_⟩
    · unfold Snug minBlock alignment at *
      omega
    · have hself : (⟨b.payload, b.size, .live⟩ : Piece) = b := by
        rw [← hu]
      rw [hself, Set.union_sdiff_self, Set.singleton_union, Set.insert_eq_of_mem hb]

/-! ### Giving and taking back -/

/-- A free block marked as a client's. -/
lemma sound_mark_free (hs : l.Sound) (hmem : b ∈ l.pieces) (hu : b.use = .free) :
    (mark { l with main := l.main.without [b.payload] } b.payload .live).Sound ∧
      (mark { l with main := l.main.without [b.payload] } b.payload .live).live =
        {⟨b.payload, b.size, .live⟩} ∪ l.live := by
  have ht := hs.tiled hmem
  obtain ⟨before, after, hp⟩ := List.append_of_mem hmem
  have htp := hp ▸ ht
  rw [mark_eq (l := { l with main := l.main.without [b.payload] }) ht hp .live]
  constructor
  · refine sound_remark (l := l) hs hp (by decide) ?_ ?_
    · refine hs.filed.without fun c hc => ?_
      rw [mem_replace htp, ← hp, List.mem_singleton, List.mem_singleton]
      constructor
      · rintro (rfl | ⟨hcm, hcb⟩)
        · cases hc
        · exact ⟨hcm, fun he => hcb (ht.eq_of_payload hcm hmem he)⟩
      · rintro ⟨hcm, hcb⟩
        refine .inr ⟨hcm, ?_⟩
        rintro rfl
        exact hcb rfl
    · refine hs.shelved.congr fun c hc => ?_
      rw [hp, mem_replace_of_use htp (by rw [hu, hc]; decide) (by simp [hc])]
  · exact live_give ht hp (by rw [hu]; decide)

@[simp] lemma arena_take (p need : Nat) : (l.take p need).arena = l.arena := by
  rw [take, arena_trim]
  rfl

/-- **A free block given to a client** is cut to what is needed, and nothing else changes hands. -/
lemma sound_take {need : Nat} (hs : l.Sound) (hmem : b ∈ l.pieces) (hu : b.use = .free)
    (hn : minBlock ≤ need) (hmod : need % alignment = 0) (hle : need ≤ b.size) :
    (l.take b.payload need).Sound ∧ ∃ s, Snug need s ∧
      (l.take b.payload need).live = {⟨b.payload, s, .live⟩} ∪ l.live := by
  have ht := hs.tiled hmem
  obtain ⟨hsm, hlm⟩ := sound_mark_free hs hmem hu
  have hin : (⟨b.payload, b.size, .live⟩ : Piece) ∈
      (mark { l with main := l.main.without [b.payload] } b.payload .live).live := by
    simp [hlm]
  obtain ⟨hst, s, hsnug, hlt⟩ := sound_trim hsm hin hn hmod hle
  refine ⟨hst, s, hsnug, hlt.trans ?_⟩
  have hnot : (⟨b.payload, b.size, .live⟩ : Piece) ∉ l.live := by
    rintro ⟨hin', -⟩
    have := ht.eq_of_payload hin' hmem rfl
    rw [← this] at hu
    cases hu
  rw [hlm, Set.union_sdiff_left, Set.sdiff_singleton_eq_self hnot]

/-- The newest block of a quick list given to a client. -/
lemma sound_pop {p : Nat} {rest : List Nat} (hs : l.Sound) (hq : l.quick c = p :: rest) :
    Sound { l.mark p .live with quick := Function.update l.quick c rest } ∧
      ({ l.mark p .live with quick := Function.update l.quick c rest } : Ledger).live =
        {⟨p, quickSize c, .live⟩} ∪ l.live ∧ ∀ d ∈ l.live, d.payload ≠ p := by
  have hnd := hs.shelved.nodup c
  rw [hq] at hnd
  obtain ⟨b, hmem, rfl, hu, hsize⟩ := (hs.shelved.mem c p).mp (by simp [hq])
  have ht := hs.tiled hmem
  obtain ⟨before, after, hp⟩ := List.append_of_mem hmem
  have htp := hp ▸ ht
  have hmark : ({ l.mark b.payload .live with quick := Function.update l.quick c rest } : Ledger) =
      { l with pieces := before ++ [{ b with use := .live }] ++ after
               quick := Function.update l.quick c rest } := by
    rw [mark_eq ht hp .live]
  rw [hmark]
  refine ⟨sound_remark hs hp (by decide) ?_ ?_, ?_, ?_⟩
  · refine hs.filed.congr fun d hd => ?_
    rw [hp, mem_replace_of_use htp (by rw [hu, hd]; decide) (by simp [hd])]
  · refine hs.shelved.shrink ht (hq ▸ List.sublist_cons_self _ _) fun d hd => ?_
    rw [mem_replace htp, ← hp, List.mem_singleton, hq]
    constructor
    · rintro (rfl | ⟨hdm, hdb⟩)
      · cases hd
      · refine ⟨hdm, fun hin => ?_⟩
        rcases List.mem_cons.mp hin with he | hin'
        · exact absurd (ht.eq_of_payload hdm hmem he) hdb
        · exact hin'
    · rintro ⟨hdm, hin⟩
      refine .inr ⟨hdm, ?_⟩
      rintro rfl
      exact (List.nodup_cons.mp hnd).1 (hin List.mem_cons_self)
  · rw [← hsize]
    exact live_give ht hp (by rw [hu]; decide)
  · rintro d ⟨hd, hdu⟩ he
    rw [ht.eq_of_payload hd hmem he, hu] at hdu
    cases hdu

/-- A client's block put on the quick list of its size. -/
lemma sound_push (hs : l.Sound) (hb : b ∈ l.live) (hsize : b.size = quickSize c)
    (hlen : (l.quick c).length < quickDepth) :
    (l.push c b.payload).Sound ∧ (l.push c b.payload).live = l.live \ {b} := by
  obtain ⟨hmem, hu⟩ := hb
  have ht := hs.tiled hmem
  obtain ⟨before, after, hp⟩ := List.append_of_mem hmem
  have htp := hp ▸ ht
  have hpush : l.push c b.payload =
      { l with pieces := before ++ [{ b with use := .quick }] ++ after
               quick := Function.update l.quick c (b.payload :: l.quick c) } := by
    rw [push, mark_eq ht hp .quick]
  rw [hpush]
  constructor
  · refine sound_remark hs hp (by decide) ?_ ?_
    · refine hs.filed.congr fun d hd => ?_
      rw [hp, mem_replace_of_use htp (by rw [hu, hd]; decide) (by simp [hd])]
    · refine hs.shelved.add (b := { b with use := .quick }) rfl hsize hlen ?_ fun d hd => ?_
      · rintro d hd hdu he
        rw [ht.eq_of_payload hd hmem he, hu] at hdu
        cases hdu
      · rw [mem_replace htp, ← hp, List.mem_singleton]
        constructor
        · tauto
        · rintro (rfl | hdm)
          · exact .inl rfl
          · exact .inr ⟨hdm, ne_of_use (by rw [hd, hu]; decide)⟩
  · rw [live_replace ht hp]
    ext d
    simp only [List.mem_singleton, Set.mem_union, Set.mem_ofPred_eq, Set.mem_singleton_iff,
      Set.mem_sdiff]
    constructor
    · rintro (⟨rfl, hd⟩ | hd)
      · cases hd
      · exact hd
    · exact .inr

end Ledger

end BoundaryTag
