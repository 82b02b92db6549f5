import BoundaryTag.Proofs.Ledger.Edits

/-!
Blocks that clients get.

A page more is a free block at the end of the region, so it changes nothing for the clients. A search
that finds a block gives them one of the size asked for, and one that does not leaves them with what
they had.
-/

namespace BoundaryTag

open Piece

namespace Arena

/-- A page is granted where the region ends, or refused. -/
lemma grow_cases (a : Arena) :
    a.grow = (some (a.base + a.pages * pageSize),
      { a with pages := a.pages + 1, requests := a.requests + 1 }) ∧ a.pages < a.supply.limit ∨
    a.grow = (none, { a with requests := a.requests + 1 }) := by
  unfold grow
  split
  · next h =>
    simp only [Bool.and_eq_true, decide_eq_true_eq] at h
    exact .inl ⟨rfl, h.1⟩
  · exact .inr rfl

end Arena

namespace Ledger

variable {l : Ledger} {need : Nat}

/-! ### Growing -/

/-- A refusal leaves the ledger as it is, but for the arena's count of requests. -/
lemma sound_refused (hs : l.Sound) (n : Nat) :
    Sound { l with arena := { l.arena with requests := n } } :=
  ⟨hs.aligned, hs.empty, hs.tiles, hs.coalesced, hs.filed, hs.shelved⟩

lemma Sound.lists_nil (hs : l.Sound) (h0 : l.pieces = []) :
    (∀ c, l.main c = []) ∧ ∀ c, l.quick c = [] := by
  constructor <;> intro c <;> refine List.eq_nil_iff_forall_not_mem.mpr fun p hp => ?_
  · obtain ⟨b, hb, -⟩ := (hs.filed.mem c p).mp hp
    simp [h0] at hb
  · obtain ⟨b, hb, -⟩ := (hs.shelved.mem c p).mp hp
    simp [h0] at hb

/-- A block for the clients behind all others. -/
lemma sound_append {a : Arena} {b : Piece} (hs : l.Sound)
    (halign : a.base % alignment = 0) (hpages : a.pages ≠ 0) (hu : b.use = .live)
    (ht : Tiles (a.base + 2 * wordSize) (l.pieces ++ [b]) (a.base + a.pages * pageSize)) :
    Sound { l with arena := a, pieces := l.pieces ++ [b] } ∧
      ({ l with arena := a, pieces := l.pieces ++ [b] } : Ledger).live = {b} ∪ l.live := by
  refine ⟨⟨halign, fun h0 => absurd h0 hpages, fun _ => ht, ?_, ?_, ?_⟩, ?_⟩
  · refine coalesced_append.mpr ⟨hs.coalesced, List.isChain_singleton _, ?_⟩
    intro c _ d hd hcd
    obtain rfl : b = d := by simpa using hd
    rw [hu] at hcd
    exact absurd hcd.2 (by decide)
  · refine hs.filed.congr fun d hd => ?_
    have hdb : d ≠ b := ne_of_use (by rw [hd, hu]; decide)
    simp [hdb]
  · refine hs.shelved.congr fun d hd => ?_
    have hdb : d ≠ b := ne_of_use (by rw [hd, hu]; decide)
    simp [hdb]
  · ext d
    simp only [mem_live, List.mem_append, List.mem_singleton, Set.mem_union, Set.mem_singleton_iff]
    constructor
    · tauto
    · rintro (rfl | hd)
      · exact ⟨.inr rfl, hu⟩
      · exact ⟨.inl hd.1, hd.2⟩

/-- A block appended and freed again is no matter to the clients. -/
lemma sound_append_free {a : Arena} {b : Piece} (hs : l.Sound)
    (halign : a.base % alignment = 0) (hpages : a.pages ≠ 0) (hu : b.use = .live)
    (ht : Tiles (a.base + 2 * wordSize) (l.pieces ++ [b]) (a.base + a.pages * pageSize)) :
    (free { l with arena := a, pieces := l.pieces ++ [b] } b.payload).Sound ∧
      (free { l with arena := a, pieces := l.pieces ++ [b] } b.payload).live = l.live := by
  obtain ⟨hs1, hl1⟩ := sound_append hs halign hpages hu ht
  obtain ⟨hs2, hl2⟩ := sound_free hs1 (b := b) (by simp [hl1])
  refine ⟨hs2, ?_⟩
  have hnot : b ∉ l.live := fun hb => by
    rw [tiles_append] at ht
    obtain ⟨m, h1, h2, -⟩ := ht
    have h3 := h1.lt_stop hb.1
    have h4 := (h1.bounds hb.1).2.1
    omega
  rw [hl2, hl1, Set.union_sdiff_left, Set.sdiff_singleton_eq_self hnot]

/-- The next page follows the last block. -/
lemma tiles_page (hs : l.Sound) (h0 : l.arena.pages ≠ 0) :
    Tiles (l.arena.base + 2 * wordSize) (l.pieces ++ [⟨l.stop, pageSize, .live⟩])
      (l.arena.base + (l.arena.pages + 1) * pageSize) := by
  refine tiles_append.mpr ⟨_, hs.tiles h0, rfl, show minBlock ≤ pageSize by decide,
    show pageSize % alignment = 0 by decide, ?_⟩
  show l.stop + pageSize = _
  unfold stop pageSize
  omega

/-- The block of the first page stands between two words that are none. -/
lemma tiles_firstPage (hs : l.Sound) (h0 : l.arena.pages = 0) :
    Tiles (l.arena.base + 2 * wordSize)
      (l.pieces ++ [⟨l.arena.base + 2 * wordSize, firstBlock, .live⟩])
      (l.arena.base + 1 * pageSize) := by
  rw [hs.empty h0]
  refine ⟨rfl, show minBlock ≤ firstBlock by decide, show firstBlock % alignment = 0 by decide, ?_⟩
  simp only [Piece.stop, firstBlock, wordSize, pageSize, Tiles]

/-- **A page more**, or the refusal of one, keeps the ledger sound and the clients' blocks. -/
lemma sound_grow (hs : l.Sound) (h0 : l.arena.pages ≠ 0) :
    l.grow.2.Sound ∧ l.grow.2.live = l.live ∧ l.grow.2.arena.pages ≠ 0 := by
  unfold grow
  rcases l.arena.grow_cases with ⟨h, -⟩ | h
  · simp only [h, arena_free]
    obtain ⟨hs1, hl1⟩ := sound_append_free (b := ⟨l.stop, pageSize, .live⟩)
      (a := { l.arena with pages := l.arena.pages + 1, requests := l.arena.requests + 1 }) hs
      hs.aligned (Nat.succ_ne_zero _) rfl (tiles_page hs h0)
    exact ⟨hs1, hl1, Nat.succ_ne_zero _⟩
  · simp only [h]
    exact ⟨sound_refused hs _, rfl, h0⟩

/-- **The first page**, or the refusal of it. -/
lemma sound_setUp (hs : l.Sound) (h0 : l.arena.pages = 0) :
    l.setUp.2.Sound ∧ l.setUp.2.live = l.live ∧
      (l.setUp.1 = true → l.setUp.2.arena.pages ≠ 0) := by
  unfold setUp
  rcases l.arena.grow_cases with ⟨h, -⟩ | h
  · simp only [h, h0, arena_free]
    have hp := hs.empty h0
    obtain ⟨hs1, hl1⟩ := sound_append_free (b := ⟨l.arena.base + 2 * wordSize, firstBlock, .live⟩)
      (a := { l.arena with pages := 0 + 1, requests := l.arena.requests + 1 }) hs
      hs.aligned (Nat.succ_ne_zero _) rfl (tiles_firstPage hs h0)
    rw [hp] at hs1 hl1
    exact ⟨hs1, hl1, fun _ => Nat.succ_ne_zero _⟩
  · simp only [h]
    exact ⟨sound_refused hs _, rfl, fun hf => absurd hf (by decide)⟩

/-! ### Taking a free block -/

section Take

variable {b : Piece} {before after : List Piece}

/-- A block freed with free blocks after it, and no other. -/
lemma join_next {right : List Piece} (l : Ledger) (hbefore : ∀ d ∈ before.getLast?, d.use ≠ .free)
    (hright : ∀ d ∈ right, d.use = .free) (hafter : ∀ d ∈ after.head?, d.use ≠ .free) :
    l.join before b (right ++ after) = { l with
      pieces := before ++ merge [] b right :: after
      main := (l.main.without (payloads right)).add (merge [] b right) } := by
  have hlast : ∀ hne : before ≠ [], ¬ isFree (before.getLast hne) := fun hne => by
    simpa [isFree] using hbefore _ (List.getLast_mem_getLast? hne)
  have hpos : ∀ d ∈ right, isFree d := fun d hd => by simp [isFree, hright d hd]
  have hnext : after.takeWhile isFree = [] ∧ after.dropWhile isFree = after := by
    rcases after with _ | ⟨d, after⟩
    · exact ⟨rfl, rfl⟩
    · have hd : ¬ isFree d := by simpa [isFree] using hafter d rfl
      exact ⟨List.takeWhile_cons_of_neg hd, List.dropWhile_cons_of_neg hd⟩
  simp only [join, List.rtakeWhile_eq_nil_iff.mpr hlast, List.rdropWhile_eq_self_iff.mpr hlast,
    List.takeWhile_append_of_pos hpos, List.dropWhile_append_of_pos hpos, hnext, List.append_nil,
    List.nil_append]

/-- A block freed between blocks that are in use is not merged. -/
lemma join_alone (l : Ledger) (hbefore : ∀ d ∈ before.getLast?, d.use ≠ .free)
    (hafter : ∀ d ∈ after.head?, d.use ≠ .free) :
    l.join before b after = { l with
      pieces := before ++ { b with use := .free } :: after
      main := l.main.add { b with use := .free } } := by
  have hnone : ∀ d ∈ ([] : List Piece), d.use = .free := by simp
  simpa [merge, payloads, MainLists.without_nil] using join_next (b := b) l hbefore hnone hafter

/-- A client's block before one in use, trimmed: the rest is not merged. -/
lemma trim_alone (hs : l.Sound) (hb : b ∈ l.live) (hp : l.pieces = before ++ b :: after)
    (hafter : ∀ d ∈ after.head?, d.use ≠ .free) (hn : minBlock ≤ need) (hmod : need % alignment = 0)
    (hrest : minBlock ≤ b.size - need) : l.trim b.payload need =
      { l with
        pieces := before ++ ⟨b.payload, need, .live⟩ :: ⟨b.payload + need, b.size - need, .free⟩ :: after
        main := l.main.add ⟨b.payload + need, b.size - need, .free⟩ } := by
  obtain ⟨hs1, hl1⟩ := sound_split hs hb hn hrest hmod
  have hsplit : (l.split b.payload need).pieces =
      (before ++ [⟨b.payload, need, .live⟩]) ++ ⟨b.payload + need, b.size - need, .live⟩ :: after := by
    rw [split_eq (hs.tiled hb.1) hp, hb.2]
    simp
  have ht := hs1.tiled (b := ⟨b.payload + need, b.size - need, .live⟩) (by simp [hsplit])
  have hfree := free_eq ht hsplit
  rw [join_alone _ (by simp) hafter] at hfree
  rw [trim, hs.sizeAt_eq hb.1, if_pos hrest, hfree]
  simp [split]

section Whole

variable (hs : l.Sound) (hp : l.pieces = before ++ b :: after) (hu : b.use = .free)

include hs hp hu

/-- No free block is next to a free one. -/
lemma beside_free : (∀ d ∈ before.getLast?, d.use ≠ .free) ∧ ∀ d ∈ after.head?, d.use ≠ .free := by
  have hc := hs.coalesced
  rw [hp] at hc
  obtain ⟨-, hrest, hlast⟩ := coalesced_append.mp hc
  exact ⟨fun d hd hdu => hlast d hd b rfl ⟨hdu, hu⟩,
    fun d hd hdu => (List.isChain_cons.mp hrest).1 d hd ⟨hu, hdu⟩⟩

/-- The ledger with a free block given to a client as a whole. -/
lemma sound_given : ({ l with
      pieces := before ++ { b with use := .live } :: after
      main := l.main.without [b.payload] } : Ledger).Sound ∧
    ∀ need, l.take b.payload need = ({ l with
      pieces := before ++ { b with use := .live } :: after
      main := l.main.without [b.payload] } : Ledger).trim b.payload need := by
  have hmem : b ∈ l.pieces := by simp [hp]
  have hmark := mark_eq (l := { l with main := l.main.without [b.payload] }) (hs.tiled hmem) hp .live
  rw [List.append_assoc, List.singleton_append] at hmark
  obtain ⟨hs1, -⟩ := sound_mark_free hs hmem hu
  rw [hmark] at hs1
  exact ⟨hs1, fun need => congrArg (fun m : Ledger => m.trim b.payload need) hmark⟩

/-- **A free block taken** is cut to what is needed, and the rest goes in front of the list of its class. -/
lemma take_eq (hn : minBlock ≤ need) (hmod : need % alignment = 0) :
    l.take b.payload need = { l with
      pieces := before ++ ({ b with use := .live } : Piece).parts need ++ after
      main := if b.size - need < minBlock then l.main.without [b.payload]
        else (l.main.without [b.payload]).add ⟨b.payload + need, b.size - need, .free⟩ } := by
  obtain ⟨hs1, htake⟩ := sound_given hs hp hu
  have hin : ({ b with use := .live } : Piece) ∈ ({ l with
      pieces := before ++ { b with use := .live } :: after
      main := l.main.without [b.payload] } : Ledger).live := ⟨by simp, rfl⟩
  rw [htake, Piece.parts]
  by_cases hrest : b.size - need < minBlock
  · have hsize := hs1.sizeAt_eq hin.1
    simp only at hsize
    rw [if_pos hrest, if_pos hrest, trim, hsize, if_neg (Nat.not_le.mpr hrest)]
    simp
  · rw [if_neg hrest, if_neg hrest]
    have htrim := trim_alone hs1 hin rfl (beside_free hs hp hu).2 hn hmod (Nat.not_lt.mp hrest)
    simp only at htrim
    rw [htrim]
    simp

end Whole

end Take

/-! ### Searching -/

/-- A block that a search finds is free and large enough. -/
lemma fit?_eq_some {p : Nat} (hs : l.Sound) (h : l.fit? need = some p) :
    ∃ b ∈ l.pieces, b.payload = p ∧ b.use = .free ∧ need ≤ b.size := by
  obtain ⟨c, -, hc⟩ := List.exists_of_findSome?_eq_some h
  have hsize : need ≤ l.sizeAt p := by simpa using List.find?_some hc
  obtain ⟨b, hb, rfl, hu, -⟩ := (hs.filed.mem c p).mp (List.mem_of_find?_eq_some hc)
  obtain ⟨before, after, hp⟩ := List.append_of_mem hb
  rw [hs.sizeAt_eq hb] at hsize
  exact ⟨b, hb, rfl, hu, hsize⟩

/-- What a search for a block may come to, for clients that have the blocks in `live`. -/
def Served (need : Nat) (live : Set Piece) : Option Nat × Ledger → Prop
  | (none, l) => l.Sound ∧ l.live = live
  | (some p, l) => l.Sound ∧ (∃ s, Snug need s ∧ l.live = {⟨p, s, .live⟩} ∪ live) ∧
      ∀ b ∈ live, b.payload ≠ p

lemma serveGrowing_some {p : Nat} (hf : l.fit? need = some p) :
    l.serveGrowing need = (some p, l.take p need) := by
  rw [serveGrowing, hf]

lemma serveGrowing_granted {l' : Ledger} (hf : l.fit? need = none) (hg : l.grow = (true, l')) :
    l.serveGrowing need = l'.serveGrowing need := by
  rw [serveGrowing, hf]
  dsimp only
  split
  · next k hk =>
    rw [hg] at hk
    cases hk
    rfl
  · next k hk =>
    rw [hg] at hk
    cases hk

lemma serveGrowing_refused {l' : Ledger} (hf : l.fit? need = none) (hg : l.grow = (false, l')) :
    l.serveGrowing need = (none, l') := by
  rw [serveGrowing, hf]
  dsimp only
  split
  · next k hk =>
    rw [hg] at hk
    cases hk
  · next k hk =>
    rw [hg] at hk
    cases hk
    rfl

variable (hn : minBlock ≤ need) (hmod : need % alignment = 0)

include hn hmod

lemma served_take {p : Nat} (hs : l.Sound) (h : l.fit? need = some p) :
    Served need l.live (some p, l.take p need) := by
  obtain ⟨b, hb, rfl, hu, hle⟩ := fit?_eq_some hs h
  obtain ⟨hs1, hl1⟩ := sound_take hs hb hu hn hmod hle
  refine ⟨hs1, hl1, fun d hd he => ?_⟩
  obtain rfl := (hs.tiled hb).eq_of_payload hd.1 hb he
  rw [hd.2] at hu
  cases hu

lemma served_growing (l : Ledger) (hs : l.Sound) (h0 : l.arena.pages ≠ 0) :
    Served need l.live (l.serveGrowing need) := by
  -- on the pages that the arena has left
  induction hr : l.arena.room using Nat.strong_induction_on generalizing l with
  | h r ih =>
    rcases hf : l.fit? need with _ | p
    · obtain ⟨hs1, hl1, h1⟩ := sound_grow hs h0
      rcases hg : l.grow with ⟨_ | _, l'⟩ <;> rw [hg] at hs1 hl1 h1
      · rw [serveGrowing_refused hf hg]
        exact ⟨hs1, hl1⟩
      · rw [serveGrowing_granted hf hg, ← hl1]
        exact ih _ (hr ▸ room_grow l hg) l' hs1 h1 rfl
    · rw [serveGrowing_some hf]
      exact served_take hn hmod hs hf

lemma served_serve (hs : l.Sound) (h0 : l.arena.pages ≠ 0) : Served need l.live (l.serve need) := by
  unfold serve
  split
  · exact served_growing hn hmod l hs h0
  · next c hc =>
    split
    · exact served_growing hn hmod l hs h0
    · next p rest hq =>
      obtain ⟨hs1, hl1, hnew⟩ := sound_pop hs hq
      exact ⟨hs1, ⟨quickSize c, .inl (quickClass?_eq_some.mp hc).symm, hl1⟩, hnew⟩

/-- **A search for a block** gives the clients one more block that is snug, or leaves them with what
they have. -/
lemma served_obtainBlock (hs : l.Sound) : Served need l.live (l.obtainBlock need) := by
  unfold obtainBlock
  split
  · next h0 =>
    obtain ⟨hs1, hl1, h1⟩ := sound_setUp hs h0
    split
    · next l' hu =>
      rw [hu] at hs1 hl1 h1
      rw [← hl1]
      exact served_serve hn hmod hs1 (h1 rfl)
    · next l' hu =>
      rw [hu] at hs1 hl1
      exact ⟨hs1, hl1⟩
  · next h0 => exact served_serve hn hmod hs h0

end Ledger

end BoundaryTag
