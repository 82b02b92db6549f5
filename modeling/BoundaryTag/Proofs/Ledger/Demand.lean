import BoundaryTag.Proofs.Ledger.Alike
import BoundaryTag.Proofs.Ledger.Fitting

/-!
Pages that are asked for.

A search that finds no block needs pages until the free block at the end of the region is large enough.
Each page makes this block longer and no other, so their number is known before the first of them is asked
for. No more are asked for, and the search fails if one of them is refused. Nothing but such searches has to
do with the arena.
-/

namespace BoundaryTag

open Piece

namespace Arena

/-- The next `n` requests for a page are all granted. -/
def Grants (a : Arena) (n : Nat) : Prop := ∀ i < n, (a.after i).grow.1 ≠ none

variable {a : Arena} {n : Nat}

lemma grants_zero : a.Grants 0 := fun _ h => absurd h (Nat.not_lt_zero _)

lemma grants_succ : a.Grants (n + 1) ↔ a.grow.1 ≠ none ∧ a.grow.2.Grants n := by
  constructor
  · exact fun h => ⟨h 0 (Nat.succ_pos n), fun i hi => h (i + 1) (Nat.succ_lt_succ hi)⟩
  · rintro ⟨h0, hn⟩ (_ | i) hi
    · exact h0
    · exact hn i (Nat.lt_of_succ_lt_succ hi)

lemma after_add (a : Arena) (m n : Nat) : (a.after m).after n = a.after (m + n) := by
  induction m generalizing a with
  | zero => rw [Nat.zero_add, after]
  | succ m ih => rw [Nat.add_right_comm, after, after, ih]

/-- Each page that was handed out was asked for. -/
lemma pages_le_requests_after (h : a.pages ≤ a.requests) (n : Nat) :
    (a.after n).pages ≤ (a.after n).requests := by
  induction n generalizing a with
  | zero => exact h
  | succ n ih =>
    refine ih ?_
    rcases a.grow_cases with ⟨hg, -⟩ | hg <;> rw [hg]
    · exact Nat.succ_le_succ h
    · exact Nat.le_succ_of_le h

lemma pages_after (h : a.Grants n) : (a.after n).pages = a.pages + n := by
  induction n generalizing a with
  | zero => rfl
  | succ n ih =>
    obtain ⟨hgrant, hrest⟩ := grants_succ.mp h
    rw [after, ih hrest, pages_grow, if_pos (Option.isSome_iff_ne_none.mpr hgrant)]
    omega

/-- All requests are granted, or there is a first one that is refused. -/
lemma grants_or_refused (a : Arena) (n : Nat) :
    a.Grants n ∨ ∃ j < n, a.Grants j ∧ (a.after j).grow.1 = none := by
  induction n generalizing a with
  | zero => exact .inl grants_zero
  | succ n ih =>
    by_cases h0 : a.grow.1 = none
    · exact .inr ⟨0, Nat.succ_pos n, grants_zero, h0⟩
    · rcases ih a.grow.2 with h | ⟨j, hj, hg, hr⟩
      · exact .inl (grants_succ.mpr ⟨h0, h⟩)
      · exact .inr ⟨j + 1, Nat.succ_lt_succ hj, grants_succ.mpr ⟨h0, hg⟩, hr⟩

end Arena

/-- Pages that are missing for a block of `need` bytes where `free` bytes are free. -/
def pagesMissing (need free : Nat) : Nat := (need - free + (pageSize - 1)) / pageSize

lemma pagesMissing_of_le {need free : Nat} (h : need ≤ free) : pagesMissing need free = 0 := by
  unfold pagesMissing pageSize
  omega

lemma pagesMissing_succ {need free : Nat} (h : free < need) :
    pagesMissing need free = pagesMissing need (free + pageSize) + 1 := by
  unfold pagesMissing pageSize
  omega

namespace Ledger

/-- The bytes of the block at the end of the region, if it is free. -/
def tail (l : Ledger) : Nat := total (l.pieces.rtakeWhile isFree)

variable {l l' : Ledger} {need : Nat}

/-- The block at the end is free for itself: the one before it is in use. -/
lemma rtakeWhile_eq (hs : l.Sound) : l.pieces.rtakeWhile isFree = [] ∨
    ∃ b, l.pieces.rtakeWhile isFree = [b] ∧ b ∈ l.pieces ∧ b.use = .free := by
  have har := around l.pieces []
  have hsplit := har.before_eq
  have hc := hs.coalesced
  rw [hsplit] at hc
  have hlen := length_le_one_of_free (coalesced_append.mp hc).2.1 fun b hb => by
    simpa [isFree] using har.left_free b hb
  rcases hleft : l.pieces.rtakeWhile isFree with _ | ⟨b, _ | ⟨c, rest⟩⟩
  · exact .inl rfl
  · rw [hleft] at har hsplit
    have hb : b ∈ l.pieces := by
      rw [hsplit]
      exact List.mem_append_right _ (List.mem_singleton_self b)
    exact .inr ⟨b, rfl, hb, har.left_free b (List.mem_singleton_self b)⟩
  · simp [hleft] at hlen

lemma tail_lt (hs : l.Sound) (hpos : 0 < need) (h : ¬ l.Stocks need) : l.tail < need := by
  unfold tail
  rcases rtakeWhile_eq hs with hnil | ⟨b, hone, hb, hu⟩
  · rw [hnil]
    exact hpos
  · rw [hone, total_cons, total_nil, Nat.add_zero]
    exact Nat.lt_of_not_ge fun hle => h ⟨b, hb, hu, hle⟩

/-! ### One page -/

/-- One page is asked for, and the answer is the arena's. -/
lemma grow_eq : l.grow.1 = l.arena.grow.1.isSome ∧ l.grow.2.arena = l.arena.after 1 := by
  unfold grow
  rcases l.arena.grow_cases with ⟨h, -⟩ | h
  · rw [h]
    refine ⟨rfl, ?_⟩
    rw [arena_free, Arena.after, h]
    rfl
  · rw [h]
    refine ⟨rfl, ?_⟩
    rw [Arena.after, h]
    rfl

/-- **A page that is granted** makes the free block at the end longer, or is one. -/
lemma grow_pieces (hs : l.Sound) (h0 : l.arena.pages ≠ 0) (hg : l.grow = (true, l')) :
    l'.pieces = l.pieces.rdropWhile isFree ++ [⟨l.stop - l.tail, l.tail + pageSize, .free⟩] ∧
      l'.stop = l.stop + pageSize := by
  unfold grow at hg
  rcases l.arena.grow_cases with ⟨h, -⟩ | h
  · have ht := tiles_page hs h0
    set b : Piece := ⟨l.stop, pageSize, .live⟩ with hb
    set l1 : Ledger := { l with
      arena := { l.arena with pages := l.arena.pages + 1, requests := l.arena.requests + 1 }
      pieces := l.pieces ++ [b] } with hl1
    have hfree : l1.free b.payload = l1.join l.pieces b [] := free_eq ht rfl
    rw [h] at hg
    obtain rfl : l1.free b.payload = l' := (Prod.mk.inj hg).2
    constructor
    · rw [hfree]
      rfl
    · rw [stop, arena_free, stop, Nat.add_mul, Nat.one_mul, Nat.add_assoc]
  · rw [h] at hg
    cases hg

lemma tail_grow (hs : l.Sound) (h0 : l.arena.pages ≠ 0) (hg : l.grow = (true, l')) :
    l'.tail = l.tail + pageSize := by
  obtain ⟨hp, -⟩ := grow_pieces hs h0 hg
  have hnone : (l.pieces.rdropWhile isFree).rtakeWhile isFree = [] := by
    rw [List.rtakeWhile_eq_nil_iff]
    exact fun hne => List.rdropWhile_last_not isFree l.pieces hne
  unfold tail at *
  rw [hp, List.rtakeWhile_concat_pos _ _ _ (by rfl), hnone]
  simp

/-- Where nothing was large enough, only the block at the end can be after a page. -/
lemma mem_grow (hs : l.Sound) (h0 : l.arena.pages ≠ 0) (hg : l.grow = (true, l'))
    (h : ¬ l.Stocks need) {b : Piece} (hb : b ∈ l'.pieces) (hu : b.use = .free) (hle : need ≤ b.size) :
    b = ⟨l.stop - l.tail, l.tail + pageSize, .free⟩ := by
  rw [(grow_pieces hs h0 hg).1] at hb
  rcases List.mem_append.mp hb with hb | hb
  · exact absurd ⟨b, (List.rdropWhile_prefix isFree l.pieces).subset hb, hu, hle⟩ h
  · exact List.mem_singleton.mp hb

/-- The first page is asked for in the same way. -/
lemma setUp_eq : l.setUp.1 = l.arena.grow.1.isSome ∧ l.setUp.2.arena = l.arena.after 1 := by
  unfold setUp
  rcases l.arena.grow_cases with ⟨h, -⟩ | h
  · rw [h]
    refine ⟨rfl, ?_⟩
    rw [arena_free, Arena.after, h]
    rfl
  · rw [h]
    refine ⟨rfl, ?_⟩
    rw [Arena.after, h]
    rfl

/-! ### All pages -/

/-- **A search that finds nothing** asks for the pages that are missing, and for no more. If they are
granted, it gives the block at the end of the region; if one is refused, it fails there. -/
lemma serveGrowing_missing {k : Nat} (hs : l.Sound) (h0 : l.arena.pages ≠ 0) (hpos : 0 < need)
    (h : ¬ l.Stocks need) (hk : pagesMissing need l.tail = k) :
    (l.arena.Grants k → (l.serveGrowing need).1 = some (l.stop - l.tail) ∧
      (l.serveGrowing need).2.arena = l.arena.after k) ∧
    ∀ j < k, l.arena.Grants j → (l.arena.after j).grow.1 = none →
      (l.serveGrowing need).1 = none ∧ (l.serveGrowing need).2.arena = l.arena.after (j + 1) := by
  have hf := (fit?_eq_none_iff hs).mpr h
  -- on the pages that are missing
  induction k generalizing l with
  | zero =>
    rw [pagesMissing_succ (tail_lt hs hpos h)] at hk
    exact absurd hk (Nat.succ_ne_zero _)
  | succ k ih =>
    rw [pagesMissing_succ (tail_lt hs hpos h), Nat.succ.injEq] at hk
    obtain ⟨hfst, harena⟩ := grow_eq (l := l)
    rcases hg : l.grow with ⟨_ | _, l'⟩ <;> rw [hg] at hfst harena
    · -- the first page is refused
      have hrefused : l.arena.grow.1 = none := Option.isNone_iff_eq_none.mp (by simpa using hfst.symm)
      rw [serveGrowing_refused hf hg]
      refine ⟨fun hgrants => absurd hrefused (hgrants 0 (Nat.succ_pos k)), fun j _ hgrants _ => ?_⟩
      obtain rfl : j = 0 := by
        by_contra hj
        exact hgrants 0 (Nat.pos_of_ne_zero hj) hrefused
      exact ⟨rfl, harena⟩
    · have hgrant : l.arena.grow.1 ≠ none := Option.isSome_iff_ne_none.mp hfst.symm
      obtain ⟨hs1, -, h1⟩ := sound_grow hs h0
      rw [hg] at hs1 h1
      obtain ⟨-, hstop⟩ := grow_pieces hs h0 hg
      have htail := tail_grow hs h0 hg
      have hstart : l'.stop - l'.tail = l.stop - l.tail := by omega
      rw [← htail] at hk
      rw [serveGrowing_granted hf hg]
      by_cases hfit : l'.Stocks need
      · -- the page is the last one that is missing
        obtain ⟨b, hb, hu, hle, hserve⟩ := serveGrowing_stocked hs1 hfit
        obtain rfl := mem_grow hs h0 hg h hb hu hle
        obtain rfl : k = 0 := hk ▸ pagesMissing_of_le (htail ▸ hle)
        rw [hserve]
        refine ⟨fun _ => ⟨rfl, (arena_take ..).trans harena⟩, fun j hj _ hrefused => ?_⟩
        obtain rfl : j = 0 := by omega
        exact absurd hrefused hgrant
      · obtain ⟨hall, hsome⟩ := ih hs1 h1 hfit hk ((fit?_eq_none_iff hs1).mpr hfit)
        rw [hstart, harena] at hall
        rw [harena] at hsome
        refine ⟨fun hgrants => hall (Arena.grants_succ.mp hgrants).2, fun j hj hgrants hrefused => ?_⟩
        rcases j with _ | j
        · exact absurd hrefused hgrant
        · exact hsome j (Nat.lt_of_succ_lt_succ hj) (Arena.grants_succ.mp hgrants).2 hrefused

/-! ### Any request -/

/-- The arena was asked for pages, and nothing else became of it. -/
def Asks (l l' : Ledger) : Prop := ∃ n, l'.arena = l.arena.after n

lemma Asks.of_eq (h : l'.arena = l.arena) : l.Asks l' := ⟨0, h⟩

lemma Asks.trans {l'' : Ledger} (h : l.Asks l') (h' : l'.Asks l'') : l.Asks l'' := by
  obtain ⟨m, hm⟩ := h
  obtain ⟨n, hn⟩ := h'
  exact ⟨m + n, by rw [hn, hm, Arena.after_add]⟩

lemma asks_serveGrowing (l : Ledger) (need : Nat) : l.Asks (l.serveGrowing need).2 := by
  -- on the pages that the arena has left
  induction hr : l.arena.room using Nat.strong_induction_on generalizing l with
  | h r ih =>
    rcases hf : l.fit? need with _ | p
    · have hasks : l.Asks l.grow.2 := ⟨1, grow_eq.2⟩
      rcases hg : l.grow with ⟨_ | _, l'⟩ <;> rw [hg] at hasks
      · rw [serveGrowing_refused hf hg]
        exact hasks
      · rw [serveGrowing_granted hf hg]
        exact hasks.trans (ih _ (hr ▸ room_grow l hg) l' rfl)
    · rw [serveGrowing_some hf]
      exact .of_eq (arena_take p need)

lemma asks_serve (l : Ledger) (need : Nat) : l.Asks (l.serve need).2 := by
  unfold serve
  split
  · exact asks_serveGrowing l need
  · split
    · exact asks_serveGrowing l need
    · exact .of_eq rfl

lemma asks_obtainBlock (l : Ledger) (need : Nat) : l.Asks (l.obtainBlock need).2 := by
  unfold obtainBlock
  split
  · have hasks : l.Asks l.setUp.2 := ⟨1, setUp_eq.2⟩
    rcases hg : l.setUp with ⟨_ | _, l'⟩ <;> rw [hg] at hasks
    · exact hasks
    · exact hasks.trans (asks_serve l' need)
  · exact asks_serve l need

lemma asks_allocate (l : Ledger) (size : Nat) : l.Asks (l.allocate size).2 := by
  unfold allocate
  split
  · exact .of_eq rfl
  · split
    · exact .of_eq rfl
    · next need _ =>
      have hasks := asks_obtainBlock l need
      rcases ho : l.obtainBlock need with ⟨_ | p, l'⟩ <;> rw [ho] at hasks <;> exact hasks

lemma asks_allocateAligned (l : Ledger) (size align : Nat) : l.Asks (l.allocateAligned size align).2 := by
  unfold allocateAligned
  split
  · exact .of_eq rfl
  split
  · exact .of_eq rfl
  split
  · next need padded _ _ =>
    have hasks := asks_obtainBlock l padded
    rcases ho : l.obtainBlock padded with ⟨_ | p, l'⟩ <;> rw [ho] at hasks
    · exact hasks
    · exact hasks.trans (.of_eq ((arena_trim ..).trans (arena_skipTo ..)))
  · exact .of_eq rfl

lemma asks_resize (l : Ledger) (p size : Nat) : l.Asks (l.resize p size).2 := by
  unfold resize
  split
  · exact .of_eq (arena_release p)
  split
  · exact .of_eq rfl
  next need _ =>
  split
  · exact .of_eq (arena_trim p need)
  · have hasks := asks_obtainBlock l need
    rcases ho : l.obtainBlock need with ⟨_ | q, l'⟩ <;> rw [ho] at hasks
    · exact hasks
    · exact hasks.trans (.of_eq (arena_release p))

/-- **Whatever is requested**, the arena is asked for some pages, one after the other. -/
lemma asks_answer (l : Ledger) (r : Request) : l.Asks (l.answer r).2 := by
  cases r with
  | allocate size => exact asks_allocate l size
  | allocateZeroed size => exact asks_allocate l size
  | allocateAligned size align => exact asks_allocateAligned l size align
  | release p => exact .of_eq (arena_release p)
  | resize p size => exact asks_resize l p size
  | write addr byte => exact .of_eq rfl

end Ledger

end BoundaryTag
