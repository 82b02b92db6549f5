import BoundaryTag.Proofs.Ledger.Sound
import Mathlib.Data.Set.Basic
import Mathlib.Data.Set.Insert

/-!
Edits of a sound ledger.

Each edit keeps the ledger sound, and its effect on the blocks that clients have is said exactly: a
block freed leaves them, a block cut stays there with fewer bytes, all others stay as they are.
-/

namespace BoundaryTag

open Piece

namespace Ledger

/-- The blocks that clients have. -/
def live (l : Ledger) : Set Piece := {b | b ∈ l.pieces ∧ b.use = .live}

variable {l : Ledger} {b : Piece} {before after : List Piece} {a z : Nat}

lemma mem_live : b ∈ l.live ↔ b ∈ l.pieces ∧ b.use = .live := Iff.rfl

/-- A sound ledger that has a block has pages. -/
lemma Sound.pages_ne (hs : l.Sound) (hb : b ∈ l.pieces) : l.arena.pages ≠ 0 := by
  intro h0
  rw [hs.empty h0] at hb
  cases hb

lemma Sound.tiled (hs : l.Sound) (hb : b ∈ l.pieces) : Tiles l.first l.pieces l.stop :=
  hs.tiles (hs.pages_ne hb)

lemma Sound.pieces_ne_nil (hs : l.Sound) (h0 : l.arena.pages ≠ 0) : l.pieces ≠ [] := by
  intro hnil
  have ht := hs.tiles h0
  rw [hnil] at ht
  have hend : l.first = l.stop := ht
  unfold first stop wordSize pageSize at hend
  omega

lemma Sound.exists_tiles (hs : l.Sound) : ∃ a z, Tiles a l.pieces z := by
  by_cases h0 : l.arena.pages = 0
  · exact ⟨0, 0, hs.empty h0 ▸ rfl⟩
  · exact ⟨_, _, hs.tiles h0⟩

lemma Sound.sizeAt_eq (hs : l.Sound) (hb : b ∈ l.pieces) : l.sizeAt b.payload = b.size := by
  rw [sizeAt, (hs.tiled hb).find?_payload hb]
  rfl

/-- What a block has beyond `need` bytes stays with it if it cannot stand alone. -/
lemma trim_eq_self {need : Nat} (hs : l.Sound) (hb : b ∈ l.pieces) (hrest : b.size - need < minBlock) :
    l.trim b.payload need = l := by
  rw [trim, hs.sizeAt_eq hb, if_neg (Nat.not_le.mpr hrest)]

/-! ### Edits at a block -/

section Located

variable (ht : Tiles a l.pieces z) (hp : l.pieces = before ++ b :: after)

include ht hp

lemma mark_eq (use : Use) :
    l.mark b.payload use = { l with pieces := before ++ [{ b with use }] ++ after } := by
  rw [hp] at ht
  rw [mark, hp, ht.replaceAt_eq]

lemma split_eq (n : Nat) : l.split b.payload n =
    { l with
      pieces := before ++ [{ b with size := n }, ⟨b.payload + n, b.size - n, b.use⟩] ++ after } := by
  rw [hp] at ht
  rw [split, hp, ht.replaceAt_eq]

lemma free_eq : l.free b.payload = l.join before b after := by
  rw [hp] at ht
  have hd := ht.dropWhile_ne
  have hw := ht.takeWhile_ne
  rw [← hp] at hd hw
  unfold free
  rw [hd]
  simp only [hw]

end Located

/-! ### Joining -/

lemma coalesced_append {ps qs : List Piece} : Coalesced (ps ++ qs) ↔
    Coalesced ps ∧ Coalesced qs ∧ ∀ b ∈ ps.getLast?, ∀ c ∈ qs.head?,
      ¬(b.use = .free ∧ c.use = .free) :=
  List.isChain_append

/-- At most one free block stands on either side of a block. -/
lemma length_le_one_of_free {ps : List Piece} (hc : Coalesced ps) (hf : ∀ b ∈ ps, b.isFree) :
    ps.length ≤ 1 := by
  match ps with
  | [] => simp
  | [_] => simp
  | b :: c :: rest =>
    have hb := hf b (by simp)
    have hc' := hf c (by simp)
    have := List.rel_of_isChain_cons_cons hc
    simp only [Piece.isFree, decide_eq_true_eq] at hb hc'
    exact absurd ⟨hb, hc'⟩ this

/-- The parts of the list around a block that is joined with its free neighbours. -/
structure Around (before : List Piece) (after : List Piece) (x left right y : List Piece) : Prop where
  before_eq : before = x ++ left
  after_eq : after = right ++ y
  left_free : ∀ b ∈ left, b.use = .free
  right_free : ∀ b ∈ right, b.use = .free
  x_last : ∀ b ∈ x.getLast?, b.use ≠ .free
  y_head : ∀ b ∈ y.head?, b.use ≠ .free

/-- Only free blocks are merged. -/
lemma Around.not_mem_of_use {before after x left right y : List Piece} {c : Piece}
    (har : Around before after x left right y) (hc : c.use ≠ .free) : c ∉ left ∧ c ∉ right :=
  ⟨fun h => hc (har.left_free c h), fun h => hc (har.right_free c h)⟩

/-- A block that is not free is not merged with the one before it. -/
lemma Around.right_nil {before after x left right y : List Piece} {c : Piece}
    (har : Around before (c :: after) x left right y) (hc : c.use ≠ .free) : right = [] := by
  rcases hright : right with _ | ⟨d, rest⟩
  · rfl
  · have hafter := har.after_eq
    rw [hright, List.cons_append] at hafter
    rw [(List.cons.inj hafter).1] at hc
    exact absurd (har.right_free d (by simp [hright])) hc

/-- The neighbours of a block that is joined: one on each side at most, and on the main lists. -/
lemma Around.neighbours {main : MainLists} {ps x left right y : List Piece}
    (har : Around (x ++ left) (right ++ y) x left right y) (hbefore : Coalesced (x ++ left))
    (hafter : Coalesced (right ++ y)) (hf : Filed main ps) (hsub : left ++ right ⊆ ps) :
    left.length ≤ 1 ∧ right.length ≤ 1 ∧ ∀ d ∈ left ++ right, ∃ c, d.payload ∈ main c := by
  refine ⟨length_le_one_of_free (coalesced_append.mp hbefore).2.1 fun d hd => ?_,
    length_le_one_of_free (coalesced_append.mp hafter).1 fun d hd => ?_, fun d hd => ?_⟩
  · simpa [Piece.isFree] using har.left_free d hd
  · simpa [Piece.isFree] using har.right_free d hd
  · have hfree : d.use = .free := (List.mem_append.mp hd).elim (har.left_free d) (har.right_free d)
    exact ⟨mainClass d.size, (hf.mem _ _).mpr ⟨d, hsub hd, rfl, hfree, rfl⟩⟩

lemma around (before after : List Piece) :
    Around before after (before.rdropWhile isFree) (before.rtakeWhile isFree)
      (after.takeWhile isFree) (after.dropWhile isFree) where
  before_eq := List.rdropWhile_append_rtakeWhile.symm
  after_eq := List.takeWhile_append_dropWhile.symm
  left_free b hb := by simpa [Piece.isFree] using List.mem_rtakeWhile_imp hb
  right_free b hb := by simpa [Piece.isFree] using List.mem_takeWhile_imp hb
  x_last b hb := by
    obtain ⟨hne, rfl⟩ := List.mem_getLast?_eq_getLast hb
    simpa [Piece.isFree] using List.rdropWhile_last_not isFree before hne
  y_head b hb := by
    have := List.head?_dropWhile_not isFree after
    rw [Option.mem_def.mp hb] at this
    simpa [Piece.isFree] using this

/-- A block joined with its neighbours, over the parts of the list. -/
lemma join_eq (l : Ledger) (before : List Piece) (b : Piece) (after : List Piece) :
    ∃ x left right y, Around before after x left right y ∧ l.join before b after =
      { l with
        pieces := x ++ merge left b right :: y
        main := (l.main.without (payloads (left ++ right))).add (merge left b right) } :=
  ⟨_, _, _, _, around before after, rfl⟩

section Join

variable {x left right y : List Piece}

lemma use_merge : (merge left b right).use = .free := rfl

/-- The joined block covers what it is made of. -/
lemma tiles_merge (ht : Tiles a (x ++ left ++ b :: (right ++ y)) z) :
    Tiles a (x ++ merge left b right :: y) z ∧
      (merge left b right).stop = b.stop + total right ∧
      (merge left b right).payload + total left = b.payload := by
  obtain ⟨h1, hs, hm, h2⟩ := tiles_middle.mp ht
  obtain ⟨m, hx, hleft⟩ := tiles_append.mp h1
  obtain ⟨n, hright, hy⟩ := tiles_append.mp h2
  have hl := hleft.stop_eq
  have hr := hright.stop_eq
  have hlm := hleft.total_mod
  have hrm := hright.total_mod
  have hpay : (merge left b right).payload = m := by
    simp only [merge]
    omega
  have hstop : (merge left b right).stop = n := by
    simp only [merge, Piece.stop] at *
    omega
  refine ⟨tiles_middle.mpr ⟨hpay ▸ hx, ?_, ?_, hstop ▸ hy⟩, by omega, by omega⟩
  · simp only [merge]
    omega
  · simp only [merge, alignment] at *
    omega

/-- The free blocks that stay are those that are not merged. -/
lemma mem_rest (ht : Tiles a (x ++ left ++ b :: (right ++ y)) z) {c : Piece} (hcb : c ≠ b) :
    c ∈ x ++ y ↔ c ∈ x ++ left ++ b :: (right ++ y) ∧ c.payload ∉ payloads (left ++ right) := by
  have hnd := ht.nodup
  constructor
  · intro hc
    refine ⟨by simp only [List.mem_append, List.mem_cons] at hc ⊢; tauto, fun hmem => ?_⟩
    obtain ⟨d, hd, hdp⟩ := List.mem_map.mp hmem
    -- the same address in two parts of the list
    simp only [payloads, List.map_append, List.map_cons, List.nodup_append,
      List.nodup_cons, List.mem_append, List.mem_map, List.mem_cons] at hnd hc hd
    grind
  · rintro ⟨hin, hnot⟩
    have hnot' : c ∉ left ∧ c ∉ right := by
      constructor <;> intro hmem <;>
        exact hnot (List.mem_map.mpr ⟨c, by simp [hmem], rfl⟩)
    simp only [List.mem_append, List.mem_cons] at hin ⊢
    tauto

/-- The blocks next to a merged one are not free. -/
lemma coalesced_merge (hc : Coalesced (x ++ left ++ b :: (right ++ y)))
    (har : Around (x ++ left) (right ++ y) x left right y) :
    Coalesced (x ++ merge left b right :: y) := by
  rw [List.append_assoc] at hc
  obtain ⟨hx, hrest, -⟩ := coalesced_append.mp hc
  have hy : Coalesced y := by
    refine hrest.suffix ⟨left ++ b :: right, ?_⟩
    simp
  refine coalesced_append.mpr ⟨hx, List.isChain_cons.mpr ⟨?_, hy⟩, ?_⟩
  · intro c hc hcc
    exact har.y_head c hc hcc.2
  · intro c hc d _ hcc
    exact har.x_last c hc hcc.1

lemma sound_merge (hs : l.Sound) (hp : l.pieces = x ++ left ++ b :: (right ++ y))
    (har : Around (x ++ left) (right ++ y) x left right y) (hb : b.use = .live) :
    Sound { l with
      pieces := x ++ merge left b right :: y
      main := (l.main.without (payloads (left ++ right))).add (merge left b right) } := by
  have hmem : b ∈ l.pieces := by simp [hp]
  have ht := hs.tiled hmem
  rw [hp] at ht
  obtain ⟨htw, -, -⟩ := tiles_merge ht
  have hfree : ∀ c : Piece, c.use = .free →
      (c ∈ x ++ y ↔ c ∈ l.pieces ∧ c.payload ∉ payloads (left ++ right)) := by
    intro c hc
    rw [hp]
    exact mem_rest ht (ne_of_use (by rw [hc, hb]; decide))
  refine ⟨hs.aligned, fun h0 => absurd h0 (hs.pages_ne hmem), fun _ => htw,
    coalesced_merge (hp ▸ hs.coalesced) har, ?_, ?_⟩
  · refine (hs.filed.without hfree).add rfl (fun c hc _ => ?_) fun c _ => ?_
    · rcases List.mem_append.mp hc with hc | hc
      · exact htw.ne_before hc
      · exact htw.ne_after hc
    · simp only [List.mem_append, List.mem_cons]
      tauto
  · refine hs.shelved.congr fun c hc => ?_
    have hside := har.not_mem_of_use (c := c) (by rw [hc]; decide)
    have hcb : c ≠ b := ne_of_use (by rw [hc, hb]; decide)
    have hcw : c ≠ merge left b right := ne_of_use (by rw [hc, use_merge]; decide)
    simp only [hp, List.mem_append, List.mem_cons]
    tauto

lemma live_merge (ht : Tiles a l.pieces z) (hp : l.pieces = x ++ left ++ b :: (right ++ y))
    (har : Around (x ++ left) (right ++ y) x left right y) (main : MainLists) :
    ({ l with pieces := x ++ merge left b right :: y, main } : Ledger).live = l.live \ {b} := by
  rw [hp] at ht
  ext c
  simp only [mem_live, Set.mem_sdiff, Set.mem_singleton_iff, hp, List.mem_append, List.mem_cons]
  constructor
  · rintro ⟨hc, hu⟩
    have hcw : c ≠ merge left b right := ne_of_use (by rw [hu, use_merge]; decide)
    have hcb : c ≠ b := by
      rintro rfl
      rcases hc with hc | hc | hc
      · exact ht.ne_before (by simp [hc]) rfl
      · exact hcw hc
      · exact ht.ne_after (by simp [hc]) rfl
    tauto
  · rintro ⟨⟨hc, hu⟩, hcb⟩
    have hside := har.not_mem_of_use (c := c) (by rw [hu]; decide)
    tauto

end Join

/-- **A block freed** leaves the ledger sound, and all other blocks with their clients. -/
lemma sound_free (hs : l.Sound) (hb : b ∈ l.live) :
    (l.free b.payload).Sound ∧ (l.free b.payload).live = l.live \ {b} := by
  obtain ⟨hmem, hu⟩ := hb
  have ht := hs.tiled hmem
  obtain ⟨before, after, hp⟩ := List.append_of_mem hmem
  obtain ⟨x, left, right, y, har, hj⟩ := join_eq l before b after
  have h1 := har.before_eq
  have h2 := har.after_eq
  subst h1 h2
  rw [free_eq ht hp, hj]
  exact ⟨sound_merge hs hp har hu, live_merge ht hp har _⟩

end Ledger

end BoundaryTag
