import BoundaryTag.Ledger
import Mathlib.Data.List.Chain

/-!
Blocks that cover a stretch without gaps.

`Tiles a ps z` says that the blocks `ps` follow each other from `a` to `z`. They are then apart, and
each is known by its payload alone, so that a block found by its address splits the list in one way.
-/

namespace BoundaryTag

open Piece

/-- The blocks cover the stretch from one address to another, each next to the one before. -/
def Tiles (start : Nat) : List Piece → Nat → Prop
  | [], stop => start = stop
  | b :: rest, stop =>
    b.payload = start ∧ minBlock ≤ b.size ∧ b.size % alignment = 0 ∧ Tiles b.stop rest stop

variable {a m z : Nat} {b c : Piece} {ps qs before after : List Piece}

/-- Blocks with different uses are different. -/
lemma Piece.ne_of_use (h : b.use ≠ c.use) : b ≠ c := fun he => h (congrArg Piece.use he)

/-! ### Totals -/

@[simp] lemma total_nil : total [] = 0 := rfl

@[simp] lemma total_cons : total (b :: ps) = b.size + total ps := by simp [total]

@[simp] lemma total_append : total (ps ++ qs) = total ps + total qs := by simp [total]

/-- One block for another is a change of each block by itself. -/
lemma replaceAt_singleton (p : Nat) (f : Piece → Piece) (ps : List Piece) :
    replaceAt p (fun b => [f b]) ps = ps.map fun b => if b.payload = p then f b else b := by
  induction ps with
  | nil => rfl
  | cons b ps ih =>
    unfold replaceAt at *
    rw [List.flatMap_cons, ih, List.map_cons]
    split <;> rfl

/-! ### Stretches -/

lemma tiles_append : Tiles a (ps ++ qs) z ↔ ∃ m, Tiles a ps m ∧ Tiles m qs z := by
  induction ps generalizing a with
  | nil => simp [Tiles]
  | cons b ps ih =>
    simp only [List.cons_append, Tiles, ih]
    constructor
    · rintro ⟨hp, hs, hm, m, h1, h2⟩
      exact ⟨m, ⟨hp, hs, hm, h1⟩, h2⟩
    · rintro ⟨m, ⟨hp, hs, hm, h1⟩, h2⟩
      exact ⟨hp, hs, hm, m, h1, h2⟩

/-- A stretch splits at each of its blocks. -/
lemma tiles_middle : Tiles a (before ++ b :: after) z ↔
    Tiles a before b.payload ∧ minBlock ≤ b.size ∧ b.size % alignment = 0 ∧
      Tiles b.stop after z := by
  rw [tiles_append]
  constructor
  · rintro ⟨m, h1, hp, hs, hm, h2⟩
    subst hp
    exact ⟨h1, hs, hm, h2⟩
  · rintro ⟨h1, hs, hm, h2⟩
    exact ⟨_, h1, rfl, hs, hm, h2⟩

/-- A block cut in two covers what it did. -/
lemma tiles_cut {n : Nat} {u v : Use} (hb : b.size % alignment = 0) (hn : minBlock ≤ n)
    (hmod : n % alignment = 0) (hrest : minBlock ≤ b.size - n) :
    Tiles b.payload [⟨b.payload, n, u⟩, ⟨b.payload + n, b.size - n, v⟩] b.stop := by
  refine ⟨rfl, hn, hmod, rfl, hrest, ?_, ?_⟩
  · simp only
    unfold alignment at *
    omega
  · show b.payload + n + (b.size - n) = b.payload + b.size
    unfold minBlock at hrest
    omega

namespace Tiles

lemma stop_eq (h : Tiles a ps z) : z = a + total ps := by
  induction ps generalizing a with
  | nil => simpa [Tiles] using h.symm
  | cons b ps ih =>
    obtain ⟨hp, -, -, hr⟩ := h
    have := ih hr
    rw [total_cons]
    unfold Piece.stop at this
    omega

lemma le (h : Tiles a ps z) : a ≤ z := by
  have := h.stop_eq
  omega

/-- The first block begins where all of them begin. -/
lemma head_payload (h : Tiles a ps z) (hb : b ∈ ps.head?) : b.payload = a := by
  obtain ⟨rest, rfl⟩ := List.head?_eq_some_iff.mp hb
  exact h.1

/-- The last block ends where all of them end. -/
lemma stop_last (h : Tiles a ps z) (hb : b ∈ ps.getLast?) : b.stop = z := by
  obtain ⟨before, rfl⟩ := List.getLast?_eq_some_iff.mp hb
  obtain ⟨m, -, -, -, -, hm⟩ := tiles_append.mp h
  exact hm

/-- Each block begins where the one before it ends. -/
lemma isChain (h : Tiles a ps z) : ps.IsChain fun b c => c.payload = b.stop := by
  induction ps generalizing a with
  | nil => exact List.isChain_nil
  | cons b rest ih =>
    refine List.isChain_cons.mpr ⟨fun c hc => ?_, ih h.2.2.2⟩
    cases rest with
    | nil => cases hc
    | cons d rest =>
      obtain rfl : d = c := Option.some.inj hc
      exact h.2.2.2.1

lemma total_mod (h : Tiles a ps z) : total ps % alignment = 0 := by
  induction ps generalizing a with
  | nil => rfl
  | cons b ps ih =>
    obtain ⟨-, -, hm, hr⟩ := h
    have := ih hr
    rw [total_cons]
    unfold alignment at *
    omega

lemma bounds (h : Tiles a ps z) (hb : b ∈ ps) :
    a ≤ b.payload ∧ b.stop ≤ z ∧ minBlock ≤ b.size ∧ b.size % alignment = 0 := by
  obtain ⟨before, after, rfl⟩ := List.append_of_mem hb
  obtain ⟨h1, hs, hm, h2⟩ := tiles_middle.mp h
  exact ⟨h1.le, h2.le, hs, hm⟩

lemma payload_mod (h : Tiles a ps z) (ha : a % alignment = 0) (hb : b ∈ ps) :
    b.payload % alignment = 0 := by
  obtain ⟨before, after, rfl⟩ := List.append_of_mem hb
  obtain ⟨h1, -, -, -⟩ := tiles_middle.mp h
  have hs := h1.stop_eq
  have hm := h1.total_mod
  unfold alignment at *
  omega

lemma pairwise (h : Tiles a ps z) : ps.Pairwise fun b c => b.stop ≤ c.payload := by
  induction ps generalizing a with
  | nil => exact .nil
  | cons b ps ih =>
    obtain ⟨-, -, -, hr⟩ := h
    exact .cons (fun c hc => (hr.bounds hc).1) (ih hr)

/-- Two blocks are the same or apart. -/
lemma apart (h : Tiles a ps z) (hb : b ∈ ps) (hc : c ∈ ps) :
    b = c ∨ b.stop ≤ c.payload ∨ c.stop ≤ b.payload := by
  induction ps generalizing a with
  | nil => cases hb
  | cons d ps ih =>
    obtain ⟨-, -, -, hr⟩ := h
    rcases List.mem_cons.mp hb with rfl | hb' <;> rcases List.mem_cons.mp hc with rfl | hc'
    · exact .inl rfl
    · exact .inr (.inl (hr.bounds hc').1)
    · exact .inr (.inr (hr.bounds hb').1)
    · exact ih hr hb' hc'

lemma lt_stop (h : Tiles a ps z) (hb : b ∈ ps) : b.payload < b.stop := by
  obtain ⟨-, -, hs, -⟩ := h.bounds hb
  unfold Piece.stop minBlock at *
  omega

lemma eq_of_payload (h : Tiles a ps z) (hb : b ∈ ps) (hc : c ∈ ps)
    (he : b.payload = c.payload) : b = c := by
  have h1 := h.lt_stop hb
  have h2 := h.lt_stop hc
  rcases h.apart hb hc with hbc | hbc | hbc
  · exact hbc
  · omega
  · omega

lemma nodup (h : Tiles a ps z) : (payloads ps).Nodup := by
  unfold payloads
  rw [List.Nodup, List.pairwise_map]
  refine h.pairwise.imp_of_mem ?_
  intro b c hb _ hbc
  have := h.lt_stop hb
  omega

lemma ne_before (h : Tiles a (before ++ b :: after) z) (hc : c ∈ before) :
    c.payload ≠ b.payload := by
  obtain ⟨h1, -, -, -⟩ := tiles_middle.mp h
  have hlt := h1.lt_stop hc
  have hle := (h1.bounds hc).2.1
  omega

lemma ne_after (h : Tiles a (before ++ b :: after) z) (hc : c ∈ after) :
    c.payload ≠ b.payload := by
  obtain ⟨-, hs, -, h2⟩ := tiles_middle.mp h
  have hle := (h2.bounds hc).1
  unfold Piece.stop minBlock at *
  omega

/-- Every address of the stretch is in a block. -/
lemma exists_mem (h : Tiles a ps z) {v : Nat} (ha : a ≤ v) (hz : v < z) :
    ∃ b ∈ ps, b.payload ≤ v ∧ v < b.stop := by
  induction ps generalizing a with
  | nil =>
    obtain rfl : a = z := h
    omega
  | cons b ps ih =>
    obtain ⟨hp, -, -, hr⟩ := h
    by_cases hv : v < b.stop
    · exact ⟨b, List.mem_cons_self, hp ▸ ha, hv⟩
    · obtain ⟨c, hc, hcv⟩ := ih hr (by omega)
      exact ⟨c, List.mem_cons_of_mem _ hc, hcv⟩

/-- A change of use moves no block. -/
lemma map (h : Tiles a ps z) (f : Piece → Piece)
    (hf : ∀ b ∈ ps, (f b).payload = b.payload ∧ (f b).size = b.size) : Tiles a (ps.map f) z := by
  induction ps generalizing a with
  | nil => exact h
  | cons b ps ih =>
    obtain ⟨hp, hs, hm, hr⟩ := h
    obtain ⟨ep, es⟩ := hf b List.mem_cons_self
    have hstop : (f b).stop = b.stop := by rw [Piece.stop, Piece.stop, ep, es]
    refine ⟨ep.trans hp, es ▸ hs, es ▸ hm, ?_⟩
    rw [hstop]
    exact ih hr fun c hc => hf c (List.mem_cons_of_mem _ hc)

lemma minBlock_le (h : Tiles a ps z) (hne : ps ≠ []) : minBlock ≤ total ps := by
  obtain ⟨b, rest, rfl⟩ := List.exists_cons_of_ne_nil hne
  rw [total_cons]
  exact h.2.1.trans (Nat.le_add_right _ _)

/-! ### Blocks by address -/

lemma takeWhile_ne (h : Tiles a (before ++ b :: after) z) :
    (before ++ b :: after).takeWhile (·.payload ≠ b.payload) = before := by
  rw [List.takeWhile_append_of_pos fun c hc => by simpa using h.ne_before hc]
  simp

lemma dropWhile_ne (h : Tiles a (before ++ b :: after) z) :
    (before ++ b :: after).dropWhile (·.payload ≠ b.payload) = b :: after := by
  rw [List.dropWhile_append_of_pos fun c hc => by simpa using h.ne_before hc]
  simp

lemma find?_payload (h : Tiles a ps z) (hb : b ∈ ps) :
    ps.find? (·.payload = b.payload) = some b := by
  obtain ⟨before, after, rfl⟩ := List.append_of_mem hb
  have hnone : before.find? (·.payload = b.payload) = none :=
    List.find?_eq_none.mpr fun c hc => by simpa using h.ne_before hc
  rw [List.find?_append, hnone]
  simp

lemma replaceAt_eq (h : Tiles a (before ++ b :: after) z) (f : Piece → List Piece) :
    replaceAt b.payload f (before ++ b :: after) = before ++ f b ++ after := by
  have keep : ∀ cs : List Piece, (∀ c ∈ cs, c.payload ≠ b.payload) →
      replaceAt b.payload f cs = cs := by
    intro cs hcs
    induction cs with
    | nil => rfl
    | cons c cs ih =>
      have hc := hcs c List.mem_cons_self
      have hr := ih fun d hd => hcs d (List.mem_cons_of_mem _ hd)
      unfold replaceAt at hr ⊢
      rw [List.flatMap_cons, if_neg hc, hr]
      rfl
  have h1 := keep before fun c hc => h.ne_before hc
  have h2 := keep after fun c hc => h.ne_after hc
  unfold replaceAt at *
  rw [List.flatMap_append, List.flatMap_cons, if_pos rfl, h1, h2, List.append_assoc]

end Tiles

end BoundaryTag
