import BoundaryTag.Proofs.Ledger.Tiling
import Mathlib.Data.List.Nodup

/-!
Sound ledgers.

The blocks of a sound ledger tile its region and no two free ones are next to each other. Every free
block is on the main list of its class and every block marked so is on the quick list of its size, once
each, and the lists hold nothing else. A block freed is joined with its neighbours, which keeps all of
this; so does every edit that a request is made of.
-/

namespace BoundaryTag

open Piece

/-- The main lists hold each free block once, under its class. -/
structure Filed (main : MainLists) (ps : List Piece) : Prop where
  nodup : ∀ c, (main c).Nodup
  mem : ∀ c p, p ∈ main c ↔ ∃ b ∈ ps, b.payload = p ∧ b.use = .free ∧ mainClass b.size = c

/-- The quick lists hold each block that is marked so once, under its size. -/
structure Shelved (quick : Fin quickLists → List Nat) (ps : List Piece) : Prop where
  nodup : ∀ c, (quick c).Nodup
  mem : ∀ c p, p ∈ quick c ↔ ∃ b ∈ ps, b.payload = p ∧ b.use = .quick ∧ b.size = quickSize c
  size : ∀ b ∈ ps, b.use = .quick → ∃ c, b.size = quickSize c
  length_le : ∀ c, (quick c).length ≤ quickDepth

/-- No two free blocks are next to each other. -/
def Coalesced (ps : List Piece) : Prop := ps.IsChain fun b c => ¬(b.use = .free ∧ c.use = .free)

namespace Ledger

/-- Payload of the first block, if there is one. -/
def first (l : Ledger) : Nat := l.arena.base + 2 * wordSize

/-- Where the region ends, if there is a page. -/
def stop (l : Ledger) : Nat := l.arena.base + l.arena.pages * pageSize

structure Sound (l : Ledger) : Prop where
  aligned : l.arena.base % alignment = 0
  empty : l.arena.pages = 0 → l.pieces = []
  tiles : l.arena.pages ≠ 0 → Tiles l.first l.pieces l.stop
  coalesced : Coalesced l.pieces
  filed : Filed l.main l.pieces
  shelved : Shelved l.quick l.pieces

end Ledger

/-! ### Lists -/

section Lists

variable {main : MainLists} {quick : Fin quickLists → List Nat} {ps qs : List Piece} {b : Piece}
  {ds : List Nat}

lemma MainLists.mem_without {c : Fin mainLists} {p : Nat} :
    p ∈ main.without ds c ↔ p ∈ main c ∧ p ∉ ds := by
  simp [MainLists.without]

lemma MainLists.mem_add {c : Fin mainLists} {p : Nat} :
    p ∈ main.add b c ↔ (p = b.payload ∧ mainClass b.size = c) ∨ p ∈ main c := by
  unfold MainLists.add
  by_cases hc : c = mainClass b.size
  · subst hc
    simp
  · rw [Function.update_of_ne hc]
    simp [Ne.symm hc]

lemma MainLists.without_nil : main.without [] = main := by
  funext c
  simp [MainLists.without]

lemma MainLists.without_eq_self {c : Fin mainLists} {p : Nat} (hc : p ∉ main c) :
    main.without [p] c = main c := by
  refine List.filter_eq_self.mpr fun q hq => ?_
  simp only [List.mem_singleton, decide_eq_true_eq]
  rintro rfl
  exact hc hq

/-- A block put in front of its list and taken off again. -/
lemma MainLists.without_add (h : ∀ c, b.payload ∉ main c) : (main.add b).without [b.payload] = main := by
  funext c
  unfold MainLists.add
  by_cases hc : c = mainClass b.size
  · subst hc
    rw [MainLists.without, Function.update_self, List.filter_cons_of_neg (by simp)]
    exact MainLists.without_eq_self (h _)
  · rw [MainLists.without, Function.update_of_ne hc]
    exact MainLists.without_eq_self (h c)

lemma MainLists.without_without (es : List Nat) :
    (main.without ds).without es = main.without (ds ++ es) := by
  funext c
  simp only [MainLists.without, List.filter_filter, List.mem_append, not_or]
  congr 1
  funext p
  simp [Bool.and_comm]

/-- A free block is on the main list of its own class only. -/
lemma Filed.eq_of_mem {a z : Nat} (hf : Filed main ps) (ht : Tiles a ps z) (hb : b ∈ ps)
    {c : Fin mainLists} (h : b.payload ∈ main c) : b.use = .free ∧ mainClass b.size = c := by
  obtain ⟨d, hd, hp, hu, hc⟩ := (hf.mem _ _).mp h
  obtain rfl := ht.eq_of_payload hb hd hp.symm
  exact ⟨hu, hc⟩

/-- The blocks of one use can be looked for in any list that has the same of them. -/
lemma exists_mem_congr {u : Use} {p : Nat} {P : Piece → Prop}
    (h : ∀ b : Piece, b.use = u → (b ∈ qs ↔ b ∈ ps)) :
    (∃ b ∈ ps, b.payload = p ∧ b.use = u ∧ P b) ↔ ∃ b ∈ qs, b.payload = p ∧ b.use = u ∧ P b := by
  refine exists_congr fun b => ⟨?_, ?_⟩
  · rintro ⟨hb, hp, hu, hP⟩
    exact ⟨(h b hu).mpr hb, hp, hu, hP⟩
  · rintro ⟨hb, hp, hu, hP⟩
    exact ⟨(h b hu).mp hb, hp, hu, hP⟩

lemma Filed.congr (hf : Filed main ps) (h : ∀ b : Piece, b.use = .free → (b ∈ qs ↔ b ∈ ps)) :
    Filed main qs :=
  ⟨hf.nodup, fun c p => (hf.mem c p).trans (exists_mem_congr h)⟩

lemma Filed.without (hf : Filed main ps)
    (h : ∀ b : Piece, b.use = .free → (b ∈ qs ↔ b ∈ ps ∧ b.payload ∉ ds)) :
    Filed (main.without ds) qs := by
  refine ⟨fun c => (hf.nodup c).filter _, fun c p => ?_⟩
  rw [MainLists.mem_without, hf.mem]
  constructor
  · rintro ⟨⟨b, hb, rfl, hu, hc⟩, hp⟩
    exact ⟨b, (h b hu).mpr ⟨hb, hp⟩, rfl, hu, hc⟩
  · rintro ⟨b, hb, rfl, hu, hc⟩
    obtain ⟨hb', hp⟩ := (h b hu).mp hb
    exact ⟨⟨b, hb', rfl, hu, hc⟩, hp⟩

lemma Filed.add (hf : Filed main ps) (hb : b.use = .free)
    (hnew : ∀ c ∈ ps, c.use = .free → c.payload ≠ b.payload)
    (h : ∀ c : Piece, c.use = .free → (c ∈ qs ↔ c = b ∨ c ∈ ps)) : Filed (main.add b) qs := by
  refine ⟨fun c => ?_, fun c p => ?_⟩
  · unfold MainLists.add
    by_cases hc : c = mainClass b.size
    · subst hc
      rw [Function.update_self]
      refine List.nodup_cons.mpr ⟨fun hmem => ?_, hf.nodup _⟩
      obtain ⟨d, hd, hp, hu, -⟩ := (hf.mem _ _).mp hmem
      exact hnew d hd hu hp
    · rw [Function.update_of_ne hc]
      exact hf.nodup c
  · rw [MainLists.mem_add, hf.mem]
    constructor
    · rintro (⟨rfl, hc⟩ | ⟨d, hd, hp, hu, hc⟩)
      · exact ⟨b, (h b hb).mpr (.inl rfl), rfl, hb, hc⟩
      · exact ⟨d, (h d hu).mpr (.inr hd), hp, hu, hc⟩
    · rintro ⟨d, hd, hp, hu, hc⟩
      rcases (h d hu).mp hd with rfl | hd'
      · exact .inl ⟨hp.symm, hc⟩
      · exact .inr ⟨d, hd', hp, hu, hc⟩

/-- The sizes that have a quick list. -/
lemma quickClass?_eq_some {n : Nat} {c : Fin quickLists} : quickClass? n = some c ↔ n = quickSize c := by
  constructor
  · intro h
    unfold quickClass? at h
    split at h
    · next hn =>
      have := congrArg Fin.val (Option.some.inj h)
      unfold quickSize minBlock alignment at *
      simp only at this
      omega
    · cases h
  · rintro rfl
    exact quickClass?_quickSize c

lemma quickSize_inj {c c' : Fin quickLists} (h : quickSize c = quickSize c') : c = c' := by
  have := congrArg quickClass? h
  rwa [quickClass?_quickSize, quickClass?_quickSize, Option.some.injEq] at this

/-- A block is on the quick list of its own size only. -/
lemma Shelved.eq_of_mem {a z : Nat} (hq : Shelved quick ps) (ht : Tiles a ps z) (hb : b ∈ ps)
    {c : Fin quickLists} (h : b.payload ∈ quick c) : b.use = .quick ∧ b.size = quickSize c := by
  obtain ⟨d, hd, hp, hu, hs⟩ := (hq.mem _ _).mp h
  obtain rfl := ht.eq_of_payload hb hd hp.symm
  exact ⟨hu, hs⟩

lemma Shelved.congr (hq : Shelved quick ps)
    (h : ∀ b : Piece, b.use = .quick → (b ∈ qs ↔ b ∈ ps)) : Shelved quick qs :=
  ⟨hq.nodup, fun c p => (hq.mem c p).trans (exists_mem_congr h),
    fun b hb hu => hq.size b ((h b hu).mp hb) hu, hq.length_le⟩

/-- A shorter list that keeps exactly the blocks still marked. -/
lemma Shelved.shrink {a z : Nat} (hq : Shelved quick ps) (ht : Tiles a ps z) {c : Fin quickLists}
    {rest : List Nat} (hsub : rest.Sublist (quick c))
    (h : ∀ b : Piece, b.use = .quick →
      (b ∈ qs ↔ b ∈ ps ∧ (b.payload ∈ quick c → b.payload ∈ rest))) :
    Shelved (Function.update quick c rest) qs := by
  refine ⟨fun c' => ?_, fun c' p => ?_, fun b hb hu => hq.size b ((h b hu).mp hb).1 hu,
    fun c' => ?_⟩
  · by_cases hc : c' = c
    · subst hc
      rw [Function.update_self]
      exact (hq.nodup c').sublist hsub
    · rw [Function.update_of_ne hc]
      exact hq.nodup c'
  · by_cases hc : c' = c
    · subst hc
      rw [Function.update_self]
      constructor
      · intro hp
        obtain ⟨b, hb, rfl, hu, hs⟩ := (hq.mem _ _).mp (hsub.mem hp)
        exact ⟨b, (h b hu).mpr ⟨hb, fun _ => hp⟩, rfl, hu, hs⟩
      · rintro ⟨b, hb, rfl, hu, hs⟩
        obtain ⟨hb', hr⟩ := (h b hu).mp hb
        exact hr ((hq.mem _ _).mpr ⟨b, hb', rfl, hu, hs⟩)
    · rw [Function.update_of_ne hc, hq.mem]
      constructor
      · rintro ⟨b, hb, rfl, hu, hs⟩
        refine ⟨b, (h b hu).mpr ⟨hb, fun hin => ?_⟩, rfl, hu, hs⟩
        obtain ⟨-, hs'⟩ := hq.eq_of_mem ht hb hin
        exact absurd (quickSize_inj (hs.symm.trans hs')) hc
      · rintro ⟨b, hb, hp, hu, hs⟩
        exact ⟨b, ((h b hu).mp hb).1, hp, hu, hs⟩
  · by_cases hc : c' = c
    · subst hc
      rw [Function.update_self]
      exact hsub.length_le.trans (hq.length_le c')
    · rw [Function.update_of_ne hc]
      exact hq.length_le c'

/-- One more block in front of the quick list of its size. -/
lemma Shelved.add (hq : Shelved quick ps) {c : Fin quickLists} (hb : b.use = .quick)
    (hs : b.size = quickSize c) (hlen : (quick c).length < quickDepth)
    (hnew : ∀ d ∈ ps, d.use = .quick → d.payload ≠ b.payload)
    (h : ∀ d : Piece, d.use = .quick → (d ∈ qs ↔ d = b ∨ d ∈ ps)) :
    Shelved (Function.update quick c (b.payload :: quick c)) qs := by
  refine ⟨fun c' => ?_, fun c' p => ?_, fun d hd hu => ?_, fun c' => ?_⟩
  · by_cases hc : c' = c
    · subst hc
      rw [Function.update_self]
      refine List.nodup_cons.mpr ⟨fun hmem => ?_, hq.nodup _⟩
      obtain ⟨d, hd, hp, hu, -⟩ := (hq.mem _ _).mp hmem
      exact hnew d hd hu hp
    · rw [Function.update_of_ne hc]
      exact hq.nodup c'
  · have hmem : p ∈ Function.update quick c (b.payload :: quick c) c' ↔
        (p = b.payload ∧ c' = c) ∨ p ∈ quick c' := by
      by_cases hc : c' = c
      · subst hc
        simp
      · simp [hc]
    rw [hmem, hq.mem]
    constructor
    · rintro (⟨rfl, rfl⟩ | ⟨d, hd, hp, hu, hs'⟩)
      · exact ⟨b, (h b hb).mpr (.inl rfl), rfl, hb, hs⟩
      · exact ⟨d, (h d hu).mpr (.inr hd), hp, hu, hs'⟩
    · rintro ⟨d, hd, hp, hu, hs'⟩
      rcases (h d hu).mp hd with rfl | hd'
      · exact .inl ⟨hp.symm, quickSize_inj (hs'.symm.trans hs)⟩
      · exact .inr ⟨d, hd', hp, hu, hs'⟩
  · rcases (h d hu).mp hd with rfl | hd'
    · exact ⟨c, hs⟩
    · exact hq.size d hd' hu
  · by_cases hc : c' = c
    · subst hc
      rw [Function.update_self, List.length_cons]
      omega
    · rw [Function.update_of_ne hc]
      exact hq.length_le c'

/-! ### All lists together -/

section All

variable {a z p n : Nat}

lemma nodup_flatMap_finRange {f : Fin n → List Nat} (h1 : ∀ c, (f c).Nodup)
    (h2 : ∀ c d p, p ∈ f c → p ∈ f d → c = d) : ((List.finRange n).flatMap f).Nodup := by
  refine List.nodup_flatMap.mpr ⟨fun c _ => h1 c, (List.nodup_finRange n).imp fun hne p hc hd => ?_⟩
  exact hne (h2 _ _ p hc hd)

lemma mem_flatMap_finRange {f : Fin n → List Nat} :
    p ∈ (List.finRange n).flatMap f ↔ ∃ c, p ∈ f c := by
  simp

lemma Shelved.nodup_all (hq : Shelved quick ps) (ht : Tiles a ps z) :
    ((List.finRange quickLists).flatMap quick).Nodup := by
  refine nodup_flatMap_finRange hq.nodup fun c d p hc hd => ?_
  obtain ⟨b, hb, rfl, -, hsize⟩ := (hq.mem c p).mp hc
  exact quickSize_inj (hsize.symm.trans (hq.eq_of_mem ht hb hd).2)

lemma Shelved.mem_all (hq : Shelved quick ps) :
    p ∈ (List.finRange quickLists).flatMap quick ↔ ∃ b ∈ ps, b.payload = p ∧ b.use = .quick := by
  rw [mem_flatMap_finRange]
  constructor
  · rintro ⟨c, hc⟩
    obtain ⟨b, hb, hp, hu, -⟩ := (hq.mem c p).mp hc
    exact ⟨b, hb, hp, hu⟩
  · rintro ⟨b, hb, hp, hu⟩
    obtain ⟨c, hsize⟩ := hq.size b hb hu
    exact ⟨c, (hq.mem c p).mpr ⟨b, hb, hp, hu, hsize⟩⟩

lemma Filed.nodup_all (hf : Filed main ps) (ht : Tiles a ps z) :
    ((List.finRange mainLists).flatMap main).Nodup := by
  refine nodup_flatMap_finRange hf.nodup fun c d p hc hd => ?_
  obtain ⟨b, hb, rfl, -, hclass⟩ := (hf.mem c p).mp hc
  exact hclass.symm.trans (hf.eq_of_mem ht hb hd).2

lemma Filed.mem_all (hf : Filed main ps) :
    p ∈ (List.finRange mainLists).flatMap main ↔ ∃ b ∈ ps, b.payload = p ∧ b.use = .free := by
  rw [mem_flatMap_finRange]
  constructor
  · rintro ⟨c, hc⟩
    obtain ⟨b, hb, hp, hu, -⟩ := (hf.mem c p).mp hc
    exact ⟨b, hb, hp, hu⟩
  · rintro ⟨b, hb, hp, hu⟩
    exact ⟨_, (hf.mem _ p).mpr ⟨b, hb, hp, hu, rfl⟩⟩

end All

end Lists

end BoundaryTag
