import BoundaryTag.Proofs.Heap.Rings
import BoundaryTag.Proofs.Heap.Wandering
import Mathlib.Data.List.Perm.Subperm

/-!
Following the links of a ring.

Where a block could be, in a region that lies in memory, its header and its links can be read. The blocks of a ring
are at different addresses of the region, which are fewer than a walk has steps. So a walk along a ring comes back
to its head, unless it finds what it looks for before.
-/

namespace BoundaryTag

open Heap

namespace Heap

variable {h : Heap} {p : Nat} (w : h.Situated) (hp : h.Seat (.block p))

include w hp

lemma Situated.grounded_seat : h.Grounded := by
  obtain ⟨-, h1, h2⟩ := hp
  refine w.grounded (Nat.le_of_add_right_le h1) ?_
  unfold alignment at h2
  omega

lemma Situated.tagAt_seat : h.tagAt p = .ok (h.header p) := by
  obtain ⟨-, h1, h2⟩ := id hp
  refine (w.grounded_seat hp).tagAt_eq ?_ (Nat.le_of_add_right_le h2)
  unfold alignment at h1
  unfold wordSize
  omega

/-- The links of an entry are in the region. -/
lemma Situated.links_seat : h.nextOf (.block p) = .ok (h.nextLink (.block p)) ∧
    h.prevOf (.block p) = .ok (h.prevLink (.block p)) ∧ h.loadAddr p = .ok (h.memory.word p).toNat := by
  have g := w.grounded_seat hp
  have hlt := w.bounded
  obtain ⟨-, h1, h2⟩ := hp
  unfold alignment at h1 h2
  have hnext := g.load_eq (a := p) (by omega) (by unfold wordSize; omega)
  have hprev := g.load_eq (a := p + wordSize) (by omega) (by unfold wordSize; omega)
  refine ⟨bind_eq hnext, ?_, bind_eq hnext⟩
  rw [prevOf, wrapAdd_of_lt (by unfold wordSize; omega), bind_eq hprev]
  rfl

end Heap

section Rings

variable {h : Heap} {main : MainLists} {c : Fin mainLists} {need : Nat}

/-- A walk along a list finds the first block that is large enough, or comes back to the head. -/
lemma firstFit_eq {fuel : Nat} {x : Link} {ps : List Nat}
    (hl : Linked h.nextLink h.prevLink x (ps.map .block) (.head c))
    (hread : ∀ p ∈ ps, h.nextOf (.block p) = .ok (h.nextLink (.block p)) ∧ h.tagAt p = .ok (h.header p))
    (hfuel : ps.length < fuel) :
    h.firstFit c need fuel (h.nextLink x) = .ok (ps.find? fun p => need ≤ (h.header p).size) := by
  induction ps generalizing fuel x with
  | nil =>
    obtain ⟨fuel, rfl⟩ := Nat.exists_eq_succ_of_ne_zero (Nat.ne_of_gt hfuel)
    rw [hl.1, Heap.firstFit, if_pos rfl]
    rfl
  | cons p ps ih =>
    obtain ⟨fuel, rfl⟩ := Nat.exists_eq_succ_of_ne_zero (Nat.ne_zero_of_lt hfuel)
    obtain ⟨⟨hx, -⟩, hrest⟩ := hl
    obtain ⟨hnext, htag⟩ := hread p List.mem_cons_self
    have hne : (Link.block p) ≠ .head c := by simp
    have hblock : h.blockOf (.block p) = .ok p := rfl
    rw [hx, Heap.firstFit, if_neg hne, Heap.bind_eq hblock, Heap.bind_eq htag, List.find?_cons]
    by_cases hfit : need ≤ (h.header p).size
    · rw [if_pos hfit, decide_eq_true hfit]
      rfl
    · rw [if_neg hfit, decide_eq_false hfit, Heap.bind_eq hnext]
      exact ih hrest (fun q hq => hread q (List.mem_cons_of_mem _ hq)) (Nat.lt_of_succ_lt_succ hfuel)

/-- A ring has fewer blocks than a walk along it has steps. -/
lemma Ringed.length_lt (w : h.Situated) (r : Ringed h main) (c : Fin mainLists) :
    (main c).length < h.patience := by
  rcases hc : main c with _ | ⟨b, rest⟩
  · exact Nat.succ_pos _
  have g := w.grounded_seat (r.seat c b (by simp [hc]))
  have hsub : main c ⊆ List.range' h.arena.start (h.arena.stop - h.arena.start) := fun p hp => by
    obtain ⟨-, h1, h2⟩ := r.seat c p hp
    unfold alignment at h1 h2
    exact List.mem_range'_1.mpr ⟨by omega, by omega⟩
  have hle := (List.subperm_of_subset (r.nodup c) hsub).length_le
  have hbase := g.base_le
  have hstop := g.stop_le
  rw [List.length_range', hc] at hle
  unfold patience
  omega

/-- A search finds the first block on a ring that is large enough. -/
lemma Ringed.findFit (w : h.Situated) (r : Ringed h main) (c : Fin mainLists) (need : Nat) :
    h.findFit c need = .ok ((main c).find? fun p => need ≤ (h.header p).size) :=
  firstFit_eq (r.ring c) (fun p hp => ⟨(w.links_seat (r.seat c p hp)).1, w.tagAt_seat (r.seat c p hp)⟩)
    (r.length_lt w c)

end Rings

end BoundaryTag
