import BoundaryTag.Proofs.Heap.Inspecting
import BoundaryTag.Proofs.Heap.Wandering
import BoundaryTag.Proofs.Session

/-!
Checking pointers on a heap that was overwritten.

Whatever the bytes of a heap are, its header and the tags of the block before it are found to be in the region
before they are read. The links of a quick list are not: a search goes where they lead. So a pointer is checked
within the region just if they lead nowhere else.
-/

namespace BoundaryTag

open Heap

namespace Heap

variable {h : Heap} {p cur fuel : Nat}

/-! ### Along a quick list -/

/-- The addresses at which a search for `block` along a quick list reads the link to the next one. They are
where the links lead, and need not be aligned: a machine that insists on that has its own say there. -/
def trailFrom (h : Heap) (block : Nat) : Nat → Nat → List Nat
  | 0, _ => []
  | fuel + 1, cur =>
    if cur = 0 ∨ cur = block then [] else cur :: h.trailFrom block fuel (h.memory.word cur).toNat

/-- The addresses at which the check of `p` reads links: none, unless the size in the header is that of a quick
list. -/
def trail (h : Heap) (p : Nat) : List Nat :=
  (quickClass? (h.header p).size).elim [] fun list => h.trailFrom p quickDepth (h.quick.get list).first

lemma trailFrom_of_ne (hcur : ¬ (cur = 0 ∨ cur = p)) :
    h.trailFrom p (fuel + 1) cur = cur :: h.trailFrom p fuel (h.memory.word cur).toNat :=
  if_neg hcur

lemma trailFrom_guarded : h.guarded.trailFrom p fuel cur = h.trailFrom p fuel cur := by
  induction fuel generalizing cur with
  | zero => rfl
  | succ fuel ih => exact if_congr Iff.rfl rfl (congrArg (List.cons cur) ih)

lemma trail_guarded : h.guarded.trail p = h.trail p := by
  simp only [trail, trailFrom_guarded]
  rfl

namespace Grounded

variable (g : h.Grounded)

include g

lemma loadAddr_of_contains (hin : h.arena.contains cur wordSize) :
    h.loadAddr cur = .ok (h.memory.word cur).toNat := by
  simp only [Arena.contains, Bool.and_eq_true, decide_eq_true_eq] at hin
  exact g.loadAddr_eq hin.1 hin.2

/-- Where its links are in the region, the search ends. -/
lemma holdsFrom_total (hin : ∀ a ∈ h.trailFrom p fuel cur, h.arena.contains a wordSize) :
    ∃ r, h.holdsFrom p fuel cur = .ok r := by
  induction fuel generalizing cur with
  | zero => exact ⟨false, rfl⟩
  | succ fuel ih =>
    unfold holdsFrom
    split_ifs with hzero hself
    · exact ⟨false, rfl⟩
    · exact ⟨true, rfl⟩
    · rw [trailFrom_of_ne (not_or.mpr ⟨hzero, hself⟩)] at hin
      obtain ⟨hcur, hrest⟩ := List.forall_mem_cons.mp hin
      rw [bind_eq (g.loadAddr_of_contains hcur)]
      exact ih hrest

/-- Under guard, the search halts at the first link that is not. -/
lemma holdsFrom_halts (hstrict : h.strict = true)
    (hout : ¬ ∀ a ∈ h.trailFrom p fuel cur, h.arena.contains a wordSize) :
    ∃ a ∈ h.trailFrom p fuel cur, ¬ h.arena.contains a wordSize ∧
      h.holdsFrom p fuel cur = .error (.outside a) := by
  induction fuel generalizing cur with
  | zero => exact absurd (fun a ha => absurd ha List.not_mem_nil) hout
  | succ fuel ih =>
    by_cases hend : cur = 0 ∨ cur = p
    · rw [trailFrom, if_pos hend] at hout
      exact absurd (fun a ha => absurd ha List.not_mem_nil) hout
    rw [trailFrom_of_ne hend] at hout ⊢
    obtain ⟨hzero, hself⟩ := not_or.mp hend
    rw [holdsFrom, if_neg hzero, if_neg hself]
    by_cases hcur : h.arena.contains cur wordSize
    · obtain ⟨a, ha, hna, hrun⟩ := ih fun hrest => hout (List.forall_mem_cons.mpr ⟨hcur, hrest⟩)
      exact ⟨a, List.mem_cons_of_mem _ ha, hna, (bind_eq (g.loadAddr_of_contains hcur)).trans hrun⟩
    · have hload : h.load cur = .error (.outside cur) :=
        if_neg fun hr => hcur (contains_of_reaches hstrict (by decide) hr)
      refine ⟨cur, List.mem_cons_self, hcur, ?_⟩
      rw [loadAddr, hload]
      rfl

end Grounded

/-! ### The check -/

/-- The pointer is looked for on a quick list only if it is plausible, and there every link that the search
reads is in the region. -/
def Tethered (h : Heap) (p : Nat) : Prop :=
  h.Plausible p → ∀ a ∈ h.trail p, h.arena.contains a wordSize

/-- The check of a pointer comes to an end: it passes, or a reason is given. So does the request for the usable
size. Neither reads anything but words of the region, as both do the same under guard. -/
structure Confined (h : Heap) (p : Nat) : Prop where
  check : ∃ r : Except InvalidPointer Unit, (h.check p).run = .ok (r.mapError (.invalidPointer p)) ∧
    (h.guarded.check p).run = .ok (r.mapError (.invalidPointer p))
  usableSize : ∃ r : Except InvalidPointer Nat, (h.usableSize p).run = .ok (r.mapError (.invalidPointer p)) ∧
    (h.guarded.usableSize p).run = .ok (r.mapError (.invalidPointer p))

lemma Situated.validate_total (w : h.Situated) (ht : h.Tethered p) : ∃ r, (h.validate p).run = .ok r := by
  refine Heap.validate_total w.grounded fun k => ?_
  have g := w.grounded (Nat.le_of_add_right_le k.start_le) k.lt_stop
  have hin := ht k
  unfold trail at hin
  unfold isQuickListed
  cases hc : quickClass? (h.header p).size with
  | none => exact ⟨false, rfl⟩
  | some list =>
    rw [hc] at hin
    exact g.holdsFrom_total hin

lemma plausible_guarded : h.guarded.Plausible p ↔ h.Plausible p :=
  ⟨fun ⟨h1, h2, h3, h4, h5, h6⟩ => ⟨h1, h2, h3, h4, h5, h6⟩,
    fun ⟨h1, h2, h3, h4, h5, h6⟩ => ⟨h1, h2, h3, h4, h5, h6⟩⟩

lemma Situated.confined (w : h.Situated) (ht : h.Tethered p) : h.Confined p := by
  have ht' : h.guarded.Tethered p := by
    rw [Tethered, plausible_guarded, trail_guarded]
    exact ht
  obtain ⟨r, hr⟩ := w.guarded.validate_total ht'
  have hcheck := check_of_validate hr
  have hsize := usableSize_of_validate w.guarded.grounded hr
  exact ⟨⟨r, (Transparent.check p).of_guarded hcheck, hcheck⟩, ⟨_, (Transparent.usableSize p).of_guarded hsize, hsize⟩⟩

lemma Situated.check_halts (w : h.Situated) (ht : ¬ h.Tethered p) :
    ∃ a ∈ h.trail p, ¬ h.arena.contains a wordSize ∧ (h.guarded.check p).run = .error (.outside a) := by
  obtain ⟨k, hout⟩ := Classical.not_imp.mp ht
  have g := w.guarded.grounded (Nat.le_of_add_right_le k.start_le) k.lt_stop
  cases hc : quickClass? (h.header p).size with
  | none =>
    rw [trail, hc] at hout
    exact absurd (fun a ha => absurd ha List.not_mem_nil) hout
  | some list =>
    have htrail : h.guarded.trailFrom p quickDepth (h.quick.get list).first = h.trail p := by
      rw [trailFrom_guarded, trail, hc]
      rfl
    obtain ⟨a, ha, hna, hrun⟩ := g.holdsFrom_halts rfl (htrail ▸ hout)
    have hlisted : h.guarded.isQuickListed p (h.header p).size = .error (.outside a) := by
      rw [isQuickListed, hc]
      exact hrun
    refine ⟨a, htrail ▸ ha, hna, ?_⟩
    rw [Heap.check, (plausible_guarded.mpr k).validate_halts g hlisted]
    rfl

end Heap

/-- **A pointer is checked within the region**, whatever the bytes, the heads and the slots of the heap are,
if the links that are read on a quick list are in the region. If they are not, the check goes out of it, at one
of them. -/
theorem check_confined {h : Heap} (w : h.Situated) (p : Nat) :
    h.guarded.Watchful ∧ (h.Tethered p → h.Confined p) ∧
      (¬ h.Tethered p → ∃ a ∈ h.trail p, ¬ h.arena.contains a wordSize ∧
        (h.guarded.check p).run = .error (.outside a)) :=
  ⟨w.watchful, w.confined, w.check_halts⟩

/-- A quick list may lead anywhere in the region: here it leads round and round the second block, while the
first one is looked for. -/
theorem check_confined_cycle :
    ∃ h : Heap, h.Situated ∧ h.Plausible 4112 ∧ h.trail 4112 = [4144, 4144, 4144, 4144, 4144] ∧
      h.Confined 4112 := by
  let forged := (blank.forge 4112 (.make 32 true true)).forge 4144 (.make 4048 true true)
  let h := { forged.put 4144 4144 with quick := blank.quick.set 0 ⟨1, 4144⟩ }
  obtain ⟨g, ⟨h1, h2, h3, h4, h5, h6⟩, htrail, hin⟩ : h.Grounded ∧
      (4112 % alignment = 0 ∧ h.arena.start + wordSize ≤ 4112 ∧ 4112 < h.arena.stop ∧
        badSize (h.header 4112).size = false ∧ 4112 + (h.header 4112).size ≤ h.arena.stop ∧
        (h.header 4112).allocated = true) ∧
      h.trail 4112 = [4144, 4144, 4144, 4144, 4144] ∧ ∀ a ∈ h.trail 4112, h.arena.contains a wordSize := by
    decide +kernel
  exact ⟨h, g.situated, ⟨h1, h2, h3, h4, h5, h6⟩, htrail, (check_confined g.situated 4112).2.1 fun _ => hin⟩

/-- But clients that write to what they have released can let it lead out of the region. Here the only block on
a quick list is overwritten with the address where the region ends, and another block of its size is checked. -/
theorem check_led_astray :
    ¬ ∀ (s : Session) (m : Memory) (p : Nat), s.Reachable → s.heap.ready = true →
      m.base = s.heap.memory.base → m.extent = s.heap.memory.extent → p < addressSpace →
      ∃ r, (({ s.heap with memory := m } : Heap).guarded.check p).run = .ok r := by
  intro hall
  have hend : (Session.sample.serveAll [.allocate 24, .allocate 24, .release 4112]).map (fun x =>
      let m := x.2.heap.memory.setWord 4112 8192
      (x.2.heap.ready, decide (m.base = x.2.heap.memory.base), decide (m.extent = x.2.heap.memory.extent),
        (({ x.2.heap with memory := m } : Heap).guarded.check 4144).run)) =
        some (true, true, true, .error (.outside 8192)) := by
    decide +kernel
  obtain ⟨⟨as, s⟩, hs, hrest⟩ := Option.map_eq_some_iff.mp hend
  simp only [Prod.mk.injEq, decide_eq_true_eq] at hrest
  obtain ⟨hready, hbase, hextent, hrun⟩ := hrest
  obtain ⟨r, hr⟩ := hall s _ 4144 (Session.sample_reachable hs) hready hbase hextent (by decide)
  rw [hrun] at hr
  cases hr

end BoundaryTag
