import BoundaryTag.Proofs.Heap.Auditing

/-!
What the verifier finds out about the blocks.

The blocks of a heap tile its region if each is proper and the next begins where it ends, up to the end of the
region. The verifier finds fault with the blocks exactly if they do not, or the last of them is not the one
that is known. It makes no assumption on the memory.
-/

namespace BoundaryTag

open Heap

/-- The blocks tile the region, and each of them is proper. -/
def Heap.TiledBy (h : Heap) (bs : List BlockInfo) : Prop := h.InOrder none h.firstPayload bs h.arena.stop

section Tiled

variable {h : Heap} {bs : List BlockInfo} {c : Corruption}

/-- There is room for a block in the region of a heap with a page. -/
lemma Heap.firstPayload_lt (h0 : h.pages ≠ 0) : h.firstPayload < h.arena.stop := by
  have hpages : pageSize ≤ h.pages * pageSize := Nat.le_mul_of_pos_left _ (Nat.pos_of_ne_zero h0)
  unfold firstPayload Arena.stop
  unfold Heap.pages pageSize at *
  unfold wordSize
  omega

/-- Blocks in order tile the region, and the last of them is known. -/
lemma Heap.Order.tiledBy (o : h.Order bs) (h0 : h.pages ≠ 0) :
    h.TiledBy bs ∧ ∃ b ∈ bs.getLast?, b.payload = h.last := by
  obtain ⟨⟨z, order, hz⟩, hlast⟩ := o
  have hfirst := firstPayload_lt h0
  obtain rfl : z = h.arena.stop := Nat.le_antisymm (order.le_stop (Nat.le_of_lt hfirst)) hz
  have hne : bs ≠ [] := by
    rintro rfl
    exact absurd order (Nat.ne_of_lt hfirst)
  have hmem : bs.getLast hne ∈ bs.getLast? := List.getLast?_eq_some_getLast hne
  exact ⟨order, _, hmem, hlast _ hmem⟩

lemma Heap.TiledBy.order (ht : h.TiledBy bs) (hlast : ∃ b ∈ bs.getLast?, b.payload = h.last) : h.Order bs := by
  obtain ⟨b, hb, hbl⟩ := hlast
  refine ⟨⟨_, ht, le_rfl⟩, fun b' hb' => ?_⟩
  obtain rfl := Option.some.inj (hb.symm.trans hb')
  exact hbl

lemma Heap.Disorder.ofWalk (hd : h.Disorder c) : c.ofWalk = true := by
  cases hd with
  | block bs z order before offence => cases offence <;> rfl
  | last => rfl

/-- A heap that is not in order is refused for a disorder. -/
lemma Heap.Situated.refused (w : h.Situated) (hr : h.ready = true) (hno : ¬ ∃ bs, h.Order bs) :
    ∃ c, h.verify.run = .ok (.error c) ∧ h.Disorder c := by
  cases w.verify hr with
  | passes _ run accepted =>
    obtain ⟨bs, main, quick, accepted⟩ := accepted
    exact absurd ⟨bs, accepted.order⟩ hno
  | refuses c run hc => exact ⟨c, run, hc.resolve_right fun hlists => hno hlists.1⟩

end Tiled

/-- **What the verifier finds out about the blocks** is right and complete. It has a report of the walk if and
only if the blocks do not tile the region or the last of them is not the known one. If they do not tile it,
the report is of the first block in the region that is not proper, and says what is wrong with it. If the last
is not the known one, it names the two. -/
theorem blocks_decided {h : Heap} (w : h.Situated) (hr : h.ready = true) (h0 : h.pages ≠ 0) :
    ((∃ c, h.verify.run = .ok (.error c) ∧ c.ofWalk = true) ↔
      ¬ ∃ bs, h.TiledBy bs ∧ ∃ b ∈ bs.getLast?, b.payload = h.last) ∧
    ((¬ ∃ bs, h.TiledBy bs) → ∃ pre z c, h.InOrder none h.firstPayload pre z ∧ z < h.arena.stop ∧
      ¬ h.Proper pre.getLast? (h.seen z) ∧ h.Offence pre.getLast? (h.seen z) c ∧
      h.verify.run = .ok (.error c)) ∧
    ∀ bs, h.TiledBy bs → ∀ b ∈ bs.getLast?, b.payload ≠ h.last →
      h.verify.run = .ok (.error (.staleLast h.last b.payload)) := by
  have hrefused (hno : ¬ ∃ bs, h.TiledBy bs ∧ ∃ b ∈ bs.getLast?, b.payload = h.last) :=
    w.refused hr fun ⟨bs, order⟩ => hno ⟨bs, order.tiledBy h0⟩
  refine ⟨⟨fun ⟨c, run, hwalk⟩ => ?_, fun hno => ?_⟩, fun hno => ?_, fun bs ht b hb hstale => ?_⟩
  · rintro ⟨bs, ht, hlast⟩
    have hd := ((w.verify hr).of_refuses run).resolve_right fun hlists => by simp [hwalk] at hlists
    exact (ht.order hlast).not_disorder w.bounded hd
  · obtain ⟨c, run, hd⟩ := hrefused hno
    exact ⟨c, run, hd.ofWalk⟩
  · obtain ⟨c, run, hd⟩ := hrefused fun ⟨bs, ht, _⟩ => hno ⟨bs, ht⟩
    cases hd with
    | block pre z order before offence =>
      exact ⟨pre, z, c, order, before, offence.not_proper, offence, run⟩
    | last bs b z order stop mem stale =>
      obtain rfl := Nat.le_antisymm (order.le_stop (Nat.le_of_lt (firstPayload_lt h0))) stop
      exact absurd ⟨bs, order⟩ hno
  · obtain ⟨c, run, hd⟩ := hrefused fun ⟨bs', ht', b', hb', hlast⟩ => by
      obtain rfl := ht.unique ht' le_rfl le_rfl w.bounded
      obtain rfl := Option.some.inj (hb.symm.trans hb')
      exact hstale hlast
    obtain ⟨b', hb', -, rfl⟩ := ht.of_disorder le_rfl w.bounded hd
    obtain rfl := Option.some.inj (hb.symm.trans hb')
    exact run

/-- Here the second block has a size that is none, and this is what the verifier reports. -/
theorem blocks_decided_forged_size :
    ∃ h : Heap, h.Situated ∧ h.ready = true ∧ h.pages ≠ 0 ∧
      h.verify.run = .ok (.error (.badSize 4224 40)) ∧
      ¬ ∃ bs, h.TiledBy bs ∧ ∃ b ∈ bs.getLast?, b.payload = h.last := by
  let h := (blank.forge 4112 (.make 112 true true)).forge 4224 (.make 40 true true)
  obtain ⟨g, hr, h0, hrun⟩ : h.Grounded ∧ h.ready = true ∧ h.pages ≠ 0 ∧
      h.verify.run = .ok (.error (.badSize 4224 40)) := by
    decide +kernel
  exact ⟨h, g.situated, hr, h0, hrun, (blocks_decided g.situated hr h0).1.mp ⟨_, hrun, rfl⟩⟩

end BoundaryTag
