import BoundaryTag.Proofs.Session

/-!
The isolation of clients' blocks.

What a client holds is an aligned block inside the region, apart from all other blocks that are held, with
at least the bytes that were asked for. Until it is handed back, nothing but the client's own stores
changes its usable bytes.
-/

namespace BoundaryTag

open Heap Piece

namespace Session

/-- The block of a holding, which has a header and its usable bytes, is where it should be. -/
structure Placed (s : Session) (b : Holding) : Prop where
  aligned : b.ptr % alignment = 0
  header : ∃ t, s.heap.tagAt b.ptr = .ok t ∧ t.allocated ∧ t.size = wordSize + s.usable b.ptr
  inside : s.heap.arena.start + wordSize ≤ b.ptr ∧ b.ptr + s.usable b.ptr ≤ s.heap.arena.stop
  roomy : b.requested ≤ s.usable b.ptr

/-- One block ends before the header of the other. -/
def Apart (s : Session) (b c : Holding) : Prop :=
  b.ptr + s.usable b.ptr + wordSize ≤ c.ptr ∨ c.ptr + s.usable c.ptr + wordSize ≤ b.ptr

variable {s t : Session} {l : Ledger} {r : Request} {rs : List Request} {as : List Answer}

lemma Has.placed (k : s.Has l) {b : Holding} (hb : b ∈ s.held) : s.Placed b := by
  obtain ⟨need, n, hneed, hsnug, hd⟩ := k.live b hb
  have r := (k.shows.mirrors (k.sound.pages_ne hd.1)).rests
  have hbs := r.bounds hd.1
  have hread := k.shows.legible k.sound hd.1
  have husable : s.usable b.ptr = n - wordSize := k.usable_eq (b := ⟨b.ptr, n, .live⟩) hd
  have hmod : b.ptr % alignment = 0 := r.payload_mod hd.1
  obtain ⟨-, -, hle, -⟩ := blockSize?_some hneed
  simp only [Piece.stop] at hbs
  refine ⟨hmod, ⟨_, hread.tag, hread.allocated, ?_⟩, ?_, ?_⟩
  · rw [hread.size, husable]
    unfold minBlock wordSize at *
    simp only
    omega
  · unfold alignment minBlock wordSize at *
    omega
  · unfold Snug at hsnug
    omega

lemma Has.apart (k : s.Has l) {b c : Holding} (hb : b ∈ s.held) (hc : c ∈ s.held)
    (hne : b.ptr ≠ c.ptr) : s.Apart b c := by
  obtain ⟨-, n, -, -, hd⟩ := k.live b hb
  obtain ⟨-, m, -, -, he⟩ := k.live c hc
  have ht := k.sound.tiled hd.1
  have hn : minBlock ≤ n := (ht.bounds hd.1).2.2.1
  have hm : minBlock ≤ m := (ht.bounds he.1).2.2.1
  have hub : s.usable b.ptr = n - wordSize := k.usable_eq (b := ⟨b.ptr, n, .live⟩) hd
  have huc : s.usable c.ptr = m - wordSize := k.usable_eq (b := ⟨c.ptr, m, .live⟩) he
  unfold Apart
  rw [hub, huc]
  rcases ht.apart hd.1 he.1 with h | h | h
  · exact absurd (congrArg Piece.payload h) hne
  · simp only [Piece.stop] at h
    unfold minBlock wordSize at *
    omega
  · simp only [Piece.stop] at h
    unfold minBlock wordSize at *
    omega

lemma Has.pairwise_apart (k : s.Has l) : s.held.Pairwise s.Apart := by
  refine (List.pairwise_map.mp k.nodup).imp_of_mem fun hb hc hne => ?_
  exact k.apart hb hc hne

/-- What a client holds after requests that do not hand it back, with the bytes that they do not store. -/
def Unharmed (s t : Session) (rs : List Request) (b : Holding) : Prop :=
  b ∈ t.held ∧ t.usable b.ptr = s.usable b.ptr ∧
    ∀ x, b.ptr ≤ x → x < b.ptr + s.usable b.ptr → (∀ r ∈ rs, ¬ r.stores x) →
      t.heap.memory.byte x = s.heap.memory.byte x

/-- A request that stores nothing is no matter to the bytes. -/
lemma Unharmed.of_not_stores {b : Holding} (u : s.Unharmed t [r] b) (hst : ∀ x, ¬ r.stores x) :
    s.Unharmed t [] b := by
  obtain ⟨hb, husable, hbytes⟩ := u
  refine ⟨hb, husable, fun x h1 h2 _ => hbytes x h1 h2 fun r' hr' => ?_⟩
  rw [List.mem_singleton.mp hr']
  exact hst x

/-- One step keeps a block that it does not hand back. -/
lemma Has.unharmed_step {a : Answer} {b : Holding} (k : s.Has l) (hr : s.Allows r)
    (e : s.step r = .ok (a, t)) (hb : b ∈ s.held) (hret : r.returns ≠ some b.ptr) :
    s.Unharmed t [r] b := by
  obtain ⟨t', e', k', hoff⟩ := k.step hr
  have hheld := held_of_step e
  rw [e'] at e
  cases e
  obtain ⟨-, n, -, -, hd⟩ := k.live b hb
  have hkept : ⟨b.ptr, n, .live⟩ ∈ Ledger.kept r l.live := ⟨hd, hret⟩
  have husable : s.usable b.ptr = n - wordSize := k.usable_eq (b := ⟨b.ptr, n, .live⟩) hd
  refine ⟨hheld ▸ mem_heldAfter _ hb hret, ?_, fun x h1 h2 hx => hoff x ?_⟩
  · rw [husable]
    exact k'.usable_eq (b := ⟨b.ptr, n, .live⟩) (k.kept hr hkept)
  · rw [husable] at h2
    rintro (hout | hst)
    · refine hout _ ⟨k.kept hr hkept, _, hd, rfl⟩ ⟨h1, ?_⟩
      simp only [Piece.stop]
      omega
    · exact hx r List.mem_cons_self hst

/-- **A run keeps the blocks** that it does not hand back. -/
lemma Has.unharmed_run {b : Holding} (k : s.Has l) (hrun : s.Run rs as t) (hb : b ∈ s.held)
    (hret : ∀ r ∈ rs, r.returns ≠ some b.ptr) : s.Unharmed t rs b := by
  induction hrun generalizing l with
  | nil s => exact ⟨hb, rfl, fun _ _ _ _ => rfl⟩
  | cons hr e _ ih =>
    obtain ⟨hb1, hu1, hx1⟩ := k.unharmed_step hr e hb (hret _ List.mem_cons_self)
    obtain ⟨s1, e1, k1, -⟩ := k.step hr
    rw [e] at e1
    cases e1
    obtain ⟨hb2, hu2, hx2⟩ := ih k1 hb1 fun r hmem => hret r (List.mem_cons_of_mem _ hmem)
    refine ⟨hb2, hu2.trans hu1, fun x h1 h2 hx => (hx2 x h1 ?_ ?_).trans (hx1 x h1 h2 ?_)⟩
    · rwa [hu1]
    · exact fun r hmem => hx r (List.mem_cons_of_mem _ hmem)
    · intro r hmem
      rw [List.mem_singleton.mp hmem]
      exact hx _ List.mem_cons_self

end Session

/-- **Clients' blocks are apart and keep their bytes.** In a session that a run ends in, every block that
is held is where it should be and apart from all others; so is the block that a next request is answered
with. Whatever requests follow, a block that they do not hand back is held all the while, with the usable
bytes that it had, but for those that a client stores. -/
theorem isolation_of_reachable {s : Session} (hs : s.Reachable) :
    (∀ b ∈ s.held, s.Placed b) ∧ s.held.Pairwise s.Apart ∧
    (∀ r p t, s.Allows r → s.step r = .ok (.ok (some p), t) →
      t.Placed ⟨p, r.size⟩ ∧ ∃ others, t.held = ⟨p, r.size⟩ :: others ∧
        ∀ b ∈ others, t.Apart ⟨p, r.size⟩ b) ∧
    ∀ rs as t, s.Run rs as t → ∀ b ∈ s.held, (∀ r ∈ rs, r.returns ≠ some b.ptr) →
      s.Unharmed t rs b := by
  obtain ⟨l, k⟩ := hs.has_ledger
  refine ⟨fun b => k.placed, k.pairwise_apart, fun r p t hr e => ?_, fun rs as t hrun b hb hret =>
    k.unharmed_run hrun hb hret⟩
  obtain ⟨t', e', k', -⟩ := k.step hr
  have heq := Except.ok.inj (e.symm.trans e')
  obtain rfl : t = t' := congrArg Prod.snd heq
  have hheld := Session.held_of_step e
  have hnd := k'.nodup
  rw [hheld] at hnd
  refine ⟨k'.placed (hheld ▸ List.mem_cons_self), _, hheld, fun b hb => ?_⟩
  refine k'.apart (hheld ▸ List.mem_cons_self) (hheld ▸ List.mem_cons_of_mem _ hb) fun he => ?_
  exact (List.nodup_cons.mp hnd).1 (List.mem_map.mpr ⟨b, hb, he.symm⟩)

theorem isolation_after_release :
    ∃ s t : Session, s.Placed ⟨4144, 500⟩ ∧
      s.Unharmed t [.allocate 24, .write 4112 7, .resize 4112 600] ⟨4144, 500⟩ := by
  have hheld : ((Session.sample.serveAll [.allocate 24, .allocate 500, .release 4112]).bind fun x =>
      (x.2.serveAll [.allocate 24, .write 4112 7, .resize 4112 600]).map fun _ => x.2.held) =
        some [⟨4144, 500⟩] := by
    decide +kernel
  obtain ⟨⟨as, s⟩, hs, hrest⟩ := Option.bind_eq_some_iff.mp hheld
  obtain ⟨⟨bs, t⟩, ht, hin⟩ := Option.map_eq_some_iff.mp hrest
  have hmem : (⟨4144, 500⟩ : Holding) ∈ s.held := by
    have hin : s.held = [⟨4144, 500⟩] := hin
    rw [hin]
    exact List.mem_singleton_self _
  obtain ⟨hplaced, -, -, hkeeps⟩ := isolation_of_reachable (Session.sample_reachable hs)
  exact ⟨s, t, hplaced _ hmem, hkeeps _ _ _ (.of_serveAll ht) _ hmem (by decide)⟩

end BoundaryTag
