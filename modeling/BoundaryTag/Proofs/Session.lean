import BoundaryTag.Proofs.Heap.Requests

/-!
Sessions and their ledgers.

A session has a ledger if its heap shows the ledger, and what its clients hold are the ledger's live
blocks. A step that is allowed always succeeds and takes a session with a ledger to one with the ledger
after the same request; so does a run, by induction on its requests.
-/

namespace BoundaryTag

open Heap HeapM Piece

/-- The arena has handed out no page, its region is aligned and ends below the last address, and whatever
it may hand out is memory. If that is nothing, the memory may be anywhere. -/
structure Arena.Conforms (arena : Arena) (memory : Memory) : Prop where
  pages : arena.pages = 0
  aligned : arena.base % alignment = 0
  bounded : arena.base + arena.supply.limit * pageSize < addressSpace
  mapped : ∀ x, arena.base ≤ x → x < arena.base + arena.supply.limit * pageSize →
    memory.base ≤ x ∧ x < memory.base + memory.extent

section Arenas

variable {arena : Arena} {memory : Memory}

lemma Arena.Fresh.conforms (hfresh : arena.Fresh memory) : arena.Conforms memory := by
  have h1 := hfresh.base_le
  have h2 := hfresh.stop_le
  exact ⟨hfresh.pages, hfresh.aligned, hfresh.bounded, fun x _ _ => by omega⟩

/-- Where there are pages, they lie in memory from the first to the last byte. -/
lemma Arena.Conforms.mapped_pages (hconf : arena.Conforms memory) (h0 : arena.supply.limit ≠ 0) :
    memory.base ≤ arena.base ∧
      arena.base + arena.supply.limit * pageSize ≤ memory.base + memory.extent := by
  have hpos : 0 < arena.supply.limit * pageSize := Nat.mul_pos (Nat.pos_of_ne_zero h0) (by decide)
  have hfirst := hconf.mapped arena.base le_rfl (by omega)
  have hlast := hconf.mapped (arena.base + (arena.supply.limit * pageSize - 1)) (by omega) (by omega)
  omega

end Arenas

namespace Session

/-- The ledger that accounts for a session: the clients hold its live blocks, each cut for what was asked
for. -/
structure Has (s : Session) (l : Ledger) : Prop where
  sound : l.Sound
  shows : Shows s.heap l
  nodup : (s.held.map Holding.ptr).Nodup
  live : ∀ x ∈ s.held, ∃ k n, blockSize? x.requested = some k ∧ Snug k n ∧ ⟨x.ptr, n, .live⟩ ∈ l.live
  held : ∀ b ∈ l.live, s.holds b.payload

variable {s s' : Session} {l : Ledger} {r : Request}

lemma step_of_serve {a : Answer} {h : Heap} (e : r.serve s.heap = .ok (a, h)) :
    s.step r = .ok (a, ⟨h, heldAfter s.held r a⟩) := by
  rw [step, e]

lemma step_of_halt {e : Halt} (he : r.serve s.heap = .error e) : s.step r = .error e := by
  rw [step, he]

lemma serve_of_step {a : Answer} (e : s.step r = .ok (a, s')) : r.serve s.heap = .ok (a, s'.heap) := by
  unfold step at e
  split at e
  · next hserve =>
    cases e
    exact hserve
  · cases e

lemma held_of_step {a : Answer} (e : s.step r = .ok (a, s')) : s'.held = heldAfter s.held r a := by
  unfold step at e
  split at e
  · cases e
    rfl
  · cases e

lemma mem_heldAfter {b : Holding} (a : Answer) (hb : b ∈ s.held) (hret : r.returns ≠ some b.ptr) :
    b ∈ heldAfter s.held r a := by
  have hkept : b ∈ s.held.filter fun c => r.returns ≠ some c.ptr :=
    List.mem_filter.mpr ⟨hb, decide_eq_true hret⟩
  rcases a with e | _ | p
  · exact hb
  · exact hkept
  · exact List.mem_cons_of_mem _ hkept

/-- The clients hold the live blocks. -/
lemma Has.holds_iff (k : s.Has l) (p : Nat) :
    s.holds p ↔ ∃ b ∈ l.pieces, b.payload = p ∧ b.use = .live := by
  constructor
  · rintro ⟨x, hx, rfl⟩
    obtain ⟨-, n, -, -, hn⟩ := k.live x hx
    exact ⟨_, hn.1, rfl, hn.2⟩
  · rintro ⟨b, hb, rfl, hu⟩
    exact k.held b ⟨hb, hu⟩

/-- What clients hold is a live block, which has as many usable bytes as its header says. -/
lemma Has.usable_eq (k : s.Has l) {b : Piece} (hb : b ∈ l.live) :
    s.usable b.payload = b.size - wordSize := by
  have hread := k.shows.legible k.sound hb.1
  unfold usable
  rw [hread.tag, ← hread.size]

/-- What clients may ask for in a session, they may ask for by the ledger. -/
lemma Has.permitted (k : s.Has l) (hr : s.Allows r) : r.Permitted l.live := by
  have hlive : ∀ p, s.holds p → ∃ b ∈ l.live, b.payload = p := by
    rintro p ⟨x, hx, rfl⟩
    obtain ⟨-, n, -, -, hn⟩ := k.live x hx
    exact ⟨_, hn, rfl⟩
  cases r with
  | allocate | allocateZeroed | allocateAligned => trivial
  | release p => exact hlive p hr
  | resize p size => exact hlive p hr
  | write addr byte =>
    obtain ⟨x, hx, h1, h2⟩ := hr
    obtain ⟨b, hb, hbx⟩ := hlive x.ptr ⟨x, hx, rfl⟩
    have hbs := ((k.sound.tiled hb.1).bounds hb.1).2.2.1
    rw [← hbx, k.usable_eq hb] at h2
    refine ⟨b, hb, hbx ▸ h1, ?_⟩
    unfold Piece.stop minBlock wordSize at *
    omega

/-- What clients hold without the block that a request hands back. -/
lemma Has.remaining (k : s.Has l) (r : Request) {held : List Holding}
    (hheld : held = s.held.filter fun x => r.returns ≠ some x.ptr) :
    (held.map Holding.ptr).Nodup ∧
      (∀ x ∈ held, ∃ k n, blockSize? x.requested = some k ∧ Snug k n ∧
        ⟨x.ptr, n, .live⟩ ∈ Ledger.kept r l.live) ∧
      ∀ b ∈ Ledger.kept r l.live, ∃ x ∈ held, x.ptr = b.payload := by
  subst hheld
  refine ⟨k.nodup.sublist (List.filter_sublist.map _), fun x hx => ?_, fun b hb => ?_⟩
  · obtain ⟨hx, hr⟩ := List.mem_filter.mp hx
    obtain ⟨k, n, h1, h2, h3⟩ := k.live x hx
    exact ⟨k, n, h1, h2, h3, of_decide_eq_true hr⟩
  · obtain ⟨hb, hr⟩ := hb
    obtain ⟨x, hx, hxb⟩ := k.held b hb
    exact ⟨x, List.mem_filter.mpr ⟨hx, decide_eq_true (hxb ▸ hr)⟩, hxb⟩

/-- What clients hold after an answer is accounted for. -/
lemma Has.heldAfter {h' : Heap} {a : Answer} {l' : Ledger} (k : s.Has l) (w : Shows h' l')
    (hset : Ledger.Settled r l.live (a, l')) : Has ⟨h', heldAfter s.held r a⟩ l' := by
  obtain ⟨hnd, hlive, hheld⟩ := k.remaining r rfl
  rcases a with e | _ | p
  · obtain ⟨hs', hl'⟩ := hset
    exact ⟨hs', w, k.nodup, hl' ▸ k.live, hl' ▸ k.held⟩
  · obtain ⟨hs', hl'⟩ := hset
    exact ⟨hs', w, hnd, hl' ▸ hlive, hl' ▸ hheld⟩
  · obtain ⟨hs', hnew, need, n, hk, hsnug, hl'⟩ := hset
    refine ⟨hs', w, ?_, fun x hx => ?_, fun b hb => ?_⟩
    · refine List.nodup_cons.mpr ⟨fun hin => ?_, hnd⟩
      obtain ⟨x, hx, hxp⟩ := List.mem_map.mp hin
      obtain ⟨-, m, -, -, hm⟩ := hlive x hx
      exact hnew _ hm hxp
    · rw [hl']
      rcases List.mem_cons.mp hx with rfl | hx
      · exact ⟨need, n, hk, hsnug, .inl rfl⟩
      · obtain ⟨k, m, h1, h2, h3⟩ := hlive x hx
        exact ⟨k, m, h1, h2, .inr h3⟩
    · rw [hl'] at hb
      rcases hb with rfl | hb
      · exact ⟨_, List.mem_cons_self, rfl⟩
      · obtain ⟨x, hx, hxb⟩ := hheld b hb
        exact ⟨x, List.mem_cons_of_mem _ hx, hxb⟩

/-- What an answer may be. -/
lemma Has.settled (k : s.Has l) (hr : s.Allows r) : Ledger.Settled r l.live (l.answer r) := by
  have hp := k.permitted hr
  refine Ledger.settled_answer k.sound fun p hret => ?_
  cases r with
  | release q | resize q =>
    obtain ⟨b, hb, rfl⟩ := hp
    exact ⟨b, hb, Option.some.inj hret⟩
  | _ => cases hret

/-- **A step that is allowed** succeeds with the ledger's answer, and the ledger after it accounts for the
session. -/
lemma Has.step (k : s.Has l) (hr : s.Allows r) :
    ∃ s', s.step r = .ok ((l.answer r).1, s') ∧ s'.Has (l.answer r).2 ∧
      SameOff (fun x => Outside (Ledger.lasting l.live (l.answer r).2.live) x ∨ r.stores x)
        s.heap s'.heap := by
  obtain ⟨h', hrun, w, hoff⟩ := k.shows.serve_request k.sound (k.permitted hr)
  exact ⟨_, step_of_serve hrun, k.heldAfter w (k.settled hr), hoff⟩

lemma Has.of_step {a : Answer} (k : s.Has l) (hr : s.Allows r) (e : s.step r = .ok (a, s')) :
    a = (l.answer r).1 ∧ s'.Has (l.answer r).2 ∧
      SameOff (fun x => Outside (Ledger.lasting l.live (l.answer r).2.live) x ∨ r.stores x)
        s.heap s'.heap := by
  obtain ⟨t, e', k', hoff⟩ := k.step hr
  rw [e'] at e
  cases e
  exact ⟨rfl, k', hoff⟩

/-- What a client holds is a live block. -/
lemma Has.block {p : Nat} (k : s.Has l) (hp : s.holds p) :
    ∃ n, ⟨p, n, .live⟩ ∈ l.live ∧ s.usable p = n - wordSize ∧ minBlock ≤ n := by
  obtain ⟨x, hx, rfl⟩ := hp
  obtain ⟨-, n, -, -, hn⟩ := k.live x hx
  exact ⟨n, hn, k.usable_eq (b := ⟨x.ptr, n, .live⟩) hn, ((k.sound.tiled hn.1).bounds hn.1).2.2.1⟩

/-- What is held has the size that was asked for. -/
lemma Has.snug (k : s.Has l) {b : Holding} (hb : b ∈ s.held) :
    ∃ need, blockSize? b.requested = some need ∧ Snug need (s.usable b.ptr + wordSize) := by
  obtain ⟨need, n, hneed, hsnug, hn⟩ := k.live b hb
  have husable : s.usable b.ptr = n - wordSize := k.usable_eq (b := ⟨b.ptr, n, .live⟩) hn
  have hword : wordSize ≤ n := (show wordSize ≤ minBlock by decide).trans ((k.sound.tiled hn.1).bounds hn.1).2.2.1
  rw [husable, Nat.sub_add_cancel hword]
  exact ⟨need, hneed, hsnug⟩

lemma Has.arena_eq {l' : Ledger} (k : s.Has l) (k' : s'.Has l') (h : l'.arena = l.arena) :
    s'.heap.arena = s.heap.arena :=
  k'.shows.arena.trans (h.trans k.shows.arena.symm)

/-- A step leaves the blocks that it is not called on with their clients. -/
lemma Has.kept {d : Piece} (k : s.Has l) (hr : s.Allows r) (hd : d ∈ Ledger.kept r l.live) :
    d ∈ (l.answer r).2.live := by
  have hset : Ledger.Settled r l.live ((l.answer r).1, (l.answer r).2) := k.settled hr
  exact (hset.kept_subset hd).1

/-- **A run** gives the answers of the ledger, and ends in a session that the ledger after the same
requests accounts for. -/
lemma Has.run {t : Session} {rs : List Request} {as : List Answer} (k : s.Has l) (hrun : s.Run rs as t) :
    as = (l.run rs).1 ∧ t.Has (l.run rs).2 := by
  induction hrun generalizing l with
  | nil s => exact ⟨rfl, k⟩
  | cons hr e _ ih =>
    obtain ⟨s1, e1, k1, -⟩ := k.step hr
    rw [e] at e1
    cases e1
    obtain ⟨h1, h2⟩ := ih k1
    exact ⟨congrArg _ h1, h2⟩

/-- A heap that nothing was asked of yet shows the empty ledger. -/
lemma has_fresh {h : Heap} (hconf : h.arena.Conforms h.memory) (hheads : h.heads = emptyHeads)
    (hquick : h.quick = .replicate quickLists emptySlot) (hready : h.ready = false) :
    (⟨h, []⟩ : Session).Has (.new h.arena) := by
  have hlive : (Ledger.new h.arena).live = ∅ := by
    ext b
    simp [Ledger.mem_live, Ledger.new]
  refine ⟨?_, ?_, List.nodup_nil, fun x hx => absurd hx List.not_mem_nil, fun b hb => ?_⟩
  · exact ⟨hconf.aligned, fun _ => rfl, fun h0 => absurd hconf.pages h0, List.isChain_nil,
      ⟨fun c => List.nodup_nil, fun c p => by simp [Ledger.new]⟩,
      ⟨fun c => List.nodup_nil, fun c p => by simp [Ledger.new], fun b hb => absurd hb List.not_mem_nil,
        fun c => Nat.zero_le _⟩⟩
  · refine ⟨rfl, ?_, ?_, fun h0 => absurd hconf.pages h0, ringed_emptyHeads hheads,
      shelves_emptySlots hquick⟩
    · exact ⟨hconf.aligned, hconf.pages.trans_le (Nat.zero_le _), hconf.bounded, hconf.mapped_pages⟩
    · rw [hready]
      exact ⟨fun h => absurd h Bool.false_ne_true, fun h0 => absurd hconf.pages h0⟩
  · rw [hlive] at hb
    exact absurd hb (Set.notMem_empty b)

lemma has_start {a : Arena} {m : Memory} (hconf : a.Conforms m) (strict : Bool) :
    (start a m strict).Has (.new a) :=
  has_fresh (h := { Heap.new a m with strict }) hconf rfl rfl rfl

/-- **Every session that a run ends in has a ledger.** -/
lemma Reachable.has_ledger (hs : s.Reachable) : ∃ l, s.Has l := by
  obtain ⟨a, m, strict, rs, as, hfresh, hrun⟩ := hs
  exact ⟨_, ((has_start hfresh.conforms strict).run hrun).2⟩

/-- A new session over an arena of two pages. -/
def sample : Session := start (.ofBuffer 4096 8192 0x5bd1e995) (.zeroed 4096 8192) true

lemma sample_fresh : (Arena.ofBuffer 4096 8192 0x5bd1e995).Fresh (.zeroed 4096 8192) :=
  ⟨by decide, by decide, by decide, by decide, by decide⟩

lemma sample_reachable {rs : List Request} {as : List Answer} (h : sample.serveAll rs = some (as, s)) :
    s.Reachable :=
  ⟨_, _, _, _, _, sample_fresh, .of_serveAll h⟩

lemma sample_serves (rs : List Request) (h : (sample.serveAll rs).isSome) :
    ∃ as s, sample.serveAll rs = some (as, s) := by
  obtain ⟨⟨as, s⟩, hs⟩ := Option.isSome_iff_exists.mp h
  exact ⟨as, s, hs⟩

/-- What requests are computed to lead to, holds of the session in which they end. -/
@[elab_as_elim]
lemma shown {s t : Session} {rs : List Request} {as : List Answer} {P : Session → Prop}
    (hs : s.serveAll rs = some (as, t)) (h : ∀ x ∈ s.serveAll rs, P x.2) : P t :=
  h _ hs

lemma step_of_answer {s : Session} {r : Request} {a : Answer} (h : (s.step r).map Prod.fst = .ok a) :
    ∃ t, s.step r = .ok (a, t) := by
  rcases e : s.step r with _ | ⟨a', t⟩ <;> rw [e] at h
  · cases h
  · obtain rfl := Except.ok.inj h
    exact ⟨t, rfl⟩

end Session

end BoundaryTag
