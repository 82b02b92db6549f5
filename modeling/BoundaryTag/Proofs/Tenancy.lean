import BoundaryTag.Proofs.Delivery
import BoundaryTag.Proofs.Resting
import BoundaryTag.Shared.Tenancy

/-!
What the allocator owes to a program.

A program that allocates by layout is a session of the process-wide heap, in which a lease is a block that is
held for the bytes of its layout, and for one byte if there are none. A call is a request or a few of them,
one after the other, with the bytes stored or copied in between. So every lease is housed as its layout says,
apart from all others, and no call on a lease ends the run.
-/

namespace BoundaryTag

open Heap HeapM

/-- The request that serves a layout. -/
lemma SharedM.serve_requestFor (lay : Layout) :
    (Request.aligned (max lay.size 1) lay.align).serve = (requestFor lay).run := by
  have h2 := lay.isPowerOfTwo_align
  unfold Request.aligned requestFor
  by_cases hle : lay.align ≤ alignment
  · rw [if_pos ⟨h2, hle⟩, if_pos hle]
    rfl
  · rw [if_neg fun h => hle h.2, if_neg hle, max_eq_left (minBlock_le_of_isPowerOfTwo h2 hle)]
    rfl

/-! ### Tenants -/

/-- The block of a lease: one byte is leased if the layout has none. -/
def Lease.holding (b : Lease) : Holding := ⟨b.ptr, max b.layout.size 1⟩

/-- The stores in a call. -/
def LayoutCall.stores : LayoutCall → List Request
  | .write addr byte => [.write addr byte]
  | _ => []

namespace Tenancy

def byte (t : Tenancy) (x : Nat) : UInt8 := t.shared.current.memory.byte x

/-- The session that a program is to the heap. -/
def session (t : Tenancy) : Session := ⟨t.shared.current, t.leases.map Lease.holding⟩

/-- The lease has a block that is aligned for it and has room for it. -/
structure Houses (t : Tenancy) (b : Lease) : Prop where
  aligned : b.ptr % b.layout.align = 0
  placed : t.session.Placed b.holding

/-- The blocks of leases have no byte in common, nor do their headers. -/
def Apart (t : Tenancy) (b c : Lease) : Prop := t.session.Apart b.holding c.holding

/-- The lease goes on, with all usable bytes as they were but for those that are stored. -/
def Keeps (t t' : Tenancy) (stores : List Request) (b : Lease) : Prop :=
  b ∈ t'.leases ∧ t.session.Unharmed t'.session stores b.holding

/-- What a call owes, which answers `a`. -/
structure Honours (t t' : Tenancy) (c : LayoutCall) (a : Option Nat) : Prop where
  /-- All leases that the call is not on go on. -/
  others : ∀ b ∈ t.leases, c.returns ≠ some b.ptr → t.Keeps t' c.stores b
  /-- A request for a block that fails changes nothing. -/
  failed : c.wants.isSome → a = none → t'.leases = t.leases ∧ ∀ b ∈ t.leases, t.Keeps t' [] b
  /-- One that succeeds gives a block for the layout, apart from all others. -/
  granted : ∀ lay p, c.wants = some lay → a = some p → t'.Houses ⟨p, lay⟩ ∧
    ∃ others, t'.leases = ⟨p, lay⟩ :: others ∧ ∀ b ∈ others, t'.Apart ⟨p, lay⟩ b
  zeroed : ∀ lay p, c = .allocZeroed lay → a = some p → ∀ i < lay.size, t'.byte (p + i) = 0
  carried : ∀ q old new p, c = .realloc q old new → a = some p →
    ∀ i < min old.size new.size, t'.byte (p + i) = t.byte (q + i)
  /-- What is handed back, and is not in the answer again, is good for nothing. -/
  freed : ∀ q, c.returns = some q → (a = none → c.wants = none) → a ≠ some q → t'.session.Revoked q

/-- The process-wide heap is at rest, and a ledger accounts for the leases. -/
structure Has (t : Tenancy) (l : Ledger) : Prop where
  rest : t.shared.AtRest
  session : t.session.Has l
  aligned : ∀ b ∈ t.leases, b.ptr % b.layout.align = 0

variable {t t' u : Tenancy} {l l' : Ledger} {b d : Lease} {rs rs' : List Request} {lay : Layout} {n : Nat}

lemma Keeps.trans (h : t.Keeps t' rs b) (h' : t'.Keeps u rs' b) : t.Keeps u (rs ++ rs') b :=
  ⟨h'.1, h.2.trans h'.2⟩

lemma mem_held (hb : b ∈ t.leases) : b.holding ∈ t.session.held := List.mem_map_of_mem hb

lemma holds_ptr (hb : b ∈ t.leases) : t.session.holds b.ptr := ⟨b.holding, mem_held hb, rfl⟩

lemma Has.houses (k : t.Has l) (hb : b ∈ t.leases) : t.Houses b :=
  ⟨k.aligned b hb, k.session.placed (mem_held hb)⟩

lemma Has.size_le (k : t.Has l) (hb : b ∈ t.leases) : b.layout.size ≤ t.session.usable b.ptr :=
  (le_max_left _ 1).trans (k.houses hb).placed.roomy

lemma Has.nodup (k : t.Has l) : (t.leases.map Lease.ptr).Nodup := by
  have hnd := k.session.nodup
  rwa [Tenancy.session, List.map_map] at hnd

lemma Has.pairwise_apart (k : t.Has l) : t.leases.Pairwise t.Apart := by
  refine (List.pairwise_map.mp k.nodup).imp_of_mem fun hb hd hne => ?_
  exact k.session.apart (mem_held hb) (mem_held hd) hne

/-- The first of the leases is apart from the others. -/
lemma Has.granted (k : t.Has l) {others : List Lease} (hl : t.leases = b :: others) :
    t.Houses b ∧ ∃ others, t.leases = b :: others ∧ ∀ d ∈ others, t.Apart b d := by
  have hpair := k.pairwise_apart
  rw [hl] at hpair
  exact ⟨k.houses (hl ▸ List.mem_cons_self), others, hl, (List.pairwise_cons.mp hpair).1⟩

/-! ### The parts of a call -/

lemma filter_returned (p : Nat) (leases : List Lease) :
    (leases.filter fun b => some p ≠ some b.ptr) = leases.filter fun b => b.ptr ≠ p :=
  List.filter_congr fun b _ => decide_eq_decide.mpr (by rw [ne_eq, Option.some_inj, eq_comm])

/-- **A request served**, for a block of the layout. If it fails, all leases go on. -/
lemma Has.request_run {r : Request} {act : RequestM (Option Nat)} (k : t.Has l) (lay : Layout)
    (hact : r.serve = act.run) (hr : t.session.Allows r) (hst : ∀ x, ¬ r.stores x)
    (hsize : r.size = max lay.size 1)
    (hmod : ∀ p s, t.session.step r = .ok (.ok (some p), s) → p % lay.align = 0) :
    ∃ a t' l', SharedM.request act t.shared = .ok (a, t'.shared) ∧ t'.Has l' ∧
      (∀ b ∈ t.leases, r.returns ≠ some b.ptr → t.Keeps t' [] b) ∧
      match a with
      | none => t'.leases = t.leases ∧ ∀ b ∈ t.leases, t.Keeps t' [] b
      | some p => t'.leases = ⟨p, lay⟩ :: (t.leases.filter fun b => r.returns ≠ some b.ptr) ∧
        (∀ b ∈ t.leases, r.returns ≠ some b.ptr → b.ptr ≠ p) ∧
        t.session.step r = .ok (.ok (some p), t'.session) := by
  obtain ⟨s, e, -⟩ := k.session.step hr
  obtain ⟨-, ks, -⟩ := k.session.of_step hr e
  generalize hans : (l.answer r).1 = ans at e
  have hserve := Session.serve_of_step e
  rw [hact] at hserve
  have hrun := SharedM.request_run k.rest hserve
  have hothers (b : Lease) (hb : b ∈ t.leases) (hret : r.returns ≠ some b.ptr) :
      t.session.Unharmed s [] b.holding :=
    (k.session.unharmed_step hr e (mem_held hb) hret).of_not_stores hst
  rcases ans with x | _ | p
  · have hs : s = ⟨s.heap, t.leases.map Lease.holding⟩ :=
      congrArg (Session.mk s.heap) (Session.held_of_step e)
    rw [hs] at e ks hothers
    exact ⟨none, ⟨{ t.shared with heap := some s.heap }, t.leases⟩, _, hrun,
      ⟨k.rest.reheap _, ks, k.aligned⟩, fun b hb hret => ⟨hb, hothers b hb hret⟩, rfl,
      fun b hb => ⟨hb, k.session.unharmed_error hr e (mem_held hb)⟩⟩
  · -- at least one byte is asked for
    have h0 := Ledger.answer_none hans
    omega
  · obtain ⟨hheld, -, hnew⟩ := k.session.delivered hr e
    have hp := hmod p s e
    rw [hsize, Tenancy.session, List.filter_map] at hheld
    have hs : s = ⟨s.heap, (⟨p, lay⟩ :: t.leases.filter fun b => r.returns ≠ some b.ptr).map
        Lease.holding⟩ := congrArg (Session.mk s.heap) hheld
    rw [hs] at e ks hothers
    refine ⟨some p, ⟨{ t.shared with heap := some s.heap }, _⟩, _, hrun,
      ⟨k.rest.reheap _, ks, fun b hb => ?_⟩, fun b hb hret => ⟨?_, hothers b hb hret⟩, rfl,
      fun b hb => hnew _ (mem_held hb), e⟩
    · rcases List.mem_cons.mp hb with rfl | hb
      · exact hp
      · exact k.aligned b (List.mem_of_mem_filter hb)
    · exact List.mem_cons_of_mem _ (List.mem_filter.mpr ⟨hb, decide_eq_true hret⟩)

/-- **A layout served.** All leases go on, whether there is a block for one more or not. -/
lemma Has.alloc_run (k : t.Has l) (lay : Layout) :
    ∃ a t' l', SharedM.alloc lay t.shared = .ok (a, t'.shared) ∧ t'.Has l' ∧
      (∀ b ∈ t.leases, t.Keeps t' [] b) ∧
      match a with
      | none => t'.leases = t.leases
      | some p => t'.leases = ⟨p, lay⟩ :: t.leases ∧ ∀ b ∈ t.leases, b.ptr ≠ p := by
  have hret := Request.returns_aligned (max lay.size 1) lay.align
  obtain ⟨a, t', l', hrun, k', hkeeps, hl⟩ := k.request_run lay (SharedM.serve_requestFor lay)
    (t.session.allows_aligned _ _) (Request.not_stores_aligned _ _) (Request.size_aligned _ _)
    fun _ _ e => k.session.mod_aligned e
  rw [hret] at hkeeps hl
  refine ⟨a, t', l', hrun, k', fun b hb => hkeeps b hb (Option.some_ne_none _).symm, ?_⟩
  rcases a with _ | p
  · exact hl.1
  · have hall : (t.leases.filter fun b => (none : Option Nat) ≠ some b.ptr) = t.leases :=
      List.filter_eq_self.mpr fun b _ => rfl
    exact ⟨hl.1.trans (congrArg _ hall), fun b hb => hl.2.1 b hb (Option.some_ne_none _).symm⟩

/-- **The bytes of a lease stored.** -/
lemma Has.fill_run (k : t.Has l) (hb : b ∈ t.leases) (f : Nat → UInt8) :
    ∃ t', SharedM.onHeap (storeBytes b.ptr b.layout.size f) t.shared = .ok ((), t'.shared) ∧ t'.Has l ∧
      t'.leases = t.leases ∧ (∀ i < b.layout.size, t'.byte (b.ptr + i) = f i) ∧
      ∀ d ∈ t.leases, d.ptr ≠ b.ptr → t.Keeps t' [] d := by
  obtain ⟨h, hrun, ks, hbytes, hothers⟩ := k.session.fill (holds_ptr hb) (k.size_le hb) f
  exact ⟨⟨{ t.shared with heap := some h }, t.leases⟩, SharedM.onHeap_run hrun,
    ⟨k.rest.reheap h, ks, k.aligned⟩, rfl, hbytes,
    fun d hd hne => ⟨hd, hothers d.holding (mem_held hd) hne⟩⟩

/-- **Bytes of one lease copied to another.** -/
lemma Has.copy_run (k : t.Has l) (hb : b ∈ t.leases) (hd : d ∈ t.leases) (hn : n ≤ b.layout.size)
    (hm : n ≤ d.layout.size) :
    ∃ t', SharedM.onHeap (copyBytes b.ptr d.ptr n) t.shared = .ok ((), t'.shared) ∧ t'.Has l ∧
      t'.leases = t.leases ∧ (∀ i < n, t'.byte (d.ptr + i) = t.byte (b.ptr + i)) ∧
      ∀ c ∈ t.leases, c.ptr ≠ d.ptr → t.Keeps t' [] c := by
  obtain ⟨h, hrun, ks, hbytes, hothers⟩ := k.session.copy (holds_ptr hb) (holds_ptr hd)
    (hn.trans (k.size_le hb)) (hm.trans (k.size_le hd))
  exact ⟨⟨{ t.shared with heap := some h }, t.leases⟩, SharedM.onHeap_run hrun,
    ⟨k.rest.reheap h, ks, k.aligned⟩, rfl, hbytes,
    fun c hc hne => ⟨hc, hothers c.holding (mem_held hc) hne⟩⟩

/-- **A lease ended.** -/
lemma Has.dealloc_run (k : t.Has l) (hb : b ∈ t.leases) :
    ∃ t' l', SharedM.dealloc b.ptr t.shared = .ok ((), t'.shared) ∧ t'.Has l' ∧
      t'.leases = (t.leases.filter fun d => d.ptr ≠ b.ptr) ∧
      (∀ d ∈ t.leases, d.ptr ≠ b.ptr → t.Keeps t' [] d) ∧ t'.session.Revoked b.ptr := by
  have hr : t.session.Allows (.release b.ptr) := holds_ptr hb
  obtain ⟨h, hrun, e⟩ := k.session.release_run (holds_ptr hb)
  have hheld : Session.heldAfter t.session.held (.release b.ptr) (.ok none) =
      (t.leases.filter fun d => d.ptr ≠ b.ptr).map Lease.holding :=
    List.filter_map.trans (congrArg _ (filter_returned b.ptr t.leases))
  rw [hheld] at e
  obtain ⟨-, ks, -⟩ := k.session.of_step hr e
  refine ⟨⟨{ t.shared with heap := some h }, t.leases.filter fun d => d.ptr ≠ b.ptr⟩, _, ?_,
    ⟨k.rest.reheap h, ks, fun d hd => k.aligned d (List.mem_of_mem_filter hd)⟩, rfl,
    fun d hd hne => ⟨List.mem_filter.mpr ⟨hd, decide_eq_true hne⟩, ?_⟩, ?_⟩
  · rw [SharedM.dealloc, run_bind (SharedM.withHeap_run k.rest hrun)]
    rfl
  · refine (k.session.unharmed_step hr e (mem_held hd) fun he => hne ?_).of_not_stores fun x => id
    exact (Option.some.inj he).symm
  · exact k.session.revokes hr rfl e (Option.some_ne_none b.ptr).symm

/-- A byte stored. -/
lemma Has.write_run {addr : Nat} {v : UInt8} (k : t.Has l) (hc : t.Allows (.write addr v)) :
    ∃ t', (LayoutCall.write addr v).serve t.shared = .ok (none, t'.shared) ∧ t'.Has l ∧
      t'.leases = t.leases ∧ ∀ b ∈ t.leases, t.Keeps t' [.write addr v] b := by
  have hr : t.session.Allows (.write addr v) := by
    obtain ⟨b, hb, h1, h2⟩ := hc
    exact ⟨b.holding, mem_held hb, h1, Nat.lt_of_lt_of_le h2 (Nat.add_le_add_left (k.size_le hb) _)⟩
  obtain ⟨h, hh, ks, hkeeps⟩ := k.session.write hr
  refine ⟨⟨{ t.shared with heap := some h }, t.leases⟩, ?_, ⟨k.rest.reheap _, ks, k.aligned⟩, rfl,
    fun b hb => ⟨hb, hkeeps _ (mem_held hb)⟩⟩
  rw [LayoutCall.serve, run_bind (SharedM.store_run hh)]
  rfl

/-- What becomes of the lease `b` when it is to have the layout `new`, and the answer is `a`. -/
structure Resized (t t' : Tenancy) (b : Lease) (new : Layout) (a : Option Nat) : Prop where
  others : ∀ d ∈ t.leases, d.ptr ≠ b.ptr → t.Keeps t' [] d
  leases : t'.leases = leasesAfter t.leases (.realloc b.ptr b.layout new) a
  failed : a = none → ∀ d ∈ t.leases, t.Keeps t' [] d
  carried : ∀ p, a = some p → ∀ i < min b.layout.size new.size, t'.byte (p + i) = t.byte (b.ptr + i)
  freed : ∀ p, a = some p → p ≠ b.ptr → t'.session.Revoked b.ptr

/-- The bytes of a lease that goes on. -/
lemma Keeps.byte_eq {i : Nat} (h : t.Keeps t' [] b) (k : t.Has l) (hb : b ∈ t.leases)
    (hi : i < b.layout.size) : t'.byte (b.ptr + i) = t.byte (b.ptr + i) := by
  have hle := k.size_le hb
  exact h.2.2.2 _ (Nat.le_add_right _ _) (Nat.add_lt_add_left (Nat.lt_of_lt_of_le hi hle) _)
    fun _ hr => absurd hr List.not_mem_nil

/-- **A lease of small alignment resized** by the heap, in place or not. -/
lemma Has.resize_run (k : t.Has l) (hb : b ∈ t.leases) (hle : b.layout.align ≤ alignment)
    (hnew : lay.align = b.layout.align) :
    ∃ a t' l', SharedM.request (RequestM.resize b.ptr (max lay.size 1)) t.shared = .ok (a, t'.shared) ∧
      t'.Has l' ∧ t.Resized t' b lay a := by
  have hr : t.session.Allows (.resize b.ptr (max lay.size 1)) := holds_ptr hb
  obtain ⟨a, t', l', hrun, k', hkeeps, hl⟩ := k.request_run lay rfl hr (fun _ => id) rfl
    fun p s e => mod_of_isPowerOfTwo lay.isPowerOfTwo_align (hnew ▸ hle)
      (k.session.delivered hr e).2.1.aligned
  have hothers (d : Lease) (hd : d ∈ t.leases) (hne : d.ptr ≠ b.ptr) : t.Keeps t' [] d :=
    hkeeps d hd fun he => hne (Option.some.inj he).symm
  refine ⟨a, t', l', hrun, k', ?_⟩
  rcases a with _ | p
  · exact ⟨hothers, hl.1, fun _ => hl.2, fun _ he => (by cases he), fun _ he => by cases he⟩
  · obtain ⟨hleases, -, e⟩ := hl
    refine ⟨hothers, hleases.trans (congrArg _ (filter_returned b.ptr t.leases)), fun he => (by cases he),
      fun q he i hi => ?_, fun q he hq => k.session.revokes hr rfl e fun hp => hq ?_⟩
    · obtain rfl : p = q := Option.some.inj he
      refine k.session.carried (holds_ptr hb) e i ?_
      have hsize := k.size_le hb
      omega
    · exact Option.some.inj (he.symm.trans hp)

/-- **A lease moved** to a block of its own making, whatever its alignment. -/
lemma Has.reallocMoving_run (k : t.Has l) (hb : b ∈ t.leases) (lay : Layout) :
    ∃ a t' l', SharedM.reallocMoving b.ptr b.layout lay t.shared = .ok (a, t'.shared) ∧ t'.Has l' ∧
      t.Resized t' b lay a := by
  obtain ⟨a, t1, l1, hrun1, k1, hkeeps1, hl1⟩ := k.alloc_run lay
  unfold SharedM.reallocMoving
  rw [run_bind hrun1]
  -- three calls in a row: `t1` has the new lease, `t2` its bytes too, `t3` no longer the old one
  rcases a with _ | q
  · exact ⟨none, t1, l1, rfl, k1, fun d hd _ => hkeeps1 d hd, hl1, fun _ => hkeeps1,
      fun _ he => (by cases he), fun _ he => by cases he⟩
  obtain ⟨hl1, hfresh⟩ := hl1
  have hb1 : b ∈ t1.leases := (hkeeps1 b hb).1
  have hq1 : (⟨q, lay⟩ : Lease) ∈ t1.leases := hl1 ▸ List.mem_cons_self
  obtain ⟨t2, hrun2, k2, hl2, hcopied, hkeeps2⟩ :=
    k1.copy_run (n := min b.layout.size lay.size) hb1 hq1 (min_le_left _ _) (min_le_right _ _)
  rw [← hl2] at hb1 hq1
  obtain ⟨t3, l3, hrun3, k3, hl3, hkeeps3, hrevoked⟩ := k2.dealloc_run hb1
  have hqb : q ≠ b.ptr := fun he => hfresh b hb he.symm
  refine ⟨some q, t3, l3, ?_, k3, fun d hd hne => ?_, ?_, fun he => (by cases he), fun p he i hi => ?_,
    fun p he _ => hrevoked⟩
  · dsimp only
    rw [run_bind hrun2, run_bind hrun3]
    rfl
  · have hd1 := (hkeeps1 d hd).1
    have hstill := (hkeeps1 d hd).trans (hkeeps2 d hd1 (hfresh d hd))
    exact hstill.trans (hkeeps3 d (hl2 ▸ hd1) hne)
  · rw [hl3, hl2, hl1]
    exact List.filter_cons_of_pos (decide_eq_true hqb)
  · obtain rfl : q = p := Option.some.inj he
    calc t3.byte (q + i)
        = t2.byte (q + i) :=
          (hkeeps3 _ hq1 hqb).byte_eq k2 hq1 (Nat.lt_of_lt_of_le hi (min_le_right _ _))
      _ = t1.byte (b.ptr + i) := hcopied i hi
      _ = t.byte (b.ptr + i) :=
          (hkeeps1 b hb).byte_eq k hb (Nat.lt_of_lt_of_le hi (min_le_left _ _))

/-! ### Calls -/

lemma call_of_serve {c : LayoutCall} {a : Option Nat} (e : c.serve t.shared = .ok (a, t'.shared))
    (hl : t'.leases = leasesAfter t.leases c a) : t.call c = .ok (a, t') := by
  unfold call
  rw [e]
  dsimp only
  rw [← hl]

lemma Has.alloc (k : t.Has l) (lay : Layout) :
    ∃ a t' l', t.call (.alloc lay) = .ok (a, t') ∧ t'.Has l' ∧ t.Honours t' (.alloc lay) a := by
  obtain ⟨a, t', l', hrun, k', hkeeps, hl⟩ := k.alloc_run lay
  refine ⟨a, t', l', call_of_serve hrun ?_, k', ?_⟩
  · rcases a with _ | p
    · exact hl
    · exact hl.1
  · constructor
    case others => exact fun b hb _ => hkeeps b hb
    case failed =>
      rintro - rfl
      exact ⟨hl, hkeeps⟩
    case granted =>
      rintro lay' p hlay rfl
      cases hlay
      exact k'.granted hl.1
    case zeroed => exact fun _ _ hc => by cases hc
    case carried => exact fun _ _ _ _ hc => by cases hc
    case freed => exact fun _ hret => by cases hret

lemma Has.allocZeroed (k : t.Has l) (lay : Layout) :
    ∃ a t' l', t.call (.allocZeroed lay) = .ok (a, t') ∧ t'.Has l' ∧
      t.Honours t' (.allocZeroed lay) a := by
  obtain ⟨a, t1, l1, hrun1, k1, hkeeps1, hl1⟩ := k.alloc_run lay
  rcases a with _ | p
  · refine ⟨none, t1, l1, call_of_serve ?_ hl1, k1, ?_⟩
    · rw [LayoutCall.serve, SharedM.allocZeroed, run_bind hrun1]
      rfl
    · exact ⟨fun b hb _ => hkeeps1 b hb, fun _ _ => ⟨hl1, hkeeps1⟩, fun _ _ _ he => (by cases he),
        fun _ _ _ he => (by cases he), fun _ _ _ _ hc => (by cases hc), fun _ hret => by cases hret⟩
  obtain ⟨hl1, hfresh⟩ := hl1
  have hp1 : (⟨p, lay⟩ : Lease) ∈ t1.leases := hl1 ▸ List.mem_cons_self
  obtain ⟨t2, hrun2, k2, hl2, hzero, hkeeps2⟩ := k1.fill_run hp1 fun _ => 0
  have hl : t2.leases = ⟨p, lay⟩ :: t.leases := hl2.trans hl1
  refine ⟨some p, t2, l1, call_of_serve ?_ hl, k2, ?_⟩
  · rw [LayoutCall.serve, SharedM.allocZeroed, run_bind hrun1]
    exact run_bind hrun2
  · constructor
    case others =>
      exact fun b hb _ => (hkeeps1 b hb).trans (hkeeps2 b (hkeeps1 b hb).1 (hfresh b hb))
    case failed => exact fun _ he => by cases he
    case granted =>
      intro lay' q hlay he
      cases hlay
      cases he
      exact k2.granted hl
    case zeroed =>
      intro lay' q hc he
      cases hc
      cases he
      exact hzero
    case carried => exact fun _ _ _ _ hc => by cases hc
    case freed => exact fun _ hret => by cases hret

lemma Has.dealloc (k : t.Has l) (hb : b ∈ t.leases) :
    ∃ a t' l', t.call (.dealloc b.ptr b.layout) = .ok (a, t') ∧ t'.Has l' ∧
      t.Honours t' (.dealloc b.ptr b.layout) a := by
  obtain ⟨t', l', hrun, k', hl, hkeeps, hrevoked⟩ := k.dealloc_run hb
  refine ⟨none, t', l', call_of_serve ?_ hl, k', ?_⟩
  · rw [LayoutCall.serve, run_bind hrun]
    rfl
  · constructor
    case others => exact fun d hd hret => hkeeps d hd fun he => hret (congrArg some he.symm)
    case failed => exact fun hw => absurd hw Bool.false_ne_true
    case granted => exact fun _ _ hw => by cases hw
    case zeroed => exact fun _ _ hc => by cases hc
    case carried => exact fun _ _ _ _ hc => by cases hc
    case freed =>
      intro q hret _ _
      cases hret
      exact hrevoked

/-- What a call for another layout owes, it does if the lease is resized. -/
lemma Resized.honours {a : Option Nat} (z : t.Resized t' b lay a) (k' : t'.Has l') :
    t.Honours t' (.realloc b.ptr b.layout lay) a := by
  constructor
  case others => exact fun d hd hret => z.others d hd fun he => hret (congrArg some he.symm)
  case failed =>
    rintro - rfl
    exact ⟨z.leases, z.failed rfl⟩
  case granted =>
    rintro lay' p hlay rfl
    cases hlay
    exact k'.granted z.leases
  case zeroed => exact fun _ _ hc => by cases hc
  case carried =>
    intro q old new p hc hp
    cases hc
    exact z.carried p hp
  case freed =>
    intro q hret hnone hne
    cases hret
    rcases a with _ | p
    · exact absurd (hnone rfl) (Option.some_ne_none lay)
    · exact z.freed p rfl fun he => hne (congrArg some he)

lemma Has.realloc (k : t.Has l) (hb : b ∈ t.leases) (hnew : lay.align = b.layout.align) :
    ∃ a t' l', t.call (.realloc b.ptr b.layout lay) = .ok (a, t') ∧ t'.Has l' ∧
      t.Honours t' (.realloc b.ptr b.layout lay) a := by
  have hrun : ∃ a t' l', SharedM.realloc b.ptr b.layout lay t.shared = .ok (a, t'.shared) ∧ t'.Has l' ∧
      t.Resized t' b lay a := by
    unfold SharedM.realloc
    split
    · exact k.reallocMoving_run hb lay
    · next hle => exact k.resize_run hb (Nat.not_lt.mp hle) hnew
  obtain ⟨a, t', l', hrun, k', z⟩ := hrun
  exact ⟨a, t', l', call_of_serve hrun z.leases, k', z.honours k'⟩

lemma Has.write {addr : Nat} {v : UInt8} (k : t.Has l) (hc : t.Allows (.write addr v)) :
    ∃ a t' l', t.call (.write addr v) = .ok (a, t') ∧ t'.Has l' ∧ t.Honours t' (.write addr v) a := by
  obtain ⟨t', hrun, k', hl, hkeeps⟩ := k.write_run hc
  exact ⟨none, t', l, call_of_serve hrun hl, k', fun b hb _ => hkeeps b hb,
    fun hw => absurd hw Bool.false_ne_true, fun _ _ hw => (by cases hw), fun _ _ hc => (by cases hc),
    fun _ _ _ _ hc => (by cases hc), fun _ hret => by cases hret⟩

/-- **A call that a program may make** comes to an end, and does what it owes. -/
lemma Has.call {c : LayoutCall} (k : t.Has l) (hc : t.Allows c) :
    ∃ a t' l', t.call c = .ok (a, t') ∧ t'.Has l' ∧ t.Honours t' c a := by
  cases c with
  | alloc lay => exact k.alloc lay
  | allocZeroed lay => exact k.allocZeroed lay
  | dealloc p lay => exact k.dealloc (b := ⟨p, lay⟩) hc
  | realloc p old new => exact k.realloc (b := ⟨p, old⟩) hc.1 hc.2
  | write addr v => exact k.write hc

/-- A run keeps the books. -/
lemma Has.run {cs : List LayoutCall} {as : List (Option Nat)} (k : t.Has l) (hrun : t.Run cs as u) :
    ∃ l', u.Has l' := by
  refine hrun.preserves_of_served (P := fun t => ∃ l, t.Has l) ?_ ⟨l, k⟩
  rintro s c ⟨l, k⟩ hc
  obtain ⟨a, t, l', e, k', -⟩ := k.call hc
  exact ⟨a, t, e, l', k'⟩

lemma has_new {base pages : Nat} {key : UInt64} {mapper : Mapper}
    (hsited : (new base pages key mapper).shared.Sited) :
    (new base pages key mapper).Has (.new (new base pages key mapper).shared.freshHeap.arena) :=
  ⟨⟨rfl, rfl⟩, hsited.has_freshHeap, fun _ hb => absurd hb List.not_mem_nil⟩

end Tenancy

/-- **Programs get what they ask for.** After any calls of a program that allocates by layout, in a process
that may reserve any number of pages, every lease has a block that is aligned and large enough, and no two
have a byte in common. Each next call comes to an end and does what it owes: it leaves other leases alone,
gives an aligned block apart from them or nothing, with zeros or with the bytes of the block that it is on,
and takes that back, uses it again or leaves it as it is. -/
theorem tenants_served {base pages : Nat} {key : UInt64} {mapper : Mapper} {cs : List LayoutCall}
    {as : List (Option Nat)} {t : Tenancy}
    (hsited : (Tenancy.new base pages key mapper).shared.Sited)
    (hrun : (Tenancy.new base pages key mapper).Run cs as t) :
    (∀ b ∈ t.leases, t.Houses b) ∧ t.leases.Pairwise t.Apart ∧
    ∀ c, t.Allows c → ∃ a t', t.call c = .ok (a, t') ∧ t.Honours t' c a := by
  obtain ⟨l, k⟩ := (Tenancy.has_new hsited).run hrun
  refine ⟨fun b => k.houses, k.pairwise_apart, fun c hc => ?_⟩
  obtain ⟨a, t', l', e, -, hhonours⟩ := k.call hc
  exact ⟨a, t', e, hhonours⟩

/-- Here the system declines to map the region at first, and a block with a byte of its program's is moved
to a greater one of the same alignment. -/
theorem tenants_served_after_decline :
    ∃ t t' : Tenancy, ∃ a b : Layout, a.align = 64 ∧ t.Houses ⟨65600, a⟩ ∧ t.byte 65600 = 9 ∧
      t.call (.realloc 65600 a b) = .ok (some 65792, t') ∧
      t.Honours t' (.realloc 65600 a b) (some 65792) ∧ t'.byte 65792 = 9 := by
  let a : Layout := ⟨100, 64, ⟨6, rfl⟩, by decide⟩
  let b : Layout := ⟨300, 64, ⟨6, rfl⟩, by decide⟩
  let z : Layout := ⟨0, 1, ⟨0, rfl⟩, by decide⟩
  let start := Tenancy.new 65536 2 7 ⟨addressSpace, (· == 0)⟩
  have hsited : start.shared.Sited := ⟨by decide, by decide⟩
  have hend : (start.callAll [.alloc a, .alloc a, .write 65600 9, .allocZeroed z]).map (fun x =>
      (x.1, x.2.leases, x.2.byte 65600, (x.2.call (.realloc 65600 a b)).toOption.map Prod.fst)) =
      some ([none, some 65600, none, some 65552], [⟨65552, z⟩, ⟨65600, a⟩], 9, some (some 65792)) := by
    decide +kernel
  obtain ⟨⟨as, t⟩, ht, hend⟩ := Option.map_eq_some_iff.mp hend
  simp only [Prod.mk.injEq] at hend
  obtain ⟨-, hleases, hbyte, hans⟩ := hend
  have hmem : (⟨65600, a⟩ : Lease) ∈ t.leases := by
    rw [hleases]
    exact List.mem_cons_of_mem _ List.mem_cons_self
  obtain ⟨hhoused, -, hserved⟩ := tenants_served hsited (.of_make ht)
  obtain ⟨x, t', e, hhonours⟩ := hserved (.realloc 65600 a b) ⟨hmem, rfl⟩
  rw [e] at hans
  obtain rfl : x = some 65792 := Option.some.inj hans
  refine ⟨t, t', a, b, rfl, hhoused _ hmem, hbyte, e, hhonours, ?_⟩
  calc t'.byte 65792
      = t.byte 65600 := hhonours.carried 65600 a b 65792 rfl rfl 0 (by decide)
    _ = 9 := hbyte

end BoundaryTag
