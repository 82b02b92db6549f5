import BoundaryTag.Proofs.Heap.Guarding
import BoundaryTag.Proofs.Heap.Inspecting
import BoundaryTag.Proofs.Heap.Verifying
import BoundaryTag.Proofs.Session

/-!
Accesses in bounds, and exact sums.

Whatever clients may ask for, the machine does what a heap under guard does. So the heap reads and writes
in its region only, no sum or difference wraps around, and what it assumes holds: at the first block, at
the last word and when pages are added. The region of an arena in a buffer lies in the buffer, wherever
that is and whatever its length.
-/

namespace BoundaryTag

open Heap HeapM Piece

/-! ### Regions -/

section Arenas

variable {arena : Arena} {memory : Memory} {h : Heap}

/-- The region lies in memory, below the last address. If that memory takes up less than half of all
addresses, the length of the region with one more page is a size too. -/
structure Arena.LiesIn (arena : Arena) (memory : Memory) : Prop where
  mapped : ∀ x, arena.start ≤ x → x < arena.stop → memory.base ≤ x ∧ x < memory.base + memory.extent
  bounded : arena.stop < addressSpace
  next : memory.extent < addressSpace / 2 → arena.pages * pageSize + pageSize < addressSpace

/-- A region begins at its first page, or is nowhere. -/
lemma Arena.start_zero_or (arena : Arena) : arena.start = 0 ∨ arena.start = arena.base := by
  unfold Arena.start
  split
  · split
    · exact .inl rfl
    · exact .inr rfl
  · exact .inr rfl

lemma Arena.start_mod (hmod : arena.base % alignment = 0) : arena.start % alignment = 0 := by
  rcases arena.start_zero_or with h | h <;> rw [h]
  · exact Nat.zero_mod _
  · exact hmod

/-- Pages up to the limit end below the last address. -/
lemma Arena.stop_lt (hlt : arena.base + arena.supply.limit * pageSize < addressSpace)
    (hpages : arena.pages ≤ arena.supply.limit) : arena.stop < addressSpace := by
  have hstart : arena.start ≤ arena.base := by
    rcases arena.start_zero_or with h | h <;> omega
  calc arena.start + arena.pages * pageSize
      ≤ arena.base + arena.supply.limit * pageSize :=
        Nat.add_le_add hstart (Nat.mul_le_mul_right _ hpages)
    _ < addressSpace := hlt

/-- The region of a roomy heap lies in its memory. -/
lemma Roomy.liesIn (r : Roomy h) : h.arena.LiesIn h.memory := by
  refine ⟨fun x h1 h2 => ?_, Arena.stop_lt r.bounded r.pages_le, fun hhalf => ?_⟩
  · have g := r.grounded_of_lt h1 h2
    have hbase := g.base_le
    have hstop := g.stop_le
    omega
  · have hle := Nat.mul_le_mul_right pageSize r.pages_le
    by_cases h0 : h.arena.supply.limit = 0
    · rw [h0, Nat.zero_mul] at hle
      unfold pageSize addressSpace at *
      omega
    · obtain ⟨hbase, hend⟩ := r.mapped h0
      unfold pageSize addressSpace at *
      omega

/-- Only the place of the memory matters. -/
lemma Arena.LiesIn.congr {m : Memory} (w : arena.LiesIn m) (hbase : m.base = memory.base)
    (hextent : m.extent = memory.extent) : arena.LiesIn memory :=
  ⟨hbase ▸ hextent ▸ w.mapped, w.bounded, hextent ▸ w.next⟩

/-- A heap under guard is watchful at every length of its region. -/
lemma Roomy.watchful {k : Heap} (r : Roomy h) (hstrict : k.strict = true)
    (hbase : k.arena.base = h.arena.base) (hsupply : k.arena.supply = h.arena.supply)
    (hpages : k.arena.pages ≤ k.arena.supply.limit) : k.Watchful := by
  have hlt := r.bounded
  rw [← hbase, ← hsupply] at hlt
  exact Heap.watchful hstrict (Arena.start_mod (hbase ▸ r.aligned)) (Arena.stop_lt hlt hpages)

/-- **An arena in a buffer conforms**, wherever the buffer is and whatever its length, if its addresses
are below the last one. A buffer that is too short for a page is an arena without pages. -/
lemma Arena.conforms_ofBuffer {addr len : Nat} {key : UInt64} {bytes : ByteTree}
    (hbounded : (ofBuffer addr len key).base + (ofBuffer addr len key).supply.limit * pageSize <
      addressSpace) : (ofBuffer addr len key).Conforms ⟨addr, len, bytes⟩ := by
  refine ⟨rfl, roundUp_mod addr alignment, hbounded, fun x h1 h2 => ?_⟩
  have haddr : addr ≤ roundUp addr alignment := le_roundUp (by decide)
  have hlen := Nat.div_mul_le_self (len - (roundUp addr alignment - addr)) pageSize
  change roundUp addr alignment ≤ x at h1
  change x < roundUp addr alignment + (len - (roundUp addr alignment - addr)) / pageSize * pageSize at h2
  show addr ≤ x ∧ x < addr + len
  omega

/-- The address of the buffer can be aligned. -/
lemma Arena.align_ofBuffer {addr len : Nat} {key : UInt64}
    (hlt : (ofBuffer addr len key).base < addressSpace) : addr + (alignment - 1) < addressSpace := by
  have haddr : addr ≤ roundUp addr alignment := le_roundUp (by decide)
  have hmod := roundUp_mod addr alignment
  change roundUp addr alignment < addressSpace at hlt
  unfold alignment addressSpace at *
  omega

end Arenas

/-! ### Sessions under guard -/

namespace Session

/-- The session with its heap under guard. -/
def guarded (s : Session) : Session := { s with heap := { s.heap with strict := true } }

/-- What is asked of the session comes to an end under guard, as it does without. -/
structure Secure (s : Session) : Prop where
  serves : ∀ r, s.Allows r →
    ∃ a t, s.step r = .ok (a, t) ∧ s.guarded.step r = .ok (a, t.guarded)
  check : ∀ p, ∃ r, (s.heap.check p).run = .ok r ∧ (s.guarded.heap.check p).run = .ok r
  usableSize : ∀ p, ∃ r, (s.heap.usableSize p).run = .ok r ∧ (s.guarded.heap.usableSize p).run = .ok r
  verify : s.heap.verify.run = .ok (.ok ()) ∧ s.guarded.heap.verify.run = .ok (.ok ())
  blocks : ∃ bs, s.heap.blocks = .ok bs ∧ s.guarded.heap.blocks = .ok bs ∧
    ∀ b ∈ bs, b.payload + b.size ≤ s.heap.arena.stop
  freeListLen : ∀ n, ∃ k, s.heap.freeListLen n = .ok k ∧ s.guarded.heap.freeListLen n = .ok k
  dump : ∃ h, HeapM.dump s.heap = .ok ((), h) ∧
    HeapM.dump s.guarded.heap = .ok ((), { h with strict := true })
  watchful : ∀ h : Heap, h.strict = true → h.arena.base = s.heap.arena.base →
    h.arena.supply = s.heap.arena.supply → h.arena.pages ≤ h.arena.supply.limit → h.Watchful

variable {s t : Session} {l : Ledger} {r : Request} {a : Answer}

lemma unguarded_guarded (hs : s.heap.strict = false) : s.guarded.heap.unguarded = s.heap := by
  rcases s with ⟨h, held⟩
  rcases h with ⟨arena, memory, key, heads, quick, last, ready, strict, journal⟩
  obtain rfl : strict = false := hs
  rfl

/-- A heap that is under guard is its machine under guard. -/
lemma guarded_unguarded {h : Heap} (hs : h.strict = true) : { h.unguarded with strict := true } = h := by
  rcases h with ⟨arena, memory, key, heads, quick, last, ready, strict, journal⟩
  obtain rfl : strict = true := hs
  rfl

/-- What goes through under guard, the machine does. -/
lemma machine_reads {α : Type} {f : Heap → Except Halt α} (hf : Heap.Transparent f)
    (hs : s.heap.strict = false) {x : α} (e : f s.guarded.heap = .ok x) : f s.heap = .ok x := by
  have hread := hf _ _ e
  rwa [unguarded_guarded hs] at hread

lemma machine_runs {α : Type} {m : HeapM α} (hm : HeapM.Transparent m) (hs : s.heap.strict = false)
    {x : α} {h : Heap} (e : m s.guarded.heap = .ok (x, h)) :
    ∃ h', m s.heap = .ok (x, h') ∧ { h' with strict := true } = h := by
  obtain ⟨hplace, hrun⟩ := hm _ _ _ e
  rw [unguarded_guarded hs] at hrun
  exact ⟨_, hrun, guarded_unguarded hplace.strict⟩

lemma machine_steps (hs : s.heap.strict = false) (e : s.guarded.step r = .ok (a, t)) :
    ∃ s', s.step r = .ok (a, s') ∧ s'.guarded = t := by
  obtain ⟨h', hrun, hh⟩ := machine_runs r.transparent_serve hs (serve_of_step e)
  refine ⟨⟨h', t.held⟩, ?_, ?_⟩
  · rw [held_of_step e]
    exact step_of_serve hrun
  · rw [guarded, hh]

/-- Clients may write where they may write under guard. -/
lemma Has.allows_guarded (k : s.guarded.Has l) (hs : s.heap.strict = false) (hr : s.Allows r) :
    s.guarded.Allows r := by
  cases r with
  | allocate | allocateZeroed | allocateAligned | release | resize => exact hr
  | write addr byte =>
    obtain ⟨b, hb, h1, h2⟩ := hr
    obtain ⟨-, n, -, -, hn⟩ := k.live b hb
    have hread := (k.shows.legible k.sound hn.1).tag
    have husable : s.guarded.usable b.ptr = s.usable b.ptr := by
      unfold usable
      rw [hread, machine_reads (.tagAt _) hs hread]
    exact ⟨b, hb, h1, husable.symm ▸ h2⟩

/-- **A step of the machine** is the step under guard. -/
lemma Has.step_guarded (k : s.guarded.Has l) (hs : s.heap.strict = false) (hr : s.Allows r)
    (e : s.step r = .ok (a, t)) :
    s.guarded.step r = .ok (a, t.guarded) ∧ t.guarded.Has (l.answer r).2 ∧ SamePlace s.heap t.heap := by
  obtain ⟨t', hstep, k', -⟩ := k.step (k.allows_guarded hs hr)
  obtain ⟨s', e', rfl⟩ := machine_steps hs hstep
  rw [e] at e'
  cases e'
  exact ⟨hstep, k', (r.transparent_serve _ _ _ (serve_of_step e)).1⟩

/-- **A run of the machine** is a run under guard. -/
lemma Has.run_guarded {rs : List Request} {as : List Answer} (k : s.guarded.Has l)
    (hs : s.heap.strict = false) (hrun : s.Run rs as t) :
    s.guarded.Run rs as t.guarded ∧ t.guarded.Has (l.run rs).2 ∧ SamePlace s.heap t.heap := by
  induction hrun generalizing l with
  | nil s => exact ⟨.nil _, k, .refl _⟩
  | cons hr e _ ih =>
    obtain ⟨e1, k1, hplace1⟩ := k.step_guarded hs hr e
    obtain ⟨hrun, k2, hplace2⟩ := ih k1 (hplace1.strict.trans hs)
    exact ⟨.cons (k.allows_guarded hs hr) e1 hrun, k2, hplace1.trans hplace2⟩

/-- **A session with a ledger is secure.** -/
lemma Has.secure (k : s.Has l) (kg : s.guarded.Has l) (hs : s.heap.strict = false) : s.Secure := by
  constructor
  case serves =>
    intro r hr
    obtain ⟨t, hstep, -⟩ := kg.step (kg.allows_guarded hs hr)
    obtain ⟨s', e, rfl⟩ := machine_steps hs hstep
    exact ⟨_, s', e, hstep⟩
  case check =>
    intro p
    obtain ⟨r, hr⟩ := kg.shows.check_total kg.sound p
    exact ⟨r, machine_reads (.check p) hs hr, hr⟩
  case usableSize =>
    intro p
    obtain ⟨r, hr⟩ := kg.shows.usableSize_total kg.sound p
    exact ⟨r, machine_reads (.usableSize p) hs hr, hr⟩
  case verify => exact ⟨k.shows.verify k.sound, kg.shows.verify kg.sound⟩
  case blocks =>
    exact ⟨_, k.shows.blocks k.sound, kg.shows.blocks kg.sound, fun b hb => k.shows.walk_le k.sound hb⟩
  case freeListLen =>
    intro n
    obtain ⟨x, hx⟩ := kg.shows.freeListLen_total kg.sound n
    exact ⟨x, machine_reads (.freeListLen n) hs hx, hx⟩
  case dump =>
    obtain ⟨h, hh⟩ := kg.shows.dump kg.sound
    obtain ⟨h', hrun, rfl⟩ := machine_runs .dump hs hh
    exact ⟨h', hrun, hh⟩
  case watchful => exact fun h => k.shows.roomy.watchful

/-- A run leaves the heap in its place. -/
lemma Run.samePlace {rs : List Request} {as : List Answer} (hrun : s.Run rs as t) : SamePlace s.heap t.heap := by
  induction hrun with
  | nil s => exact .refl _
  | @cons _ _ _ r _ _ _ _ e _ ih => exact (r.transparent_serve _ _ _ (serve_of_step e)).1.trans ih

lemma guarded_of_strict (hs : s.heap.strict = true) : s.guarded = s :=
  congrArg (Session.mk · s.held) (guarded_unguarded hs)

/-- **A step of a session that a run ends in** goes through under guard, be the session under guard or not. -/
lemma Reachable.step_guarded (hs : s.Reachable) (hr : s.Allows r) (e : s.step r = .ok (a, t)) :
    s.guarded.step r = .ok (a, t.guarded) := by
  obtain ⟨arena, memory, strict, rs, as, hfresh, hrun⟩ := hs
  rcases strict with _ | _
  · have hstart : (start arena memory false).guarded.Has (.new arena) := has_start hfresh.conforms true
    obtain ⟨-, kg, hplace⟩ := hstart.run_guarded rfl hrun
    exact (kg.step_guarded hplace.strict hr e).1
  · have hstrict : s.heap.strict = true := hrun.samePlace.strict
    have hplace := (r.transparent_serve _ _ _ (serve_of_step e)).1
    rw [guarded_of_strict hstrict, guarded_of_strict (hplace.strict.trans hstrict), e]

end Session

/-- **All accesses are in bounds, and all sums exact.** A run of requests that clients may make, over an
arena that conforms, is one under guard; so are what may be asked for next and all inspections. The region
lies in the memory that there is, and an arena in a buffer of any address and length conforms. -/
theorem accesses_in_bounds :
    (∀ (arena : Arena) (memory : Memory) (rs : List Request) (as : List Answer) (s : Session),
      arena.Conforms memory → (Session.start arena memory false).Run rs as s →
        (Session.start arena memory true).Run rs as s.guarded ∧ s.Secure ∧
          s.heap.arena.LiesIn memory) ∧
      ∀ (addr len : Nat) (key : UInt64) (bytes : ByteTree),
        (Arena.ofBuffer addr len key).base + (Arena.ofBuffer addr len key).supply.limit * pageSize <
          addressSpace →
        (Arena.ofBuffer addr len key).Conforms ⟨addr, len, bytes⟩ ∧
          addr + (alignment - 1) < addressSpace := by
  refine ⟨fun arena memory rs as s hconf hrun => ?_, fun addr len key bytes hbounded => ?_⟩
  · have k := ((Session.has_start hconf false).run hrun).2
    have hstart : (Session.start arena memory false).guarded.Has (.new arena) :=
      Session.has_start hconf true
    obtain ⟨hguarded, kg, hplace⟩ := hstart.run_guarded rfl hrun
    refine ⟨hguarded, k.secure kg hplace.strict, ?_⟩
    exact k.shows.roomy.liesIn.congr hplace.memoryBase hplace.extent
  · exact ⟨Arena.conforms_ofBuffer hbounded, Arena.align_ofBuffer (Nat.lt_of_add_right_lt hbounded)⟩

/-- Here the buffer is not aligned, and the second page ends where the buffer does. -/
theorem accesses_in_bounds_unaligned :
    ∃ as s, (Session.start (.ofBuffer 4097 8207 7) (.zeroed 4097 8207) true).Run
        [.allocate 24, .allocateAligned 100 64, .release 4128, .allocate 5000] as (Session.guarded s) ∧
      s.Secure ∧ s.heap.arena.stop = 4097 + 8207 ∧ s.heap.arena.LiesIn (.zeroed 4097 8207) := by
  have hend : ((Session.start (.ofBuffer 4097 8207 7) (.zeroed 4097 8207) false).serveAll
      [.allocate 24, .allocateAligned 100 64, .release 4128, .allocate 5000]).map
        (fun x => x.2.heap.arena.stop) = some (4097 + 8207) := by
    decide +kernel
  obtain ⟨⟨as, s⟩, hs, hstop⟩ := Option.map_eq_some_iff.mp hend
  obtain ⟨hconf, -⟩ := accesses_in_bounds.2 4097 8207 7 .zeros (by decide)
  obtain ⟨hrun, hsecure, hin⟩ := accesses_in_bounds.1 _ _ _ _ s hconf (.of_serveAll hs)
  exact ⟨as, s, hrun, hsecure, hstop, hin⟩

end BoundaryTag
