import BoundaryTag.Posix.Program
import BoundaryTag.Proofs.Delivery
import BoundaryTag.Proofs.Resting

/-!
Calls through the C interface.

Each call makes at most one request of the process-wide heap, and what a program sees of it comes from the
answer alone: the block, or how the call reports an error. The system may set `errno` too: as often as it
refuses to map the region, which it only does for a call that fails, and once where the key is drawn.
-/

namespace BoundaryTag

open Heap HeapM

/-! ### Error numbers -/

namespace PosixState

/-- The error number that drawing the key is going to set. There is none once it is drawn. -/
def pending (p : PosixState) : Option Errno := if PosixM.keyed p.shared then none else p.source.errno

/-- What a call leaves that ends with the heap `h`. -/
def after (p : PosixState) (h : Heap) : PosixState :=
  let shared := { p.shared with heap := some h }
  { p with shared, errno := PosixM.heard p shared }

/-- What the report of an error leaves. -/
def told (p : PosixState) : Answer → PosixState
  | .ok _ => p
  | .error e => { p with errno := some e.errno }

variable {p : PosixState} {h : Heap}

lemma shared_told (p : PosixState) (ans : Answer) : (p.told ans).shared = p.shared := by
  cases ans <;> rfl

lemma source_told (p : PosixState) (ans : Answer) : (p.told ans).source = p.source := by
  cases ans <;> rfl

/-- Where the arena was not asked for a page, the system has set nothing. -/
lemma after_eq (harena : h.arena = p.shared.current.arena) :
    p.after h = { p with shared := { p.shared with heap := some h } } := by
  -- the same arena has been asked and has refused as often; one that is new has not
  have hsame : PosixM.keyed { p.shared with heap := some h } = PosixM.keyed p.shared ∧
      PosixM.refusedMappings { p.shared with heap := some h } = PosixM.refusedMappings p.shared := by
    unfold PosixM.keyed PosixM.refusedMappings
    dsimp only
    rw [harena, Shared.current]
    rcases p.shared.heap with _ | h'
    · simp [Shared.freshHeap, Heap.new, Arena.reserveFrom]
    · exact ⟨rfl, rfl⟩
  have hheard : PosixM.heard p { p.shared with heap := some h } = p.errno := by
    rw [PosixM.heard, hsame.1, hsame.2, if_neg (lt_irrefl _), if_neg (by simp)]
  exact congrArg (fun errno => { p with shared := { p.shared with heap := some h }, errno }) hheard

/-- Where there are pages, the system has set no more than the error number of the draw. -/
lemma errno_after (hpages : h.arena.pages ≠ 0) (hrequests : h.arena.requests ≠ 0) :
    (p.after h).errno = p.pending.or p.errno := by
  have hkeyed : PosixM.keyed { p.shared with heap := some h } = true := bne_iff_ne.mpr hrequests
  have hrefused : PosixM.refusedMappings { p.shared with heap := some h } = 0 := by
    simp [PosixM.refusedMappings, hpages]
  show PosixM.heard p { p.shared with heap := some h } = _
  rw [PosixM.heard, hrefused, hkeyed, if_neg (Nat.not_lt_zero _), pending]
  cases PosixM.keyed p.shared <;> rfl

end PosixState

namespace PosixM

variable {p : PosixState} {α : Type} {a : α} {h : Heap} {ans : Answer}

lemma onShared_run {act : SharedM α} {s : Shared} (e : act p.shared = .ok (a, s)) :
    onShared act p = .ok (a, { p with shared := s }) := by
  rw [onShared, e]

/-- **A call to the heap**, and what the system does to `errno` meanwhile. -/
lemma onHeap_run {act : HeapM α} (hrest : p.shared.AtRest) (e : act p.shared.current = .ok (a, h)) :
    onHeap act p = .ok (some a, p.after h) := by
  have hget : (MonadState.get : PosixM PosixState) p = .ok (p, p) := rfl
  unfold onHeap
  rw [run_bind hget, run_bind (onShared_run (SharedM.withHeap_run hrest e))]
  rfl

lemma request_run {act : RequestM (Option Nat)} (hrest : p.shared.AtRest)
    (e : act.run p.shared.current = .ok (ans, h)) :
    request act p = .ok (outcome (some ans), p.after h) := by
  rw [request, run_bind (onHeap_run hrest e)]
  rfl

/-- A request whose errors are reported by null and `errno`. -/
lemma answer_run {act : RequestM (Option Nat)} (hrest : p.shared.AtRest)
    (e : act.run p.shared.current = .ok (ans, h)) :
    (do answer (← request act)) p = .ok (SharedM.granted (some ans), (p.after h).told ans) := by
  rw [run_bind (request_run hrest e)]
  cases ans <;> rfl

/-! ### The functions -/

variable {count size ptr align : Nat}

lemma calloc_run (hlt : count * size < addressSpace) (hrest : p.shared.AtRest)
    (e : (RequestM.allocateZeroed (count * size)).run p.shared.current = .ok (ans, h)) :
    calloc count size p = .ok (SharedM.granted (some ans), (p.after h).told ans) := by
  unfold calloc
  rw [if_pos hlt]
  exact answer_run hrest e

/-- A product that is out of range is not asked for. -/
lemma calloc_overflow (hge : ¬ count * size < addressSpace) :
    calloc count size p = .ok (none, { p with errno := some .outOfMemory }) := by
  unfold calloc
  rw [if_neg hge]
  rfl

lemma realloc_run (h0 : ptr ≠ 0) (hrest : p.shared.AtRest)
    (e : (RequestM.resize ptr size).run p.shared.current = .ok (ans, h)) :
    realloc ptr size p = .ok (SharedM.granted (some ans), (p.after h).told ans) := by
  unfold realloc
  rw [if_neg h0]
  exact answer_run hrest e

lemma realloc_null (size : Nat) : realloc 0 size = malloc size := if_pos rfl

lemma posixMemalign_run (hok : ¬ (¬ align.isPowerOfTwo ∨ align < wordSize)) (hrest : p.shared.AtRest)
    (e : (alignedRequest size align).run p.shared.current = .ok (ans, h)) :
    posixMemalign align size p = .ok (outcome (some ans), p.after h) := by
  unfold posixMemalign
  rw [if_neg hok]
  exact request_run hrest e

lemma posixMemalign_refused (hrej : ¬ align.isPowerOfTwo ∨ align < wordSize) :
    posixMemalign align size p = .ok (.error .invalidArgument, p) := by
  unfold posixMemalign
  rw [if_pos hrej]
  rfl

lemma free_run (h0 : ptr ≠ 0) (hrest : p.shared.AtRest)
    (e : HeapM.release ptr p.shared.current = .ok ((), h)) : free ptr p = .ok ((), p.after h) := by
  unfold free
  rw [if_pos h0, run_bind (onHeap_run hrest e)]
  rfl

lemma free_null : free 0 p = .ok ((), p) := by
  unfold free
  rw [if_neg (not_not.mpr rfl)]
  rfl

lemma store_run {addr : Nat} {byte : UInt8}
    (hh : h = { p.shared.current with memory := p.shared.current.memory.setByte addr byte }) :
    onShared (SharedM.store addr byte) p = .ok ((), p.after h) := by
  rw [PosixState.after_eq (hh ▸ rfl)]
  exact onShared_run (SharedM.store_run hh)

end PosixM

/-! ### Requests and replies -/

namespace CCall

/-- The request that a call makes, if it makes one. -/
def request? : CCall → Option Request
  | malloc size => some (.allocate size)
  | calloc count size =>
    if count * size < addressSpace then some (.allocateZeroed (count * size)) else none
  | realloc ptr size => some (if ptr = 0 then .allocate size else .resize ptr size)
  | alignedAlloc align size => some (.aligned size align)
  | memalign align size => some (.aligned size align)
  | posixMemalign align size =>
    if ¬ align.isPowerOfTwo ∨ align < wordSize then none else some (.aligned size align)
  | free ptr => if ptr = 0 then none else some (.release ptr)
  | write addr byte => some (.write addr byte)
  | setErrno _ => none

/-- What the program sees of the answer. -/
def reply (c : CCall) (ans : Answer) : CReply :=
  match c, ans with
  | posixMemalign _ _, .error e => .status e.errno
  | c, ans => c.gives (SharedM.granted (some ans))

/-- What the report of the answer leaves. -/
def leaves (c : CCall) (ans : Answer) (p : PosixState) : PosixState :=
  match c with
  | posixMemalign _ _ => p
  | _ => p.told ans

/-- The stores in a call. -/
def stores : CCall → List Request
  | write addr byte => [.write addr byte]
  | _ => []

variable {c : CCall} {r : Request} {p : PosixState} {ans : Answer} {h : Heap}

lemma serve_alignedRequest (size align : Nat) :
    (PosixM.alignedRequest size align).run = (Request.aligned size align).serve := by
  unfold PosixM.alignedRequest Request.aligned
  split <;> rfl

lemma release_of_serve {s : Heap} {ptr : Nat} (e : (Request.release ptr).serve s = .ok (ans, h)) :
    HeapM.release ptr s = .ok ((), h) ∧ ans = .ok none := by
  rcases hrun : HeapM.release ptr s with x | ⟨u, h'⟩
  · rw [Request.serve, HeapM.bind_halt hrun] at e
    cases e
  · rw [Request.serve, HeapM.bind_run hrun] at e
    cases e
    exact ⟨rfl, rfl⟩

/-- **A call does its request**, and makes the reply from the answer. -/
lemma serve_run (hr : c.request? = some r) (hrest : p.shared.AtRest)
    (e : r.serve p.shared.current = .ok (ans, h)) :
    c.serve p = .ok (c.reply ans, c.leaves ans (p.after h)) := by
  cases c with
  | malloc size =>
    cases hr
    exact run_bind (PosixM.answer_run hrest e)
  | calloc count size =>
    obtain ⟨hlt, he⟩ := Option.ite_none_right_eq_some.mp hr
    cases he
    exact run_bind (PosixM.calloc_run hlt hrest e)
  | realloc ptr size =>
    cases hr
    by_cases h0 : ptr = 0
    · subst h0
      rw [serve, PosixM.realloc_null]
      exact run_bind (PosixM.answer_run hrest e)
    · rw [if_neg h0] at e
      exact run_bind (PosixM.realloc_run h0 hrest e)
  | alignedAlloc align size | memalign align size =>
    cases hr
    rw [← serve_alignedRequest] at e
    exact run_bind (PosixM.answer_run hrest e)
  | posixMemalign align size =>
    obtain ⟨hok, he⟩ := Option.ite_none_left_eq_some.mp hr
    cases he
    rw [← serve_alignedRequest] at e
    rw [serve, run_bind (PosixM.posixMemalign_run hok hrest e)]
    cases ans <;> rfl
  | free ptr =>
    obtain ⟨h0, he⟩ := Option.ite_none_left_eq_some.mp hr
    cases he
    obtain ⟨hrun, rfl⟩ := release_of_serve e
    exact run_bind (PosixM.free_run h0 hrest hrun)
  | write addr byte =>
    cases hr
    obtain ⟨rfl, hh⟩ := Prod.mk.inj (Except.ok.inj e)
    exact run_bind (PosixM.store_run hh.symm)
  | setErrno errno => cases hr

lemma block_reply (c : CCall) (ans : Answer) : (c.reply ans).block = SharedM.granted (some ans) := by
  cases ans <;> cases c <;> rfl

lemma answer_of_block {b : Nat} (hb : (c.reply ans).block = some b) : ans = .ok (some b) := by
  rw [block_reply] at hb
  rcases ans with e | x
  · cases hb
  · exact congrArg Except.ok hb

lemma shared_leaves (c : CCall) (ans : Answer) (p : PosixState) : (c.leaves ans p).shared = p.shared := by
  cases c <;> first | rfl | exact PosixState.shared_told p ans

lemma source_leaves (c : CCall) (ans : Answer) (p : PosixState) : (c.leaves ans p).source = p.source := by
  cases c <;> first | rfl | exact PosixState.source_told p ans

/-! ### What a call asks of the heap -/

/-- A call is called on the block that its request is called on, for as many bytes and as aligned, and is
refused for its alignment where that is; programs make it where they may make the request; and only its store
is one. -/
structure Makes (c : CCall) (r : Request) : Prop where
  size : r.size = c.wants.getD 0
  returns : r.returns = c.returns
  align : c.align = alignment ∨ ∃ n, r = .aligned n c.align
  misaligned : r.Misaligned ↔ c.Rejects
  allows : ∀ t : CProgram, t.Allows c → t.session.Allows r
  stores : c.stores = [r] ∨ c.stores = [] ∧ ∀ x, ¬ r.stores x

lemma makes_aligned {size align : Nat} (hw : c.wants = some size) (hret : c.returns = none)
    (halign : c.align = align) (hrej : ¬ align.isPowerOfTwo ↔ c.Rejects) (hst : c.stores = []) :
    c.Makes (.aligned size align) where
  size := by rw [Request.size_aligned, hw, Option.getD_some]
  returns := (Request.returns_aligned size align).trans hret.symm
  align := .inr ⟨size, halign ▸ rfl⟩
  misaligned := (Request.misaligned_aligned size align).trans hrej
  allows t _ := t.session.allows_aligned size align
  stores := .inr ⟨hst, Request.not_stores_aligned size align⟩

lemma makes_of_request (hr : c.request? = some r) : c.Makes r := by
  cases c with
  | malloc size =>
    cases hr
    exact ⟨rfl, rfl, .inl rfl, .rfl, fun _ => id, .inr ⟨rfl, fun _ => id⟩⟩
  | calloc count size =>
    obtain ⟨-, he⟩ := Option.ite_none_right_eq_some.mp hr
    cases he
    exact ⟨rfl, rfl, .inl rfl, .rfl, fun _ => id, .inr ⟨rfl, fun _ => id⟩⟩
  | realloc ptr size =>
    cases hr
    by_cases h0 : ptr = 0
    · rw [if_pos h0]
      exact ⟨rfl, (if_pos h0).symm, .inl rfl, .rfl, fun _ _ => trivial, .inr ⟨rfl, fun _ => id⟩⟩
    · rw [if_neg h0]
      exact ⟨rfl, (if_neg h0).symm, .inl rfl, .rfl, fun _ hc => Or.resolve_left hc h0,
        .inr ⟨rfl, fun _ => id⟩⟩
  | alignedAlloc align size =>
    cases hr
    exact makes_aligned rfl rfl rfl .rfl rfl
  | memalign align size =>
    cases hr
    exact makes_aligned rfl rfl rfl .rfl rfl
  | posixMemalign align size =>
    obtain ⟨hok, he⟩ := Option.ite_none_left_eq_some.mp hr
    cases he
    exact makes_aligned rfl rfl rfl ⟨fun h => .inl h, fun h => absurd h hok⟩ rfl
  | free ptr =>
    obtain ⟨h0, he⟩ := Option.ite_none_left_eq_some.mp hr
    cases he
    exact ⟨rfl, (if_neg h0).symm, .inl rfl, .rfl, fun _ hc => Or.resolve_left hc h0,
      .inr ⟨rfl, fun _ => id⟩⟩
  | write addr byte =>
    cases hr
    exact ⟨rfl, rfl, .inl rfl, .rfl, fun _ => id, .inl rfl⟩
  | setErrno errno => cases hr

end CCall

end BoundaryTag
