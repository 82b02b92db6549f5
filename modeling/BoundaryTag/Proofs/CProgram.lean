import BoundaryTag.Proofs.Ledger.Demand
import BoundaryTag.Proofs.Posix

/-!
What the C interface owes to a program.

A C program is a session of the process-wide heap. A call that makes a request is a step of the session,
and does what it owes because of what the step does; any other call leaves the heap alone. The first call
that gives a block is the one that may find an error number set, of which it knows nothing: that of the draw
of the key. So a call that gives a block leaves `errno` alone if the key is drawn, or the system has random
bytes for it.
-/

namespace BoundaryTag

namespace CProgram

/-- The call gives the `n` bytes from `p` on, and says nothing else. If it draws the key, that has its effect on
`errno`. -/
structure Gives (t t' : CProgram) (c : CCall) (a : CReply) (p n : Nat) : Prop where
  reply : a = c.gives (some p)
  ne_zero : p ≠ 0
  aligned : p % c.align = 0
  placed : t'.session.Placed ⟨p, n⟩
  apart : ∃ others, t'.held = ⟨p, n⟩ :: others ∧ ∀ b ∈ others, t'.session.Apart ⟨p, n⟩ b
  errno : t'.posix.errno = t.posix.pending.or t.posix.errno

/-- The call fails, and has done nothing but to report it. -/
structure Fails (t t' : CProgram) (c : CCall) (a : CReply) (e : Errno) : Prop where
  reports : c.Reports e a t'.posix.errno
  held : t'.held = t.held
  unharmed : ∀ b ∈ t.held, t.session.Unharmed t'.session [] b

/-- The block at `q` is no longer held, and is good for nothing. -/
structure Frees (t t' : CProgram) (q : Nat) : Prop where
  gone : ¬ t'.session.holds q
  revoked : t'.session.Revoked q
  errno : t'.posix.errno = t.posix.errno

/-- What a call owes, which is answered by `a`. -/
structure Honours (t t' : CProgram) (c : CCall) (a : CReply) : Prop where
  /-- All blocks that the call does not hand back go on, but for the byte that is stored. -/
  others : ∀ b ∈ t.held, c.returns ≠ some b.ptr → t.session.Unharmed t'.session c.stores b
  granted : ∀ p, a.block = some p → ∃ n, c.wants = some n ∧ t.Gives t' c a p n
  zeroed : ∀ count size p, c = .calloc count size → a.block = some p →
    ∀ i < count * size, t'.session.heap.memory.byte (p + i) = 0
  carried : ∀ q n p, c = .realloc q n → q ≠ 0 → a.block = some p →
    Copied t.session.heap t'.session.heap q p (min (t.session.usable q) n)
  /-- A call for no bytes is no error, if its alignment is not one. -/
  empty : c.wants = some 0 → ¬ c.Rejects → a = c.gives none ∧ t'.posix.errno = t.posix.errno
  rejected : c.Rejects → t.Fails t' c a .invalidArgument
  exhausted : ∀ n, c.wants = some n → n ≠ 0 → ¬ c.Rejects → a.block = none →
    t.Fails t' c a .outOfMemory
  /-- A block that is handed back is freed: by `free`, by a call for no bytes, or because it is moved. -/
  freed : ∀ q, c.returns = some q → c.wants.getD 0 = 0 ∨ a.block.isSome → a.block ≠ some q →
    t.Frees t' q

/-- The process-wide heap is at rest, a ledger accounts for what the program holds, and each page was asked
for. -/
structure Has (t : CProgram) (l : Ledger) : Prop where
  rest : t.posix.shared.AtRest
  session : t.session.Has l
  asked : l.arena.pages ≤ l.arena.requests

/-- The call makes the request `r`, which is answered by `ans`. -/
structure Answered (t t' : CProgram) (l : Ledger) (c : CCall) (r : Request) (ans : Answer) : Prop where
  request : c.request? = some r
  allows : t.session.Allows r
  before : t.Has l
  after : t'.Has (l.answer r).2
  step : t.session.step r = .ok (ans, t'.session)
  posix : t'.posix = c.leaves ans (t.posix.after t'.session.heap)

variable {t t' u : CProgram} {l l' : Ledger} {c : CCall} {r : Request} {ans : Answer} {a : CReply}

/-- The program keeps the book of its blocks as the client does. -/
lemma heldAfter_reply (m : c.Makes r) (l : Ledger) (held : List Holding) :
    heldAfter held c (c.reply (l.answer r).1) = Session.heldAfter held r (l.answer r).1 := by
  have hsize := m.size
  unfold heldAfter
  dsimp only
  rw [CCall.block_reply, ← m.returns]
  -- the reply has no room for the error, so it must follow from the bytes that were asked for
  rcases hans : (l.answer r).1 with e | _ | p
  · have hkept (h0 : r.size = 0) : (held.filter fun b => r.returns ≠ some b.ptr) = held :=
      Request.filter_returns (Ledger.misaligned_of_error hans h0).returns held
    rcases hw : c.wants with _ | _ | n <;> rw [hw] at hsize
    · exact hkept hsize
    · exact hkept hsize
    · rfl
  · have h0 := Ledger.answer_none hans
    rcases hw : c.wants with _ | _ | n
    · rfl
    · rfl
    · rw [hw] at hsize
      exact absurd (hsize.symm.trans h0) (Nat.succ_ne_zero n)
  · rcases hw : c.wants with _ | n <;> rw [hw] at hsize
    · exact absurd hsize (Ledger.size_ne_of_some hans)
    · cases hsize
      rfl

/-- **A call that makes a request** is a step of the session. -/
lemma Has.answered (k : t.Has l) (hc : t.Allows c) (hr : c.request? = some r) :
    ∃ ans t', t.call c = .ok (c.reply ans, t') ∧ t.Answered t' l c r ans := by
  have m := CCall.makes_of_request hr
  obtain ⟨s, e, ks, -⟩ := k.session.step (m.allows t hc)
  have hrun := CCall.serve_run hr k.rest (Session.serve_of_step e)
  have hheld := (Session.held_of_step e).trans (heldAfter_reply m l t.held).symm
  generalize (l.answer r).1 = ans at e hrun hheld
  -- whatever becomes of `errno`, the heap is the one that the step leaves
  have hshared : (c.leaves ans (t.posix.after s.heap)).shared = { t.posix.shared with heap := some s.heap } :=
    CCall.shared_leaves ..
  let t' : CProgram := ⟨c.leaves ans (t.posix.after s.heap), s.held⟩
  have hs : t'.session = s := congrArg (fun x => (⟨x.current, s.held⟩ : Session)) hshared
  refine ⟨ans, t', ?_, ?_⟩
  · unfold call
    rw [hrun]
    dsimp only
    rw [← hheld]
  · have hrest : t'.posix.shared.AtRest := hshared.symm ▸ k.rest.reheap s.heap
    have hasked : (l.answer r).2.arena.pages ≤ (l.answer r).2.arena.requests := by
      obtain ⟨n, hn⟩ := l.asks_answer r
      rw [hn]
      exact Arena.pages_le_requests_after k.asked n
    rw [← hs] at e ks
    exact ⟨hr, m.allows t hc, k, ⟨hrest, ks, hasked⟩, e, by rw [hs]⟩

/-- Where the program holds a block, the key is drawn. -/
lemma Has.pending_eq_none {q : Nat} (k : t.Has l) (hq : t.session.holds q) : t.posix.pending = none := by
  have harena := k.session.shows.arena
  obtain ⟨b, hb, -⟩ := (k.session.holds_iff q).mp hq
  have hpages := k.session.sound.pages_ne hb
  have hrequests := Nat.ne_zero_of_lt (Nat.lt_of_lt_of_le (Nat.pos_of_ne_zero hpages) k.asked)
  refine if_pos ?_
  unfold PosixM.keyed
  rcases hheap : t.posix.shared.heap with _ | h
  · -- a heap that is not made yet has no pages
    have hfresh : t.session.heap = t.posix.shared.freshHeap := congrArg (·.getD t.posix.shared.freshHeap) hheap
    rw [hfresh] at harena
    exact absurd (congrArg Arena.pages harena).symm hpages
  · have hcurrent : t.session.heap = h := congrArg (·.getD t.posix.shared.freshHeap) hheap
    rw [hcurrent] at harena
    exact bne_iff_ne.mpr (harena ▸ hrequests)

/-! ### What the answer tells -/

namespace Answered

lemma makes (w : t.Answered t' l c r ans) : c.Makes r := CCall.makes_of_request w.request

lemma eq_answer (w : t.Answered t' l c r ans) : ans = (l.answer r).1 :=
  (w.before.session.of_step w.allows w.step).1

/-- Where there is no error to report, `errno` is as the system leaves it. -/
lemma errno_ok {x : Option Nat} (w : t.Answered t' l c r (.ok x)) :
    t'.posix.errno = (t.posix.after t'.session.heap).errno := by
  rw [w.posix]
  cases c <;> rfl

/-- Where nothing is given, no page was asked for, and the system has set nothing. -/
lemma errno_of_none (w : t.Answered t' l c r (.ok none)) : t'.posix.errno = t.posix.errno := by
  have harena : t'.session.heap.arena = t.session.heap.arena := by
    rw [w.after.session.shows.arena, w.before.session.shows.arena]
    exact Ledger.arena_answer w.eq_answer.symm
  rw [w.errno_ok, PosixState.after_eq harena]

/-- A block that is given lies on a page, so all that the system may have set is what the draw sets. -/
lemma errno_of_block {p : Nat} (w : t.Answered t' l c r (.ok (some p))) :
    t'.posix.errno = t.posix.pending.or t.posix.errno := by
  have k' := w.after.session
  obtain ⟨hheld, -, -⟩ := w.before.session.delivered w.allows w.step
  have hp : (⟨p, r.size⟩ : Holding) ∈ t'.session.held := hheld ▸ List.mem_cons_self
  obtain ⟨n, hn, -⟩ := k'.block ⟨_, hp, rfl⟩
  have hpages := k'.sound.pages_ne hn.1
  have hrequests := Nat.ne_zero_of_lt (Nat.lt_of_lt_of_le (Nat.pos_of_ne_zero hpages) w.after.asked)
  rw [← k'.shows.arena] at hpages hrequests
  rw [w.errno_ok, PosixState.errno_after hpages hrequests]

/-- An error is reported, and nothing else is done. -/
lemma fails {x : AllocError} (w : t.Answered t' l c r (.error x)) :
    t.Fails t' c (c.reply (.error x)) x.errno := by
  refine ⟨?_, Session.held_of_step w.step, fun b hb =>
    w.before.session.unharmed_error w.allows w.step hb⟩
  rw [w.posix]
  cases c <;> first | rfl | exact ⟨rfl, rfl⟩

/-- A block is given as it was asked for. -/
lemma gives {p : Nat} (w : t.Answered t' l c r (.ok (some p))) :
    ∃ n, c.wants = some n ∧ t.Gives t' c (c.reply (.ok (some p))) p n := by
  have m := w.makes
  obtain ⟨hheld, hplaced, hnew⟩ := w.before.session.delivered w.allows w.step
  obtain ⟨n, hw⟩ : ∃ n, c.wants = some n := by
    refine Option.ne_none_iff_exists'.mp fun hnone => ?_
    exact Ledger.size_ne_of_some w.eq_answer.symm (m.size.trans (congrArg (·.getD 0) hnone))
  have hsize : r.size = n := m.size.trans (congrArg (·.getD 0) hw)
  rw [hsize] at hheld hplaced
  refine ⟨n, hw, by cases c <;> rfl, ?_, ?_, hplaced, ⟨_, hheld, fun b hb => ?_⟩, w.errno_of_block⟩
  · have hle : t'.session.heap.arena.start + wordSize ≤ p := hplaced.inside.1
    rintro rfl
    exact absurd hle (Nat.not_le.mpr (Nat.lt_add_left _ (by decide)))
  · rcases m.align with h16 | ⟨n, rfl⟩
    · rw [h16]
      exact hplaced.aligned
    · exact w.before.session.mod_aligned w.step
  · have hb' := List.mem_filter.mp hb
    refine w.after.session.apart (hheld ▸ List.mem_cons_self) (hheld ▸ List.mem_cons_of_mem _ hb) ?_
    exact (hnew b hb'.1 (of_decide_eq_true hb'.2)).symm

/-- A block that is handed back is freed, unless it is given again. -/
lemma frees {x : Option Nat} {q : Nat} (w : t.Answered t' l c r (.ok x)) (hret : c.returns = some q)
    (hne : x ≠ some q) : t.Frees t' q := by
  have hrq : r.returns = some q := w.makes.returns.trans hret
  refine ⟨Session.gone_of_returns hrq w.step hne, w.before.session.revokes w.allows hrq w.step hne, ?_⟩
  rcases x with _ | p
  · exact w.errno_of_none
  · -- the block that is moved was held, so the key was drawn for it or before
    rw [w.errno_of_block, w.before.pending_eq_none (Session.holds_of_returns w.allows hrq), Option.none_or]

/-- A call for no bytes that hands a block back does not fail. -/
lemma ok_of_returns {q : Nat} (w : t.Answered t' l c r ans) (hret : c.returns = some q)
    (h : c.wants.getD 0 = 0 ∨ (c.reply ans).block.isSome) : ∃ x, ans = .ok x := by
  rcases ans with y | x
  · rw [CCall.block_reply] at h
    rcases h with h0 | hsome
    · have hmis := Ledger.misaligned_of_error w.eq_answer.symm (w.makes.size.trans h0)
      have hnone := hmis.returns
      rw [w.makes.returns, hret] at hnone
      cases hnone
    · cases hsome
  · exact ⟨x, rfl⟩

/-- **A call that makes a request** does what it owes. -/
lemma honours (w : t.Answered t' l c r ans) : t.Honours t' c (c.reply ans) := by
  have m := w.makes
  have k := w.before.session
  constructor
  case others =>
    intro b hb hret
    have hu := k.unharmed_step w.allows w.step hb (m.returns ▸ hret)
    rcases m.stores with hst | ⟨hst, hnot⟩
    · rwa [hst]
    · rw [hst]
      exact hu.of_not_stores hnot
  case granted =>
    intro p hp
    obtain rfl := CCall.answer_of_block hp
    exact w.gives
  case zeroed =>
    rintro count size p rfl hp
    obtain rfl := CCall.answer_of_block hp
    obtain ⟨-, he⟩ := Option.ite_none_right_eq_some.mp w.request
    cases he
    exact k.zeroed w.step
  case carried =>
    rintro q n p rfl hq hp
    obtain rfl := CCall.answer_of_block hp
    obtain rfl : r = .resize q n := (Option.some.inj w.request).symm.trans (if_neg hq)
    exact k.carried w.allows w.step
  case empty =>
    intro hw hrej
    have h0 : r.size = 0 := m.size.trans (congrArg (·.getD 0) hw)
    have hok := Ledger.answer_empty (l := l) (fun hmis => hrej (m.misaligned.mp hmis)) h0
    obtain rfl : ans = .ok none := w.eq_answer.trans hok
    exact ⟨by cases c <;> rfl, w.errno_of_none⟩
  case rejected =>
    intro hrej
    have hmis := m.misaligned.mpr hrej
    obtain ⟨x, hx⟩ := Ledger.answer_misaligned (l := l) hmis
    obtain rfl : ans = .error x := w.eq_answer.trans hx
    rw [← (Ledger.answer_error hx).1 hmis]
    exact w.fails
  case exhausted =>
    intro n hw hn hrej hnone
    rcases ans with x | _ | p
    · rw [← (Ledger.answer_error w.eq_answer.symm).2 fun hmis => hrej (m.misaligned.mp hmis)]
      exact w.fails
    · have h0 := Ledger.answer_none w.eq_answer.symm
      rw [m.size, hw] at h0
      exact absurd h0 hn
    · rw [CCall.block_reply] at hnone
      cases hnone
  case freed =>
    intro q hret hsome hne
    obtain ⟨x, rfl⟩ := w.ok_of_returns hret hsome
    rw [CCall.block_reply] at hne
    exact w.frees hret hne

end Answered

/-! ### Calls -/

/-- A call that does nothing but to set `errno` owes no more than to report an error. -/
lemma Has.idle {x : Option Errno} (k : t.Has l) (e : c.serve t.posix = .ok (a, { t.posix with errno := x }))
    (hblock : a.block = none) (hret : c.returns = none) (hempty : c.wants = some 0 → c.Rejects)
    (hrej : c.Rejects → c.Reports .invalidArgument a x)
    (hexh : ∀ n, c.wants = some n → ¬ c.Rejects → c.Reports .outOfMemory a x) :
    ∃ a t', t.call c = .ok (a, t') ∧ t'.Has l ∧ t.Honours t' c a ∧ t'.posix.source = t.posix.source := by
  have hheld : heldAfter t.held c a = t.held := by
    have hothers : (t.held.filter fun b => (none : Option Nat) ≠ some b.ptr) = t.held :=
      List.filter_eq_self.mpr fun b _ => rfl
    unfold heldAfter
    dsimp only
    rw [hret, hblock, hothers]
    rcases c.wants with _ | _ | n <;> rfl
  refine ⟨a, ⟨{ t.posix with errno := x }, t.held⟩, ?_, ⟨k.rest, k.session, k.asked⟩, ?_, rfl⟩
  · unfold call
    rw [e]
    dsimp only
    rw [hheld]
  have hunharmed (b : Holding) (hb : b ∈ t.held) (rs : List Request) : t.session.Unharmed t.session rs b :=
    .refl hb
  constructor
  case others => exact fun b hb _ => hunharmed b hb _
  case granted => exact fun p hp => absurd (hblock.symm.trans hp) (Option.some_ne_none p).symm
  case zeroed => exact fun _ _ p _ hp => absurd (hblock.symm.trans hp) (Option.some_ne_none p).symm
  case carried => exact fun _ _ p _ _ hp => absurd (hblock.symm.trans hp) (Option.some_ne_none p).symm
  case empty => exact fun hw hnot => absurd (hempty hw) hnot
  case rejected => exact fun hr => ⟨hrej hr, rfl, fun b hb => hunharmed b hb _⟩
  case exhausted => exact fun n hw _ hnot _ => ⟨hexh n hw hnot, rfl, fun b hb => hunharmed b hb _⟩
  case freed =>
    intro q hq
    rw [hret] at hq
    cases hq

/-- **A call that makes no request**: the product of its sizes is out of range, its alignment is refused by
the interface itself, or there is nothing to do. -/
lemma Has.call_of_none (k : t.Has l) (hreq : c.request? = none) :
    ∃ a t', t.call c = .ok (a, t') ∧ t'.Has l ∧ t.Honours t' c a ∧ t'.posix.source = t.posix.source := by
  cases c with
  | calloc count size =>
    have hge : ¬ count * size < addressSpace := fun hlt => by
      rw [CCall.request?, if_pos hlt] at hreq
      cases hreq
    refine k.idle (run_bind (PosixM.calloc_overflow hge)) rfl rfl (fun hw => ?_) False.elim
      fun _ _ _ => ⟨rfl, rfl⟩
    refine absurd ?_ hge
    rw [Option.some.inj hw]
    decide
  | posixMemalign align size =>
    have hrej : ¬ align.isPowerOfTwo ∨ align < wordSize := by
      by_contra hok
      rw [CCall.request?, if_neg hok] at hreq
      cases hreq
    exact k.idle (x := t.posix.errno) (run_bind (PosixM.posixMemalign_refused hrej)) rfl rfl
      (fun _ => hrej) (fun _ => rfl) fun _ _ hnot => absurd hrej hnot
  | free ptr =>
    obtain rfl : ptr = 0 := by
      by_contra h0
      rw [CCall.request?, if_neg h0] at hreq
      cases hreq
    exact k.idle (x := t.posix.errno) (run_bind PosixM.free_null) rfl rfl (fun hw => (by cases hw))
      False.elim fun _ hw => by cases hw
  | setErrno errno =>
    exact k.idle rfl rfl rfl (fun hw => (by cases hw)) False.elim fun _ hw => by cases hw
  | malloc | realloc | alignedAlloc | memalign | write => cases hreq

/-- **A call that a program may make** comes to an end, and does what it owes. -/
lemma Has.call (k : t.Has l) (hc : t.Allows c) :
    ∃ a t' l', t.call c = .ok (a, t') ∧ t'.Has l' ∧ t.Honours t' c a ∧ t'.posix.source = t.posix.source := by
  rcases hreq : c.request? with _ | r
  · obtain ⟨a, t', e, k', hrest⟩ := k.call_of_none hreq
    exact ⟨a, t', l, e, k', hrest⟩
  · obtain ⟨ans, t', e, w⟩ := k.answered hc hreq
    refine ⟨_, t', _, e, w.after, w.honours, ?_⟩
    rw [w.posix]
    exact CCall.source_leaves ..

/-- A run keeps the books, and where the key comes from. -/
lemma Has.run {cs : List CCall} {as : List CReply} (k : t.Has l) (hrun : t.Run cs as u) :
    (∃ l', u.Has l') ∧ u.posix.source = t.posix.source := by
  refine hrun.preserves_of_served (P := fun u => (∃ l, u.Has l) ∧ u.posix.source = t.posix.source) ?_ ⟨⟨l, k⟩, rfl⟩
  rintro s c ⟨⟨l, k⟩, hs⟩ hc
  obtain ⟨a, u, l', e, k', -, hu⟩ := k.call hc
  exact ⟨a, u, e, ⟨l', k'⟩, hu.trans hs⟩

lemma has_new {base pages : Nat} {source : KeySource} {mapper : Mapper}
    (hsited : (new base pages source mapper).posix.shared.Sited) :
    (new base pages source mapper).Has
      (.new (new base pages source mapper).posix.shared.freshHeap.arena) :=
  ⟨⟨rfl, rfl⟩, hsited.has_freshHeap, le_rfl⟩

/-- A call that gives a block leaves `errno` alone, unless it draws the key without having random bytes. -/
lemma Honours.errno_eq (hhonours : t.Honours t' c a) (hblock : a.block.isSome)
    (hkey : t.posix.source.Supplied ∨ PosixM.keyed t.posix.shared) : t'.posix.errno = t.posix.errno := by
  obtain ⟨p, hp⟩ := Option.isSome_iff_exists.mp hblock
  obtain ⟨n, -, hgives⟩ := hhonours.granted p hp
  have hpending : t.posix.pending = none := by
    rcases hkey with hsupplied | hkeyed
    · rw [PosixState.pending, hsupplied.errno_eq, ite_self]
    · exact if_pos hkeyed
  rw [hgives.errno, hpending, Option.none_or]

end CProgram

/-- **C programs get what they ask for, or are told why not.** After any calls of a program through the C
interface, in a process that may reserve any number of pages, all blocks that it holds are where they should
be, and apart. Each next call comes to an end and does what it owes: it gives a block that is aligned and
large enough, apart from the others, with zeros or with the bytes of the block that it is on; or null
without an error, if no bytes were asked for; or it reports that the alignment is refused or that there is
no memory, and changes nothing else. A call that gives a block leaves `errno` alone, provided that the system
gives the random bytes that it is asked for when the key is drawn. Once the key is drawn, and in a process
that draws none, nothing is to be provided. -/
theorem c_calls_honoured {base pages : Nat} {source : KeySource} {mapper : Mapper} {cs : List CCall}
    {as : List CReply} {t : CProgram}
    (hsited : (CProgram.new base pages source mapper).posix.shared.Sited)
    (hrun : (CProgram.new base pages source mapper).Run cs as t) :
    (∀ b ∈ t.held, t.session.Placed b) ∧ t.held.Pairwise t.session.Apart ∧
    ∀ c, t.Allows c → ∃ a t', t.call c = .ok (a, t') ∧ t.Honours t' c a ∧
      (source.Supplied ∨ PosixM.keyed t.posix.shared → a.block.isSome → t'.posix.errno = t.posix.errno) := by
  obtain ⟨⟨l, k⟩, hsource⟩ := (CProgram.has_new hsited).run hrun
  refine ⟨fun b => k.session.placed, k.session.pairwise_apart, fun c hc => ?_⟩
  obtain ⟨a, t', l', e, -, hhonours, -⟩ := k.call hc
  exact ⟨a, t', e, hhonours, fun hkey hblock => hhonours.errno_eq hblock (hkey.imp_left (hsource ▸ ·))⟩

/-- Here the system has random bytes, but declines to map the region at first, a product is out of range, and a
block with a byte of its program's is moved while `errno` stays as it is. -/
theorem c_calls_honoured_after_overflow :
    ∃ t t' : CProgram, t.session.Placed ⟨65664, 100⟩ ∧ t.posix.errno = some .outOfMemory ∧
      t.call (.realloc 65552 100) = .ok (.returned (some 65776), t') ∧
      t.Honours t' (.realloc 65552 100) (.returned (some 65776)) ∧
      t'.session.heap.memory.byte 65776 = 9 ∧ t'.posix.errno = some .outOfMemory := by
  let start := CProgram.new 65536 2 (.drawn ⟨.ok 7, 0, 0, 0⟩) ⟨addressSpace, (· == 0)⟩
  let calls : List CCall := [.malloc 24, .setErrno none, .calloc 3 8, .malloc 10, .write 65552 9,
    .posixMemalign 64 100, .calloc 0x100000000 0x100000000]
  have hsited : start.posix.shared.Sited := ⟨by decide, by decide⟩
  have hend : (start.callAll calls).map (fun x =>
      (x.2.held, x.2.posix.errno, x.2.session.heap.memory.byte 65552,
        (x.2.call (.realloc 65552 100)).toOption.map Prod.fst)) =
      some ([⟨65664, 100⟩, ⟨65584, 10⟩, ⟨65552, 24⟩], some .outOfMemory, 9,
        some (.returned (some 65776))) := by
    decide +kernel
  obtain ⟨⟨as, t⟩, ht, hend⟩ := Option.map_eq_some_iff.mp hend
  simp only [Prod.mk.injEq] at hend
  obtain ⟨hheld, herrno, hbyte, hreply⟩ := hend
  obtain ⟨hplaced, -, hcalls⟩ := c_calls_honoured hsited (.of_make ht)
  have hmem : (⟨65552, 24⟩ : Holding) ∈ t.held ∧ (⟨65664, 100⟩ : Holding) ∈ t.held := by
    rw [show t.held = _ from hheld]
    decide
  have hroomy : 24 ≤ t.session.usable 65552 := (hplaced _ hmem.1).roomy
  obtain ⟨a, t', e, hhonours, hsame⟩ := hcalls (.realloc 65552 100) (.inr ⟨_, hmem.1, rfl⟩)
  rw [e] at hreply
  obtain rfl : a = .returned (some 65776) := Option.some.inj hreply
  refine ⟨t, t', hplaced _ hmem.2, herrno, e, hhonours, ?_, (hsame (.inl ⟨7, rfl⟩) rfl).trans herrno⟩
  calc t'.session.heap.memory.byte 65776
      = t.session.heap.memory.byte 65552 :=
        hhonours.carried 65552 100 65776 rfl (by decide) rfl 0 (by omega)
    _ = 9 := hbyte

-- Without random bytes, the first block is given with the error number that the draw of the key left.
example :
    ((CProgram.new 65536 2 (.drawn ⟨.error (some (.other 38)), 0x7ffc1234, 12, 345⟩) .ample).call
      (.malloc 24)).toOption.map (fun x => (x.1, x.2.posix.errno)) =
        some (.returned (some 65552), some (.other 38)) := by
  decide +kernel

end BoundaryTag
