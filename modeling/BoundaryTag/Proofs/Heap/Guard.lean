import BoundaryTag.Heap.Dump
import BoundaryTag.Proofs.Access

/-!
Heaps under guard.

A strict heap is under guard. It halts where the machine would go on with an access outside of the
region, a sum that wrapped or an assumption that does not hold; that it goes on says that there was none.
What goes through under guard goes the same way without: this is shown here for reads and accesses, with
the rules that carry it over to what is made of them.
-/

namespace BoundaryTag

section Arenas

variable {a : Arena} {p : Nat} (hmod : a.start % alignment = 0) (hp : p < addressSpace)

include hmod hp

/-- A word that is `k` bytes before an address of the region is not one that was wrapped to. -/
lemma Arena.le_of_contains_before {k : Nat} (hstop : a.stop < addressSpace)
    (hk : k ≤ 2 * wordSize) (hin : a.contains (wrapSub p k) wordSize) : k ≤ p := by
  have hend : a.stop % alignment = 0 := by
    unfold Arena.stop pageSize
    unfold alignment at hmod ⊢
    omega
  simp only [Arena.contains, Bool.and_eq_true, decide_eq_true_eq] at hin
  by_contra hlt
  unfold wrapSub at hin
  unfold alignment at hend
  unfold wordSize at hin hk
  unfold addressSpace at *
  omega

lemma Arena.lt_of_contains_after (h0 : a.start ≠ 0) (hin : a.contains (wrapAdd p wordSize) wordSize) :
    p + wordSize < addressSpace := by
  simp only [Arena.contains, Bool.and_eq_true, decide_eq_true_eq] at hin
  by_contra hge
  unfold wrapAdd wordSize at hin
  unfold alignment at hmod
  unfold wordSize at hge
  unfold addressSpace at *
  omega

end Arenas

/-- A page more comes from where the others came from. -/
lemma Arena.grow_place (a : Arena) : a.grow.2.base = a.base ∧ a.grow.2.supply = a.supply := by
  unfold Arena.grow
  split
  · exact ⟨rfl, rfl⟩
  · exact ⟨rfl, rfl⟩

namespace Heap

/-- What a heap makes sure of before it goes on. It touches its region only, takes exact sums and
differences, and what it assumes holds. The address of a tag or a link did not wrap around, because where
it would have led is no region of any arena but one that begins at the null pointer. -/
structure Watchful (h : Heap) : Prop where
  load : ∀ a w, h.load a = .ok w → h.arena.contains a wordSize
  store : ∀ a w h', HeapM.store a w h = .ok ((), h') → h.arena.contains a wordSize
  storeBytes : ∀ a n f h', HeapM.storeBytes a n f h = .ok ((), h') → 0 < n → h.arena.contains a n
  copyBytes : ∀ src dst n h', HeapM.copyBytes src dst n h = .ok ((), h') → 0 < n →
    h.arena.contains src n ∧ h.arena.contains dst n
  sum : ∀ a b c, h.sum a b = .ok c → c = a + b ∧ c < addressSpace
  difference : ∀ a b c, h.difference a b = .ok c → b ≤ a ∧ c = a - b
  assume : ∀ c, h.assume c = .ok () → c = true
  before : ∀ p k, p < addressSpace → k ≤ 2 * wordSize → h.arena.contains (wrapSub p k) wordSize → k ≤ p
  after : ∀ p, p < addressSpace → h.arena.start ≠ 0 → h.arena.contains (wrapAdd p wordSize) wordSize →
    p + wordSize < addressSpace

section Watchful

variable {h h' : Heap} {a b n : Nat} (hstrict : h.strict = true)

include hstrict

lemma contains_of_reaches (hn : 0 < n) (hr : h.reaches a n = true) : h.arena.contains a n := by
  simp only [reaches, hstrict, Bool.not_true, Bool.false_or, Bool.or_eq_true, Bool.and_eq_true,
    beq_iff_eq] at hr
  exact (hr.resolve_left (Nat.ne_of_gt hn)).2

lemma contains_of_load {w : UInt64} (e : h.load a = .ok w) : h.arena.contains a wordSize := by
  unfold Heap.load at e
  split at e
  · next hr => exact contains_of_reaches hstrict (by decide) hr
  · cases e

lemma contains_of_store {w : UInt64} (e : HeapM.store a w h = .ok ((), h')) :
    h.arena.contains a wordSize := by
  unfold HeapM.store at e
  split at e
  · next hr => exact contains_of_reaches hstrict (by decide) hr
  · cases e

lemma contains_of_storeBytes {f : Nat → UInt8} (hn : 0 < n)
    (e : HeapM.storeBytes a n f h = .ok ((), h')) : h.arena.contains a n := by
  unfold HeapM.storeBytes at e
  split at e
  · next hr => exact contains_of_reaches hstrict hn hr
  · cases e

lemma contains_of_copyBytes (hn : 0 < n) (e : HeapM.copyBytes a b n h = .ok ((), h')) :
    h.arena.contains a n ∧ h.arena.contains b n := by
  unfold HeapM.copyBytes at e
  split_ifs at e with hsrc hdst
  simp only [Bool.not_eq_true', Bool.not_eq_false] at hsrc hdst
  exact ⟨contains_of_reaches hstrict hn hsrc, contains_of_reaches hstrict hn hdst⟩

lemma of_sum {c : Nat} (e : h.sum a b = .ok c) : c = a + b ∧ c < addressSpace := by
  unfold Heap.sum at e
  split_ifs at e with hlt
  cases e
  exact ⟨rfl, hlt⟩

lemma of_difference {c : Nat} (e : h.difference a b = .ok c) : b ≤ a ∧ c = a - b := by
  unfold Heap.difference at e
  split_ifs at e with hle
  cases e
  exact ⟨hle, rfl⟩

lemma of_assume {c : Bool} (e : h.assume c = .ok ()) : c = true := by
  unfold Heap.assume at e
  rw [hstrict] at e
  split_ifs at e with hc
  simpa using hc

/-- **A heap under guard is watchful.** -/
lemma watchful (hmod : h.arena.start % alignment = 0) (hstop : h.arena.stop < addressSpace) :
    h.Watchful where
  load _ _ e := contains_of_load hstrict e
  store _ _ _ e := contains_of_store hstrict e
  storeBytes _ _ _ _ e hn := contains_of_storeBytes hstrict hn e
  copyBytes _ _ _ _ e hn := contains_of_copyBytes hstrict hn e
  sum _ _ _ e := of_sum hstrict e
  difference _ _ _ e := of_difference hstrict e
  assume _ e := of_assume hstrict e
  before _ _ hp hk hin := Arena.le_of_contains_before hmod hp hstop hk hin
  after _ hp h0 hin := Arena.lt_of_contains_after hmod hp h0 hin

end Watchful

/-! ### Reads -/

/-- The heap without its guard: the machine. -/
def unguarded (h : Heap) : Heap := { h with strict := false }

def guarded (h : Heap) : Heap := { h with strict := true }

lemma reaches_unguarded {h : Heap} {a n : Nat} (hr : h.reaches a n = true) :
    h.unguarded.reaches a n = true := by
  simp only [reaches, unguarded, Bool.or_eq_true, Bool.and_eq_true, Bool.not_false, true_or,
    and_true] at hr ⊢
  exact hr.imp_right And.left

/-- A heap in the same place: over the same memory, and with the same source of pages. -/
structure SamePlace (h h' : Heap) : Prop where
  strict : h'.strict = h.strict
  base : h'.arena.base = h.arena.base
  supply : h'.arena.supply = h.arena.supply
  memoryBase : h'.memory.base = h.memory.base
  extent : h'.memory.extent = h.memory.extent

lemma SamePlace.refl (h : Heap) : SamePlace h h := ⟨rfl, rfl, rfl, rfl, rfl⟩

lemma SamePlace.trans {h h' h'' : Heap} (p : SamePlace h h') (q : SamePlace h' h'') : SamePlace h h'' :=
  ⟨q.strict.trans p.strict, q.base.trans p.base, q.supply.trans p.supply,
    q.memoryBase.trans p.memoryBase, q.extent.trans p.extent⟩

/-- Memory that was written is in its place. -/
lemma SamePlace.written {h : Heap} {m : Memory} (hbase : m.base = h.memory.base)
    (hextent : m.extent = h.memory.extent) : SamePlace h { h with memory := m } :=
  ⟨rfl, rfl, rfl, hbase, hextent⟩

/-- What this reads under guard it reads without. -/
def Transparent {α : Type} (f : Heap → Except Halt α) : Prop :=
  ∀ h a, f h = .ok a → f h.unguarded = .ok a

namespace Transparent

variable {α β ε : Type}

/-- What is read under guard is what the heap itself reads. -/
lemma of_guarded {f : Heap → Except Halt α} (hf : Transparent f) {h : Heap} {a : α}
    (e : f h.guarded = .ok a) : f h = .ok a := by
  rcases h with ⟨arena, memory, key, heads, quick, last, ready, strict, journal⟩
  cases strict with
  | false => exact hf _ a e
  | true => exact e

/-- What does not look at the guard. -/
lemma of_eq {f : Heap → Except Halt α} (hf : ∀ h, f h.unguarded = f h) : Transparent f :=
  fun h _ e => (hf h).trans e

lemma pure (a : α) : Transparent fun _ => (Pure.pure a : Except Halt α) := of_eq fun _ => rfl

lemma bind {f : Heap → Except Halt α} {g : α → Heap → Except Halt β} (hf : Transparent f)
    (hg : ∀ a, Transparent (g a)) : Transparent fun h => f h >>= fun a => g a h := by
  intro h b e
  dsimp only at e ⊢
  rcases ha : f h with x | a <;> rw [ha] at e
  · cases e
  · rw [bind_eq (hf h a ha)]
    exact hg a h b e

/-- A choice that is the same without the guard. -/
lemma ite_of {c : Heap → Prop} [∀ h, Decidable (c h)] {f g : Heap → Except Halt α}
    (hc : ∀ h, c h.unguarded ↔ c h) (hf : Transparent f) (hg : Transparent g) :
    Transparent fun h => if c h then f h else g h := by
  intro h a e
  dsimp only at e ⊢
  simp only [hc]
  split at e
  · next h1 => exact (if_pos h1).trans (hf h a e)
  · next h1 => exact (if_neg h1).trans (hg h a e)

/-- A choice that has nothing to do with the heap. -/
lemma ite {c : Prop} [Decidable c] {f g : Heap → Except Halt α} (hf : Transparent f) (hg : Transparent g) :
    Transparent fun h => if c then f h else g h :=
  .ite_of (fun _ => Iff.rfl) hf hg

/-- Two steps of a check that each goes the same way in two places. -/
lemma check_bind_at {m m' : ExceptT ε (Except Halt) α} {f f' : α → ExceptT ε (Except Halt) β}
    (hm : ∀ r, m.run = .ok r → m'.run = .ok r) (hf : ∀ a r, (f a).run = .ok r → (f' a).run = .ok r)
    (r : Except ε β) (e : (m >>= f).run = .ok r) : (m' >>= f').run = .ok r := by
  rcases hrun : m.run with x | x | a
  · rw [show (m >>= f).run = .error x from (congrArg (· >>= _) hrun)] at e
    cases e
  · rw [show (m >>= f).run = _ from bind_eq hrun] at e
    exact (bind_eq (hm _ hrun)).trans e
  · rw [BoundaryTag.check_bind hrun] at e
    exact (BoundaryTag.check_bind (hm _ hrun)).trans (hf a r e)

/-- A step of a check. -/
lemma check_bind {f : Heap → ExceptT ε (Except Halt) α} {g : α → Heap → ExceptT ε (Except Halt) β}
    (hf : Transparent fun h => (f h).run) (hg : ∀ a, Transparent fun h => (g a h).run) :
    Transparent fun h => (f h >>= fun a => g a h).run :=
  fun h => check_bind_at (hf h) fun a => hg a h

lemma check_read {f : Heap → Except Halt α} (hf : Transparent f) :
    Transparent fun h => (liftM (f h) : ExceptT ε (Except Halt) α).run :=
  .bind hf fun _ => .pure _

/-- A check goes on if it does not find what it refuses. -/
lemma demand_of {c : Heap → Prop} [∀ h, Decidable (c h)] {x : ε}
    {k : Heap → Unit → ExceptT ε (Except Halt) α} (hc : ∀ h, c h.unguarded ↔ c h)
    (hk : Transparent fun h => (k h ()).run) :
    Transparent fun h => (if c h then throw x >>= k h else k h ()).run :=
  .ite_of hc (.of_eq fun _ => rfl) hk

lemma demand {c : Prop} [Decidable c] {x : ε} {k : Heap → Unit → ExceptT ε (Except Halt) α}
    (hk : Transparent fun h => (k h ()).run) :
    Transparent fun h => (if c then throw x >>= k h else k h ()).run :=
  .demand_of (fun _ => Iff.rfl) hk

lemma load (a : Nat) : Transparent (·.load a) := by
  intro h w e
  simp only [Heap.load] at e ⊢
  split at e
  · next hr => exact (if_pos (reaches_unguarded hr)).trans e
  · cases e

lemma loadAddr (a : Nat) : Transparent (·.loadAddr a) := .bind (.load a) fun _ => .pure _

/-- A guard that halts where the machine goes on. -/
lemma guard {h : Heap} {c : Prop} [Decidable c] {a b x : α} {e : Halt}
    (hx : (if c then .ok a else if h.strict then .error e else .ok b : Except Halt α) = .ok x) :
    (if c then .ok a else .ok b : Except Halt α) = .ok x := by
  split_ifs at hx ⊢
  · exact hx
  · exact hx

lemma sum (a b : Nat) : Transparent (·.sum a b) := fun _ _ => guard

lemma difference (a b : Nat) : Transparent (·.difference a b) := fun _ _ => guard

lemma assume (c : Bool) : Transparent (·.assume c) := fun _ _ _ => rfl

lemma tagAt (block : Nat) : Transparent (·.tagAt block) := .bind (.load _) fun _ => .of_eq fun _ => rfl

lemma footerBefore (block : Nat) : Transparent (·.footerBefore block) :=
  .bind (.load _) fun _ => .of_eq fun _ => rfl

lemma footerAddr (block size : Nat) : Transparent (·.footerAddr block size) :=
  .bind (.difference _ _) fun _ => .sum _ _

lemma nextOf (l : Link) : Transparent (·.nextOf l) := by
  cases l with
  | head list => exact .of_eq fun _ => rfl
  | block a => exact .bind (.load a) fun _ => .pure _

lemma blockOf (l : Link) : Transparent (·.blockOf l) := by
  cases l with
  | head list => exact .bind (.assume _) fun _ => .pure _
  | block a => exact .pure _

lemma firstFit (list : Fin mainLists) (size fuel : Nat) (l : Link) :
    Transparent (·.firstFit list size fuel l) := by
  induction fuel generalizing l with
  | zero => exact .of_eq fun _ => rfl
  | succ fuel ih =>
    unfold Heap.firstFit
    exact .ite (.pure _) <| .bind (.blockOf l) fun block =>
      .bind (.tagAt block) fun t => .ite (.pure _) <| .bind (.nextOf l) ih

lemma findFit (list : Fin mainLists) (size : Nat) : Transparent (·.findFit list size) :=
  .bind (.nextOf _) fun l h => firstFit list size h.patience l h

lemma holdsFrom (block fuel cur : Nat) : Transparent (·.holdsFrom block fuel cur) := by
  induction fuel generalizing cur with
  | zero => exact .pure _
  | succ fuel ih =>
    unfold Heap.holdsFrom
    exact .ite (.pure _) <| .ite (.pure _) <| .bind (.loadAddr cur) ih

lemma isQuickListed (block size : Nat) : Transparent (·.isQuickListed block size) := by
  unfold Heap.isQuickListed
  cases quickClass? size with
  | none => exact .pure _
  | some list => exact fun h => holdsFrom block quickDepth (h.quick.get list).first h

lemma prevIsFree (block : Nat) : Transparent (·.prevIsFree block) := by
  unfold Heap.prevIsFree
  refine .ite_of (fun _ => Iff.rfl) (.pure _) <| .bind (.footerBefore block) fun footer => ?_
  exact .ite (.pure _) <| .ite_of (fun _ => Iff.rfl) (.pure _) <| .bind (.tagAt _) fun _ => .pure _

lemma validateHeader (block : Nat) : Transparent fun h => (h.validateHeader block).run := by
  unfold Heap.validateHeader
  refine .check_bind (.check_read (.tagAt block)) fun t => ?_
  refine .demand <| .demand_of (fun _ => Iff.rfl) <| .demand ?_
  refine .check_bind (.check_read (.isQuickListed block t.size)) fun listed => ?_
  refine .demand <| .ite ?_ (.pure _)
  exact .check_bind (.check_read (.prevIsFree block)) fun _ => .of_eq fun _ => rfl

lemma validate (ptr : Nat) : Transparent fun h => (h.validate ptr).run := by
  unfold Heap.validate
  exact .demand <| .demand <| .demand_of (fun _ => Iff.rfl) <| .demand_of (fun _ => Iff.rfl) <|
    .validateHeader ptr

lemma check (ptr : Nat) : Transparent fun h => (h.check ptr).run := by
  refine .check_bind (.check_read (.validate ptr)) fun r => ?_
  rcases r with x | u
  · exact .pure _
  · exact .pure _

lemma usableSize (ptr : Nat) : Transparent fun h => (h.usableSize ptr).run :=
  .check_bind (.check ptr) fun _ => .check_bind (.check_read (.tagAt ptr)) fun _ =>
    .check_read (.difference _ _)

lemma blocksFrom (fuel cursor : Nat) : Transparent (·.blocksFrom fuel cursor) := by
  induction fuel generalizing cursor with
  | zero => exact .of_eq fun _ => rfl
  | succ fuel ih =>
    unfold Heap.blocksFrom
    exact .ite_of (fun _ => Iff.rfl) (.pure _) <| .bind (.bind (.tagAt cursor) fun _ => .pure _) fun b =>
      .bind (fun h => ih (h.walkNext b) h) fun _ => .pure _

lemma blocks : Transparent (·.blocks) := fun h => blocksFrom h.patience h.walkStart h

lemma countFrom (list : Fin mainLists) (fuel : Nat) (l : Link) :
    Transparent (·.countFrom list fuel l) := by
  induction fuel generalizing l with
  | zero => exact .of_eq fun _ => rfl
  | succ fuel ih =>
    unfold Heap.countFrom
    exact .ite (.pure _) <| .bind (.nextOf l) fun next =>
      .bind (ih next) fun _ => .pure _

lemma listLen (list : Fin mainLists) : Transparent (·.listLen list) :=
  .bind (.nextOf _) fun l h => countFrom list h.patience l h

lemma freeListLen (n : Nat) : Transparent (·.freeListLen n) := by
  unfold Heap.freeListLen
  split
  · exact .listLen _
  · exact .pure _

end Transparent

end Heap

namespace HeapM

open Heap

/-- What goes through under guard goes the same way without, and the heap stays in its place. -/
def Transparent {α : Type} (m : HeapM α) : Prop :=
  ∀ h a h', m h = .ok (a, h') → SamePlace h h' ∧ m h.unguarded = .ok (a, h'.unguarded)

namespace Transparent

variable {α β : Type}

lemma pure (a : α) : Transparent (Pure.pure a : HeapM α) := by
  intro h b h' e
  cases e
  exact ⟨.refl h, rfl⟩

lemma throw (e : Halt) : Transparent (throw e : HeapM α) := fun _ _ _ e => nomatch e

lemma bind {m : HeapM α} {f : α → HeapM β} (hm : Transparent m) (hf : ∀ a, Transparent (f a)) :
    Transparent (m >>= f) := by
  intro h b h' e
  obtain ⟨a, h1, e1, e2⟩ := of_bind e
  obtain ⟨hp1, hm1⟩ := hm h a h1 e1
  obtain ⟨hp2, hf2⟩ := hf a h1 b h' e2
  exact ⟨hp1.trans hp2, (bind_run hm1).trans hf2⟩

lemma ite {c : Prop} [Decidable c] {m k : HeapM α} (hm : Transparent m) (hk : Transparent k) :
    Transparent (if c then m else k) := by
  split
  · exact hm
  · exact hk

/-- Work that is done on a condition, before what comes next. -/
lemma ite_bind {c : Prop} [Decidable c] {m : HeapM Unit} {k : Unit → HeapM β} (hm : Transparent m)
    (hk : ∀ u, Transparent (k u)) : Transparent (if c then m >>= k else k ()) :=
  .ite (.bind hm hk) (hk ())

lemma reading {f : Heap → Except Halt α} (hf : Heap.Transparent f) : Transparent (reading f) := by
  intro h a h' e
  obtain rfl := of_reading e
  refine ⟨.refl _, reading_run (hf _ a ?_)⟩
  rw [HeapM.reading] at e
  split at e
  · next ha =>
    cases e
    exact ha
  · cases e

lemma modify {g : Heap → Heap} (hg : ∀ h, SamePlace h (g h))
    (hgu : ∀ h, g h.unguarded = (g h).unguarded) : Transparent (modify g : HeapM Unit) := by
  intro h u h' e
  cases e
  exact ⟨hg h, congrArg (fun k => Except.ok ((), k)) (hgu h)⟩

/-- What looks at the heap, but not at its guard. -/
lemma get {f : Heap → HeapM β} (hfu : ∀ h, f h.unguarded = f h) (hf : ∀ h, Transparent (f h)) :
    Transparent (get >>= f) := by
  intro h b h' e
  obtain ⟨hp, hrun⟩ := hf h h b h' e
  refine ⟨hp, ?_⟩
  rw [bind_run get_run, hfu]
  exact hrun

/-! ### Accesses -/

lemma load (a : Nat) : Transparent (load a) := reading (.load a)

lemma loadAddr (a : Nat) : Transparent (loadAddr a) := reading (.loadAddr a)

lemma sum (a b : Nat) : Transparent (sum a b) := reading (.sum a b)

lemma difference (a b : Nat) : Transparent (difference a b) := reading (.difference a b)

lemma assume (c : Bool) : Transparent (assume c) := reading (.assume c)

lemma tagAt (block : Nat) : Transparent (tagAt block) := reading (.tagAt block)

lemma stop : Transparent stop := reading (.of_eq fun _ => rfl)

lemma slot (list : Fin quickLists) : Transparent (slot list) := reading (.of_eq fun _ => rfl)

lemma storeBytes (a n : Nat) (f : Nat → UInt8) : Transparent (storeBytes a n f) := by
  intro h u h' e
  unfold HeapM.storeBytes at e ⊢
  split at e
  · next hr =>
    cases e
    exact ⟨.written (Memory.base_setBytes ..) (Memory.extent_setBytes ..), if_pos (reaches_unguarded hr)⟩
  · cases e

lemma store (a : Nat) (w : UInt64) : Transparent (store a w) := by
  intro h u h' e
  unfold HeapM.store at e ⊢
  split at e
  · next hr =>
    cases e
    exact ⟨.written (Memory.base_setWord ..) (Memory.extent_setWord ..), if_pos (reaches_unguarded hr)⟩
  · cases e

lemma copyBytes (src dst n : Nat) : Transparent (copyBytes src dst n) := by
  intro h u h' e
  unfold HeapM.copyBytes at e ⊢
  split at e
  · cases e
  · split at e
    · cases e
    · next h1 h2 =>
      cases e
      simp only [Bool.not_eq_true', Bool.not_eq_false] at h1 h2
      rw [reaches_unguarded h1, reaches_unguarded h2]
      exact ⟨.written (Memory.base_copy ..) (Memory.extent_copy ..), rfl⟩

lemma storeAddr (a target : Nat) : Transparent (storeAddr a target) := store a _

lemma setHeader (block : Nat) (t : Tag) : Transparent (setHeader block t) :=
  get (fun _ => rfl) fun _ => store _ _

lemma setFooter (block : Nat) (t : Tag) : Transparent (setFooter block t) :=
  .bind (reading (.footerAddr _ _)) fun _ => get (fun _ => rfl) fun _ => store _ _

lemma writeFree (block : Nat) (t : Tag) : Transparent (writeFree block t) :=
  .bind (assume _) fun _ => .bind (setHeader block t) fun _ => setFooter block t

lemma note (e : Event) : Transparent (note e) := modify (fun _ => ⟨rfl, rfl, rfl, rfl, rfl⟩) fun _ => rfl

lemma setLast (block : Nat) : Transparent (setLast block) :=
  modify (fun _ => ⟨rfl, rfl, rfl, rfl, rfl⟩) fun _ => rfl

lemma noteLast (block size : Nat) : Transparent (noteLast block size) :=
  .bind (sum _ _) fun _ => .bind stop fun _ => .ite (setLast block) (pure _)

lemma setSuccessorFlag (block size : Nat) (allocated : Bool) :
    Transparent (setSuccessorFlag block size allocated) :=
  .bind (sum _ _) fun next => .bind stop fun _ => .ite (.bind (tagAt next) fun _ =>
    .bind (setHeader next _) fun _ => .ite (setFooter next _) (pure _)) (pure _)

end Transparent

end HeapM

end BoundaryTag
