import BoundaryTag.Heap.Allocate
import BoundaryTag.Memory.Lemmas
import Mathlib.Tactic.Lemma

/-!
Accesses that succeed.

A heap is grounded when its region lies in memory, below the end of the address space. There every
access inside the region succeeds, whether the heap is strict or not, and is an equation: a read
answers the word that is there, a write puts one there.
-/

namespace BoundaryTag

lemma get_set {α : Type} {n : Nat} (xs : Vector α n) (i j : Fin n) (x : α) :
    (xs.set i x i.isLt).get j = if j = i then x else xs.get j := by
  show (xs.set i x i.isLt)[j.val] = if j = i then x else xs[j.val]
  simp only [Vector.getElem_set, Fin.ext_iff, eq_comm]

/-! ### Runs -/

/-- A read that succeeds, and what is made of it. -/
lemma Heap.bind_eq {α β : Type} {m : Except Halt α} {f : α → Except Halt β} {a : α} (e : m = .ok a) :
    (m >>= f) = f a := by
  rw [e]
  rfl

/-- A run goes on from where its first part has got to. -/
lemma run_bind {σ α β : Type} {m : StateT σ (Except Halt) α} {f : α → StateT σ (Except Halt) β}
    {s s' : σ} {a : α} (e : m s = .ok (a, s')) : (m >>= f) s = f a s' := by
  show (m s >>= fun x => f x.1 x.2) = _
  rw [e]
  rfl

/-- A run ends where its first part does. -/
lemma run_bind_error {σ α β : Type} {m : StateT σ (Except Halt) α} {f : α → StateT σ (Except Halt) β}
    {s : σ} {e : Halt} (he : m s = .error e) : (m >>= f) s = .error e := by
  show (m s >>= fun x => f x.1 x.2) = _
  rw [he]
  rfl

/-- What a run of two parts went through. -/
lemma of_run_bind {σ α β : Type} {m : StateT σ (Except Halt) α} {f : α → StateT σ (Except Halt) β}
    {s u : σ} {b : β} (e : (m >>= f) s = .ok (b, u)) : ∃ a t, m s = .ok (a, t) ∧ f a t = .ok (b, u) := by
  rcases hm : m s with x | ⟨a, t⟩
  · rw [run_bind_error hm] at e
    cases e
  · exact ⟨a, t, rfl, (run_bind hm).symm.trans e⟩

namespace HeapM

variable {α β : Type} {h h' : Heap}

lemma bind_run {m : HeapM α} {f : α → HeapM β} {a : α} (e : m h = .ok (a, h')) :
    (m >>= f) h = f a h' :=
  run_bind e

lemma pure_run (a : α) : (pure a : HeapM α) h = .ok (a, h) := rfl

/-- A run ends where its first step does. -/
lemma bind_halt {m : HeapM α} {f : α → HeapM β} {e : Halt} (he : m h = .error e) :
    (m >>= f) h = .error e :=
  run_bind_error he

/-- What a run of two steps went through. -/
lemma of_bind {m : HeapM α} {f : α → HeapM β} {x : β} (e : (m >>= f) h = .ok (x, h')) :
    ∃ a h1, m h = .ok (a, h1) ∧ f a h1 = .ok (x, h') :=
  of_run_bind e

/-- A step that is taken on a condition. -/
lemma ite_run {c : Prop} [Decidable c] {m : HeapM Unit} {k : HeapM β}
    (e : (if c then m else pure ()) h = .ok ((), h')) :
    (if c then m >>= fun _ => k else k) h = k h' := by
  split at e
  · next hc => rw [if_pos hc, bind_run e]
  · next hc =>
    rw [if_neg hc]
    cases e
    rfl

lemma get_run : (get : HeapM Heap) h = .ok (h, h) := rfl

lemma modify_run (f : Heap → Heap) : (modify f : HeapM Unit) h = .ok ((), f h) := rfl

lemma reading_run {f : Heap → Except Halt α} {a : α} (e : f h = .ok a) :
    reading f h = .ok (a, h) := by
  rw [reading, e]

/-- A computation that only reads leaves the heap as it is. -/
lemma of_reading {f : Heap → Except Halt α} {a : α} (e : reading f h = .ok (a, h')) : h' = h := by
  rw [reading] at e
  split at e <;> cases e
  rfl

lemma stop_run : stop h = .ok (h.arena.stop, h) := rfl

end HeapM

namespace RequestM

variable {α β : Type} {h h' : Heap}

lemma bind_run {m : RequestM α} {f : α → RequestM β} {a : α} (e : m.run h = .ok (.ok a, h')) :
    (m >>= f).run h = (f a).run h' :=
  HeapM.bind_run e

lemma bind_run_error {m : RequestM α} {f : α → RequestM β} {x : AllocError}
    (e : m.run h = .ok (.error x, h')) : (m >>= f).run h = .ok (.error x, h') :=
  HeapM.bind_run e

lemma lift_run {m : HeapM α} {a : α} (e : m h = .ok (a, h')) :
    (liftM m : RequestM α).run h = .ok (.ok a, h') := by
  show (Except.ok <$> m) h = _
  rw [map_eq_pure_bind, HeapM.bind_run e]
  rfl

lemma lift_halt {m : HeapM α} {f : α → RequestM β} {e : Halt} (he : m h = .error e) :
    (liftM m >>= f : RequestM β).run h = .error e := by
  refine HeapM.bind_halt ?_
  show (Except.ok <$> m) h = _
  rw [map_eq_pure_bind, HeapM.bind_halt he]

lemma pure_run (a : α) : (pure a : RequestM α).run h = .ok (.ok a, h) := rfl

/-- A request of two steps fails in one of them. -/
lemma of_bind_error {m : RequestM α} {f : α → RequestM β} {x : AllocError}
    (e : (m >>= f).run h = .ok (.error x, h')) :
    m.run h = .ok (.error x, h') ∨
      ∃ a h1, m.run h = .ok (.ok a, h1) ∧ (f a).run h1 = .ok (.error x, h') := by
  obtain ⟨a | a, h1, hm, hf⟩ := HeapM.of_bind e
  · cases hf
    exact .inl hm
  · exact .inr ⟨a, h1, hm, hf⟩

/-- Work on the heap does not fail. -/
lemma of_lift_error {m : HeapM α} {f : α → RequestM β} {x : AllocError}
    (e : (liftM m >>= f : RequestM β).run h = .ok (.error x, h')) :
    ∃ a h1, m h = .ok (a, h1) ∧ (f a).run h1 = .ok (.error x, h') := by
  obtain ⟨b, h1, hm, hf⟩ := HeapM.of_bind e
  change (Except.ok <$> m) h = _ at hm
  rw [map_eq_pure_bind] at hm
  obtain ⟨a, _, hm, hp⟩ := HeapM.of_bind hm
  cases hp
  exact ⟨a, h1, hm, hf⟩

end RequestM

section Checks

variable {α β ε : Type} {m : ExceptT ε (Except Halt) α} {f : α → ExceptT ε (Except Halt) β} {a : α}

/-- A check that passes, and what follows it. -/
lemma check_bind (e : m.run = .ok (.ok a)) : (m >>= f).run = (f a).run := Heap.bind_eq e

lemma check_read {r : Except Halt α} (e : r = .ok a) :
    (liftM r : ExceptT ε (Except Halt) α).run = .ok (.ok a) := by
  rw [e]
  rfl

section Demands

variable {c : Prop} [Decidable c] {x : ε} {k : Unit → ExceptT ε (Except Halt) α}

/-- A check ends if it ends where it does not refuse. -/
lemma check_demand (hk : ¬ c → ∃ r, (k ()).run = .ok r) :
    ∃ r, (if c then throw x >>= k else k ()).run = .ok r := by
  split
  · exact ⟨.error x, rfl⟩
  · next hc => exact hk hc

/-- A check that passes has not refused. -/
lemma of_check_demand (e : (if c then throw x >>= k else k ()).run = .ok (.ok a)) :
    ¬ c ∧ (k ()).run = .ok (.ok a) := by
  split at e
  · cases e
  · next hc => exact ⟨hc, e⟩

end Demands

end Checks

/-! ### Grounded heaps -/

namespace Heap

/-- The region of the heap is aligned, mapped, and ends below the last address. -/
structure Grounded (h : Heap) : Prop where
  aligned : h.arena.start % alignment = 0
  bounded : h.arena.stop < addressSpace
  base_le : h.memory.base ≤ h.arena.start
  stop_le : h.arena.stop ≤ h.memory.base + h.memory.extent

/-- The heap with a word written. -/
def put (h : Heap) (a : Nat) (w : UInt64) : Heap := { h with memory := h.memory.setWord a w }

lemma memory_put (h : Heap) (a : Nat) (w : UInt64) : (h.put a w).memory = h.memory.setWord a w := rfl

/-- The header of the block at `p`, as it stands in memory. -/
def header (h : Heap) (p : Nat) : Tag := .decode (h.memory.word (p - wordSize)) h.key

/-- The footer of the block of `size` bytes at `p`, as it stands in memory. -/
def footer (h : Heap) (p size : Nat) : Tag :=
  .decode (h.memory.word (p + size - 2 * wordSize)) h.key

variable {h : Heap}

lemma Grounded.reaches (g : h.Grounded) {a n : Nat} (ha : h.arena.start ≤ a)
    (hn : a + n ≤ h.arena.stop) : h.reaches a n = true := by
  have hb := g.base_le
  have hs := g.stop_le
  have hmaps : h.memory.maps a n = true := by
    simp only [Memory.maps, Bool.and_eq_true, decide_eq_true_eq]
    omega
  have hin : h.arena.contains a n = true := by
    simp only [Arena.contains, Bool.and_eq_true, decide_eq_true_eq]
    exact ⟨ha, hn⟩
  simp only [Heap.reaches, hmaps, hin, Bool.or_true, Bool.and_true]

lemma Grounded.load_eq (g : h.Grounded) {a : Nat} (ha : h.arena.start ≤ a)
    (hn : a + wordSize ≤ h.arena.stop) : h.load a = .ok (h.memory.word a) := by
  rw [Heap.load, g.reaches ha hn, if_pos rfl]

lemma Grounded.loadAddr_eq (g : h.Grounded) {a : Nat} (ha : h.arena.start ≤ a)
    (hn : a + wordSize ≤ h.arena.stop) : h.loadAddr a = .ok (h.memory.word a).toNat := by
  rw [Heap.loadAddr, g.load_eq ha hn]
  rfl

lemma sum_eq {a b : Nat} (hlt : a + b < addressSpace) : h.sum a b = .ok (a + b) := if_pos hlt

lemma difference_eq {a b : Nat} (hle : b ≤ a) : h.difference a b = .ok (a - b) := if_pos hle

lemma assume_eq {c : Bool} (hc : c = true) : h.assume c = .ok () := by
  rw [Heap.assume, hc, Bool.not_true, Bool.and_false, if_neg Bool.false_ne_true]

lemma Grounded.tagAt_eq (g : h.Grounded) {p : Nat} (hp : h.arena.start + wordSize ≤ p)
    (hn : p ≤ h.arena.stop) : h.tagAt p = .ok (h.header p) := by
  have hlt := g.bounded
  rw [Heap.tagAt, wrapSub_of_le (by omega) (by omega), g.load_eq (by omega) (by omega)]
  rfl

lemma Grounded.footerBefore_eq (g : h.Grounded) {p size : Nat} (hsize : 2 * wordSize ≤ size)
    (hp : h.arena.start ≤ p) (hn : p + size ≤ h.arena.stop) :
    h.footerBefore (p + size) = .ok (h.footer p size) := by
  have hlt := g.bounded
  rw [Heap.footerBefore, wrapSub_of_le (by omega) (by omega), g.load_eq (by omega) (by omega)]
  rfl

lemma footerAddr_eq {p size : Nat} (hsize : 2 * wordSize ≤ size) (hlt : p + size < addressSpace) :
    h.footerAddr p size = .ok (p + size - 2 * wordSize) := by
  have hsum : p + (size - 2 * wordSize) = p + size - 2 * wordSize := by omega
  rw [Heap.footerAddr, difference_eq hsize]
  show h.sum p (size - 2 * wordSize) = _
  rw [sum_eq (by omega), hsum]

end Heap

namespace HeapM

open Heap

variable {h : Heap}

lemma sum_run {a b : Nat} (hlt : a + b < addressSpace) : sum a b h = .ok (a + b, h) :=
  reading_run (Heap.sum_eq hlt)

lemma difference_run {a b : Nat} (hle : b ≤ a) : difference a b h = .ok (a - b, h) :=
  reading_run (Heap.difference_eq hle)

lemma assume_run {c : Bool} (hc : c = true) : assume c h = .ok ((), h) :=
  reading_run (Heap.assume_eq hc)

lemma load_run (g : h.Grounded) {a : Nat} (ha : h.arena.start ≤ a)
    (hn : a + wordSize ≤ h.arena.stop) : load a h = .ok (h.memory.word a, h) :=
  reading_run (g.load_eq ha hn)

lemma loadAddr_run (g : h.Grounded) {a : Nat} (ha : h.arena.start ≤ a)
    (hn : a + wordSize ≤ h.arena.stop) : loadAddr a h = .ok ((h.memory.word a).toNat, h) :=
  reading_run (g.loadAddr_eq ha hn)

lemma tagAt_run (g : h.Grounded) {p : Nat} (hp : h.arena.start + wordSize ≤ p)
    (hn : p ≤ h.arena.stop) : tagAt p h = .ok (h.header p, h) :=
  reading_run (g.tagAt_eq hp hn)

lemma store_run (g : h.Grounded) {a : Nat} (w : UInt64) (ha : h.arena.start ≤ a)
    (hn : a + wordSize ≤ h.arena.stop) : store a w h = .ok ((), h.put a w) := by
  rw [store, g.reaches ha hn, if_pos rfl]
  rfl

lemma setHeader_run (g : h.Grounded) {p : Nat} (t : Tag) (hp : h.arena.start + wordSize ≤ p)
    (hn : p ≤ h.arena.stop) : setHeader p t h = .ok ((), h.put (p - wordSize) (t.encode h.key)) := by
  have hlt := g.bounded
  rw [setHeader, bind_run get_run, wrapSub_of_le (by omega) (by omega),
    store_run g _ (by omega) (by omega)]

lemma setFooter_run (g : h.Grounded) {p : Nat} {t : Tag} (hsize : 2 * wordSize ≤ t.size)
    (hp : h.arena.start ≤ p) (hn : p + t.size ≤ h.arena.stop) :
    setFooter p t h = .ok ((), h.put (p + t.size - 2 * wordSize) (t.encode h.key)) := by
  have hlt := g.bounded
  rw [setFooter, bind_run (reading_run (footerAddr_eq hsize (by omega))), bind_run get_run,
    store_run g _ (by omega) (by omega)]

end HeapM

/-! ### What is unchanged -/

namespace Heap

/-- Work that leaves the arena, the key and the extent of memory as they are. -/
structure SameSetting (h h' : Heap) : Prop where
  arena : h'.arena = h.arena
  key : h'.key = h.key
  ready : h'.ready = h.ready
  strict : h'.strict = h.strict
  base : h'.memory.base = h.memory.base
  extent : h'.memory.extent = h.memory.extent

/-- The bytes off `S` are the same. -/
def SameOff (S : Nat → Prop) (h h' : Heap) : Prop :=
  ∀ x, ¬ S x → h'.memory.byte x = h.memory.byte x

variable {h h' h'' : Heap} {S T : Nat → Prop}

lemma SameSetting.refl (h : Heap) : SameSetting h h := ⟨rfl, rfl, rfl, rfl, rfl, rfl⟩

lemma SameSetting.trans (s : SameSetting h h') (t : SameSetting h' h'') : SameSetting h h'' :=
  ⟨t.arena.trans s.arena, t.key.trans s.key, t.ready.trans s.ready, t.strict.trans s.strict,
    t.base.trans s.base, t.extent.trans s.extent⟩

lemma SameSetting.grounded (s : SameSetting h h') (g : h.Grounded) : h'.Grounded := by
  obtain ⟨ha, -, -, -, hb, he⟩ := s
  exact ⟨ha ▸ g.aligned, ha ▸ g.bounded, ha ▸ hb ▸ g.base_le, ha ▸ hb ▸ he ▸ g.stop_le⟩

lemma sameSetting_put (h : Heap) (a : Nat) (w : UInt64) : SameSetting h (h.put a w) := by
  refine ⟨rfl, rfl, rfl, rfl, ?_, ?_⟩
  · rw [memory_put, Memory.base_setWord]
  · rw [memory_put, Memory.extent_setWord]

lemma SameOff.refl (h : Heap) : SameOff S h h := fun _ _ => rfl

lemma SameOff.trans (s : SameOff S h h') (t : SameOff S h' h'') : SameOff S h h'' :=
  fun x hx => (t x hx).trans (s x hx)

lemma SameOff.mono (s : SameOff S h h') (hst : ∀ x, S x → T x) : SameOff T h h' :=
  fun x hx => s x fun hs => hx (hst x hs)

lemma SameOff.word (s : SameOff S h h') {a : Nat} (ha : ∀ x, a ≤ x → x < a + wordSize → ¬ S x) :
    h'.memory.word a = h.memory.word a :=
  Memory.word_congr fun x h1 h2 => s x (ha x h1 h2)

/-- A header off `S` is the same. -/
lemma SameOff.header (s : SameOff S h h') (hkey : h'.key = h.key) {p : Nat} (hp : wordSize ≤ p)
    (hS : ∀ x, p ≤ x + wordSize → x < p → ¬ S x) : h'.header p = h.header p := by
  rw [Heap.header, hkey, s.word fun x h1 h2 => hS x (by omega) (by omega)]
  rfl

/-- Work that writes only bytes of `S`, and leaves the quick slots as they are. -/
structure Within (S : Nat → Prop) (h h' : Heap) : Prop where
  setting : SameSetting h h'
  quick : h'.quick = h.quick
  off : SameOff S h h'

lemma Within.refl (h : Heap) : Within S h h := ⟨.refl h, rfl, .refl h⟩

lemma Within.trans (s : Within S h h') (t : Within S h' h'') : Within S h h'' :=
  ⟨s.setting.trans t.setting, t.quick.trans s.quick, s.off.trans t.off⟩

lemma Within.mono (s : Within S h h') (hst : ∀ x, S x → T x) : Within T h h' :=
  ⟨s.setting, s.quick, s.off.mono hst⟩

/-- A word written changes the bytes of that word. -/
lemma sameOff_put {a : Nat} (ha : h.memory.base ≤ a) (w : UInt64) :
    SameOff (fun x => a ≤ x ∧ x < a + wordSize) h (h.put a w) := by
  intro x hx
  rw [memory_put, Memory.byte_setWord_of_outside ha w (by omega)]

lemma within_put {a : Nat} (ha : h.memory.base ≤ a) (w : UInt64) :
    Within (fun x => a ≤ x ∧ x < a + wordSize) h (h.put a w) :=
  ⟨sameSetting_put h a w, rfl, sameOff_put ha w⟩

lemma word_put_self {a : Nat} (ha : h.memory.base ≤ a) (w : UInt64) :
    (h.put a w).memory.word a = w := by
  rw [memory_put, Memory.word_setWord_self ha w]

lemma word_put_of_disjoint {a b : Nat} (ha : h.memory.base ≤ a) (w : UInt64)
    (hd : b + wordSize ≤ a ∨ a + wordSize ≤ b) : (h.put a w).memory.word b = h.memory.word b := by
  rw [memory_put, Memory.word_setWord_of_disjoint ha w hd]

end Heap

end BoundaryTag
