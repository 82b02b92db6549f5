import BoundaryTag.Proofs.Heap.Reading
import BoundaryTag.Proofs.Heap.Requests

/-!
Requests that fail for want of memory.

A search that finds no block asks for page after page, until one is refused. The pages that were granted by
then are in the free block at the end of the region, which is longer than it was or new. Nothing else has
changed: the blocks in use are as they were, headers and all, and so are the quick slots.
-/

namespace BoundaryTag

open Heap HeapM Piece

/-! ### Longer walks -/

/-- A walk that sees `n` bytes more than another: in the free block at its end, or in a free block that is
new. Of a region that was empty, two words are in no block, and the first block is at `first`. -/
inductive Lengthened (first : Nat) : Nat → List BlockInfo → List BlockInfo → Prop
  | same (bs : List BlockInfo) : Lengthened first 0 bs bs
  | longer (bs : List BlockInfo) (payload size n : Nat) (f : Bool) :
    Lengthened first n (bs ++ [⟨payload, size, false, f⟩]) (bs ++ [⟨payload, size + n, false, f⟩])
  | appended (bs : List BlockInfo) (b : BlockInfo) (n : Nat) : b.allocated = true → 0 < n →
    Lengthened first n (bs ++ [b]) (bs ++ [b] ++ [⟨b.payload + b.size, n, false, true⟩])
  | started (n : Nat) : 2 * wordSize ≤ n →
    Lengthened first n [] [⟨first, n - 2 * wordSize, false, true⟩]

namespace Lengthened

variable {first n m payload size : Nat} {f : Bool} {as bs cs : List BlockInfo}

/-- A free block at the end takes all there is more. -/
lemma of_free (h : Lengthened first m (bs ++ [⟨payload, size, false, f⟩]) cs) :
    cs = bs ++ [⟨payload, size + m, false, f⟩] := by
  generalize has : bs ++ [(⟨payload, size, false, f⟩ : BlockInfo)] = as at h
  cases h with
  | same => exact has.symm
  | longer bs' p s n f' =>
    obtain ⟨rfl, hb⟩ := List.append_inj' has rfl
    cases hb
    rfl
  | appended bs' b n hb =>
    obtain ⟨rfl, hb'⟩ := List.append_inj' has rfl
    cases hb'
    cases hb
  | started n => exact absurd has (List.append_ne_nil_of_right_ne_nil _ (List.cons_ne_nil _ _))

lemma trans (h : Lengthened first n as bs) (h' : Lengthened first m bs cs) :
    Lengthened first (n + m) as cs := by
  cases h with
  | same => rwa [Nat.zero_add]
  | longer bs p s n f =>
    rw [h'.of_free, Nat.add_assoc]
    exact .longer ..
  | appended bs b n hb hn =>
    rw [h'.of_free]
    exact .appended bs b _ hb (Nat.add_pos_left hn _)
  | started n hn =>
    rw [(show Lengthened first m ([] ++ [_]) cs from h').of_free, List.nil_append,
      ← Nat.sub_add_comm hn]
    exact .started _ (Nat.le_add_right_of_le hn)

end Lengthened

lemma walk_append {ps qs : List Piece} {f : Bool} :
    walk f (ps ++ qs) = walk f ps ++ walk (flagAfter f ps) qs := by
  induction ps generalizing f with
  | nil => rfl
  | cons b ps ih => rw [List.cons_append, walk, walk, ih, flagAfter_cons, List.cons_append]

/-! ### The ledger -/

namespace Ledger

variable {l l' : Ledger}

/-- A block behind the last one, freed: the blocks as a walk sees them. -/
lemma walk_append_free {a : Arena} {n : Nat} (first : Nat) (hs : l.Sound) (h0 : l.pieces ≠ [])
    (hs1 : Sound { l with arena := a, pieces := l.pieces ++ [⟨l.stop, n, .live⟩] }) (hn : 0 < n) :
    let l' := free { l with arena := a, pieces := l.pieces ++ [⟨l.stop, n, .live⟩] } l.stop
    l.used ⊆ l'.used ∧ Lengthened first n (walk true l.pieces) (walk true l'.pieces) := by
  set b : Piece := ⟨l.stop, n, .live⟩ with hb
  set l1 : Ledger := { l with arena := a, pieces := l.pieces ++ [b] } with hl1
  have ht := hs1.tiled (b := b) (by simp [hl1])
  have hfree : l1.free l.stop = l1.join l.pieces b [] := free_eq ht rfl
  obtain ⟨x, left, right, y, har, hj⟩ := join_eq l1 l.pieces b []
  obtain ⟨rfl, rfl⟩ := List.append_eq_nil_iff.mp har.after_eq.symm
  have hp := har.before_eq
  dsimp only
  rw [hfree, hj]
  refine ⟨fun d hd => ⟨?_, hd.2⟩, ?_⟩
  · have hmem := hd.1
    rw [hp] at hmem
    exact List.mem_append_left _ ((List.mem_append.mp hmem).resolve_right (har.not_mem_of_use hd.2).1)
  · have hlen : left.length ≤ 1 := by
      have hc := hs.coalesced
      rw [hp] at hc
      exact length_le_one_of_free (coalesced_append.mp hc).2.1 fun d hd => by
        simpa [Piece.isFree] using har.left_free d hd
    rw [hp]
    rcases left with _ | ⟨d, _ | ⟨e, rest⟩⟩
    case nil =>
      rw [List.append_nil] at hp ⊢
      rcases List.eq_nil_or_concat x with rfl | ⟨x', c, rfl⟩
      · exact absurd hp h0
      rw [List.concat_eq_append] at hp har ⊢
      have hc : c.use ≠ .free := har.x_last c (by simp)
      have hstop : l.stop = c.payload + c.size :=
        ((hs.tiled (b := c) (by simp [hp])).stop_last (by simp [hp])).symm
      have hlong : Lengthened first n _ _ :=
        .appended (walk true x') ⟨c.payload, c.size, true, flagAfter true x'⟩ n rfl hn
      rw [walk_append, walk_append, walk_append]
      simpa [walk, merge, hb, hc, isFree, hstop] using hlong
    case cons.nil =>
      have hd : d.use = .free := har.left_free d (by simp)
      have hstop : d.stop = l.stop := (hs.tiled (b := d) (by simp [hp])).stop_last (by simp [hp])
      have hdp : l.stop - d.size = d.payload := by
        rw [← hstop, Piece.stop, Nat.add_sub_cancel]
      have hlong : Lengthened first n _ _ :=
        .longer (walk true x) d.payload d.size n (flagAfter true x)
      rw [walk_append, walk_append]
      simpa [walk, merge, hb, hd, isFree, total_cons, total_nil, hdp] using hlong
    case cons.cons => simp at hlen

/-- A page granted. -/
lemma grow_granted (hs : l.Sound) (h0 : l.arena.pages ≠ 0) (hg : l.grow = (true, l')) :
    l'.arena.pages = l.arena.pages + 1 ∧ l'.arena.base = l.arena.base ∧ l.used ⊆ l'.used ∧
      Lengthened l.first pageSize (walk true l.pieces) (walk true l'.pieces) := by
  unfold grow at hg
  rcases l.arena.grow_cases with ⟨h, -⟩ | h
  · obtain ⟨hs1, -⟩ := sound_append (b := ⟨l.stop, pageSize, .live⟩)
      (a := { l.arena with pages := l.arena.pages + 1, requests := l.arena.requests + 1 }) hs
      hs.aligned (Nat.succ_ne_zero _) rfl (tiles_page hs h0)
    obtain ⟨hused, hwalk⟩ := walk_append_free l.first hs (hs.pieces_ne_nil h0) hs1 (by decide)
    rw [h] at hg
    obtain rfl := (Prod.mk.inj hg).2
    rw [arena_free]
    exact ⟨rfl, rfl, hused, hwalk⟩
  · rw [h] at hg
    cases hg

/-- A page refused. -/
lemma grow_refused (hg : l.grow = (false, l')) :
    l' = { l with arena := { l.arena with requests := l.arena.requests + 1 } } := by
  unfold grow at hg
  rcases l.arena.grow_cases with ⟨h, -⟩ | h <;> rw [h] at hg <;> cases hg
  rfl

/-- The first page granted. -/
lemma setUp_granted (hs : l.Sound) (h0 : l.arena.pages = 0) (hg : l.setUp = (true, l')) :
    l'.arena.pages = 1 ∧ l'.arena.base = l.arena.base ∧
      l'.pieces = [⟨l.first, firstBlock, .free⟩] := by
  obtain ⟨hmain, -⟩ := hs.lists_nil (hs.empty h0)
  have hm : l.main = fun _ => [] := funext hmain
  unfold setUp at hg
  rcases l.arena.grow_cases with ⟨h, -⟩ | h <;> rw [h] at hg
  · obtain rfl := (Prod.mk.inj hg).2
    rw [hm, free_first]
    refine ⟨by rw [h0], rfl, ?_⟩
    rw [h0]
    simp [first]
  · cases hg

/-- The first page refused. -/
lemma setUp_refused (hg : l.setUp = (false, l')) :
    l' = { l with arena := { l.arena with requests := l.arena.requests + 1 } } := by
  unfold setUp at hg
  rcases l.arena.grow_cases with ⟨h, -⟩ | h <;> rw [h] at hg <;> cases hg
  rfl

end Ledger

/-! ### The heap -/

/-- A heap after `k` pages more, which are in the free block at its end. The blocks in use are as they
were. -/
structure Grown (h : Heap) (l : Ledger) (k : Nat) (h' : Heap) (l' : Ledger) : Prop where
  sound : l'.Sound
  shows : Shows h' l'
  base : l'.arena.base = l.arena.base
  pages : l'.arena.pages = l.arena.pages + k
  walk : Lengthened l.first (k * pageSize) (walk true l.pieces) (walk true l'.pieces)
  used : l.used ⊆ l'.used
  quick : h'.quick = h.quick
  bytes : SameOff (Clear l.used) h h'
  header : ∀ b ∈ l.used, h'.header b.payload = h.header b.payload
  unmoved : k = 0 → Unmoved h h'

section Grown

variable {h h' h'' : Heap} {l l' l'' : Ledger} {j k need : Nat}

lemma Unmoved.trans (u : Unmoved h h') (v : Unmoved h' h'') : Unmoved h h'' :=
  ⟨v.memory.trans u.memory, v.heads.trans u.heads, v.last.trans u.last⟩

lemma Grown.refl (hs : l.Sound) (w : Shows h l) : Grown h l 0 h l :=
  ⟨hs, w, rfl, rfl, .same _, subset_rfl, rfl, .refl h, fun _ _ => rfl, fun _ => ⟨rfl, rfl, rfl⟩⟩

/-- A page refused is counted by the arena only. -/
lemma Grown.of_refused {n : Nat} (hs : l.Sound)
    (w : Shows h' { l with arena := { l.arena with requests := n } }) (hquick : h'.quick = h.quick)
    (hheader : ∀ b ∈ l.used, h'.header b.payload = h.header b.payload) (u : Unmoved h h') :
    Grown h l 0 h' { l with arena := { l.arena with requests := n } } :=
  ⟨Ledger.sound_refused hs n, w, rfl, rfl, .same _, subset_rfl, hquick,
    fun x _ => congrArg (Memory.byte · x) u.memory, hheader, fun _ => u⟩

lemma Grown.trans (g : Grown h l j h' l') (g' : Grown h' l' k h'' l'') :
    Grown h l (j + k) h'' l'' := by
  have hfirst : l'.first = l.first := by
    rw [Ledger.first, g.base]
    rfl
  refine ⟨g'.sound, g'.shows, g'.base.trans g.base, ?_, ?_, g.used.trans g'.used,
    g'.quick.trans g.quick, g.bytes.trans (g'.bytes.mono fun x hx b hb => hx b (g.used hb)),
    fun b hb => (g'.header b (g.used hb)).trans (g.header b hb), fun h0 => ?_⟩
  · rw [g'.pages, g.pages, Nat.add_assoc]
  · rw [Nat.add_mul]
    exact g.walk.trans (hfirst ▸ g'.walk)
  · exact (g.unmoved (Nat.eq_zero_of_add_eq_zero_right h0)).trans
      (g'.unmoved (Nat.eq_zero_of_add_eq_zero_left h0))

/-- Headers of blocks in use are kept by work that is clear of them. -/
lemma Shows.header_eq {b : Piece} (hs : l.Sound) (w : Shows h l) (hoff : SameOff (Clear l.used) h h')
    (hkey : h'.key = h.key) (hb : b ∈ l.used) : h'.header b.payload = h.header b.payload := by
  obtain ⟨-, h1, -⟩ := w.word_bounds hs hb.1
  have hlen := ((hs.tiled hb.1).bounds hb.1).2.2.1
  refine hoff.header hkey ?_ fun x h2 h3 hx => hx b hb ⟨h2, ?_⟩
  · unfold wordSize
    unfold alignment at h1
    omega
  · unfold Piece.stop minBlock wordSize at *
    omega

/-- **A page more** is in the free block at the end, and a page refused changes nothing. -/
lemma Shows.grown (hs : l.Sound) (w : Shows h l) (h0 : l.arena.pages ≠ 0) :
    ∃ h', HeapM.grow h = .ok (l.grow.1, h') ∧
      Grown h l (if l.grow.1 then 1 else 0) h' l.grow.2 := by
  obtain ⟨h1, hrun1, w1, hoff1, hkey1, hquick1, hunmoved1⟩ := w.grow hs h0
  obtain ⟨hs1, -, -⟩ := Ledger.sound_grow hs h0
  refine ⟨h1, hrun1, ?_⟩
  have hheader := fun b (hb : b ∈ l.used) => w.header_eq hs hoff1 hkey1 hb
  rcases hg : l.grow with ⟨_ | _, l'⟩ <;> rw [hg] at w1 hs1 hunmoved1
  · obtain rfl := Ledger.grow_refused hg
    exact .of_refused hs w1 hquick1 hheader (hunmoved1 rfl)
  · obtain ⟨hpages, hbase, hused, hwalk⟩ := Ledger.grow_granted hs h0 hg
    exact ⟨hs1, w1, hbase, hpages, (Nat.one_mul pageSize).symm ▸ hwalk, hused, hquick1, hoff1, hheader,
      fun he => by cases he⟩

/-- The first page is one free block, and no page is nothing. -/
lemma Shows.started_or_refused (hs : l.Sound) (w : Shows h l) (h0 : l.arena.pages = 0) :
    ∃ h', HeapM.setUp h = .ok (l.setUp.1, h') ∧
      Grown h l (if l.setUp.1 then 1 else 0) h' l.setUp.2 := by
  obtain ⟨h1, hrun1, w1, hquick1, hunmoved1⟩ := w.setUp hs h0
  obtain ⟨hs1, -, -⟩ := Ledger.sound_setUp hs h0
  have hnil := hs.empty h0
  have hused : ∀ b, b ∉ l.used := fun b hb => by
    have := hb.1
    rw [hnil] at this
    exact List.not_mem_nil this
  refine ⟨h1, hrun1, ?_⟩
  rcases hg : l.setUp with ⟨_ | _, l'⟩ <;> rw [hg] at w1 hs1 hunmoved1
  · obtain rfl := Ledger.setUp_refused hg
    exact .of_refused hs w1 hquick1 (fun b hb => absurd hb (hused b)) (hunmoved1 rfl)
  · obtain ⟨hpages, hbase, hp⟩ := Ledger.setUp_granted hs h0 hg
    refine ⟨hs1, w1, hbase, by rw [hpages, h0]; rfl, ?_, fun b hb => absurd hb (hused b), hquick1,
      fun x hx => absurd (fun b hb => absurd hb (hused b)) hx, fun b hb => absurd hb (hused b),
      fun he => by cases he⟩
    rw [hnil, hp, if_pos rfl, Nat.one_mul]
    exact .started pageSize (by decide)

section Search

variable (hn : minBlock ≤ need) (hmod : need % alignment = 0)

include hn hmod

/-- A search that goes on has found no block. -/
lemma Shows.of_takeFit_none {m : HeapM (Option Nat)} (hs : l.Sound) (w : Shows h l)
    (hrun : (HeapM.takeFit need >>= fun
      | some block => pure (some block)
      | none => m) h = .ok (none, h')) : m h = .ok (none, h') := by
  rcases hf : l.fit? need with _ | p
  · rwa [bind_run (w.takeFit_none hs hf)] at hrun
  · obtain ⟨h1, hrun1, -⟩ := w.takeFit hs hn hmod hf
    rw [bind_run hrun1] at hrun
    cases hrun

/-- **A search that finds nothing** in the main lists ends with the pages that were granted. -/
lemma Shows.takeGrowing_none {room : Nat} (hs : l.Sound) (w : Shows h l) (h0 : l.arena.pages ≠ 0)
    (hrun : HeapM.takeGrowing need room h = .ok (none, h')) : ∃ k l', Grown h l k h' l' := by
  induction room generalizing l h with
  | zero =>
    obtain ⟨h1, hgrow, g1⟩ := w.grown hs h0
    unfold HeapM.takeGrowing at hrun
    replace hrun := w.of_takeFit_none hn hmod hs hrun
    rw [bind_run hgrow] at hrun
    cases hrun
    exact ⟨_, _, g1⟩
  | succ room ih =>
    obtain ⟨h1, hgrow, g1⟩ := w.grown hs h0
    obtain ⟨-, -, hp1⟩ := Ledger.sound_grow hs h0
    unfold HeapM.takeGrowing at hrun
    replace hrun := w.of_takeFit_none hn hmod hs hrun
    rw [bind_run hgrow] at hrun
    rcases hg : l.grow with ⟨_ | _, l1⟩ <;> rw [hg] at hrun g1 hp1
    · cases hrun
      exact ⟨_, _, g1⟩
    · obtain ⟨k, l2, g2⟩ := ih g1.sound g1.shows hp1 hrun
      exact ⟨_, l2, g1.trans g2⟩

lemma Shows.serve_none (hs : l.Sound) (w : Shows h l) (h0 : l.arena.pages ≠ 0)
    (hrun : (do
        if let some list := quickClass? need then
          if let some block ← popQuick list need then return some block
        HeapM.takeGrowing need (← get).arena.room : HeapM (Option Nat)) h = .ok (none, h')) :
    ∃ k l', Grown h l k h' l' := by
  rcases hq : quickClass? need with _ | c <;> rw [hq] at hrun
  · exact w.takeGrowing_none hn hmod hs h0 hrun
  · obtain rfl := quickClass?_eq_some.mp hq
    dsimp only at hrun
    rcases hlist : l.quick c with _ | ⟨p, rest⟩
    · rw [bind_run (w.pop_none hlist)] at hrun
      exact w.takeGrowing_none hn hmod hs h0 hrun
    · obtain ⟨h1, hrun1, -⟩ := w.pop hs hlist
      rw [bind_run hrun1] at hrun
      cases hrun

/-- **A search for a block that finds none**, after the first page if that was missing. -/
lemma Shows.allocateBlock_none (hs : l.Sound) (w : Shows h l)
    (hrun : HeapM.allocateBlock need h = .ok (none, h')) : ∃ k l', Grown h l k h' l' := by
  unfold HeapM.allocateBlock at hrun
  rw [bind_run get_run] at hrun
  by_cases h0 : l.arena.pages = 0
  · obtain ⟨h1, hup, g1⟩ := w.started_or_refused hs h0
    obtain ⟨-, -, hp1⟩ := Ledger.sound_setUp hs h0
    rw [w.ready_eq_false h0] at hrun
    replace hrun := (bind_run hup).symm.trans hrun
    rcases hu : l.setUp with ⟨_ | _, l1⟩ <;> rw [hu] at hrun g1 hp1
    · cases hrun
      exact ⟨_, _, g1⟩
    · obtain ⟨k, l2, g2⟩ := g1.shows.serve_none hn hmod g1.sound (hp1 rfl) hrun
      exact ⟨_, l2, g1.trans g2⟩
  · rw [w.ready.mpr h0] at hrun
    exact w.serve_none hn hmod hs h0 hrun

end Search

end Grown

/-! ### Requests -/

section Requests

variable {α β : Type} {h h' : Heap} {size need n : Nat} {x : AllocError}

/-- A part of a request that does not fail. -/
def RequestM.Sure (m : RequestM α) : Prop := ∀ h x h', m.run h ≠ .ok (.error x, h')

lemma sure_pure (a : α) : RequestM.Sure (pure a) := fun _ _ _ e => by cases e

lemma sure_lift {m : HeapM α} {f : α → RequestM β} (hf : ∀ a, RequestM.Sure (f a)) :
    RequestM.Sure (liftM m >>= f) := fun _ _ _ e => by
  obtain ⟨a, h1, -, e⟩ := RequestM.of_lift_error e
  exact hf a _ _ _ e

/-- How a request to this heap may have failed: at once, or after a search for a block. -/
def Starved (h h' : Heap) : Prop :=
  h' = h ∨ ∃ need, minBlock ≤ need ∧ need % alignment = 0 ∧ allocateBlock need h = .ok (none, h')

/-- A request that fails where it gets a number has had none, or goes on with it. -/
lemma of_orOutOfMemory {a : Option Nat} {f : Nat → RequestM β}
    (e : (RequestM.orOutOfMemory size a >>= f).run h = .ok (.error x, h')) :
    a = none ∧ h' = h ∨ ∃ k, a = some k ∧ (f k).run h = .ok (.error x, h') := by
  cases a with
  | none =>
    rw [RequestM.bind_run_error orOutOfMemory_none] at e
    cases e
    exact .inl ⟨rfl, rfl⟩
  | some k =>
    rw [RequestM.bind_run (orOutOfMemory_some k)] at e
    exact .inr ⟨k, rfl, e⟩

/-- A request that fails where it gets a block has found none. -/
lemma starved_search {f : Nat → RequestM β} (hk : blockSize? size = some need)
    (hf : ∀ p, RequestM.Sure (f p))
    (e : (liftM (allocateBlock need) >>= fun a => RequestM.orOutOfMemory n a >>= f :
      RequestM β).run h = .ok (.error x, h')) : Starved h h' := by
  obtain ⟨hn, hmod, -⟩ := blockSize?_some hk
  obtain ⟨a, h1, hrun, e⟩ := RequestM.of_lift_error e
  rcases of_orOutOfMemory e with ⟨rfl, rfl⟩ | ⟨p, -, e⟩
  · exact .inr ⟨need, hn, hmod, hrun⟩
  · exact absurd e (hf p _ _ _)

lemma starved_allocate (e : (RequestM.allocate size).run h = .ok (.error x, h')) : Starved h h' := by
  unfold RequestM.allocate at e
  by_cases h0 : size = 0
  · rw [if_pos h0] at e
    cases e
  rw [if_neg h0] at e
  rcases of_orOutOfMemory e with ⟨-, rfl⟩ | ⟨need, hk, e⟩
  · exact .inl rfl
  · exact starved_search hk (fun p => sure_pure _) e

lemma starved_allocateZeroed (e : (RequestM.allocateZeroed size).run h = .ok (.error x, h')) :
    Starved h h' := by
  unfold RequestM.allocateZeroed at e
  rcases RequestM.of_bind_error e with e | ⟨_ | p, h1, -, e⟩
  · exact starved_allocate e
  · cases e
  · exact absurd e (sure_lift (fun _ => sure_pure _) _ _ _)

lemma starved_allocateAligned {align : Nat}
    (e : (RequestM.allocateAligned size align).run h = .ok (.error (.outOfMemory n), h')) :
    Starved h h' := by
  unfold RequestM.allocateAligned at e
  by_cases halign : ¬ align.isPowerOfTwo ∨ align < minBlock
  · rw [if_pos halign] at e
    cases e
  rw [if_neg halign] at e
  by_cases h0 : size = 0
  · rw [if_pos h0] at e
    cases e
  rw [if_neg h0] at e
  rcases of_orOutOfMemory e with ⟨-, rfl⟩ | ⟨need, -, e⟩
  · exact .inl rfl
  rcases of_orOutOfMemory e with ⟨-, rfl⟩ | ⟨padded, hpad, e⟩
  · exact .inl rfl
  refine starved_search (paddedSize?_eq ▸ hpad) (fun p => ?_) e
  have hplaced : ∀ q, RequestM.Sure (do
      liftM (place q need)
      liftM (HeapM.assume (q % align = 0))
      pure (some q)) := fun q => sure_lift fun _ => sure_lift fun _ => sure_pure _
  refine sure_lift fun q => sure_lift fun lead => ?_
  dsimp only
  split
  · exact hplaced p
  · exact sure_lift hplaced

lemma starved_moveTo {block current : Nat} (hk : blockSize? size = some need)
    (e : (RequestM.moveTo block current need size).run h = .ok (.error x, h')) : Starved h h' := by
  unfold RequestM.moveTo at e
  refine starved_search hk (fun p => ?_) e
  exact sure_lift fun _ => sure_lift fun _ => sure_lift fun _ => sure_pure _

lemma of_demandValid {p : Nat} {u : Unit} (e : HeapM.demandValid p h = .ok (u, h')) : h' = h := by
  unfold HeapM.demandValid at e
  obtain ⟨a | a, h1, hread, e⟩ := of_bind e
  · cases e
  · cases e
    exact of_reading hread

lemma starved_resize {p : Nat} (e : (RequestM.resize p size).run h = .ok (.error x, h')) :
    Starved h h' := by
  unfold RequestM.resize at e
  obtain ⟨_, h1, hvalid, e1⟩ := RequestM.of_lift_error e
  obtain rfl := of_demandValid hvalid
  by_cases h0 : size = 0
  · rw [if_pos h0] at e1
    exact absurd e1 (sure_lift (fun _ => sure_pure _) _ _ _)
  rw [if_neg h0] at e1
  rcases of_orOutOfMemory e1 with ⟨-, rfl⟩ | ⟨need, hk, e2⟩
  · exact .inl rfl
  obtain ⟨t, h2, hread, e3⟩ := RequestM.of_lift_error e2
  obtain rfl := of_reading hread
  dsimp only at e3
  by_cases hgrow : t.size < need
  · rw [if_pos hgrow] at e3
    rcases RequestM.of_bind_error e3 with e4 | ⟨q, h3, -, e4⟩
    · exact starved_moveTo hk e4
    · cases e4
  rw [if_neg hgrow] at e3
  split at e3
  · exact absurd e3 (sure_lift (fun _ => sure_pure _) _ _ _)
  · cases e3

/-- A request that fails for want of memory has found no block, if it has looked for one. -/
lemma starved_serve {r : Request} (e : r.serve h = .ok (.error (.outOfMemory n), h')) :
    Starved h h' := by
  cases r with
  | allocate size => exact starved_allocate e
  | allocateZeroed size => exact starved_allocateZeroed e
  | allocateAligned size align => exact starved_allocateAligned e
  | resize p size => exact starved_resize e
  | release p =>
    obtain ⟨_, h1, -, e⟩ := of_bind e
    cases e
  | write a byte => cases e

/-- **A request that fails for want of memory** leaves the heap as it was, but for the pages that were
granted. -/
lemma Shows.outOfMemory {l : Ledger} {r : Request} (hs : l.Sound) (w : Shows h l)
    (e : r.serve h = .ok (.error (.outOfMemory n), h')) : ∃ k l', Grown h l k h' l' := by
  rcases starved_serve e with rfl | ⟨need, hn, hmod, hrun⟩
  · exact ⟨0, l, .refl hs w⟩
  · exact w.allocateBlock_none hn hmod hs hrun

end Requests

end BoundaryTag
