import BoundaryTag.Proofs.Contents
import BoundaryTag.Proofs.Heap.Inspecting
import BoundaryTag.Proofs.Heap.Verifying
import BoundaryTag.Proofs.Ledger.Alike
import BoundaryTag.Proofs.Validity

/-!
What a heap does not depend on.

The key of an arena, the bytes that its memory held before and the bytes that clients store have no part in
what a heap answers. Two sessions over arenas that grant the same pages, in which clients make the same
requests but for their stores, cannot be told apart by their answers, their walks, their lists or their
checks. If the stores are the same too, clients read back the same bytes.
-/

namespace BoundaryTag

open Heap Piece

/-- Whether a request is one to the heap, and not a store of a client. -/
def Request.isOperation : Request → Bool
  | .write _ _ => false
  | _ => true

/-- The requests to the heap, each with its answer. -/
def operations (rs : List Request) (as : List Answer) : List (Request × Answer) :=
  (rs.zip as).filter fun x => x.1.isOperation

lemma operations_cons (r : Request) (rs : List Request) (a : Answer) (as : List Answer) :
    operations (r :: rs) (a :: as) =
      if r.isOperation then (r, a) :: operations rs as else operations rs as := by
  rw [operations, List.zip_cons_cons, List.filter_cons]
  rfl

/-! ### Arenas and ledgers -/

namespace Arena

lemma after_key (a : Arena) (key : UInt64) (n : Nat) :
    ({ a with key } : Arena).after n = { a.after n with key } := by
  have hgrow : ∀ a : Arena, ({ a with key } : Arena).grow.2 = { a.grow.2 with key } := by
    intro a
    have hrefuses : ({ a with key } : Arena).refuses = a.refuses := rfl
    unfold grow
    rw [hrefuses]
    dsimp only
    split <;> rfl
  induction n generalizing a with
  | zero => rfl
  | succ n ih => rw [after, after, hgrow, ih]

/-- Arenas that differ in their keys only are alike. -/
lemma alike_key (a : Arena) (key : UInt64) : a.Alike { a with key } := by
  refine ⟨rfl, fun n => ?_⟩
  rw [after_key]
  have hrefuses : ({ a.after n with key } : Arena).refuses = (a.after n).refuses := rfl
  unfold grow
  rw [hrefuses]
  dsimp only
  split <;> rfl

end Arena

namespace Ledger

variable {l m : Ledger}

/-- A ledger does not see what clients store. -/
lemma run_operations (l : Ledger) (rs : List Request) :
    operations rs (l.run rs).1 =
        (rs.filter Request.isOperation).zip (l.run (rs.filter Request.isOperation)).1 ∧
      (l.run rs).2 = (l.run (rs.filter Request.isOperation)).2 := by
  induction rs generalizing l with
  | nil => exact ⟨rfl, rfl⟩
  | cons r rs ih =>
    by_cases hop : r.isOperation = true
    · obtain ⟨h1, h2⟩ := ih (l.answer r).2
      rw [List.filter_cons_of_pos hop]
      refine ⟨?_, h2⟩
      calc operations (r :: rs) ((l.answer r).1 :: ((l.answer r).2.run rs).1)
          = (r, (l.answer r).1) :: operations rs ((l.answer r).2.run rs).1 := by
            rw [operations_cons, if_pos hop]
        _ = (r, (l.answer r).1) :: (rs.filter Request.isOperation).zip
              ((l.answer r).2.run (rs.filter Request.isOperation)).1 := by rw [h1]
    · obtain ⟨addr, byte, rfl⟩ : ∃ addr byte, r = .write addr byte := by
        cases r with
        | write addr byte => exact ⟨addr, byte, rfl⟩
        | _ => exact absurd rfl hop
      exact ih l

lemma Alike.run (w : l.Alike m) (rs : List Request) : Agree (l.run rs) (m.run rs) := by
  induction rs generalizing l m with
  | nil => exact ⟨rfl, w⟩
  | cons r rs ih =>
    obtain ⟨hans, hnext⟩ := w.answer r
    obtain ⟨hrest, hend⟩ := ih hnext
    exact ⟨congrArg₂ List.cons hans hrest, hend⟩

end Ledger

/-! ### Sessions -/

namespace Session

/-- Sessions that cannot be told apart, but for the bytes of their clients: what their heaps say of
themselves, and of the blocks that are held, is the same. -/
structure LooksLike (s s' : Session) : Prop where
  holds : ∀ p, s'.holds p ↔ s.holds p
  allows : ∀ r, s'.Allows r ↔ s.Allows r
  pages : s'.heap.pages = s.heap.pages
  blocks : s'.heap.blocks = s.heap.blocks
  verify : s'.heap.verify.run = s.heap.verify.run
  freeListLen : ∀ n, s'.heap.freeListLen n = s.heap.freeListLen n
  quickListLen : ∀ n, s'.heap.quickListLen n = s.heap.quickListLen n
  check : ∀ p, s.holds p → (s'.heap.check p).run = (s.heap.check p).run
  usableSize : ∀ p, s.holds p → (s'.heap.usableSize p).run = (s.heap.usableSize p).run

variable {s s' t t' : Session} {l m : Ledger} {r : Request} {rs : List Request} {as : List Answer}
  {c : Contents} {p : Nat}

lemma Has.holds_alike (k : s.Has l) (k' : s'.Has m) (w : l.Alike m) : s'.holds p ↔ s.holds p := by
  obtain ⟨b, -, rfl⟩ := w
  exact (k'.holds_iff p).trans (k.holds_iff p).symm

lemma Has.usable_alike (k : s.Has l) (k' : s'.Has m) (w : l.Alike m) (hp : s.holds p) :
    s'.usable p = s.usable p := by
  obtain ⟨b, -, rfl⟩ := w
  obtain ⟨n, hn, husable, -⟩ := k.block hp
  exact (k'.usable_eq (b := ⟨p, n, .live⟩) hn).trans husable.symm

lemma Has.allows_alike (k : s.Has l) (k' : s'.Has m) (w : l.Alike m) : s'.Allows r ↔ s.Allows r := by
  have howns : ∀ x, s'.Owns x ↔ s.Owns x := by
    intro x
    constructor
    · rintro ⟨b, hb, h1, h2⟩
      obtain ⟨d, hd, hdb⟩ := (k.holds_alike k' w).mp ⟨b, hb, rfl⟩
      rw [k.usable_alike k' w ⟨d, hd, hdb⟩] at h2
      exact ⟨d, hd, hdb ▸ h1, hdb ▸ h2⟩
    · rintro ⟨b, hb, h1, h2⟩
      obtain ⟨d, hd, hdb⟩ := (k.holds_alike k' w).mpr ⟨b, hb, rfl⟩
      rw [← k.usable_alike k' w ⟨b, hb, rfl⟩] at h2
      exact ⟨d, hd, hdb ▸ h1, hdb ▸ h2⟩
  cases r with
  | allocate | allocateZeroed | allocateAligned => exact Iff.rfl
  | release | resize => exact k.holds_alike k' w
  | write addr byte => exact howns addr

/-- **Sessions with ledgers that are alike** cannot be told apart. -/
lemma Has.looksLike (k : s.Has l) (k' : s'.Has m) (w : l.Alike m) : s.LooksLike s' := by
  have hholds : ∀ p, s'.holds p ↔ s.holds p := fun p => k.holds_alike k' w
  have hallows : ∀ r, s'.Allows r ↔ s.Allows r := fun r => k.allows_alike k' w
  have hpages : s'.heap.pages = s.heap.pages := by
    rw [Heap.pages, Heap.pages, k'.shows.arena, k.shows.arena, w.pages]
  obtain ⟨b, -, rfl⟩ := w
  refine ⟨hholds, hallows, hpages, ?_, ?_, fun n => ?_, fun n => ?_, fun p hp => ?_, fun p hp => ?_⟩
  · exact (k'.shows.blocks k'.sound).trans (k.shows.blocks k.sound).symm
  · exact (k'.shows.verify k'.sound).trans (k.shows.verify k.sound).symm
  · by_cases hn : n < mainLists
    · exact (k'.shows.freeListLen k'.sound ⟨n, hn⟩).trans (k.shows.freeListLen k.sound ⟨n, hn⟩).symm
    · rw [Heap.freeListLen, Heap.freeListLen, dif_neg hn, dif_neg hn]
  · by_cases hn : n < quickLists
    · exact (k'.shows.quickListLen ⟨n, hn⟩).trans (k.shows.quickListLen ⟨n, hn⟩).symm
    · have hnone : ∀ h : Heap, h.quick[n]? = none := fun h => Vector.getElem?_eq_none (Nat.not_lt.mp hn)
      rw [Heap.quickListLen, Heap.quickListLen, hnone, hnone]
  · obtain ⟨n, hn, -⟩ := k.block hp
    exact (k'.shows.check k'.sound (b := ⟨p, n, .live⟩) hn).trans (k.shows.check k.sound hn).symm
  · obtain ⟨n, hn, -⟩ := k.block hp
    exact (k'.shows.usableSize k'.sound (b := ⟨p, n, .live⟩) hn).trans
      (k.shows.usableSize k.sound hn).symm

/-- The contents after a request are a matter of sizes. -/
lemma contentsAfter_congr {a : Answer} (hs : ∀ p, r.returns = some p → s'.usable p = s.usable p)
    (ht : ∀ p n, r = .resize p n → a = .ok (some p) → t'.usable p = t.usable p) :
    contentsAfter s' t' c r a = contentsAfter s t c r a := by
  cases r with
  | allocate | allocateAligned => rfl
  | allocateZeroed | write => rcases a with _ | _ | q <;> rfl
  | release p => rcases a with _ | _ | q <;> simp only [contentsAfter, hs p rfl]
  | resize p n =>
    rcases a with _ | _ | q
    · rfl
    · simp only [contentsAfter, hs p rfl]
    · by_cases hq : q = p
      · subst hq
        simp only [contentsAfter, if_pos, hs q rfl, ht q n rfl rfl]
      · simp only [contentsAfter, if_neg hq, hs p rfl]

/-- **With the same stores the contents are the same.** -/
lemma Has.contents_alike {as' : List Answer} (k : s.Has l) (k' : s'.Has m) (w : l.Alike m)
    (hrun : s.Run rs as t) (hrun' : s'.Run rs as' t') : s'.contents c rs = s.contents c rs := by
  induction hrun generalizing l m s' as' c with
  | nil s => rfl
  | @cons s s1 t r rs a as hr e _ ih =>
    cases hrun' with
    | @cons _ s1' _ _ _ a' _ hr' e' hrest' =>
      obtain ⟨hans, k1, -⟩ := k.of_step hr e
      obtain ⟨hans', k1', -⟩ := k'.of_step hr' e'
      obtain ⟨hagree, w1⟩ := w.answer r
      obtain rfl : a' = a := by rw [hans', hans, hagree]
      have hafter : contentsAfter s' s1' c r a' = contentsAfter s s1 c r a' := by
        refine contentsAfter_congr (fun p hret => ?_) fun p n hres hp => ?_
        · refine k.usable_alike k' w ?_
          cases r with
          | release q | resize q => exact Option.some.inj hret ▸ hr
          | _ => cases hret
        · subst hres hp
          obtain ⟨hheld, -⟩ := k.delivered hr e
          exact k1.usable_alike k1' w1 ⟨_, hheld ▸ List.mem_cons_self, rfl⟩
      rw [contents, contents, e, e']
      dsimp only
      rw [hafter]
      exact ih k1 k1' w1 hrest'

/-- No byte is stored yet. -/
lemma remembers_nothing : s.Remembers fun _ => none := fun _ _ hx => by cases hx

end Session

open Session in
/-- **Neither keys nor bytes matter.** Two runs on new heaps, over arenas that grant the same pages and
memories that may hold anything, with the same requests but for what clients store: all requests have the
same answers, and the sessions cannot be told apart in the end, nor after any request, since a run may
stop there. Neither do they part with a next request, which both sessions answer. If clients store the same
bytes, what they have stored and not given up is the same, and read back in both. -/
theorem independent_of_keys_and_bytes {arena arena' : Arena} {memory memory' : Memory}
    {strict strict' : Bool} {rs rs' : List Request} {as as' : List Answer} {s s' : Session}
    (hconf : arena.Conforms memory) (hconf' : arena'.Conforms memory') (halike : arena.Alike arena')
    (hrun : (start arena memory strict).Run rs as s)
    (hrun' : (start arena' memory' strict').Run rs' as' s')
    (hops : rs.filter Request.isOperation = rs'.filter Request.isOperation) :
    operations rs as = operations rs' as' ∧ s.LooksLike s' ∧
    (∀ r, s.Allows r →
      ∃ a t t', s.step r = .ok (a, t) ∧ s'.step r = .ok (a, t') ∧ t.LooksLike t') ∧
    (rs = rs' →
      let c := (start arena memory strict).contents (fun _ => none) rs
      c = (start arena' memory' strict').contents (fun _ => none) rs' ∧
        ∀ x v, c x = some v → s.heap.memory.byte x = v ∧ s'.heap.memory.byte x = v) := by
  have k := has_start hconf strict
  have k' := has_start hconf' strict'
  have w : (Ledger.new arena).Alike (Ledger.new arena') := ⟨arena', halike, rfl⟩
  obtain ⟨has, kend⟩ := k.run hrun
  obtain ⟨has', kend'⟩ := k'.run hrun'
  obtain ⟨hop, hl⟩ := (Ledger.new arena).run_operations rs
  obtain ⟨hop', hm⟩ := (Ledger.new arena').run_operations rs'
  rw [← hops] at hop' hm
  obtain ⟨hagree, wend⟩ := w.run (rs.filter Request.isOperation)
  rw [← hl, ← hm] at wend
  refine ⟨?_, kend.looksLike kend' wend, fun r hr => ?_, ?_⟩
  · rw [has, has', hop, hop', hagree]
  · obtain ⟨t, e, kt, -⟩ := kend.step hr
    obtain ⟨t', e', kt', -⟩ := kend'.step ((kend.allows_alike kend' wend).mpr hr)
    obtain ⟨hans, wt⟩ := wend.answer r
    rw [hans] at e'
    exact ⟨_, t, t', e, e', kt.looksLike kt' wt⟩
  · rintro rfl
    have hcontents := k.contents_alike k' w hrun hrun' (c := fun _ => none)
    refine ⟨hcontents.symm, fun x v hx => ⟨?_, ?_⟩⟩
    · exact (k.remembers_run hrun remembers_nothing x v hx).2
    · refine (k'.remembers_run hrun' remembers_nothing x v ?_).2
      rw [hcontents]
      exact hx

/-- Here the keys differ, the other memory is not all zeros, and clients store other bytes at other times.
A byte that they store alike is moved with its block. -/
theorem independent_of_keys_and_bytes_after_move :
    ∃ s s' t : Session, s.LooksLike s' ∧ s.heap.key ≠ s'.heap.key ∧
      s.heap.memory.byte 4656 = 7 ∧ t.heap.memory.byte 4656 = 7 ∧ s'.heap.memory.byte 4656 = 1 := by
  let arena := Arena.ofBuffer 4096 8192 0x5bd1e995
  let arena' := { arena with key := 3 }
  let memory := Memory.zeroed 4096 8192
  let memory' := (Memory.zeroed 4096 8192).setByte 4200 255
  let rs : List Request := [.allocate 24, .allocate 500, .write 4112 7, .resize 4112 600]
  let rs' : List Request :=
    [.allocate 24, .write 4113 9, .allocate 500, .write 4112 1, .resize 4112 600]
  have hconf' : arena'.Conforms memory' :=
    Arena.Fresh.conforms ⟨by decide, by decide, by decide, by decide, by decide⟩
  have hend : (((Session.start arena memory true).serveAll rs).map (·.2.heap.key),
      ((Session.start arena' memory' false).serveAll rs').map
        fun x => (x.2.heap.key, x.2.heap.memory.byte 4656),
      ((Session.start arena' memory' false).serveAll rs).isSome,
      (Session.start arena memory true).contents (fun _ => none) rs 4656) =
        (some 0x5bd1e995, some (3, 1), true, some 7) := by
    decide +kernel
  simp only [Prod.mk.injEq] at hend
  obtain ⟨h1, h2, h3, hc⟩ := hend
  obtain ⟨⟨as, s⟩, hs, hkey⟩ := Option.map_eq_some_iff.mp h1
  obtain ⟨⟨as', s'⟩, hs', hend'⟩ := Option.map_eq_some_iff.mp h2
  obtain ⟨⟨bs, t⟩, ht⟩ := Option.isSome_iff_exists.mp h3
  obtain ⟨hkey', hbyte'⟩ := Prod.mk.inj hend'
  have halike : arena.Alike arena' := arena.alike_key 3
  obtain ⟨-, hlooks, -⟩ := independent_of_keys_and_bytes Session.sample_fresh.conforms hconf' halike
    (.of_serveAll hs) (.of_serveAll hs') (by rfl)
  obtain ⟨-, -, -, hbytes⟩ := independent_of_keys_and_bytes Session.sample_fresh.conforms hconf' halike
    (.of_serveAll hs) (.of_serveAll ht) rfl
  obtain ⟨hb, hb'⟩ := (hbytes rfl).2 4656 7 hc
  have hne : s.heap.key ≠ s'.heap.key := by
    rw [show s.heap.key = 0x5bd1e995 from hkey, show s'.heap.key = 3 from hkey']
    decide
  exact ⟨s, s', t, hlooks, hne, hb, hb', hbyte'⟩

end BoundaryTag
