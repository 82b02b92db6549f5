import BoundaryTag.Proofs.Heap.Reading
import BoundaryTag.Proofs.Ledger.Undoing

/-!
Heaps that come back to what they showed.

Two heaps that show one ledger under one key have the same heads and quick slots, and the same bytes where
they keep account of their blocks. To release a block that has its place, and to give out one that is there,
writes nowhere else but in the block. So a heap that is brought back to its ledger in this way is the heap
that it was, but for the bytes of the block.
-/

namespace BoundaryTag

open Heap HeapM Piece

/-! ### What a ledger determines -/

lemma Link.ofWord_inj {u v : UInt64} (h : ofWord u = ofWord v) : u = v := by
  have haddr : ∀ w : UInt64, (ofWord w).addr = w.toNat := fun w => by
    unfold ofWord
    split <;> rfl
  exact UInt64.toNat_inj.mp ((haddr u).symm.trans ((congrArg addr h).trans (haddr v)))

/-- Links along one list are the same. -/
lemma Linked.unique {α : Type} {n n' p p' : α → α} {x y : α} {as : List α} (h : Linked n p x as y)
    (h' : Linked n' p' x as y) : (∀ z ∈ x :: as, n' z = n z) ∧ ∀ z ∈ as ++ [y], p' z = p z := by
  induction as generalizing x with
  | nil => simp [h.1, h.2, h'.1, h'.2]
  | cons a as ih =>
    obtain ⟨⟨h1, h2⟩, h3⟩ := h
    obtain ⟨⟨h1', h2'⟩, h3'⟩ := h'
    obtain ⟨hn, hp⟩ := ih h3 h3'
    exact ⟨List.forall_mem_cons.mpr ⟨h1'.trans h1.symm, hn⟩, List.forall_mem_cons.mpr ⟨h2'.trans h2.symm, hp⟩⟩

section Unique

variable {h h' : Heap} {main : MainLists} {ps : List Piece} {f : Bool} {b : Piece} {x : Nat}

/-- The links of listed blocks, and the heads. -/
lemma Ringed.unique (r : Ringed h main) (r' : Ringed h' main) :
    h'.heads = h.heads ∧ ∀ c, ∀ p ∈ main c,
      h'.memory.word p = h.memory.word p ∧ h'.memory.word (p + wordSize) = h.memory.word (p + wordSize) := by
  have hlinks : ∀ c, ∀ u ∈ nodes main c, h'.nextLink u = h.nextLink u ∧ h'.prevLink u = h.prevLink u :=
    fun c u hu => by
      obtain ⟨hn, hp⟩ := (r.ring c).unique (r'.ring c)
      exact ⟨hn u hu, hp u (Ringed.mem_turn.mpr hu)⟩
  refine ⟨Vector.ext fun i hi => ?_, fun c p hp => ?_⟩
  · obtain ⟨hn, hp⟩ := hlinks ⟨i, hi⟩ (.head ⟨i, hi⟩) List.mem_cons_self
    show h'.heads.get ⟨i, hi⟩ = h.heads.get ⟨i, hi⟩
    exact congrArg₂ Links.mk hn hp
  · obtain ⟨hn, hp⟩ := hlinks c (.block p) (Ringed.mem_nodes.mpr (.inr ⟨p, hp, rfl⟩))
    exact ⟨Link.ofWord_inj hn, Link.ofWord_inj hp⟩

/-- The words of tags. -/
lemma Tagged.unique (ht : Tagged h f ps) (ht' : Tagged h' f ps) (hkey : h'.key = h.key) (hb : b ∈ ps) :
    h'.memory.word (b.payload - wordSize) = h.memory.word (b.payload - wordSize) ∧
      (b.isFree → h'.memory.word (b.stop - 2 * wordSize) = h.memory.word (b.stop - 2 * wordSize)) := by
  induction ps generalizing f with
  | nil => exact absurd hb List.not_mem_nil
  | cons c rest ih =>
    obtain ⟨h1, h2, h3⟩ := ht
    obtain ⟨h1', h2', h3'⟩ := ht'
    rcases List.mem_cons.mp hb with rfl | hb
    · have hinj : ∀ {u v : UInt64}, Tag.decode u h'.key = Tag.decode v h.key → u = v := fun e =>
        Tag.decode_inj.mp (hkey ▸ e)
      exact ⟨hinj (h1'.trans h1.symm), fun hfree => hinj ((h2' hfree).trans (h2 hfree).symm)⟩
    · exact ih h3 h3' hb

/-- The slot of a quick list, which depends on that list only. -/
lemma Shelves.slot_unique {quick quick' : Fin quickLists → List Nat} {c : Fin quickLists} (s : Shelves h quick)
    (s' : Shelves h' quick') (hc : quick' c = quick c) : h'.quick.get c = h.quick.get c := by
  have hlen := (s'.len c).trans ((congrArg List.length hc).trans (s.len c).symm)
  have hfirst : (h'.quick.get c).first = (h.quick.get c).first := by
    have h1 := s.chain c
    have h2 := s'.chain c
    rw [hc] at h2
    rcases hq : quick c with _ | ⟨p, rest⟩ <;> rw [hq] at h1 h2
    · exact h2.trans h1.symm
    · exact h2.1.trans h1.1.symm
  exact congrArg₂ QuickSlot.mk hlen hfirst

lemma Shelves.unique {quick : Fin quickLists → List Nat} (s : Shelves h quick) (s' : Shelves h' quick) :
    h'.quick = h.quick :=
  Vector.ext fun i hi => s.slot_unique (c := ⟨i, hi⟩) s' rfl

end Unique

section Ledgers

variable {h h' : Heap} {l : Ledger} {b : Piece} {need x : Nat}

/-- The bytes in which the heap keeps account of its blocks. -/
lemma Shows.booked_unique (hs : l.Sound) (w : Shows h l) (w' : Shows h' l) (hkey : h'.key = h.key)
    (hx : Booked l.pieces x) : h'.memory.byte x = h.memory.byte x := by
  obtain ⟨b, hb, hx⟩ := hx
  have m := w.mirrors (hs.pages_ne hb)
  have m' := w'.mirrors (hs.pages_ne hb)
  obtain ⟨hheader, hfooter⟩ := m.rests.tagged_post.unique m'.rests.tagged_post hkey hb
  have hstart := (m.rests.bounds hb).1
  rcases hx with ⟨h1, h2 | ⟨hfree, h2, h3⟩⟩ | ⟨hfree, h1, h2⟩
  · exact Memory.byte_of_word hheader (by omega) (by unfold alignment wordSize at *; omega)
  · refine Memory.byte_of_word (hfooter hfree) (by omega) ?_
    unfold wordSize at *
    omega
  · -- a free block is on the list of its class
    have hin : b.payload ∈ l.main (mainClass b.size) :=
      (hs.filed.mem _ _).mpr ⟨b, hb, rfl, by simpa [isFree] using hfree, rfl⟩
    obtain ⟨hnext, hprev⟩ := (w.ringed.unique w'.ringed).2 _ _ hin
    by_cases hlow : x < b.payload + wordSize
    · exact Memory.byte_of_word hnext h1 hlow
    · refine Memory.byte_of_word hprev (by omega) ?_
      unfold alignment wordSize at *
      omega

/-- The tracked last block, which depends on the sequence of blocks only. -/
lemma Shows.last_unique {l' : Ledger} (hs : l.Sound) (w : Shows h l) (hs' : l'.Sound) (w' : Shows h' l')
    (hb : b ∈ l.pieces) (hp : l'.pieces = l.pieces) : h'.last = h.last := by
  obtain ⟨d, hd⟩ : ∃ d, l.pieces.getLast? = some d :=
    ⟨_, List.getLast?_eq_some_getLast (List.ne_nil_of_mem hb)⟩
  have m := w.mirrors (hs.pages_ne hb)
  have m' := w'.mirrors (hs'.pages_ne (hp ▸ hb))
  exact (m'.last d (hp ▸ hd)).trans (m.last d hd).symm

/-! ### Releasing -/

/-- Where the heap keeps account of its blocks after one was released: where it did before, or in that
block. -/
lemma booked_release (hs : l.Sound) (hb : b ∈ l.live)
    (hroom : ∀ c, quickClass? b.size = some c → (l.quick c).length < quickDepth)
    (hx : Booked (l.release b.payload).pieces x) : Booked l.pieces x ∨ b.usable x := by
  have ht := hs.tiled hb.1
  have hbs := ht.bounds hb.1
  obtain ⟨before, after, hp⟩ := List.append_of_mem hb.1
  rw [Ledger.release_eq hs hb] at hx
  rw [hp]
  rcases hq : quickClass? b.size with _ | c <;> rw [hq] at hx <;> dsimp only at hx
  · rw [Ledger.free_eq ht hp] at hx
    obtain ⟨y, left, right, z, har, hj⟩ := Ledger.join_eq l before b after
    obtain ⟨rfl, rfl⟩ : before = y ++ left ∧ after = right ++ z := ⟨har.before_eq, har.after_eq⟩
    rw [hj] at hx
    exact booked_marked hbs.2.2.1 (booked_merge (b := { b with use := .free }) rfl har.left_free
      har.right_free (tiles_remark (hp ▸ ht)) hx)
  · -- a block on a quick list has its header only, as one that is a client's
    rw [if_neg (hroom c hq).ne, Ledger.push, Ledger.mark_eq ht hp] at hx
    obtain ⟨d, hd, hx⟩ := hx
    simp only [List.append_assoc, List.singleton_append, List.mem_append, List.mem_cons] at hd
    rcases hd with hd | rfl | hd
    · exact .inl ⟨d, by simp [hd], hx⟩
    · refine .inl ⟨b, by simp, ?_⟩
      simpa [booked, tagBytes, isFree, hb.2] using hx
    · exact .inl ⟨d, by simp [hd], hx⟩

/-! ### Taking -/

/-- A block that is found is given out, whatever room for pages there is. -/
lemma takeGrowing_of_takeFit {p : Nat} (room : Nat) (hrun : HeapM.takeFit need h = .ok (some p, h')) :
    HeapM.takeGrowing need room h = .ok (some p, h') := by
  cases room <;> exact (bind_run hrun).trans rfl

/-- A block that is there, on the quick list of its size or on the main lists, is given out without a write
off the places where the heap keeps account of its blocks. -/
lemma Shows.allocateOne (hs : l.Sound) (w : Shows h l) (h0 : l.arena.pages ≠ 0) (hn : minBlock ≤ need)
    (hmod : need % alignment = 0) (hthere : l.quickFor need ≠ [] ∨ ∃ p, l.fit? need = some p) :
    ∃ h', HeapM.allocateBlock need h = .ok ((l.obtainBlock need).1, h') ∧ Shows h' (l.obtainBlock need).2 ∧
      SameSetting h h' ∧ SameOff (fun x => Booked l.pieces x ∨ Booked (l.obtainBlock need).2.pieces x) h h' := by
  have hready : h.ready = true := w.ready.mpr h0
  unfold HeapM.allocateBlock Ledger.obtainBlock
  rw [bind_run get_run, if_neg h0, hready]
  rcases hq : l.quickFor need with _ | ⟨p, rest⟩
  · obtain ⟨p, hf⟩ := hthere.resolve_left (not_not.mpr hq)
    obtain ⟨h1, hrun1, w1, -, hw⟩ := w.takeFit hs hn hmod hf
    have hgrowing := takeGrowing_of_takeFit h.arena.room hrun1
    rw [Ledger.serve_of_quick_nil hq, Ledger.serveGrowing_some hf]
    refine ⟨h1, ?_, w1, hw.setting, hw.off⟩
    unfold Ledger.quickFor at hq
    rcases hc : quickClass? need with _ | c <;> rw [hc] at hq
    · exact hgrowing
    · exact (bind_run (w.pop_none hq)).trans hgrowing
  · obtain ⟨c, rfl, hlist, hserve⟩ := Ledger.serve_quick hq
    obtain ⟨h1, hrun1, w1, hset, hmem⟩ := w.pop hs hlist
    rw [hserve, quickClass?_quickSize]
    exact ⟨h1, (bind_run hrun1).trans rfl, w1, hset, fun x _ => by rw [hmem]⟩

end Ledgers

end BoundaryTag
