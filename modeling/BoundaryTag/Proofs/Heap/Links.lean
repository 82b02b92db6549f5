import BoundaryTag.Proofs.Access
import BoundaryTag.Proofs.Ledger.Sound

/-!
The rings of the main lists.

The links of a list lead from its head along its blocks and back to the head, forwards and backwards. A
block taken out, or put in front, changes two links in each direction. Blocks and heads have their links
at different places, so no other ring is touched.
-/

namespace BoundaryTag

/-! ### Linked stretches -/

section Linked

variable {α : Type} {n n' p p' : α → α} {x y b : α} {as bs : List α}

/-- From `x` along the list to `y`, each leads to the next one and is led back to by it. -/
def Linked (n p : α → α) (x : α) : List α → α → Prop
  | [], y => n x = y ∧ p y = x
  | z :: rest, y => (n x = z ∧ p z = x) ∧ Linked n p z rest y

lemma linked_append :
    Linked n p x (as ++ b :: bs) y ↔ Linked n p x as b ∧ Linked n p b bs y := by
  induction as generalizing x with
  | nil => rfl
  | cons a as ih => simp only [List.cons_append, Linked, ih, and_assoc]

lemma Linked.congr (h : Linked n p x as y) (hn : ∀ z ∈ x :: as, n' z = n z)
    (hp : ∀ z ∈ as ++ [y], p' z = p z) : Linked n' p' x as y := by
  induction as generalizing x with
  | nil =>
    obtain ⟨h1, h2⟩ := h
    exact ⟨(hn x List.mem_cons_self).trans h1, (hp y List.mem_cons_self).trans h2⟩
  | cons a as ih =>
    obtain ⟨⟨h1, h2⟩, h3⟩ := h
    refine ⟨⟨(hn x List.mem_cons_self).trans h1, (hp a List.mem_cons_self).trans h2⟩, ?_⟩
    exact ih h3 (fun z hz => hn z (List.mem_cons_of_mem _ hz))
      (fun z hz => hp z (List.mem_cons_of_mem _ hz))

/-- Where the first link leads. -/
lemma Linked.next_mem (h : Linked n p x as y) : n x ∈ as ++ [y] := by
  cases as with
  | nil => simp [h.1]
  | cons a as => simp [h.1.1]

/-- Where the last link leads back to. -/
lemma Linked.prev_mem (h : Linked n p x as y) : p y ∈ x :: as := by
  induction as generalizing x with
  | nil => simp [h.2]
  | cons a as ih => exact List.mem_cons_of_mem _ (ih h.2)

/-- The first link of a stretch moved to another place. -/
lemma Linked.restart (h : Linked n p b bs y) (hx : n' x = n b) (hb : p' (n b) = x)
    (hn : ∀ z ∈ bs, n' z = n z) (hp : ∀ z ∈ bs ++ [y], z ≠ n b → p' z = p z)
    (hnd : (bs ++ [y]).Nodup) : Linked n' p' x bs y := by
  cases bs with
  | nil =>
    obtain ⟨rfl, -⟩ := h
    exact ⟨hx, hb⟩
  | cons c bs =>
    obtain ⟨⟨rfl, -⟩, h3⟩ := h
    refine ⟨⟨hx, hb⟩, h3.congr hn fun z hz => ?_⟩
    refine hp z (List.mem_cons_of_mem _ hz) ?_
    rintro rfl
    exact (List.nodup_cons.mp hnd).1 hz

/-- **A node taken out**: the nodes before and after it are linked to each other. -/
lemma Linked.remove (h : Linked n p x (as ++ b :: bs) y)
    (hxs : (x :: as ++ b :: bs).Nodup) (hys : (as ++ b :: bs ++ [y]).Nodup)
    (hn : n' (p b) = n b) (hp : p' (n b) = p b)
    (hn' : ∀ z ∈ x :: as ++ bs, z ≠ p b → n' z = n z)
    (hp' : ∀ z ∈ as ++ bs ++ [y], z ≠ n b → p' z = p z) : Linked n' p' x (as ++ bs) y := by
  obtain ⟨h1, h2⟩ := linked_append.mp h
  induction as generalizing x with
  | nil =>
    obtain ⟨-, hback⟩ := h1
    rw [hback] at hn hp hn'
    refine h2.restart hn hp (fun z hz => hn' z (List.mem_cons_of_mem _ hz) ?_) hp'
      (List.nodup_cons.mp hys).2
    rintro rfl
    exact (List.nodup_cons.mp hxs).1 (List.mem_cons_of_mem _ hz)
  | cons a as ih =>
    have hmem := h1.2.prev_mem
    obtain ⟨⟨hxa, hax⟩, h3⟩ := h
    have hxb : x ≠ p b := by
      rintro rfl
      exact (List.nodup_cons.mp hxs).1 (List.mem_append_left _ hmem)
    have hab : a ≠ n b := by
      rintro rfl
      have hin : n b ∈ as ++ b :: (bs ++ [y]) :=
        List.mem_append_right _ (List.mem_cons_of_mem _ h2.next_mem)
      exact (List.nodup_cons.mp hys).1 (by simpa using hin)
    refine ⟨⟨?_, ?_⟩, ?_⟩
    · rw [hn' x (by simp) hxb, hxa]
    · rw [hp' a (by simp) hab, hax]
    · exact ih h3 (List.nodup_cons.mp hxs).2 (List.nodup_cons.mp hys).2
        (fun z hz => hn' z (List.mem_cons_of_mem _ hz))
        (fun z hz => hp' z (List.mem_cons_of_mem _ hz)) h1.2

/-- **A node put in front** of a ring. -/
lemma Linked.cons (h : Linked n p x as x) (hnd : (x :: as).Nodup)
    (hn : n' b = n x) (hx : n' x = b) (hpb : p' b = x) (hpn : p' (n x) = b)
    (hn' : ∀ z ∈ as, n' z = n z) (hp' : ∀ z ∈ as ++ [x], z ≠ n x → p' z = p z) :
    Linked n' p' x (b :: as) x := by
  refine ⟨⟨hx, hpb⟩, h.restart hn hpn hn' hp' ?_⟩
  exact (List.perm_append_singleton x as).symm.nodup hnd

end Linked

/-! ### Links in the heap -/

/-- The bytes that hold the links of a block. -/
def Link.area : Link → Nat → Prop
  | head _, _ => False
  | block a, x => a ≤ x ∧ x < a + alignment

namespace Heap

def nextLink (h : Heap) : Link → Link
  | .head c => (h.heads.get c).next
  | .block a => .ofWord (h.memory.word a)

def prevLink (h : Heap) : Link → Link
  | .head c => (h.heads.get c).prev
  | .block a => .ofWord (h.memory.word (a + wordSize))

/-- A head, or an address in the region where a block may have its links. -/
def Seat (h : Heap) : Link → Prop
  | .head _ => True
  | .block a => a % alignment = 0 ∧ h.arena.start + alignment ≤ a ∧ a + alignment ≤ h.arena.stop

def withNext (h : Heap) : Link → Link → Heap
  | .head c, v => { h with heads := h.heads.set c { h.heads.get c with next := v } c.isLt }
  | .block a, v => h.put a v.word

def withPrev (h : Heap) : Link → Link → Heap
  | .head c, v => { h with heads := h.heads.set c { h.heads.get c with prev := v } c.isLt }
  | .block a, v => h.put (a + wordSize) v.word

variable {h h' : Heap} {u v x : Link}

lemma seat_head (h : Heap) (c : Fin mainLists) : h.Seat (.head c) := trivial

lemma SameSetting.seat (s : SameSetting h h') : h'.Seat u ↔ h.Seat u := by
  cases u <;> simp only [Seat, s.arena]

/-- What is written for a link reads back. -/
lemma Grounded.ofWord_word (g : h.Grounded) (hv : h.Seat v) : Link.ofWord v.word = v := by
  have hlt := g.bounded
  cases v with
  | head c =>
    have hc := c.isLt
    have hword : (Link.head c).word.toNat = c := by
      simp only [Link.word, Link.addr, UInt64.toNat_ofNat', mainLists] at *
      omega
    unfold Link.ofWord
    rw [dif_pos (hword ▸ hc)]
    exact congrArg Link.head (Fin.ext hword)
  | block a =>
    obtain ⟨-, h1, h2⟩ := hv
    have hword : (Link.block a).word.toNat = a := by
      simp only [Link.word, Link.addr, UInt64.toNat_ofNat', addressSpace, alignment] at *
      omega
    unfold Link.ofWord
    rw [dif_neg, hword]
    rw [hword]
    unfold mainLists alignment at *
    omega

/-- A word written into the first bytes of a block. -/
lemma within_put_area {a b : Nat} (g : h.Grounded) (ha : h.Seat (.block a))
    (hb : a ≤ b ∧ b + wordSize ≤ a + alignment) (w : UInt64) : Within (Link.block a).area h (h.put b w) := by
  have hbase := g.base_le
  obtain ⟨-, hstart, -⟩ := ha
  refine (within_put (by omega) w).mono fun x hx => ?_
  unfold Link.area
  omega

section Seats

variable (g : h.Grounded) (hu : h.Seat u)

include g hu

lemma nextLink_withNext (hv : h.Seat v) (hx : h.Seat x) :
    (h.withNext u v).nextLink x = if x = u then v else h.nextLink x := by
  have hb := g.base_le
  rcases u with c | a <;> rcases x with c' | a'
  · simp only [withNext, nextLink, get_set, Link.head.injEq]
    split <;> rfl
  · rfl
  · rfl
  · obtain ⟨ha, h1, -⟩ := hu
    obtain ⟨ha', h1', -⟩ := hx
    simp only [withNext, nextLink, Link.block.injEq]
    split
    · next he => rw [he, word_put_self (by omega), g.ofWord_word hv]
    · next he =>
      rw [word_put_of_disjoint (by omega)]
      unfold alignment wordSize at *
      omega

lemma prevLink_withNext (hx : h.Seat x) : (h.withNext u v).prevLink x = h.prevLink x := by
  have hb := g.base_le
  rcases u with c | a <;> rcases x with c' | a'
  · simp only [withNext, prevLink, get_set]
    split
    · next he => rw [he]
    · rfl
  · rfl
  · rfl
  · obtain ⟨ha, h1, -⟩ := hu
    obtain ⟨ha', h1', -⟩ := hx
    simp only [withNext, prevLink]
    rw [word_put_of_disjoint (by omega)]
    unfold alignment wordSize at *
    omega

lemma prevLink_withPrev (hv : h.Seat v) (hx : h.Seat x) :
    (h.withPrev u v).prevLink x = if x = u then v else h.prevLink x := by
  have hb := g.base_le
  rcases u with c | a <;> rcases x with c' | a'
  · simp only [withPrev, prevLink, get_set, Link.head.injEq]
    split <;> rfl
  · rfl
  · rfl
  · obtain ⟨ha, h1, -⟩ := hu
    obtain ⟨ha', h1', -⟩ := hx
    simp only [withPrev, prevLink, Link.block.injEq]
    split
    · next he => rw [he, word_put_self (by omega), g.ofWord_word hv]
    · next he =>
      rw [word_put_of_disjoint (by omega)]
      unfold alignment wordSize at *
      omega

lemma nextLink_withPrev (hx : h.Seat x) : (h.withPrev u v).nextLink x = h.nextLink x := by
  have hb := g.base_le
  rcases u with c | a <;> rcases x with c' | a'
  · simp only [withPrev, nextLink, get_set]
    split
    · next he => rw [he]
    · rfl
  · rfl
  · rfl
  · obtain ⟨ha, h1, -⟩ := hu
    obtain ⟨ha', h1', -⟩ := hx
    simp only [withPrev, nextLink]
    rw [word_put_of_disjoint (by omega)]
    unfold alignment wordSize at *
    omega

lemma within_withNext : Within u.area h (h.withNext u v) := by
  cases u with
  | head c => exact ⟨⟨rfl, rfl, rfl, rfl, rfl, rfl⟩, rfl, fun _ _ => rfl⟩
  | block a => exact within_put_area g hu (by unfold wordSize alignment; omega) v.word

lemma within_withPrev : Within u.area h (h.withPrev u v) := by
  cases u with
  | head c => exact ⟨⟨rfl, rfl, rfl, rfl, rfl, rfl⟩, rfl, fun _ _ => rfl⟩
  | block a => exact within_put_area g hu (by unfold wordSize alignment; omega) v.word

end Seats

end Heap

end BoundaryTag
