import BoundaryTag.SizeClass

/-!
Arenas: the regions that heaps manage.

An arena hands out pages one after the other, the first at `base`, each next one where the last
ended. It may refuse a page, and it has a last page: `Supply.limit` bounds what can be handed out,
which is why a search that asks for pages until a block fits comes to an end.
-/

namespace BoundaryTag

/-- How the system answers when it is asked to map memory. -/
structure Mapper where
  /-- It never maps this many bytes or more. -/
  bound : Nat
  /-- Whether it declines to map fewer, with request `n` for them, counted from zero. -/
  declines : Nat → Bool

/-- A system that maps whatever has fewer than two to the 52 bytes. -/
def Mapper.ample : Mapper := ⟨0x10000000000000, fun _ => false⟩

/-- Where the pages of an arena come from. -/
inductive Supply
  /-- A buffer with room for this many whole pages. -/
  | buffer (pages : Nat)
  /-- Address space for this many pages, mapped as a whole for the first of them, if the system does
  so. -/
  | reservation (pages : Nat) {mapper : Mapper}
  /-- Up to this many pages, where request `n`, counted from zero, can be refused. -/
  | scripted (pages : Nat) (refuses : Nat → Bool)

namespace Supply

/-- Whether the system is asked for the first page: for a reservation, unless that is empty or has more
bytes than there are addresses. -/
def needsMapping : Supply → Bool
  | reservation pages => 0 < pages && pages * pageSize < addressSpace
  | _ => false

/-- The most pages that can be handed out. -/
def limit : Supply → Nat
  | buffer pages => pages
  | @reservation pages mapper =>
    if pages * pageSize < min addressSpace mapper.bound then pages else 0
  | scripted pages _ => pages

end Supply

structure Arena where
  /-- Address of the first page. -/
  base : Nat
  supply : Supply
  /-- Mask of every header and footer in this arena. -/
  key : UInt64
  /-- Pages handed out so far. -/
  pages : Nat := 0
  /-- Pages asked for so far. -/
  requests : Nat := 0

namespace Arena

/-- The arena in a buffer of `len` bytes at `addr`: its whole pages, from the first aligned address
on. -/
def ofBuffer (addr len : Nat) (key : UInt64) : Arena :=
  let base := roundUp addr alignment
  ⟨base, .buffer ((len - (base - addr)) / pageSize), key, 0, 0⟩

/-- An arena that reserves its pages with the first of them. -/
def reserveFrom (mapper : Mapper) (base pages : Nat) (key : UInt64) : Arena :=
  ⟨base, @Supply.reservation pages mapper, key, 0, 0⟩

/-- An arena that reserves its pages where there is ample address space. -/
def reserve (base pages : Nat) (key : UInt64) : Arena := reserveFrom .ample base pages key

/-- Where the region begins. A reservation is nowhere before its first page. -/
def start (a : Arena) : Nat :=
  match a.supply with
  | .reservation _ => if a.pages = 0 then 0 else a.base
  | _ => a.base

/-- Where the region ends. -/
def stop (a : Arena) : Nat := a.start + a.pages * pageSize

/-- Whether the `n` bytes from `p` on lie in the region. -/
def contains (a : Arena) (p n : Nat) : Bool := a.start ≤ p && p + n ≤ a.stop

/-- Pages that could still be handed out. -/
def room (a : Arena) : Nat := a.supply.limit - a.pages

/-- Whether the next page is refused, be there room for it or not. What is mapped stays mapped. -/
def refuses (a : Arena) : Bool :=
  match a.supply with
  | .buffer _ => false
  | @Supply.reservation _ mapper => a.pages = 0 && mapper.declines a.requests
  | .scripted _ f => f a.requests

/-- Asks for one more page: its address, if it is granted. -/
def grow (a : Arena) : Option Nat × Arena :=
  if a.pages < a.supply.limit && !a.refuses then
    (some (a.base + a.pages * pageSize), { a with pages := a.pages + 1, requests := a.requests + 1 })
  else (none, { a with requests := a.requests + 1 })

theorem pages_grow_some {a b : Arena} {p : Nat} (h : a.grow = (some p, b)) :
    b.pages = a.pages + 1 ∧ b.pages ≤ b.supply.limit := by
  simp only [grow, Bool.and_eq_true, decide_eq_true_eq] at h
  split at h
  · cases h
    simp only [true_and]
    omega
  · cases h

end Arena

end BoundaryTag
