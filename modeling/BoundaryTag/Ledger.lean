import BoundaryTag.Arena
import BoundaryTag.BlockInfo
import BoundaryTag.Error
import BoundaryTag.Request
import Mathlib.Algebra.Ring.Nat
import Mathlib.Data.List.DropRight

/-!
Ledgers: what a heap keeps account of, without the bytes.

A ledger has the blocks in the order of their addresses, each with what it is used for, and one
sequence of blocks for every main list and every quick list, the newest first. It answers the same
requests as a heap, by editing these lists. It shares with the heap the arena, which says whether a page
is granted, and the tables of sizes: which block serves a request, and which list is for it.
-/

namespace BoundaryTag

/-- A block is with a client, on a quick list, or free. -/
inductive Use
  | live
  | quick
  | free
deriving DecidableEq

/-- A block of a ledger. -/
structure Piece where
  payload : Nat
  size : Nat
  use : Use
deriving DecidableEq

namespace Piece

def isFree (b : Piece) : Bool := b.use = .free

/-- Where the payload of the next block is. -/
def stop (b : Piece) : Nat := b.payload + b.size

def total (ps : List Piece) : Nat := (ps.map size).sum

def payloads (ps : List Piece) : List Nat := ps.map payload

/-- The blocks with those at `p` replaced. -/
def replaceAt (p : Nat) (f : Piece → List Piece) (ps : List Piece) : List Piece :=
  ps.flatMap fun b => if b.payload = p then f b else [b]

/-- The blocks as a walk sees them. The block before the first is allocated or not. -/
def walk (prevAllocated : Bool) : List Piece → List BlockInfo
  | [] => []
  | b :: rest => ⟨b.payload, b.size, !b.isFree, prevAllocated⟩ :: walk (!b.isFree) rest

/-- The free block that covers `b` and the blocks around it. -/
def merge (left : List Piece) (b : Piece) (right : List Piece) : Piece :=
  ⟨b.payload - total left, total left + b.size + total right, .free⟩

end Piece

open Piece

/-- The blocks on each main list. -/
abbrev MainLists := Fin mainLists → List Nat

namespace MainLists

def without (ps : List Nat) (main : MainLists) : MainLists := fun c => (main c).filter (· ∉ ps)

/-- A free block put in front of the list of its class. -/
def add (b : Piece) (main : MainLists) : MainLists :=
  Function.update main (mainClass b.size) (b.payload :: main (mainClass b.size))

end MainLists

structure Ledger where
  arena : Arena
  pieces : List Piece
  main : MainLists
  quick : Fin quickLists → List Nat

namespace Ledger

def new (arena : Arena) : Ledger := ⟨arena, [], fun _ => [], fun _ => []⟩

variable (l : Ledger)

def sizeAt (p : Nat) : Nat := (l.pieces.find? (·.payload = p)).elim 0 Piece.size

def mark (p : Nat) (use : Use) : Ledger :=
  { l with pieces := replaceAt p (fun b => [{ b with use }]) l.pieces }

/-- The block at `p` cut in two, the first of `n` bytes. -/
def split (p n : Nat) : Ledger :=
  { l with
    pieces := replaceAt p (fun b => [{ b with size := n }, ⟨p + n, b.size - n, b.use⟩]) l.pieces }

/-! ### Freeing -/

/-- The block `b`, which stands between the others, freed: merged with the free blocks on either side,
which leave their lists, and put in front of the list of its class. -/
def join (before : List Piece) (b : Piece) (after : List Piece) : Ledger :=
  let left := before.rtakeWhile isFree
  let right := after.takeWhile isFree
  let whole := merge left b right
  { l with
    pieces := before.rdropWhile isFree ++ whole :: after.dropWhile isFree
    main := (l.main.without (payloads (left ++ right))).add whole }

def free (p : Nat) : Ledger :=
  match l.pieces.dropWhile (·.payload ≠ p) with
  | [] => l
  | b :: after => l.join (l.pieces.takeWhile (·.payload ≠ p)) b after

/-- What the block at `p` has beyond `need` bytes, freed if it can stand as a block of its own. -/
def trim (p need : Nat) : Ledger :=
  if minBlock ≤ l.sizeAt p - need then (l.split p need).free (p + need) else l

/-- All blocks of a quick list taken off it. -/
def withdraw (c : Fin quickLists) : Ledger :=
  { l with
    pieces := l.pieces.map fun b => if b.payload ∈ l.quick c then { b with use := .live } else b
    quick := Function.update l.quick c [] }

/-- The blocks of a quick list freed, the newest first. -/
def flush (c : Fin quickLists) : Ledger := (l.quick c).foldl free (l.withdraw c)

def push (c : Fin quickLists) (p : Nat) : Ledger :=
  { l.mark p .quick with
    quick := Function.update l.quick c (p :: l.quick c) }

/-- Takes a client's block back: on the quick list of its size, which is flushed when it is full, or
among the free blocks. -/
def release (p : Nat) : Ledger :=
  match quickClass? (l.sizeAt p) with
  | none => l.free p
  | some c => if (l.quick c).length = quickDepth then (l.flush c).push c p else l.push c p

/-! ### Growing -/

/-- Another page, merged with the last block if that is free; whether it was granted. -/
def grow : Bool × Ledger :=
  match l.arena.grow with
  | (none, arena) => (false, { l with arena })
  | (some page, arena) =>
    (true, free { l with arena, pieces := l.pieces ++ [⟨page, pageSize, .live⟩] } page)

/-- The first page, which is one free block between two words that are none; whether it was
granted. -/
def setUp : Bool × Ledger :=
  match l.arena.grow with
  | (none, arena) => (false, { l with arena })
  | (some page, arena) =>
    let block := page + 2 * wordSize
    (true, free { l with arena, pieces := [⟨block, firstBlock, .live⟩] } block)

/-! ### Serving -/

/-- The main lists that can hold a block of `need` bytes, the lowest class first. -/
def classesFor (need : Nat) : List (Fin mainLists) :=
  (List.finRange mainLists).filter (mainClass need ≤ ·)

/-- The first block of at least `need` bytes in the lowest class that has one. -/
def fit? (need : Nat) : Option Nat :=
  (classesFor need).findSome? fun c => (l.main c).find? fun p => need ≤ l.sizeAt p

/-- A free block given to a client, without what it has beyond `need` bytes. -/
def take (p need : Nat) : Ledger :=
  trim (mark { l with main := l.main.without [p] } p .live) p need

end Ledger

namespace Arena

theorem room_grow_some {a b : Arena} {p : Nat} (h : a.grow = (some p, b)) : b.room < a.room := by
  have hsupply : b.supply = a.supply := by
    simp only [grow] at h
    split at h <;> cases h
    rfl
  have hpages := pages_grow_some h
  simp only [room, hsupply] at *
  omega

end Arena

namespace Ledger

variable (l : Ledger)

@[simp] theorem arena_split (p n : Nat) : (l.split p n).arena = l.arena := rfl

@[simp] theorem arena_free (p : Nat) : (l.free p).arena = l.arena := by
  unfold free
  split <;> rfl

theorem room_grow {l' : Ledger} (h : l.grow = (true, l')) : l'.arena.room < l.arena.room := by
  unfold grow at h
  split at h
  · cases h
  · next page arena hgrow =>
    cases h
    rw [arena_free]
    exact Arena.room_grow_some hgrow

/-- A block from the main lists. A page is added as long as none fits. -/
def serveGrowing (need : Nat) (l : Ledger) : Option Nat × Ledger :=
  match l.fit? need with
  | some p => (some p, l.take p need)
  | none =>
    match _h : l.grow with
    | (true, l') => serveGrowing need l'
    | (false, l') => (none, l')
termination_by l.arena.room
decreasing_by exact l.room_grow _h

/-- The newest block of the quick list of exactly this size, if there is one, else a block from the
main lists. -/
def serve (need : Nat) : Option Nat × Ledger :=
  match quickClass? need with
  | none => serveGrowing need l
  | some c =>
    match l.quick c with
    | [] => serveGrowing need l
    | p :: rest => (some p, { l.mark p .live with quick := Function.update l.quick c rest })

/-- A block of at least `need` bytes, after the first page if that is missing. -/
def obtainBlock (need : Nat) : Option Nat × Ledger :=
  if l.arena.pages = 0 then
    match l.setUp with
    | (true, l') => l'.serve need
    | (false, l') => (none, l')
  else l.serve need

/-! ### Requests -/

def allocate (size : Nat) : Answer × Ledger :=
  if size = 0 then (.ok none, l)
  else
    match blockSize? size with
    | none => (.error (.outOfMemory size), l)
    | some need =>
      match l.obtainBlock need with
      | (none, l') => (.error (.outOfMemory size), l')
      | (some p, l') => (.ok (some p), l')

/-- Where an aligned block begins in the block at `p`: there, or at the first multiple of `align` that
leaves room for a block before it. -/
def alignedFrom (p align : Nat) : Nat :=
  if p % align = 0 then p
  else if roundUp p align - p < minBlock then roundUp p align + align
  else roundUp p align

/-- The block at `p` without the bytes before `q`, which are freed. -/
def skipTo (p q : Nat) : Ledger := if q = p then l else (l.split p (q - p)).free p

/-- A block is looked for that has room for moving `size` bytes up to a multiple of `align`, and for a
block in front of them. -/
def allocateAligned (size align : Nat) : Answer × Ledger :=
  if ¬ align.isPowerOfTwo ∨ align < minBlock then (.error (.invalidAlignment align), l)
  else if size = 0 then (.ok none, l)
  else
    match blockSize? size, blockSize? (size + align + minBlock) with
    | some need, some padded =>
      match l.obtainBlock padded with
      | (none, l') => (.error (.outOfMemory size), l')
      | (some p, l') =>
        let q := alignedFrom p align
        (.ok (some q), (l'.skipTo p q).trim q need)
    | _, _ => (.error (.outOfMemory size), l)

def resize (p size : Nat) : Answer × Ledger :=
  if size = 0 then (.ok none, l.release p)
  else
    match blockSize? size with
    | none => (.error (.outOfMemory size), l)
    | some need =>
      if need ≤ l.sizeAt p then (.ok (some p), l.trim p need)
      else
        match l.obtainBlock need with
        | (none, l') => (.error (.outOfMemory size), l')
        | (some q, l') => (.ok (some q), l'.release p)

/-- Serves a request. What a client writes into its blocks is not in the ledger. -/
def answer : Request → Answer × Ledger
  | .allocate size => l.allocate size
  | .allocateZeroed size => l.allocate size
  | .allocateAligned size align => l.allocateAligned size align
  | .release p => (.ok none, l.release p)
  | .resize p size => l.resize p size
  | .write _ _ => (.ok none, l)

/-- Serves requests one after the other. -/
def run (l : Ledger) : List Request → List Answer × Ledger
  | [] => ([], l)
  | r :: rs =>
    let (a, l') := l.answer r
    let (as, l'') := l'.run rs
    (a :: as, l'')

end Ledger

end BoundaryTag
