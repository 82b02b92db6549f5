import BoundaryTag.Key
import BoundaryTag.Shared.Basic

/-!
The C interface to the process-wide heap.

Calls answer a block or null, here `none`, and tell a failure through `errno`; `posixMemalign` answers
a status instead and leaves `errno` alone. A request for no bytes is answered by null without an
error. The system sets `errno` too, where it refuses what the heap asks of it.
-/

namespace BoundaryTag

structure PosixState where
  shared : Shared
  errno : Option Errno := none
  /-- Where the key comes from, when it is drawn. -/
  source : KeySource := .clear

/-- A run of C calls. -/
abbrev PosixM := StateT PosixState (Except Halt)

namespace PosixM

open RequestM

def setErrno (e : Errno) : PosixM Unit := modify fun p => { p with errno := some e }

def onShared {α : Type} (act : SharedM α) : PosixM α := fun p =>
  match act p.shared with
  | .ok (a, shared) => .ok (a, { p with shared })
  | .error e => .error e

/-- How often the system has refused to map the region, as long as it is not mapped. -/
def refusedMappings (s : Shared) : Nat :=
  match s.heap with
  | some h => if h.arena.supply.needsMapping && h.arena.pages = 0 then h.arena.requests else 0
  | none => 0

/-- Whether the key is drawn. It is drawn before the first page is asked for, and then kept. -/
def keyed (s : Shared) : Bool :=
  match s.heap with
  | some h => h.arena.requests != 0
  | none => false

/-- What is found in `errno` when a call has made `shared` of the process-wide heap. Drawing the key may set
it, and after that a mapping that the system refuses does. -/
def heard (before : PosixState) (shared : Shared) : Option Errno :=
  if refusedMappings before.shared < refusedMappings shared then some .outOfMemory
  else if !keyed before.shared && keyed shared then before.source.errno.or before.errno
  else before.errno

/-- Runs a call on the heap. -/
def onHeap {α : Type} (act : HeapM α) : PosixM (Option α) := do
  let before ← get
  let a ← onShared (SharedM.withHeap (SharedM.onHeap act))
  modify fun p => { p with errno := heard before p.shared }
  return a

/-- The outcome of a request: its block, or its error number. -/
def outcome : Option (Except AllocError (Option Nat)) → Except Errno (Option Nat)
  | some (.ok p) => .ok p
  | some (.error e) => .error e.errno
  | none => .error .outOfMemory

def request (act : RequestM (Option Nat)) : PosixM (Except Errno (Option Nat)) :=
  return outcome (← onHeap act.run)

/-- Answers a block, or null with `errno` set. -/
def answer : Except Errno (Option Nat) → PosixM (Option Nat)
  | .ok p => return p
  | .error e => do
    setErrno e
    return none

def malloc (size : Nat) : PosixM (Option Nat) := do answer (← request (allocate size))

/-- Null is no block, and freeing it does nothing. -/
def free (ptr : Nat) : PosixM Unit := do
  if ptr ≠ 0 then
    let _ ← onHeap (HeapM.release ptr)

def calloc (count size : Nat) : PosixM (Option Nat) := do
  if count * size < addressSpace then answer (← request (allocateZeroed (count * size)))
  else answer (.error .outOfMemory)

def realloc (ptr size : Nat) : PosixM (Option Nat) := do
  if ptr = 0 then malloc size else answer (← request (resize ptr size))

/-- The request for an aligned block. Every block has the alignments up to `alignment`. -/
def alignedRequest (size align : Nat) : RequestM (Option Nat) :=
  if align.isPowerOfTwo ∧ align ≤ alignment then allocate size else allocateAligned size align

def alignedAlloc (align size : Nat) : PosixM (Option Nat) := do
  answer (← request (alignedRequest size align))

def memalign (align size : Nat) : PosixM (Option Nat) := alignedAlloc align size

/-- The block to be stored, or the error that is the status. -/
def posixMemalign (align size : Nat) : PosixM (Except Errno (Option Nat)) :=
  if ¬ align.isPowerOfTwo ∨ align < wordSize then return .error .invalidArgument
  else request (alignedRequest size align)

/-- The bytes that may be used at a pointer, none if it is no block. -/
def usableSize (ptr : Nat) : PosixM Nat := do
  if ptr = 0 then return 0
  match ← onHeap (HeapM.reading fun h => (h.usableSize ptr).run) with
  | some (.ok n) => return n
  | _ => return 0

end PosixM

end BoundaryTag
