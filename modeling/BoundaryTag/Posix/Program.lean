import BoundaryTag.Posix
import BoundaryTag.Request
import BoundaryTag.Runs

/-!
C programs.

A program asks for blocks through the C interface, and hands back what it holds. It may write to all
usable bytes of that, and set `errno`. The calls are those of one thread, one after the other.
-/

namespace BoundaryTag

inductive CCall
  | malloc (size : Nat)
  | calloc (count size : Nat)
  | realloc (ptr size : Nat)
  | alignedAlloc (align size : Nat)
  | memalign (align size : Nat)
  | posixMemalign (align size : Nat)
  | free (ptr : Nat)
  /-- The program stores a byte. -/
  | write (addr : Nat) (byte : UInt8)
  /-- The program stores an error number, or clears it. -/
  | setErrno (errno : Option Errno)

/-- What a program sees of an answer, besides `errno`. -/
inductive CReply
  /-- A block is returned, or null. So is nothing. -/
  | returned (block : Option Nat)
  /-- Status zero is returned, and a block stored where the program said, or null. -/
  | stored (block : Option Nat)
  /-- A status is returned, and nothing is stored. -/
  | status (e : Errno)
deriving DecidableEq

/-- The block that a program has from a reply. -/
def CReply.block : CReply → Option Nat
  | returned block => block
  | stored block => block
  | status _ => none

namespace CCall

open PosixM

def serve : CCall → PosixM CReply
  | malloc size => return .returned (← PosixM.malloc size)
  | calloc count size => return .returned (← PosixM.calloc count size)
  | realloc ptr size => return .returned (← PosixM.realloc ptr size)
  | alignedAlloc align size => return .returned (← PosixM.alignedAlloc align size)
  | memalign align size => return .returned (← PosixM.memalign align size)
  | posixMemalign align size => do
    match ← PosixM.posixMemalign align size with
    | .ok p => return .stored p
    | .error e => return .status e
  | free ptr => do
    PosixM.free ptr
    return .returned none
  | write addr byte => do
    onShared (SharedM.store addr byte)
    return .returned none
  | setErrno errno => do
    modify fun p => { p with errno }
    return .returned none

/-- The bytes that a call asks for. -/
def wants : CCall → Option Nat
  | malloc size => some size
  | calloc count size => some (count * size)
  | realloc _ size => some size
  | alignedAlloc _ size => some size
  | memalign _ size => some size
  | posixMemalign _ size => some size
  | _ => none

/-- The alignment that a call asks for, if not the one that all blocks have. -/
def align : CCall → Nat
  | alignedAlloc align _ => align
  | memalign align _ => align
  | posixMemalign align _ => align
  | _ => alignment

/-- The call is to be refused for its alignment. One that answers a status takes none that is smaller than a
pointer. -/
def Rejects : CCall → Prop
  | alignedAlloc align _ => ¬ align.isPowerOfTwo
  | memalign align _ => ¬ align.isPowerOfTwo
  | posixMemalign align _ => ¬ align.isPowerOfTwo ∨ align < wordSize
  | _ => False

/-- The block that a call hands back, unless it fails. -/
def returns : CCall → Option Nat
  | realloc ptr _ => if ptr = 0 then none else some ptr
  | free ptr => if ptr = 0 then none else some ptr
  | _ => none

/-- How a call says that it gives a block, or null without an error. -/
def gives (c : CCall) (block : Option Nat) : CReply :=
  match c with
  | posixMemalign _ _ => .stored block
  | _ => .returned block

/-- How a call reports an error: as its status, or by null and `errno`. -/
def Reports (c : CCall) (e : Errno) (a : CReply) (errno : Option Errno) : Prop :=
  match c with
  | posixMemalign _ _ => a = .status e
  | _ => a = .returned none ∧ errno = some e

end CCall

structure CProgram where
  posix : PosixState
  held : List Holding

namespace CProgram

/-- A program that has nothing yet, in a process whose heap is not made yet. The region will be at `base`,
if the system maps it. -/
def new (base pages : Nat) (source : KeySource) (mapper : Mapper) : CProgram :=
  ⟨{ shared := { Shared.new base pages source.key with mapper }, source }, []⟩

/-- The program as a client of the heap, as the next call finds it. -/
def session (t : CProgram) : Session := ⟨t.posix.shared.current, t.held⟩

/-- What a program may call for: it hands back what it holds, or null, and writes only to what it holds. -/
def Allows (t : CProgram) : CCall → Prop
  | .realloc ptr _ => ptr = 0 ∨ t.session.holds ptr
  | .free ptr => ptr = 0 ∨ t.session.holds ptr
  | .write addr byte => t.session.Allows (.write addr byte)
  | _ => True

/-- What is held after a call. One that asks for bytes and gets no block hands nothing back. -/
def heldAfter (held : List Holding) (c : CCall) (a : CReply) : List Holding :=
  let others := held.filter fun b => c.returns ≠ some b.ptr
  match c.wants, a.block with
  | some n, some p => ⟨p, n⟩ :: others
  | some (_ + 1), none => held
  | _, _ => others

def call (t : CProgram) (c : CCall) : Except Halt (CReply × CProgram) :=
  match c.serve t.posix with
  | .ok (a, posix) => .ok (a, ⟨posix, heldAfter t.held c a⟩)
  | .error e => .error e

instance (t : CProgram) (c : CCall) : Decidable (t.Allows c) :=
  match c with
  | .realloc ptr _ => inferInstanceAs (Decidable (ptr = 0 ∨ ∃ b ∈ t.held, b.ptr = ptr))
  | .free ptr => inferInstanceAs (Decidable (ptr = 0 ∨ ∃ b ∈ t.held, b.ptr = ptr))
  | .write addr byte => inferInstanceAs (Decidable (t.session.Allows (.write addr byte)))
  | .malloc _ | .calloc _ _ | .alignedAlloc _ _ | .memalign _ _ | .posixMemalign _ _ | .setErrno _ =>
    inferInstanceAs (Decidable True)

/-- Makes calls one after the other, if the program may make them. -/
def callAll (t : CProgram) (cs : List CCall) : Option (List CReply × CProgram) :=
  Calls.make Allows call t cs

/-- Calls that a program may make one after the other, and what they reply. -/
abbrev Run : CProgram → List CCall → List CReply → CProgram → Prop := Calls Allows call

end CProgram

end BoundaryTag
