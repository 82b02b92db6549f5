import BoundaryTag.Word

/-!
What can go wrong, and how it is said.

`InvalidPointer` is what is wrong with a pointer that a client hands back, `AllocError` why a
request fails, `Corruption` what the verifier finds. A `Halt` is none of these: it ends the run.
-/

namespace BoundaryTag

/-- The check that a pointer failed. -/
inductive InvalidPointer
  | null
  | misaligned
  | beforeHeap
  | pastHeap
  | badSize (size : Nat)
  | notAllocated
  | prevAllocMismatch
deriving DecidableEq

namespace InvalidPointer

def message : InvalidPointer → String
  | null => "null pointer"
  | misaligned => "pointer is not 16-byte aligned"
  | beforeHeap => "header lies before the heap start"
  | pastHeap => "block extends past the heap end"
  | badSize size => s!"header encodes an impossible block size {size}"
  | notAllocated => "block is not allocated"
  | prevAllocMismatch => "previous-allocated flag disagrees with the previous block"

/-- The last line of a run that such a pointer ends. It has no number in it, so that writing it
needs no memory. -/
def banner : InvalidPointer → String
  | null => "tagheap: invalid pointer (null)\n"
  | misaligned => "tagheap: invalid pointer (misaligned)\n"
  | beforeHeap => "tagheap: invalid pointer (before heap start)\n"
  | pastHeap => "tagheap: invalid pointer (past heap end)\n"
  | badSize _ => "tagheap: invalid pointer (bad block size)\n"
  | notAllocated => "tagheap: invalid pointer (not allocated)\n"
  | prevAllocMismatch => "tagheap: invalid pointer (prev-alloc mismatch)\n"

end InvalidPointer

/-- Why a request fails. -/
inductive AllocError
  | outOfMemory (requested : Nat)
  | invalidAlignment (align : Nat)
  | invalidPointer (ptr : Nat) (reason : InvalidPointer)
deriving DecidableEq

/-- Error numbers. -/
inductive Errno
  | outOfMemory
  | invalidArgument
  /-- One that only the system sets. -/
  | other (code : Nat)
deriving DecidableEq

namespace Errno

def code : Errno → Nat
  | outOfMemory => 12
  | invalidArgument => 22
  | other code => code

end Errno

namespace AllocError

def message : AllocError → String
  | outOfMemory n => s!"out of memory: arena cannot satisfy a {n}-byte request"
  | invalidAlignment n => s!"invalid alignment {n}: must be a power of two and at least 32"
  | invalidPointer ptr reason => s!"invalid pointer {hex ptr}: {reason.message}"

def errno : AllocError → Errno
  | outOfMemory _ => .outOfMemory
  | invalidAlignment _ => .invalidArgument
  | invalidPointer _ _ => .invalidArgument

end AllocError

/-- A broken rule of the heap. -/
inductive Corruption
  | badSize (block size : Nat)
  | overrun (block : Nat)
  | stalePrevAlloc (block : Nat)
  | footerMismatch (block : Nat)
  | uncoalesced (first second : Nat)
  | staleLast (tracked actual : Nat)
  | misfiled (list : Nat) (block : Nat)
  | misfiledQuick (list : Nat) (block : Nat)
  | quickLength (list recorded linked : Nat)
  | lostBlock (listed walked : Nat)
deriving DecidableEq

def Corruption.message : Corruption → String
  | badSize block size => s!"block {hex block} has invalid size {size}"
  | overrun block => s!"block {hex block} runs past the heap end"
  | stalePrevAlloc block => s!"block {hex block} has a stale previous-allocated flag"
  | footerMismatch block => s!"free block {hex block} has a footer that differs from its header"
  | uncoalesced first second => s!"free blocks {hex first} and {hex second} are adjacent"
  | staleLast tracked actual =>
    s!"tracked last block {hex tracked} is not the block at the heap end {hex actual}"
  | misfiled list block => s!"free list {list} holds misfiled block {hex block}"
  | misfiledQuick list block => s!"quick list {list} holds misfiled block {hex block}"
  | quickLength list recorded linked =>
    s!"quick list {list} records {recorded} blocks but links {linked}"
  | lostBlock listed walked =>
    s!"{listed} blocks on free lists but {walked} free blocks in the heap"

/-- Why a run cannot go on. All but the first are the end of a heap whose memory or lists have been
overwritten. -/
inductive Halt
  /-- A pointer given to a releasing call failed a check. -/
  | invalidPointer (ptr : Nat) (reason : InvalidPointer)
  /-- An access at an address that is out of bounds. -/
  | outside (addr : Nat)
  /-- A sum or difference left the range of a word, in a strict heap. -/
  | overflow
  /-- An internal assumption does not hold, in a strict heap. -/
  | assumption
  /-- A chain leads back into itself. -/
  | endless
deriving DecidableEq

end BoundaryTag
