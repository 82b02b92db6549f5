import BoundaryTag.BlockInfo
import BoundaryTag.Error

/-!
The journal of a heap: what it reports while it works.

An `Event` is what happened; its level and its wording are functions of it. A journal keeps the
events up to its level, unless it is muted.
-/

namespace BoundaryTag

inductive Level
  | error
  | debug
  | trace
deriving DecidableEq

namespace Level

def rank : Level → Nat
  | error => 0
  | debug => 1
  | trace => 2

def name : Level → String
  | error => "ERROR"
  | debug => "DEBUG"
  | trace => "TRACE"

end Level

inductive Event
  | firstPageRefused
  | ready (page : Nat)
  | exhausted (pages : Nat)
  | grew (pages : Nat)
  | split (block size taken rest : Nat)
  | leadReleased (block lead : Nat)
  | flushing (list len : Nat)
  | extent (start stop pages : Nat)
  | block (info : BlockInfo)
  | quickList (list len size : Nat)
  | freeList (list len : Nat)
deriving DecidableEq

namespace Event

def level : Event → Level
  | split .. => .trace
  | leadReleased .. => .trace
  | flushing .. => .trace
  | _ => .debug

def message : Event → String
  | firstPageRefused => "arena refused the initial page"
  | ready page => s!"heap initialized at {hex page}"
  | exhausted pages => s!"arena exhausted at {pages} pages"
  | grew pages => s!"heap grew to {pages} pages"
  | split b size taken rest => s!"split {size}-byte block at {hex b}: {taken} + {rest}"
  | leadReleased b lead => s!"aligned {hex b}: releasing {lead} leading bytes"
  | flushing list len => s!"flushing quick list {list} ({len} blocks)"
  | extent start stop pages => s!"heap [{hex start}, {hex stop}) {pages} pages"
  | block info => s!"  {info.text}"
  | quickList list len size => s!"  quick[{list}]: {len} x {size} bytes"
  | freeList list len => s!"  free[{list}]: {len} blocks"

end Event

/-- A line of the journal. -/
def record (level : Level) (message : String) : String := s!"{level.name} {message}"

structure Journal where
  /-- The most detailed level that is kept; `none` keeps nothing. -/
  level : Option Level := none
  muted : Bool := false
  events : Array Event := #[]

namespace Journal

/-- Whether records of this level are kept. -/
def keeps (j : Journal) (level : Level) : Bool :=
  match j.level with
  | none => false
  | some most => !j.muted && level.rank ≤ most.rank

def add (j : Journal) (e : Event) : Journal :=
  if j.keeps e.level then { j with events := j.events.push e } else j

def lines (j : Journal) : List String :=
  j.events.toList.map fun e => record e.level e.message

/-- What a run prints that an invalid pointer ends: the error, if the journal keeps errors, and the
banner. -/
def lastWords (j : Journal) (ptr : Nat) (reason : InvalidPointer) : String :=
  let banner := reason.banner
  if j.keeps .error then
    s!"{record .error (AllocError.invalidPointer ptr reason).message}\n{banner}"
  else banner

end Journal

end BoundaryTag
