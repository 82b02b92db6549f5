import BoundaryTag.Runs
import BoundaryTag.Shared.Allocator

/-!
Programs that allocate by layout.

A program leases blocks from the process-wide heap, each for a layout, and hands a block back with the
layout that it leases it for. It may write to as many bytes of it as the layout has. The calls are those of
one thread, one after the other.
-/

namespace BoundaryTag

deriving instance DecidableEq for Layout

/-- A block that a program has, and what it has it for. -/
structure Lease where
  ptr : Nat
  layout : Layout
deriving DecidableEq

inductive LayoutCall
  | alloc (layout : Layout)
  | allocZeroed (layout : Layout)
  | dealloc (ptr : Nat) (layout : Layout)
  | realloc (ptr : Nat) (old new : Layout)
  /-- The program stores a byte. -/
  | write (addr : Nat) (byte : UInt8)

namespace LayoutCall

def serve : LayoutCall → SharedM (Option Nat)
  | alloc layout => SharedM.alloc layout
  | allocZeroed layout => SharedM.allocZeroed layout
  | dealloc ptr _ => do
    SharedM.dealloc ptr
    return none
  | realloc ptr old new => SharedM.realloc ptr old new
  | write addr byte => do
    SharedM.store addr byte
    return none

/-- What a block is asked for. -/
def wants : LayoutCall → Option Layout
  | alloc layout => some layout
  | allocZeroed layout => some layout
  | realloc _ _ new => some new
  | _ => none

/-- The block that a call hands back, if it succeeds. -/
def returns : LayoutCall → Option Nat
  | dealloc ptr _ => some ptr
  | realloc ptr _ _ => some ptr
  | _ => none

end LayoutCall

structure Tenancy where
  shared : Shared
  leases : List Lease

namespace Tenancy

/-- A program that has nothing yet, in a process whose heap is not made yet. The region will be at `base`,
if the system maps it. -/
def new (base pages : Nat) (key : UInt64) (mapper : Mapper) : Tenancy :=
  ⟨{ Shared.new base pages key with mapper }, []⟩

/-- What a program may call for: it hands back what it leases, as it leases it, and keeps its alignment;
and it writes to the bytes that it asked for. -/
def Allows (t : Tenancy) : LayoutCall → Prop
  | .dealloc ptr layout => ⟨ptr, layout⟩ ∈ t.leases
  | .realloc ptr old new => ⟨ptr, old⟩ ∈ t.leases ∧ new.align = old.align
  | .write addr _ => ∃ b ∈ t.leases, b.ptr ≤ addr ∧ addr < b.ptr + b.layout.size
  | _ => True

/-- What is leased after a call. A call that fails hands nothing back. -/
def leasesAfter (leases : List Lease) : LayoutCall → Option Nat → List Lease
  | .alloc layout, some p => ⟨p, layout⟩ :: leases
  | .allocZeroed layout, some p => ⟨p, layout⟩ :: leases
  | .realloc ptr _ new, some p => ⟨p, new⟩ :: leases.filter fun b => b.ptr ≠ ptr
  | .dealloc ptr _, _ => leases.filter fun b => b.ptr ≠ ptr
  | _, _ => leases

def call (t : Tenancy) (c : LayoutCall) : Except Halt (Option Nat × Tenancy) :=
  match c.serve t.shared with
  | .ok (a, shared) => .ok (a, ⟨shared, leasesAfter t.leases c a⟩)
  | .error e => .error e

instance (t : Tenancy) (c : LayoutCall) : Decidable (t.Allows c) :=
  match c with
  | .dealloc ptr layout => inferInstanceAs (Decidable (⟨ptr, layout⟩ ∈ t.leases))
  | .realloc ptr old new =>
    inferInstanceAs (Decidable (⟨ptr, old⟩ ∈ t.leases ∧ new.align = old.align))
  | .write addr _ =>
    inferInstanceAs (Decidable (∃ b ∈ t.leases, b.ptr ≤ addr ∧ addr < b.ptr + b.layout.size))
  | .alloc _ => inferInstanceAs (Decidable True)
  | .allocZeroed _ => inferInstanceAs (Decidable True)

/-- Makes calls one after the other, if the program may make them. -/
def callAll (t : Tenancy) (cs : List LayoutCall) : Option (List (Option Nat) × Tenancy) :=
  Calls.make Allows call t cs

/-- Calls that a program may make one after the other, and what they answer. -/
abbrev Run : Tenancy → List LayoutCall → List (Option Nat) → Tenancy → Prop := Calls Allows call

end Tenancy

end BoundaryTag
