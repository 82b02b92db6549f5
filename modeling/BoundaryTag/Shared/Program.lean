import BoundaryTag.Shared.Tenancy

/-!
Programs that work inside of the process-wide heap.

A thread makes its calls by layout, or enters the heap with a closure, which has the heap to itself. The closure
may call and enter again, as an allocation in it does without its writer's knowing. Such a nested call is turned
away, and the closure goes on as it does when it was. To erase the nested calls of a program is to let its closures
go on in that way without making them.
-/

namespace BoundaryTag

/-- Whether a call wants to get to the heap. A store to memory does not. -/
def LayoutCall.enters : LayoutCall → Bool
  | write .. => false
  | _ => true

/-- What a thread does until it ends with a result: outside of the heap, or inside of it in a closure. What it
does next may depend on each answer. -/
inductive Program : Bool → Type → Type 1
  | done {inside : Bool} {α : Type} (a : α) : Program inside α
  /-- A closure works on the heap that it was given. -/
  | work {α β : Type} (act : HeapM β) (next : β → Program true α) : Program true α
  | call {inside : Bool} {α : Type} (c : LayoutCall) (next : Option Nat → Program inside α) : Program inside α
  /-- The thread enters the heap with a closure. -/
  | enter {inside : Bool} {α β : Type} (body : Program true β) (next : Option β → Program inside α) :
    Program inside α

namespace Program

def run : {inside : Bool} → {α : Type} → Program inside α → SharedM α
  | _, _, done a => pure a
  | _, _, work act next => do (next (← SharedM.onHeap act)).run
  | _, _, call c next => do (next (← c.serve)).run
  | _, _, enter body next => do (next (← SharedM.withHeap body.run)).run

/-- The program without its nested calls. -/
def erase : {inside : Bool} → {α : Type} → Program inside α → Program inside α
  | _, _, done a => done a
  | _, _, work act next => work act fun b => (next b).erase
  | true, _, call c next => if c.enters then (next none).erase else call c fun a => (next a).erase
  | false, _, call c next => call c fun a => (next a).erase
  | true, _, enter _ next => (next none).erase
  | false, _, enter body next => enter body.erase fun b => (next b).erase

end Program

/-- States of the process-wide heap that a program comes to, from before it is made. -/
def Shared.Reachable (s : Shared) : Prop :=
  ∃ (base pages : Nat) (key : UInt64) (mapper : Mapper) (α : Type) (p : Program false α) (a : α),
    p.run { Shared.new base pages key with mapper } = .ok (a, s)

end BoundaryTag
