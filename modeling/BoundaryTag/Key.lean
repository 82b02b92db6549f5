import BoundaryTag.Error

/-!
How a process comes by its key.

The key masks the tags of the heap, and is drawn once, before the heap asks for its first page. The system is
asked for random bytes. If it gives none, the key is mixed from an address and the time; then the call that
was made in vain may have set an error number, and whoever draws the key finds it set.
-/

namespace BoundaryTag

/-- What a process learns of the system when it draws a key. -/
structure Entropy where
  /-- A word of random bytes, or the error number that is set instead. A call that gives too few bytes sets
  none. -/
  random : Except (Option Errno) UInt64
  /-- An address on the stack. -/
  address : UInt64
  seconds : UInt64
  nanoseconds : UInt64

namespace Entropy

/-- Mixes the bits of a word. -/
def scramble (x : UInt64) : UInt64 :=
  let y : UInt64 := (x ^^^ (x >>> 30)) * 0xbf58476d1ce4e5b9
  let z : UInt64 := (y ^^^ (y >>> 27)) * 0x94d049bb133111eb
  z ^^^ (z >>> 31)

def key (e : Entropy) : UInt64 :=
  match e.random with
  | .ok w => w
  | .error _ =>
    let place : UInt64 := e.address * 0x517cc1b727220a95
    let time : UInt64 := e.nanoseconds ^^^ (e.seconds <<< 32)
    scramble (place ^^^ time)

end Entropy

/-- Where the key of a process comes from. -/
inductive KeySource
  /-- There is none, and all tags are in the clear. -/
  | clear
  | drawn (e : Entropy)

namespace KeySource

def key : KeySource → UInt64
  | clear => 0
  | drawn e => e.key

/-- The error number that drawing the key sets, if it sets one. -/
def errno : KeySource → Option Errno
  | clear => none
  | drawn e =>
    match e.random with
    | .ok _ => none
    | .error n => n

/-- The system gives the eight random bytes that it is asked for, as it promises for up to 256. -/
def Supplied : KeySource → Prop
  | clear => True
  | drawn e => ∃ w, e.random = .ok w

/-- Random bytes are had without an error. -/
theorem Supplied.errno_eq {s : KeySource} (h : s.Supplied) : s.errno = none := by
  cases s with
  | clear => rfl
  | drawn e =>
    obtain ⟨w, hw⟩ := h
    rw [errno, hw]

end KeySource

end BoundaryTag
