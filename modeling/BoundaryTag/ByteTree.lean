/-!
Bytes by index, of which few are stored.

A tree branches on the binary digits of an index: the byte at `0` stands in the root, those at
`2 * n + 1` in the left subtree and those at `2 * n + 2` in the right one, each at index `n` there.
Where nothing has been stored the bytes are zero. `get_set` says all that is needed of it.
-/

namespace BoundaryTag

inductive ByteTree where
  | zeros
  | node (byte : UInt8) (left right : ByteTree)

namespace ByteTree

def get : ByteTree → Nat → UInt8
  | zeros, _ => 0
  | node b _ _, 0 => b
  | node _ l r, n + 1 => if n % 2 = 0 then l.get (n / 2) else r.get (n / 2)

/-- The tree with one byte, and zeros elsewhere. -/
def single (n : Nat) (v : UInt8) : ByteTree :=
  match n with
  | 0 => node v zeros zeros
  | n + 1 =>
    if n % 2 = 0 then node 0 (single (n / 2) v) zeros else node 0 zeros (single (n / 2) v)

/-- A zero is not stored where there are only zeros. -/
def set : ByteTree → Nat → UInt8 → ByteTree
  | zeros, n, v => if v = 0 then zeros else single n v
  | node _ l r, 0, v => node v l r
  | node b l r, n + 1, v =>
    if n % 2 = 0 then node b (l.set (n / 2) v) r else node b l (r.set (n / 2) v)

theorem get_single (n : Nat) (v : UInt8) (i : Nat) :
    (single n v).get i = if i = n then v else 0 := by
  fun_induction single n v generalizing i with
  | case1 => cases i <;> simp [get]
  | case2 n even ih => cases i <;> grind [get]
  | case3 n odd ih => cases i <;> grind [get]

/-- **One byte stored**: it is found again, and every other byte is what it was. -/
theorem get_set (t : ByteTree) (n : Nat) (v : UInt8) (i : Nat) :
    (t.set n v).get i = if i = n then v else t.get i := by
  fun_induction set t n v generalizing i with
  | case1 => simp [get]
  | case2 n v nonzero => simp [get_single, get]
  | case3 => cases i <;> simp [get]
  | case4 b l r n v even ih => cases i <;> grind [get]
  | case5 b l r n v odd ih => cases i <;> grind [get]

end ByteTree

end BoundaryTag
