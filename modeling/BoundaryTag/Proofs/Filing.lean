import BoundaryTag.Proofs.Ownership
import BoundaryTag.SizeClass.Lemmas

/-!
Sizes, classes, and where free blocks are filed.

A block is as small as its request lets it be, the classes divide the sizes at the powers of two, and a larger
block is in no lower class. So whatever is free and large enough for a request is on the list of the request's
class, or of one above it.
-/

namespace BoundaryTag

open Heap Piece

/-- A quick list is known by the size of its blocks. -/
lemma quickClass?_eq_some_iff {s : Nat} {c : Fin quickLists} : quickClass? s = some c ↔
    (s % alignment = 0 ∧ minBlock ≤ s ∧ s ≤ maxQuickBlock) ∧ c.val = (s - minBlock) / alignment := by
  have hc := c.isLt
  rw [quickClass?_eq_some]
  unfold quickSize maxQuickBlock minBlock alignment quickLists at *
  omega

/-- **Sizes and classes are what they are meant to be**, for every size. The size of a block is the least that
leaves room for the request, and there is none exactly if that is too large for an address; a smaller request
needs no larger block, and what is asked for is there beside the header. Main class `0` has the sizes up to
`minBlock`, class `i` those from `16 * 2 ^ i` to `16 * 2 ^ (i + 1)`, the last class all that are larger; the classes
are in the order of the sizes. The quick lists are for the multiples of sixteen from `32` to `176`. A machine
computes just that on its words. And in every session that a run ends in, each free block that has `a` bytes is on
a main list of the class of `a` or above. -/
theorem sizeClasses_exact :
    (∀ n, ∃ b, IsLeast (roomFor n) b ∧ blockSize? n = if b < addressSpace then some b else none) ∧
    (∀ m n b, m ≤ n → blockSize? n = some b →
      n ≤ b - wordSize ∧ ∃ a, blockSize? m = some a ∧ a ≤ b) ∧
    (∀ s, ((mainClass s).val = 0 ↔ s ≤ minBlock) ∧
      (∀ i, 1 ≤ i → i ≤ 8 → ((mainClass s).val = i ↔
        minBlock < s ∧ alignment * 2 ^ i < s ∧ s ≤ alignment * 2 ^ (i + 1))) ∧
      ((mainClass s).val = 9 ↔ 8192 < s)) ∧
    Monotone mainClass ∧
    (∀ s c, quickClass? s = some c ↔
      (s % alignment = 0 ∧ minBlock ≤ s ∧ s ≤ maxQuickBlock) ∧ c.val = (s - minBlock) / alignment) ∧
    (∀ w : UInt64, (Bits.blockSize? w).map UInt64.toNat = blockSize? w.toNat ∧
      (Bits.mainClass w).toNat = mainClass w.toNat ∧
      (Bits.quickClass? w).map UInt64.toNat = (quickClass? w.toNat).map Fin.val) ∧
    ∀ s : Session, s.Reachable → ∃ (bs : List BlockInfo) (main : MainLists), s.heap.blocks = .ok bs ∧
      (∀ c, s.heap.mainList c = .ok (main c)) ∧
      ∀ b ∈ bs, b.allocated = false → ∀ a ≤ b.size, ∃ c, mainClass a ≤ c ∧ b.payload ∈ main c := by
  refine ⟨fun n => ⟨_, isLeast_roomFor n, blockSize?_of_isLeast (isLeast_roomFor n)⟩, fun m n b hle hb => ?_,
    fun s => ⟨mainClass_eq_zero_iff, fun i h1 h8 => ?_, mainClass_eq_last_iff⟩, mainClass_mono,
    fun s c => quickClass?_eq_some_iff,
    fun w => ⟨Bits.toNat_blockSize? w, Bits.toNat_mainClass w, Bits.toNat_quickClass? w⟩, fun s hs => ?_⟩
  · obtain ⟨⟨⟨-, -, hroom⟩, -⟩, -⟩ := isLeast_of_blockSize? hb
    exact ⟨Nat.le_sub_of_add_le hroom, blockSize?_mono hle hb⟩
  · obtain ⟨c, rfl⟩ := Nat.exists_eq_add_of_le' h1
    have hmin : minBlock < s ∧ alignment * 2 ^ (c + 1) < s ↔ alignment * 2 ^ (c + 1) < s := by
      refine and_iff_right_of_imp fun h => lt_of_le_of_lt ?_ h
      exact Nat.mul_le_mul_left alignment (show 2 ^ 1 ≤ 2 ^ (c + 1) from Nat.pow_le_pow_right (by decide) h1)
    rw [mainClass_eq_succ_iff (by unfold mainLists; omega), ← and_assoc, hmin]
  · obtain ⟨l, k⟩ := hs.has_ledger
    have d := k.divided
    exact ⟨_, _, d.blocks, d.onMain, fun b hb hfree a hle => ⟨_, mainClass_mono hle, d.mem_main hb hfree⟩⟩

/-- The largest request that there is a block for and the next one, sizes at the bounds of the last class, and a
free block that is filed above the class of the size that is looked for. -/
theorem sizeClasses_at_bounds :
    IsLeast (roomFor 18446744073709551592) 18446744073709551600 ∧
    Bits.blockSize? 18446744073709551593 = none ∧
    (mainClass 8192).val = 8 ∧ (Bits.mainClass 8193).toNat = 9 ∧
    ∃ (s : Session) (main : MainLists), s.Reachable ∧ (∀ c, s.heap.mainList c = .ok (main c)) ∧
      ∃ c, mainClass 200 ≤ c ∧ 4144 ∈ main c := by
  obtain ⟨hsize, -, hmain, -, -, hwords, hfiled⟩ := sizeClasses_exact
  have hlarge : blockSize? 18446744073709551592 = some 18446744073709551600 := by decide
  have htoo : blockSize? (18446744073709551593 : UInt64).toNat = none := by decide
  have hend : (Session.sample.serveAll [.allocate 10]).map (fun x => x.2.heap.blocks) =
      some (.ok [⟨4112, 32, true, true⟩, ⟨4144, 4048, false, true⟩]) := by
    decide +kernel
  obtain ⟨⟨as, s⟩, hs, hblocks⟩ := Option.map_eq_some_iff.mp hend
  have hreach := Session.sample_reachable hs
  obtain ⟨bs, main, hwalk, hlists, hfound⟩ := hfiled s hreach
  obtain rfl := Except.ok.inj (hwalk.symm.trans hblocks)
  refine ⟨?_, Option.map_eq_none_iff.mp ((hwords _).1.trans htoo), ?_, ?_, s, main, hreach, hlists, ?_⟩
  · obtain ⟨b, hleast, hb⟩ := hsize 18446744073709551592
    obtain ⟨-, rfl⟩ : b < addressSpace ∧ b = 18446744073709551600 := by
      simpa [Option.ite_none_right_eq_some] using hb.symm.trans hlarge
    exact hleast
  · exact ((hmain 8192).2.1 8 (by decide) (by decide)).mpr (by decide)
  · exact (hwords 8193).2.1.trans ((hmain 8193).2.2.mpr (by decide))
  · exact hfound ⟨4144, 4048, false, true⟩ (by simp) rfl 200 (by decide)

end BoundaryTag
