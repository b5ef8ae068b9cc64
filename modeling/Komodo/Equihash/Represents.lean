/-
# What a row stands for

A row of `IsValidSolution` stands for a block of indices: it holds the collision groups of the
bitwise sum of their hashes, without those that have been trimmed, and the indices in the order of
the block (`Represents`).  Comparing, merging and testing rows is comparing, joining and testing
what they stand for.
-/

import Komodo.Equihash.Blocks

namespace Komodo
namespace Equihash

open BitStrings Der List

/-! ### Parts of an array -/

theorem slice_append_add (front back : Bytes) (n m : ℕ) :
    slice (front ++ back) (front.length + n) m = slice back n m := by
  rw [slice, ← drop_drop, drop_left, slice]

theorem slice_left (front : Bytes) {part : Bytes} {n : ℕ} (h : part.length = n) (back : Bytes) :
    slice (front ++ (part ++ back)) front.length n = part := by
  rw [slice, drop_left, ← h, take_left]

theorem writeAt_append (front back bytes : Bytes) :
    writeAt (front ++ back) front.length bytes = front ++ (bytes ++ back.drop bytes.length) := by
  rw [writeAt, take_left, ← drop_drop, drop_left, append_assoc]

theorem writeAt_zero (array bytes : Bytes) :
    writeAt array 0 bytes = bytes ++ array.drop bytes.length := by
  rw [writeAt, take_zero, nil_append, Nat.zero_add]

/-! ### Rows and blocks -/

variable {p : Params} {oracle : HashOracle p}

/-- The row stands for a block of `2 ^ r` indices, with the collision groups from the `r`-th on. -/
structure Represents (oracle : HashOracle p) (r : ℕ) (block : List ℕ) (row : FullStepRow) :
    Prop where
  length_eq : block.length = 2 ^ r
  lt : ∀ i ∈ block, i < 2 ^ 32
  hash_eq : ∃ back, row.hash = groupBytes p r (xorHashes oracle block) ++
    (block.flatMap ehIndexToArray ++ back)

namespace Represents
variable {r : ℕ} {a b : List ℕ} {x y : FullStepRow}

theorem ofHash (oracle : HashOracle p) (memory : Bytes) {i : ℕ} (hi : i < 2 ^ 32) :
    ∃ row, FullStepRow.ofHash p memory (hashIn oracle i) i = some row ∧
      Represents oracle 0 [i] row := by
  have hlen : (groupBytes p 0 (hash oracle i)).length = p.hashLength := length_groupBytes p 0 _
  have hxor : xorHashes oracle [i] = hash oracle i := Nat.xor_zero _
  have hrow : FullStepRow.ofHash p memory (hashIn oracle i) i =
      some ⟨writeAt (writeAt memory 0 (groupBytes p 0 (hash oracle i))) p.hashLength
        (ehIndexToArray i)⟩ := by
    rw [FullStepRow.ofHash, if_pos p.hashLength_le, expandArray_hashIn, Option.map_some]
  refine ⟨_, hrow, rfl, by simpa using hi, (memory.drop p.hashLength).drop 4, ?_⟩
  rw [writeAt_zero, ← hlen, writeAt_append, length_ehIndexToArray, hxor, flatMap_singleton]

theorem take_hash (hx : Represents oracle r a x) (hr : r ≤ p.K) :
    x.hash.take p.collisionByteLength =
      bigEndian p.collisionByteLength (collisionGroup p r (xorHashes oracle a)) := by
  obtain ⟨back, hback⟩ := hx.hash_eq
  rw [hback, groupBytes_succ hr, append_assoc, take_left' (length_bigEndian _ _)]

theorem slice_groups (hx : Represents oracle r a x) (hr : r ≤ p.K) :
    slice x.hash p.collisionByteLength ((p.K + 1 - (r + 1)) * p.collisionByteLength) =
      groupBytes p (r + 1) (xorHashes oracle a) := by
  obtain ⟨back, hback⟩ := hx.hash_eq
  have hslice := slice_left
    (bigEndian p.collisionByteLength (collisionGroup p r (xorHashes oracle a)))
    (length_groupBytes p (r + 1) (xorHashes oracle a)) (a.flatMap ehIndexToArray ++ back)
  rwa [length_bigEndian, ← append_assoc, ← groupBytes_succ hr, ← hback] at hslice

theorem slice_indices (hx : Represents oracle r a x) :
    slice x.hash ((p.K + 1 - r) * p.collisionByteLength) (4 * 2 ^ r) =
      a.flatMap ehIndexToArray := by
  obtain ⟨back, hback⟩ := hx.hash_eq
  have hslice := slice_left (groupBytes p r (xorHashes oracle a)) (length_flatMap_index a)
    back
  rwa [length_groupBytes, hx.length_eq, ← hback] at hslice

theorem slice_index (hx : Represents oracle r a x) {i v : ℕ} (hv : a[i]? = some v) :
    slice x.hash ((p.K + 1 - r) * p.collisionByteLength + 4 * i) 4 = ehIndexToArray v := by
  obtain ⟨back, hback⟩ := hx.hash_eq
  rw [hback, ← length_groupBytes p r (xorHashes oracle a), slice_append_add, slice_flatMap_index hv]

/-- `HasCollision` compares the first groups that are left. -/
theorem hasCollision_iff (hx : Represents oracle r a x) (hy : Represents oracle r b y)
    (hr : r ≤ p.K) : hasCollision x y p.collisionByteLength = true ↔
      collisionGroup p r (xorHashes oracle a) = collisionGroup p r (xorHashes oracle b) := by
  rw [hasCollision, decide_eq_true_iff, hx.take_hash hr, hy.take_hash hr, bigEndian_eq_iff,
    Nat.mod_eq_of_lt (collisionGroup_lt _ _ _), Nat.mod_eq_of_lt (collisionGroup_lt _ _ _)]

/-- `IndicesBefore` compares the blocks. -/
theorem indicesBefore_iff (hx : Represents oracle r a x) (hy : Represents oracle r b y) :
    x.indicesBefore y ((p.K + 1 - r) * p.collisionByteLength) (4 * 2 ^ r) = true ↔ a < b := by
  rw [FullStepRow.indicesBefore, decide_eq_true_iff, hx.slice_indices, hy.slice_indices,
    flatMap_index_lt (hx.length_eq.trans hy.length_eq.symm) hx.lt hy.lt]

/-- `DistinctIndices` looks for an index of both blocks. -/
theorem distinctIndices_iff (hx : Represents oracle r a x) (hy : Represents oracle r b y) :
    distinctIndices x y ((p.K + 1 - r) * p.collisionByteLength) (4 * 2 ^ r) = true ↔
      a.Disjoint b := by
  have hcount : (4 * 2 ^ r + 3) / 4 = 2 ^ r := by omega
  have hat : ∀ {block : List ℕ} {j : ℕ}, block.length = 2 ^ r → j < 2 ^ r →
      ∃ v, block[j]? = some v ∧ v ∈ block := by
    intro block j hlen hj
    exact ⟨_, getElem?_eq_getElem (by omega), getElem_mem _⟩
  simp only [distinctIndices, hcount, all_eq_true, mem_range, decide_eq_true_iff]
  constructor
  · intro hall v hva hvb
    obtain ⟨i, hi⟩ := getElem?_of_mem hva
    obtain ⟨j, hj⟩ := getElem?_of_mem hvb
    have hia := (List.getElem?_eq_some_iff.1 hi).1
    have hjb := (List.getElem?_eq_some_iff.1 hj).1
    refine hall i (hx.length_eq ▸ hia) j (hy.length_eq ▸ hjb) ?_
    rw [hx.slice_index hi, hy.slice_index hj]
  · intro hdisjoint i hi j hj heq
    obtain ⟨u, hu, hua⟩ := hat hx.length_eq hi
    obtain ⟨v, hv, hvb⟩ := hat hy.length_eq hj
    rw [hx.slice_index hu, hy.slice_index hv, ehIndexToArray_inj (hx.lt u hua) (hy.lt v hvb)] at heq
    exact hdisjoint hua (heq ▸ hvb)

/-- `IsZero` tests the last group. -/
theorem isZero_iff (hx : Represents oracle p.K a x) :
    x.isZero p.collisionByteLength = true ↔ collisionGroup p p.K (xorHashes oracle a) = 0 := by
  rw [FullStepRow.isZero, hx.take_hash le_rfl, all_bigEndian_eq_zero (collisionGroup_lt _ _ _)]

/-- **A merged row stands for both blocks, the first one in front.** -/
theorem merge (hx : Represents oracle r a x) (hy : Represents oracle r b y) (hr : r < p.K)
    (hab : a < b) :
    ∃ row, FullStepRow.merge p x y ((p.K + 1 - r) * p.collisionByteLength) (4 * 2 ^ r)
        p.collisionByteLength = some row ∧ Represents oracle (r + 1) (a ++ b) row := by
  have hbefore := (hx.indicesBefore_iff hy).2 hab
  obtain ⟨hwidth, hwidth'⟩ := p.width_le hr
  have htrim : (p.K + 1 - r) * p.collisionByteLength - p.collisionByteLength =
      (p.K + 1 - (r + 1)) * p.collisionByteLength := by
    rw [show p.K + 1 - r = p.K + 1 - (r + 1) + 1 by omega, Nat.succ_mul, Nat.add_sub_cancel]
  have hdouble : 2 * (4 * 2 ^ r) = 4 * 2 ^ (r + 1) := by rw [pow_succ]; omega
  have hgroups := length_groupBytes p (r + 1) (xorHashes oracle (a ++ b))
  have hindices : (a.flatMap ehIndexToArray).length = 4 * 2 ^ r := by
    rw [length_flatMap_index, hx.length_eq]
  have hrow : FullStepRow.merge p x y ((p.K + 1 - r) * p.collisionByteLength) (4 * 2 ^ r)
      p.collisionByteLength = some ⟨writeAt (writeAt (writeAt x.hash 0
          (groupBytes p (r + 1) (xorHashes oracle (a ++ b))))
        ((p.K + 1 - (r + 1)) * p.collisionByteLength) (a.flatMap ehIndexToArray))
        ((p.K + 1 - (r + 1)) * p.collisionByteLength + 4 * 2 ^ r)
        (b.flatMap ehIndexToArray)⟩ := by
    rw [FullStepRow.merge, htrim, hdouble, if_pos ⟨hwidth, hwidth'⟩, if_pos hbefore,
      hx.slice_groups hr.le, hy.slice_groups hr.le, groupBytes_xor, ← xorHashes_append,
      hx.slice_indices, hy.slice_indices]
  have hlen : (a ++ b).length = 2 ^ (r + 1) := by
    rw [length_append, hx.length_eq, hy.length_eq, pow_succ, Nat.mul_two]
  have hlt : ∀ i ∈ a ++ b, i < 2 ^ 32 := fun i hi => (mem_append.1 hi).elim (hx.lt i) (hy.lt i)
  -- each part is written right behind the one before
  have hback : ∀ back, writeAt (writeAt (groupBytes p (r + 1) (xorHashes oracle (a ++ b)) ++ back)
        ((p.K + 1 - (r + 1)) * p.collisionByteLength) (a.flatMap ehIndexToArray))
        ((p.K + 1 - (r + 1)) * p.collisionByteLength + 4 * 2 ^ r) (b.flatMap ehIndexToArray) =
      groupBytes p (r + 1) (xorHashes oracle (a ++ b)) ++ ((a ++ b).flatMap ehIndexToArray ++
        (back.drop (4 * 2 ^ r)).drop (4 * b.length)) := by
    intro back
    rw [← hgroups, writeAt_append, ← hindices, ← length_append, ← append_assoc, writeAt_append,
      length_flatMap_index b, flatMap_append, append_assoc, append_assoc]
  exact ⟨_, hrow, hlen, hlt, _, by rw [writeAt_zero]; exact hback _⟩

end Represents

end Equihash
end Komodo
