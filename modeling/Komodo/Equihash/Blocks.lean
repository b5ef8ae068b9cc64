/-
# Blocks of indices in bytes

The hashes of indices, their collision groups, and the bytes in which a row keeps groups and
indices.

Big-endian bytes of one width compare like the numbers (`bigEndian_lt`), and blocks of one length
like their bytes (`flatMap_index_lt`).  `ExpandArray` finds the groups of a hash
(`expandArray_hashIn`): the bits behind the first `N` are too few for another group.
-/

import Komodo.Equihash.Rows

namespace Komodo
namespace Equihash

open BitStrings Der List Nat

/-! ### Big-endian bytes -/

section lists
variable {α : Type}

theorem append_lt_append_iff [LT α] {p q s t : List α} (h : p.length = q.length) :
    p ++ s < q ++ t ↔ p < q ∨ p = q ∧ s < t := by
  induction p generalizing q with
  | nil =>
    obtain rfl := length_eq_zero_iff.1 h.symm
    simp
  | cons a p ih =>
    cases q with
    | nil => cases h
    | cons b q =>
      have hpq := ih (succ.inj h)
      rw [cons_append, cons_append, cons_lt_cons_iff, cons_lt_cons_iff, hpq, cons.injEq]
      tauto

end lists

theorem bigEndian_mod (w n : ℕ) : bigEndian w (n % 256 ^ w) = bigEndian w n := by
  induction w generalizing n with
  | zero => rfl
  | succ w ih =>
    have hhigh : n % 256 ^ (w + 1) / 256 = n / 256 % 256 ^ w := by
      rw [pow_succ', mod_mul_right_div_self]
    have hlow : UInt8.ofNat (n % 256 ^ (w + 1)) = UInt8.ofNat n := by
      apply UInt8.toNat_inj.1
      rw [UInt8.toNat_ofNat', UInt8.toNat_ofNat']
      exact mod_mod_of_dvd _ (Dvd.intro_left _ (pow_succ 256 w).symm)
    rw [bigEndian, bigEndian, hhigh, ih, hlow]

theorem bigEndian_eq_iff {w x y : ℕ} :
    bigEndian w x = bigEndian w y ↔ x % 256 ^ w = y % 256 ^ w := by
  refine ⟨bigEndian_inj, fun h => ?_⟩
  rw [← bigEndian_mod w x, h, bigEndian_mod]

theorem bigEndian_lt {w x y : ℕ} : bigEndian w x < bigEndian w y ↔ x % 256 ^ w < y % 256 ^ w := by
  induction w generalizing x y with
  | zero => simp [bigEndian, mod_one]
  | succ w ih =>
    have hx : x % 256 ^ (w + 1) = x % 256 + 256 * (x / 256 % 256 ^ w) := by
      rw [pow_succ', mod_mul]
    have hy : y % 256 ^ (w + 1) = y % 256 + 256 * (y / 256 % 256 ^ w) := by
      rw [pow_succ', mod_mul]
    have hlast : ([UInt8.ofNat x] < [UInt8.ofNat y]) ↔ x % 256 < y % 256 := by
      rw [cons_lt_cons_iff, UInt8.lt_iff_toNat_lt, UInt8.toNat_ofNat', UInt8.toNat_ofNat']
      simp
    have hxlt := mod_lt x (by decide : 0 < 256)
    have hylt := mod_lt y (by decide : 0 < 256)
    rw [bigEndian, bigEndian, append_lt_append_iff (by simp), ih, bigEndian_eq_iff, hlast, hx, hy]
    omega

theorem bigEndian_xor (w x y : ℕ) :
    zipWith (· ^^^ ·) (bigEndian w x) (bigEndian w y) = bigEndian w (x ^^^ y) := by
  induction w generalizing x y with
  | zero => rfl
  | succ w ih =>
    have hhigh : x / 256 ^^^ y / 256 = (x ^^^ y) / 256 := (xor_div_two_pow (n := 8)).symm
    have hlow : UInt8.ofNat x ^^^ UInt8.ofNat y = UInt8.ofNat (x ^^^ y) := by
      apply UInt8.toNat_inj.1
      rw [UInt8.toNat_xor, UInt8.toNat_ofNat', UInt8.toNat_ofNat', UInt8.toNat_ofNat']
      exact (xor_mod_two_pow (n := 8)).symm
    rw [bigEndian, bigEndian, bigEndian, zipWith_append (by simp), ih, hhigh]
    exact congrArg _ (congrArg (fun b => [b]) hlow)

theorem all_bigEndian_eq_zero {w x : ℕ} (h : x < 256 ^ w) :
    (bigEndian w x).all (· = 0) ↔ x = 0 := by
  have hzero : bigEndian w 0 = replicate w 0 := by
    rw [bigEndian_eq_map]
    refine eq_replicate_iff.2 ⟨by simp, fun b hb => ?_⟩
    obtain ⟨i, -, rfl⟩ := mem_map.1 hb
    rw [Nat.zero_div]
    rfl
  have hall : (bigEndian w x).all (· = 0) ↔ bigEndian w x = bigEndian w 0 := by
    rw [hzero, eq_replicate_iff, all_eq_true]
    simp
  rw [hall, bigEndian_eq_iff, mod_eq_of_lt h, zero_mod]

theorem ehIndexToArray_lt {i j : ℕ} (hi : i < 2 ^ 32) (hj : j < 2 ^ 32) :
    ehIndexToArray i < ehIndexToArray j ↔ i < j := by
  rw [ehIndexToArray, ehIndexToArray, bigEndian_lt, mod_eq_of_lt (show i < 256 ^ 4 from hi),
    mod_eq_of_lt (show j < 256 ^ 4 from hj)]

theorem ehIndexToArray_inj {i j : ℕ} (hi : i < 2 ^ 32) (hj : j < 2 ^ 32) :
    ehIndexToArray i = ehIndexToArray j ↔ i = j := by
  rw [ehIndexToArray, ehIndexToArray, bigEndian_eq_iff,
    mod_eq_of_lt (show i < 256 ^ 4 from hi), mod_eq_of_lt (show j < 256 ^ 4 from hj)]

@[simp] theorem length_ehIndexToArray (i : ℕ) : (ehIndexToArray i).length = 4 :=
  length_bigEndian 4 i

theorem length_flatMap_index (block : List ℕ) :
    (block.flatMap ehIndexToArray).length = 4 * block.length := by
  induction block with
  | nil => rfl
  | cons i block ih =>
    rw [flatMap_cons, length_append, ih, length_ehIndexToArray, length_cons]
    omega

theorem flatMap_index_lt {s t : List ℕ} (hlen : s.length = t.length) (hs : ∀ i ∈ s, i < 2 ^ 32)
    (ht : ∀ i ∈ t, i < 2 ^ 32) :
    s.flatMap ehIndexToArray < t.flatMap ehIndexToArray ↔ s < t := by
  induction s generalizing t with
  | nil =>
    obtain rfl := length_eq_zero_iff.1 hlen.symm
    simp
  | cons i s ih =>
    cases t with
    | nil => cases hlen
    | cons j t =>
      obtain ⟨hi, hs⟩ := forall_mem_cons.1 hs
      obtain ⟨hj, ht⟩ := forall_mem_cons.1 ht
      rw [flatMap_cons, flatMap_cons, append_lt_append_iff (by simp), ehIndexToArray_lt hi hj,
        ehIndexToArray_inj hi hj, ih (succ.inj hlen) hs ht, cons_lt_cons_iff]

/-- The `i`-th index among bytes. -/
theorem slice_flatMap_index {block : List ℕ} {i v : ℕ} (hv : block[i]? = some v) (rest : Bytes) :
    slice (block.flatMap ehIndexToArray ++ rest) (4 * i) 4 = ehIndexToArray v := by
  induction block generalizing i with
  | nil => cases hv
  | cons u block ih =>
    cases i with
    | zero =>
      cases hv
      rw [slice, mul_zero, drop_zero, flatMap_cons, append_assoc,
        take_left' (length_ehIndexToArray _)]
    | succ i =>
      have hdrop : ((u :: block).flatMap ehIndexToArray ++ rest).drop (4 * (i + 1)) =
          (block.flatMap ehIndexToArray ++ rest).drop (4 * i) := by
        rw [flatMap_cons, append_assoc, mul_succ, add_comm, ← drop_drop,
          drop_left' (length_ehIndexToArray _)]
      rw [slice, hdrop]
      exact ih hv

/-! ### Hashes and their collision groups -/

theorem value_take_drop {bs : List Bool} {a w : ℕ} (h : a + w ≤ bs.length) :
    value ((bs.drop a).take w) = value bs / 2 ^ (bs.length - (a + w)) % 2 ^ w := by
  have hlen : bs.length - a = bs.length - (a + w) + w := by omega
  rw [value_take, value_drop, length_drop, Nat.sub_sub, hlen, pow_add, mod_mul_right_div_self]

namespace Params
variable (p : Params)

theorem N_eq : p.N = (p.K + 1) * p.collisionBitLength := by cases p <;> rfl

theorem widths_group : Widths p.collisionBitLength := by
  cases p <;> exact ⟨by decide, by decide⟩

theorem widths_index : Widths (p.collisionBitLength + 1) := by
  cases p <;> exact ⟨by decide, by decide⟩

/-- The bits that are hashed for an index are those of `K + 1` groups, and fewer than 8 others. -/
theorem groups_of_size : 8 * getSizeInBytes p.N / p.collisionBitLength = p.K + 1 := by
  cases p <;> rfl

theorem N_le_size : p.N ≤ 8 * getSizeInBytes p.N := by cases p <;> decide

theorem width_le {r : ℕ} (hr : r < p.K) :
    (p.K + 1 - r) * p.collisionByteLength + 4 * 2 ^ r ≤ p.finalFullWidth ∧
      (p.K + 1 - (r + 1)) * p.collisionByteLength + 4 * 2 ^ (r + 1) ≤ p.finalFullWidth := by
  have hall : ∀ r < p.K, (p.K + 1 - r) * p.collisionByteLength + 4 * 2 ^ r ≤ p.finalFullWidth ∧
      (p.K + 1 - (r + 1)) * p.collisionByteLength + 4 * 2 ^ (r + 1) ≤ p.finalFullWidth := by
    cases p <;> decide
  exact hall r hr

theorem hashLength_le : p.hashLength ≤ p.finalFullWidth := by cases p <;> decide

end Params

section hashes
variable {p : Params} (oracle : HashOracle p)

/-- The hash of an index: the first `N` bits of what is hashed for it. -/
def hash (i : ℕ) : ℕ := value ((arrayBits (hashIn oracle i)).take p.N)

/-- The `j`-th collision group of a number of `N` bits. -/
def collisionGroup (p : Params) (j h : ℕ) : ℕ :=
  h / 2 ^ (p.N - (j + 1) * p.collisionBitLength) % 2 ^ p.collisionBitLength

/-- The bitwise sum of the hashes of a block of indices. -/
def xorHashes (block : List ℕ) : ℕ := block.foldr (fun i h => hash oracle i ^^^ h) 0

/-- The collision groups from the `r`-th on, each in whole bytes. -/
def groupBytes (p : Params) (r h : ℕ) : Bytes :=
  (List.range' r (p.K + 1 - r)).flatMap fun j =>
    bigEndian p.collisionByteLength (collisionGroup p j h)

theorem length_hashIn (i : ℕ) : (hashIn oracle i).length = getSizeInBytes p.N := by
  have hpos : 0 < p.indicesPerHashOutput := by cases p <;> decide
  have hmod : i % p.indicesPerHashOutput + 1 ≤ p.indicesPerHashOutput := mod_lt i hpos
  have hmul := mul_le_mul_right (getSizeInBytes p.N) hmod
  rw [hashIn, slice, length_take, length_drop, oracle.length_eq, Params.hashOutput]
  rw [add_mul, one_mul] at hmul
  omega

theorem hash_lt (i : ℕ) : hash oracle i < 2 ^ p.N := by
  have hlt := value_lt ((arrayBits (hashIn oracle i)).take p.N)
  have hsize := p.N_le_size
  rwa [length_take, length_arrayBits, length_hashIn, min_eq_left hsize] at hlt

theorem xorHashes_lt (block : List ℕ) : xorHashes oracle block < 2 ^ p.N := by
  induction block with
  | nil => exact Nat.pow_pos (by decide)
  | cons i block ih => exact xor_lt_two_pow (hash_lt oracle i) ih

theorem xorHashes_append (a b : List ℕ) :
    xorHashes oracle (a ++ b) = xorHashes oracle a ^^^ xorHashes oracle b := by
  induction a with
  | nil => exact (zero_xor _).symm
  | cons i a ih =>
    have hcons : ∀ block, xorHashes oracle (i :: block) = hash oracle i ^^^ xorHashes oracle block :=
      fun _ => rfl
    rw [cons_append, hcons, hcons, ih, Nat.xor_assoc]

theorem collisionGroup_lt (p : Params) (j h : ℕ) :
    collisionGroup p j h < 256 ^ p.collisionByteLength :=
  lt_256_pow (Nat.mod_lt _ (Nat.pow_pos (by decide)))

theorem collisionGroup_xor (p : Params) (j g h : ℕ) :
    collisionGroup p j (g ^^^ h) = collisionGroup p j g ^^^ collisionGroup p j h := by
  rw [collisionGroup, xor_div_two_pow, xor_mod_two_pow]
  rfl

/-- All groups of a number are zero when the number is. -/
theorem eq_zero_iff_collisionGroup {p : Params} {h : ℕ} (hlt : h < 2 ^ p.N) :
    h = 0 ↔ ∀ j ≤ p.K, collisionGroup p j h = 0 := by
  constructor
  · rintro rfl j -
    rw [collisionGroup, Nat.zero_div, Nat.zero_mod]
  · intro hgroups
    -- the number has no bits in its first groups
    have hfront : ∀ m ≤ p.K + 1, h / 2 ^ (p.N - m * p.collisionBitLength) = 0 := by
      intro m hm
      induction m with
      | zero => rwa [Nat.zero_mul, Nat.sub_zero, Nat.div_eq_zero_iff_lt (Nat.pow_pos (by decide))]
      | succ m ih =>
        have hmul := mul_le_mul_right p.collisionBitLength hm
        have hsplit : p.N - m * p.collisionBitLength =
            p.N - (m + 1) * p.collisionBitLength + p.collisionBitLength := by
          rw [succ_mul] at hmul ⊢
          have hN := p.N_eq
          omega
        have hhigh := ih (by omega)
        have hgroup := hgroups m (by omega)
        rw [hsplit, pow_add, ← Nat.div_div_eq_div_mul,
          Nat.div_eq_zero_iff_lt (Nat.pow_pos (by decide))] at hhigh
        rwa [collisionGroup, mod_eq_of_lt hhigh] at hgroup
    have hall := hfront (p.K + 1) le_rfl
    rwa [← p.N_eq, Nat.sub_self, pow_zero, Nat.div_one] at hall

theorem length_groupBytes (p : Params) (r h : ℕ) :
    (groupBytes p r h).length = (p.K + 1 - r) * p.collisionByteLength := by
  rw [groupBytes, length_flatMap]
  simp

theorem groupBytes_succ {p : Params} {r : ℕ} (hr : r ≤ p.K) (h : ℕ) :
    groupBytes p r h = bigEndian p.collisionByteLength (collisionGroup p r h) ++
      groupBytes p (r + 1) h := by
  rw [groupBytes, show p.K + 1 - r = p.K + 1 - (r + 1) + 1 by omega, range'_succ,
    flatMap_cons, groupBytes]

theorem groupBytes_xor (p : Params) (r g h : ℕ) :
    zipWith (· ^^^ ·) (groupBytes p r g) (groupBytes p r h) = groupBytes p r (g ^^^ h) := by
  rw [groupBytes, groupBytes, groupBytes]
  generalize range' r (p.K + 1 - r) = groups
  induction groups with
  | nil => rfl
  | cons j groups ih =>
    rw [flatMap_cons, flatMap_cons, flatMap_cons,
      zipWith_append (by simp), ih, bigEndian_xor, collisionGroup_xor]

/-- `ExpandArray` finds the collision groups of the hash. -/
theorem expandArray_hashIn (i : ℕ) :
    expandArray (hashIn oracle i) p.hashLength p.collisionBitLength 0 =
      some (groupBytes p 0 (hash oracle i)) := by
  have hlen := length_hashIn oracle i
  have hsize := p.N_le_size
  have hwidths := p.widths_group
  have hout : p.hashLength = 8 * ((p.collisionBitLength + 7) / 8 + 0) * getSizeInBytes p.N /
      p.collisionBitLength := by cases p <;> rfl
  have hloop := expandLoop_eq hwidths 0 (hashIn oracle i) (holds_nil _)
    (lt_of_lt_of_le (by decide) hwidths.1)
  have hgroup : ∀ j < p.K + 1, value (((arrayBits (hashIn oracle i)).drop
      (p.collisionBitLength * j)).take p.collisionBitLength) =
        collisionGroup p j (hash oracle i) := by
    intro j hj
    have hmul := mul_le_mul_left p.collisionBitLength hj
    have hN := p.N_eq
    rw [mul_comm _ p.collisionBitLength] at hN
    rw [mul_succ, ← hN] at hmul
    have hexp : 8 * getSizeInBytes p.N - (p.collisionBitLength * j + p.collisionBitLength) =
        8 * getSizeInBytes p.N - p.N + (p.N - (j + 1) * p.collisionBitLength) := by
      rw [mul_comm (j + 1), mul_succ]
      omega
    rw [value_take_drop (by rw [length_arrayBits, hlen]; omega), collisionGroup, hash, value_take,
      length_arrayBits, hlen, Nat.div_div_eq_div_mul, ← pow_add, hexp]
  rw [length_nil, zero_add, hlen, p.groups_of_size, nil_append,
    chunks_eq_map_range, flatMap_map] at hloop
  rw [expandArray, hlen, if_pos ⟨hwidths.1, by have := hwidths.2; omega, hout⟩]
  refine congrArg some (hloop.trans ?_)
  rw [groupBytes, Nat.sub_zero, ← range_eq_range', flatMap_def, flatMap_def]
  refine congrArg flatten (map_congr_left fun j hj => ?_)
  rw [hgroup j (mem_range.1 hj), add_zero, Params.collisionByteLength]

end hashes

end Equihash
end Komodo
