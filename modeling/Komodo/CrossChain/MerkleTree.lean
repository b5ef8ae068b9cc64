/-
# The merkle trees of the source

Two programs build merkle trees. `BuildMerkleTree` of `src/src/primitives/block.cpp` writes all
levels one behind the other into one vector, from which `GetMerkleBranch` reads a branch;
`ComputeMerkleRoot` of `src/src/consensus/merkle.cpp` replaces a level by the next one, after a
copy of an odd last node. Both are the tree of `Lib.HashTree` (`buildMerkleTree_eq`,
`getMerkleBranch_eq`, `computeMerkleRoot_eq`).

A branch is followed by `CBlock::CheckMerkleBranch`, and by `SafeCheckMerkleBranch`, which refuses
what is not canonical. `Leads` says that a branch goes from a leaf to a root and is canonical;
branches that lead on from one another are concatenated by `operator<<` of `MerkleBranch`, whose
index is an `int` (`Leads.append`).
-/

import Komodo.CrossChain.MerkleBranch
import Komodo.CC.Checks
import Komodo.Lib.HashTree

namespace Komodo

open HashTree List Int

variable (hash2 : Uint256 → Uint256 → Uint256)

/-! ### Building -/

/-- The hashes that `BuildMerkleTree` appends for a level of `nSize` nodes behind `j` others. -/
def buildMerkleLevel (vMerkleTree : List Uint256) (j nSize : ℕ) : List Uint256 :=
  (List.range ((nSize + 1) / 2)).map fun k =>
    let i := 2 * k
    let i2 := min (i + 1) (nSize - 1)
    hash2 (vMerkleTree.getD (j + i) 0) (vMerkleTree.getD (j + i2) 0)

/-- The outer loop of `BuildMerkleTree`. -/
def buildMerkleLoop (vMerkleTree : List Uint256) (j nSize : ℕ) : List Uint256 :=
  if 1 < nSize then
    buildMerkleLoop (vMerkleTree ++ buildMerkleLevel hash2 vMerkleTree j nSize) (j + nSize)
      ((nSize + 1) / 2)
  else vMerkleTree
termination_by nSize

/-- `BuildMerkleTree`: the vector of all nodes. No caller here reads the flag for mutations. -/
def buildMerkleTree (leaves : List Uint256) : List Uint256 :=
  buildMerkleLoop hash2 leaves 0 leaves.length

/-- The loop of `GetMerkleBranch`. -/
def getMerkleBranchLoop (vMerkleTree : List Uint256) (nIndex nSize j : ℕ) : List Uint256 :=
  if 1 < nSize then
    let i := min (nIndex ^^^ 1) (nSize - 1)
    vMerkleTree.getD (j + i) 0
      :: getMerkleBranchLoop vMerkleTree (nIndex / 2) ((nSize + 1) / 2) (j + nSize)
  else []
termination_by nSize

def getMerkleBranch (nIndex nLeaves : ℕ) (vMerkleTree : List Uint256) : List Uint256 :=
  getMerkleBranchLoop vMerkleTree nIndex nLeaves 0

/-- `SHA256D64`: the hashes of pairs. -/
def sha256D64 (hashes : List Uint256) (blocks : ℕ) : List Uint256 :=
  (List.range blocks).map fun i => hash2 (hashes.getD (2 * i) 0) (hashes.getD (2 * i + 1) 0)

theorem length_sha256D64 (hashes : List Uint256) (blocks : ℕ) :
    (sha256D64 hash2 hashes blocks).length = blocks := by
  simp [sha256D64]

/-- What is pushed to an odd number of hashes. -/
def evenHashes (hashes : List Uint256) : List Uint256 :=
  if hashes.length % 2 = 1 then hashes ++ [hashes.getLastD 0] else hashes

theorem length_evenHashes (hashes : List Uint256) :
    (evenHashes hashes).length = 2 * ((hashes.length + 1) / 2) := by
  unfold evenHashes
  split_ifs
  · rw [length_append, length_singleton]
    omega
  · omega

/-- `ComputeMerkleRoot`, and `GetMerkleRoot`. -/
def computeMerkleRoot (hashes : List Uint256) : Uint256 :=
  if 1 < hashes.length then
    computeMerkleRoot (sha256D64 hash2 (evenHashes hashes) ((evenHashes hashes).length / 2))
  else hashes.getD 0 0
termination_by hashes.length
decreasing_by rw [length_sha256D64, length_evenHashes]; omega

/-! ### Following a branch -/

/-- The loop of `CBlock::CheckMerkleBranch`. -/
def checkMerkleBranchLoop : (hash : Uint256) → (vMerkleBranch : List Uint256) → (nIndex : ℤ) →
    Uint256
  | hash, [], _ => hash
  | hash, node :: vMerkleBranch, nIndex =>
    checkMerkleBranchLoop (if nIndex % 2 = 1 then hash2 node hash else hash2 hash node)
      vMerkleBranch (nIndex / 2)

def checkMerkleBranch (hash : Uint256) (vMerkleBranch : List Uint256) (nIndex : ℤ) : Uint256 :=
  if nIndex = -1 then 0 else checkMerkleBranchLoop hash2 hash vMerkleBranch nIndex

/-- A result of `int` arithmetic. -/
def toInt (n : ℤ) : ℤ := n.bmod (2 ^ 32)

/-- `n << k`; a shift by all the bits of an `int` has no meaning. -/
def shiftLeft (n : ℤ) (k : ℕ) : Checked ℤ :=
  if k < 32 then .ok (toInt (n * 2 ^ k)) else .error .undefined

/-- `operator<<` of `MerkleBranch`. -/
def MerkleBranch.append (b append : MerkleBranch) : Checked MerkleBranch := do
  let shifted ← shiftLeft append.nIndex b.branch.length
  pure ⟨toInt (b.nIndex + shifted), b.branch ++ append.branch⟩

variable {hash2}

/-! ### The trees -/

theorem length_buildMerkleLevel (vMerkleTree : List Uint256) (j nSize : ℕ) :
    (buildMerkleLevel hash2 vMerkleTree j nSize).length = (nSize + 1) / 2 := by
  simp [buildMerkleLevel]

theorem getD_append_length (before level : List Uint256) (i : ℕ) :
    (before ++ level).getD (before.length + i) 0 = level.getD i 0 := by
  rw [getD_append_right _ _ _ _ (by omega), Nat.add_sub_cancel_left]

theorem buildMerkleLevel_eq (before level : List Uint256) :
    buildMerkleLevel hash2 (before ++ level) before.length level.length
      = nextLevel hash2 level := by
  refine ext_getElem ?_ fun k hk hk' => ?_
  · rw [length_buildMerkleLevel, length_nextLevel]
  · rw [length_buildMerkleLevel] at hk
    rw [← getD_eq_getElem _ (default : Uint256) hk', getD_nextLevel hk]
    simp only [buildMerkleLevel, getElem_map, getElem_range, getD_append_length]
    rfl

theorem buildMerkleLoop_eq (before level : List Uint256) :
    buildMerkleLoop hash2 (before ++ level) before.length level.length
      = before ++ nodes hash2 level := by
  induction hn : level.length using Nat.strong_induction_on generalizing before level
  rename_i n ih
  rw [buildMerkleLoop, nodes, hn]
  split_ifs with hmany
  · have hlen := length_nextLevel hash2 level
    have hnext := ih _ (by omega) (before ++ level) (nextLevel hash2 level) rfl
    rw [hlen, length_append, hn] at hnext
    rw [← hn, buildMerkleLevel_eq, hn, hnext, append_assoc]
  · rfl

/-- `BuildMerkleTree` writes the levels. -/
theorem buildMerkleTree_eq (leaves : List Uint256) :
    buildMerkleTree hash2 leaves = nodes hash2 leaves :=
  buildMerkleLoop_eq [] leaves

theorem getMerkleBranchLoop_eq (before level : List Uint256) (i : ℕ) :
    getMerkleBranchLoop (before ++ nodes hash2 level) i level.length before.length
      = path hash2 level i := by
  induction hn : level.length using Nat.strong_induction_on generalizing before level i
  rename_i n ih
  rw [getMerkleBranchLoop, path, nodes, hn]
  split_ifs with hmany
  · have hlen := length_nextLevel hash2 level
    have hnext := ih _ (by omega) (before ++ level) (nextLevel hash2 level) (i / 2) rfl
    rw [hlen, length_append, hn] at hnext
    have hin : min (i ^^^ 1) (n - 1) < level.length := by omega
    show (before ++ (level ++ nodes hash2 (nextLevel hash2 level))).getD
      (before.length + min (i ^^^ 1) (n - 1)) 0 :: _ = _
    rw [getD_append_length, getD_append _ _ _ _ hin, ← append_assoc, hnext]
    rfl
  · rfl

/-- `GetMerkleBranch` reads a path from what `BuildMerkleTree` has written. -/
theorem getMerkleBranch_eq (leaves : List Uint256) (i : ℕ) :
    getMerkleBranch i leaves.length (buildMerkleTree hash2 leaves) = path hash2 leaves i := by
  rw [buildMerkleTree_eq]
  exact getMerkleBranchLoop_eq [] leaves i

theorem getD_evenHashes (hashes : List Uint256) {i : ℕ} (hi : i < (evenHashes hashes).length) :
    (evenHashes hashes).getD i 0 = hashes.getD (min i (hashes.length - 1)) 0 := by
  have hlen := length_evenHashes hashes
  unfold evenHashes
  split_ifs with hodd
  · rcases Nat.lt_or_ge i hashes.length with hin | hlast
    · have hmin : min i (hashes.length - 1) = i := by omega
      rw [getD_append _ _ _ _ hin, hmin]
    · have hi' : i = hashes.length := by omega
      have hmin : min i (hashes.length - 1) = hashes.length - 1 := by omega
      rw [getD_append_right _ _ _ _ hlast, hmin, hi', Nat.sub_self, getD_cons_zero,
        getLastD_eq_getLast?, getLast?_eq_getElem?, getD_eq_getElem?_getD]
  · have hmin : min i (hashes.length - 1) = i := by omega
    rw [hmin]

theorem sha256D64_eq (hashes : List Uint256) :
    sha256D64 hash2 (evenHashes hashes) ((evenHashes hashes).length / 2)
      = nextLevel hash2 hashes := by
  have hlen := length_evenHashes hashes
  refine ext_getElem ?_ fun k hk hk' => ?_
  · rw [length_sha256D64, length_nextLevel]
    omega
  · rw [length_sha256D64] at hk
    rw [← getD_eq_getElem _ (default : Uint256) hk', getD_nextLevel (by omega)]
    have hmin : min (2 * k) (hashes.length - 1) = 2 * k := by omega
    simp only [sha256D64, getElem_map, getElem_range]
    rw [getD_evenHashes hashes (by omega), getD_evenHashes hashes (by omega), hmin]
    rfl

/-- `ComputeMerkleRoot` computes the same root. -/
theorem computeMerkleRoot_eq (hashes : List Uint256) :
    computeMerkleRoot hash2 hashes = root hash2 hashes := by
  induction hn : hashes.length using Nat.strong_induction_on generalizing hashes
  rename_i n ih
  have hlen := length_nextLevel hash2 hashes
  rw [computeMerkleRoot, root, sha256D64_eq]
  split_ifs with hmany
  · exact ih _ (by omega) _ rfl
  · rfl

/-! ### The branches -/

section
variable {a r : Uint256} {branch : List Uint256} {b c : MerkleBranch}

theorem intCast_half (i : ℕ) : ((i : ℤ) % 2 = 1 ↔ i % 2 = 1) ∧ (i : ℤ) / 2 = (i / 2 : ℕ) := by
  omega

theorem checkMerkleBranch_eq (i : ℕ) :
    checkMerkleBranch hash2 a branch i = climb hash2 a branch i := by
  rw [checkMerkleBranch, if_neg (by omega)]
  induction branch generalizing a i with
  | nil => rfl
  | cons node branch ih =>
    obtain ⟨hmod, hdiv⟩ := intCast_half i
    rw [checkMerkleBranchLoop, climb, hdiv, ih]
    simp only [hmod]

/-- `SafeCheckMerkleBranch` of a canonical branch. -/
theorem safeCheckMerkleBranch_eq {i : ℕ} (h : Canonical hash2 a branch i) :
    safeCheckMerkleBranch hash2 a branch i = climb hash2 a branch i := by
  rw [safeCheckMerkleBranch, if_neg (by omega)]
  induction branch generalizing a i with
  | nil => rfl
  | cons node branch ih =>
    obtain ⟨hmod, hdiv⟩ := intCast_half i
    obtain ⟨hne, hrest⟩ := h
    rw [merkleBranchLoop, climb, hdiv]
    by_cases hodd : i % 2 = 1
    · rw [if_pos hodd] at hrest ⊢
      rw [if_pos (hmod.2 hodd), if_neg (hne hodd)]
      exact ih hrest
    · rw [if_neg hodd] at hrest ⊢
      rw [if_neg (mt hmod.1 hodd)]
      exact ih hrest

/-- And of one that is not. -/
theorem safeCheckMerkleBranch_of_not {i : ℕ} (h : ¬ Canonical hash2 a branch i) :
    safeCheckMerkleBranch hash2 a branch i = 0 := by
  rw [safeCheckMerkleBranch, if_neg (by omega)]
  induction branch generalizing a i with
  | nil => exact absurd trivial h
  | cons node branch ih =>
    obtain ⟨hmod, hdiv⟩ := intCast_half i
    rw [Canonical, not_and_or] at h
    rw [merkleBranchLoop, hdiv]
    by_cases hodd : i % 2 = 1
    · rw [if_pos hodd] at h
      rw [if_pos (hmod.2 hodd)]
      split_ifs with heq
      · rfl
      · exact ih (h.resolve_left fun hne => hne fun _ => heq)
    · rw [if_neg hodd] at h
      rw [if_neg (mt hmod.1 hodd)]
      exact ih (h.resolve_left fun hne => hne fun hodd' => absurd hodd' hodd)

theorem canonical_of_safeCheck {i : ℕ} (hnull : ∀ x y, hash2 x y ≠ 0)
    (h : safeCheckMerkleBranch hash2 a branch i = climb hash2 a branch i) :
    Canonical hash2 a branch i := by
  by_contra hnot
  rw [safeCheckMerkleBranch_of_not hnot] at h
  refine climb_ne hnull (fun hnil => hnot ?_) h.symm
  rw [hnil]
  trivial

theorem toInt_of_range {n : ℤ} (hlow : 0 ≤ n) (hhigh : n < 2 ^ 31) : toInt n = n := by
  unfold toInt
  rw [bmod_def]
  omega

/-- The index of a branch of `n` levels on one of `m`, as `GetAssetchainProof` computes it. -/
theorem toInt_shifted_add {i j m n : ℕ} {shifted : ℤ} (hi : i < 2 ^ m) (hj : j < 2 ^ n)
    (hlen : m + n < 32) (h : shiftLeft j m = .ok shifted) :
    toInt (shifted + i) = (i + j * 2 ^ m : ℕ) := by
  have hlt : i + j * 2 ^ m < 2 ^ 31 :=
    lt_of_lt_of_le (add_mul_two_pow_lt hi hj) (Nat.pow_le_pow_right (by decide) (by omega))
  have hcast : (j : ℤ) * 2 ^ m = (j * 2 ^ m : ℕ) := by
    push_cast
    rfl
  rw [shiftLeft, if_pos (by omega), hcast, toInt_of_range (by omega) (by omega)] at h
  rw [← Except.ok.inj h, toInt_of_range (by omega) (by omega)]
  omega

/-- The branch goes from the leaf to the root, and it is canonical. -/
structure MerkleBranch.Leads (hash2 : Uint256 → Uint256 → Uint256) (b : MerkleBranch)
    (a r : Uint256) : Prop where
  nonneg : 0 ≤ b.nIndex
  lt : b.nIndex < 2 ^ b.branch.length
  canonical : Canonical hash2 a b.branch b.nIndex.toNat
  climb : climb hash2 a b.branch b.nIndex.toNat = r

theorem MerkleBranch.Leads.exec (h : b.Leads hash2 a r) : b.exec hash2 a = r := by
  have hexec := safeCheckMerkleBranch_eq h.canonical
  rw [toNat_of_nonneg h.nonneg, h.climb] at hexec
  exact hexec

theorem MerkleBranch.Leads.index_lt {i : ℕ} (h : MerkleBranch.Leads hash2 ⟨i, branch⟩ a r) :
    i < 2 ^ branch.length := by
  have hlt : (i : ℤ) < 2 ^ branch.length := h.lt
  exact_mod_cast hlt

/-- A branch on another one. -/
theorem MerkleBranch.Leads.join {s : Uint256} (h : b.Leads hash2 a r) (h' : c.Leads hash2 r s) :
    MerkleBranch.Leads hash2
      ⟨b.nIndex + c.nIndex * 2 ^ b.branch.length, b.branch ++ c.branch⟩ a s := by
  obtain ⟨i, hi⟩ := eq_ofNat_of_zero_le h.nonneg
  obtain ⟨j, hj⟩ := eq_ofNat_of_zero_le h'.nonneg
  obtain ⟨-, hlt, hcanonical, hclimb⟩ := h
  obtain ⟨-, hlt', hcanonical', hclimb'⟩ := h'
  rw [hi] at hlt hcanonical hclimb ⊢
  rw [hj] at hlt' hcanonical' hclimb' ⊢
  rw [toNat_natCast] at hcanonical hclimb hcanonical' hclimb'
  have hltNat : i < 2 ^ b.branch.length := by exact_mod_cast hlt
  have hltNat' : j < 2 ^ c.branch.length := by exact_mod_cast hlt'
  have hindex : (i : ℤ) + j * 2 ^ b.branch.length = (i + j * 2 ^ b.branch.length : ℕ) := by
    push_cast
    rfl
  have hjoined : i + j * 2 ^ b.branch.length < 2 ^ (b.branch ++ c.branch).length := by
    rw [length_append]
    exact add_mul_two_pow_lt hltNat hltNat'
  rw [hindex]
  refine ⟨natCast_nonneg _, ?_, ?_, ?_⟩
  · show ((i + j * 2 ^ b.branch.length : ℕ) : ℤ) < 2 ^ (b.branch ++ c.branch).length
    exact_mod_cast hjoined
  · show Canonical hash2 a (b.branch ++ c.branch) (i + j * 2 ^ b.branch.length : ℕ)
    rw [canonical_append hltNat, hclimb]
    exact ⟨hcanonical, hcanonical'⟩
  · show HashTree.climb hash2 a (b.branch ++ c.branch) (i + j * 2 ^ b.branch.length : ℕ) = s
    rw [climb_append hltNat, hclimb, hclimb']

/-- Branches are concatenated as long as the index is an `int`. -/
theorem MerkleBranch.Leads.append {s : Uint256} (h : b.Leads hash2 a r) (h' : c.Leads hash2 r s)
    (hlen : b.branch.length < 32) (hfits : b.nIndex + c.nIndex * 2 ^ b.branch.length < 2 ^ 31) :
    ∃ b', b.append c = .ok b' ∧ b'.Leads hash2 a s := by
  have hjoined := h.join h'
  have hshifted : 0 ≤ c.nIndex * 2 ^ b.branch.length :=
    Int.mul_nonneg h'.nonneg (Int.le_of_lt (Int.pow_pos (by decide)))
  have hnonneg := h.nonneg
  refine ⟨_, ?_, hjoined⟩
  rw [MerkleBranch.append, shiftLeft, if_pos hlen, toInt_of_range hshifted (by omega)]
  show Except.ok _ = _
  rw [toInt_of_range hjoined.nonneg hfits]

theorem leads_getMerkleBranch {leaves : List Uint256} {i : ℕ} (hi : i < leaves.length)
    (hfirst : First leaves i) (hfree : CollisionFree hash2 (buildMerkleTree hash2 leaves)) :
    MerkleBranch.Leads hash2
      ⟨i, getMerkleBranch i leaves.length (buildMerkleTree hash2 leaves)⟩
      (leaves.getD i 0) (computeMerkleRoot hash2 leaves) := by
  rw [getMerkleBranch_eq, computeMerkleRoot_eq]
  rw [buildMerkleTree_eq] at hfree
  refine ⟨natCast_nonneg _, ?_, canonical_path hfree hi hfirst, climb_path hi⟩
  have hlt : i < 2 ^ (path hash2 leaves i).length := lt_two_pow_length_path hi
  show (i : ℤ) < 2 ^ (path hash2 leaves i).length
  exact_mod_cast hlt

end

end Komodo
