/-
# Solutions

`IsValidSolution` accepts the solutions of Equihash (`ValidSolution`): the hashes of all indices sum
to zero, and in the binary tree over them each pair of siblings is in order and sums to zero on one
group more than the pairs below.

The rounds go up in the tree: the rows of round `r` stand for the blocks of `2 ^ r` indices
(`mergePairs_blocks`, `rounds_blocks`).  A round asks less of a pair than a solution does
(`Siblings`): only the next group is compared, since the groups before it are zero in both rows,
and only the indices of siblings are compared, since each of two equal indices is below one of some
pair of siblings.
-/

import Komodo.Equihash.Represents

namespace Komodo
namespace Equihash

open BitStrings Der List Nat

/-- The `b`-th block of `2 ^ r` indices. -/
def block (r b : ℕ) (indices : List ℕ) : List ℕ := (indices.drop (2 ^ r * b)).take (2 ^ r)

theorem block_append (r b : ℕ) (indices : List ℕ) :
    block r (2 * b) indices ++ block r (2 * b + 1) indices = block (r + 1) b indices := by
  have hnext : 2 ^ r * (2 * b + 1) = 2 ^ r * (2 * b) + 2 ^ r := mul_succ _ _
  have hpair : 2 ^ (r + 1) * b = 2 ^ r * (2 * b) := by rw [pow_succ, mul_assoc]
  rw [block, block, block, hnext, ← drop_drop, ← take_add, hpair, pow_succ, mul_two]

theorem block_drop (r b : ℕ) (indices : List ℕ) :
    block r b (indices.drop (2 ^ (r + 1))) = block r (b + 2) indices := by
  rw [block, block, drop_drop, pow_succ, mul_add, add_comm]

variable {indices : List ℕ}

theorem block_all {k : ℕ} (h : indices.length = 2 ^ k) :
    block k 0 indices = indices := by
  rw [block, mul_zero, drop_zero, take_of_length_le h.le]

variable {p : Params} {oracle : HashOracle p}

/-! ### One round -/

/-- What a round asks of a pair of blocks. -/
structure Siblings (oracle : HashOracle p) (r : ℕ) (a b : List ℕ) : Prop where
  collide : collisionGroup p r (xorHashes oracle a) = collisionGroup p r (xorHashes oracle b)
  before : a < b
  disjoint : a.Disjoint b

section round
variable {r : ℕ} {a b : List ℕ} {x y : FullStepRow}

theorem mergePairs_siblings (hx : Represents oracle r a x) (hy : Represents oracle r b y)
    (hr : r < p.K) (h : Siblings oracle r a b) :
    ∃ row, Represents oracle (r + 1) (a ++ b) row ∧
      ∀ X, mergePairs p ((p.K + 1 - r) * p.collisionByteLength) (4 * 2 ^ r) (x :: y :: X) =
        (mergePairs p ((p.K + 1 - r) * p.collisionByteLength) (4 * 2 ^ r) X).map
          (Option.map (row :: ·)) := by
  obtain ⟨row, hrow, hmerged⟩ := hx.merge hy hr h.before
  have hcollide := (hx.hasCollision_iff hy hr.le).2 h.collide
  have hdistinct := (hx.distinctIndices_iff hy).2 h.disjoint
  have hordered : y.indicesBefore x ((p.K + 1 - r) * p.collisionByteLength) (4 * 2 ^ r) ≠ true :=
    fun hbefore => List.lt_asymm h.before ((hy.indicesBefore_iff hx).1 hbefore)
  refine ⟨row, hmerged, fun X => ?_⟩
  rw [mergePairs, hcollide, hdistinct, hrow, if_neg (by decide), if_neg hordered,
    if_neg (by decide)]
  cases mergePairs p ((p.K + 1 - r) * p.collisionByteLength) (4 * 2 ^ r) X <;> rfl

theorem mergePairs_not_siblings (hx : Represents oracle r a x) (hy : Represents oracle r b y)
    (hr : r < p.K) (h : ¬ Siblings oracle r a b) (X : List FullStepRow) :
    mergePairs p ((p.K + 1 - r) * p.collisionByteLength) (4 * 2 ^ r) (x :: y :: X) =
      some none := by
  rw [mergePairs]
  split_ifs with hcollide hordered hdistinct
  · rfl
  · rfl
  · rfl
  · exfalso
    rw [Bool.not_eq_true', Bool.not_eq_false, hx.hasCollision_iff hy hr.le] at hcollide
    rw [hy.indicesBefore_iff hx] at hordered
    rw [Bool.not_eq_true', Bool.not_eq_false, hx.distinctIndices_iff hy] at hdistinct
    -- blocks that share no index differ
    have hne : a ≠ b := by
      rintro rfl
      have hpos : 0 < a.length := hx.length_eq ▸ Nat.pow_pos (by decide)
      exact hdistinct (getElem_mem hpos) (getElem_mem hpos)
    have hbefore := (List.le_iff_lt_or_eq.1 (List.not_lt.1 hordered)).resolve_right hne
    exact h ⟨hcollide, hbefore, hdistinct⟩

/-- All pairs of a round are siblings. -/
def AllSiblings (oracle : HashOracle p) (r n : ℕ) (indices : List ℕ) : Prop :=
  ∀ b < n, Siblings oracle r (block r (2 * b) indices) (block r (2 * b + 1) indices)

theorem allSiblings_succ {n : ℕ} {indices : List ℕ} :
    AllSiblings oracle r (n + 1) indices ↔
      Siblings oracle r (block r 0 indices) (block r 1 indices) ∧
        AllSiblings oracle r n (indices.drop (2 ^ (r + 1))) := by
  simp only [AllSiblings, block_drop]
  constructor
  · intro hall
    exact ⟨hall 0 (succ_pos n), fun b hb => hall (b + 1) (succ_lt_succ hb)⟩
  · rintro ⟨hfirst, hrest⟩ b hb
    cases b with
    | zero => exact hfirst
    | succ b => exact hrest b (lt_of_succ_lt_succ hb)

/-- **One round.** Its rows stand for the joined blocks, unless a pair is not one of siblings and
the check returns. -/
theorem mergePairs_blocks (hr : r < p.K) {n : ℕ} {indices : List ℕ} {X : List FullStepRow}
    (hX : List.Forall₂ (Represents oracle r) (chunks (2 ^ r) (2 * n) indices) X) :
    (AllSiblings oracle r n indices ∧
      ∃ Xc, mergePairs p ((p.K + 1 - r) * p.collisionByteLength) (4 * 2 ^ r) X = some (some Xc) ∧
        List.Forall₂ (Represents oracle (r + 1)) (chunks (2 ^ (r + 1)) n indices) Xc) ∨
    (¬ AllSiblings oracle r n indices ∧
      mergePairs p ((p.K + 1 - r) * p.collisionByteLength) (4 * 2 ^ r) X = some none) := by
  induction n generalizing indices X with
  | zero =>
    cases hX
    exact .inl ⟨fun b hb => absurd hb (not_lt_zero b), [], rfl, .nil⟩
  | succ n ih =>
    rw [mul_succ, chunks, chunks, drop_drop, ← mul_two, ← pow_succ] at hX
    obtain ⟨x, X₁, hx, hX₁, rfl⟩ := forall₂_cons_left_iff.1 hX
    obtain ⟨y, X₂, hy, hX₂, rfl⟩ := forall₂_cons_left_iff.1 hX₁
    have hfirst : block r 0 indices = indices.take (2 ^ r) := by
      rw [block, mul_zero, drop_zero]
    have hsecond : block r 1 indices = (indices.drop (2 ^ r)).take (2 ^ r) := by
      rw [block, mul_one]
    rw [← hfirst] at hx
    rw [← hsecond] at hy
    by_cases h : Siblings oracle r (block r 0 indices) (block r 1 indices)
    · obtain ⟨row, hrow, hcons⟩ := mergePairs_siblings hx hy hr h
      rw [hcons, allSiblings_succ]
      rcases ih hX₂ with ⟨hall, Xc, hXc, hblocks⟩ | ⟨hnot, hreturn⟩
      · refine .inl ⟨⟨h, hall⟩, row :: Xc, by rw [hXc]; rfl, ?_⟩
        rw [block_append r 0, block, mul_zero, drop_zero] at hrow
        exact .cons hrow hblocks
      · exact .inr ⟨fun hall => hnot hall.2, by rw [hreturn]; rfl⟩
    · rw [allSiblings_succ]
      exact .inr ⟨fun hall => h hall.1, mergePairs_not_siblings hx hy hr h X₂⟩

end round

/-! ### All rounds -/

/-- What the rounds from the `r`-th on ask of the indices. -/
structure Accepted (oracle : HashOracle p) (r : ℕ) (indices : List ℕ) : Prop where
  siblings : ∀ s, r ≤ s → s < p.K → AllSiblings oracle s (2 ^ (p.K - (s + 1))) indices
  last : collisionGroup p p.K (xorHashes oracle indices) = 0

theorem accepted_iff {r : ℕ} (hr : r < p.K) :
    Accepted oracle r indices ↔
      AllSiblings oracle r (2 ^ (p.K - (r + 1))) indices ∧ Accepted oracle (r + 1) indices := by
  constructor
  · intro h
    exact ⟨h.siblings r le_rfl hr, fun s hs => h.siblings s (le_of_succ_le hs), h.last⟩
  · rintro ⟨hround, h⟩
    refine ⟨fun s hs hsK => ?_, h.last⟩
    rcases eq_or_lt_of_le hs with rfl | hs
    · exact hround
    · exact h.siblings s hs hsK

theorem rounds_succ (fuel : ℕ) {hashLen lenIndices : ℕ} {X : List FullStepRow}
    (h : 1 < X.length) :
    rounds p (fuel + 1) hashLen lenIndices X =
      match mergePairs p hashLen lenIndices X with
      | none => none
      | some none => some false
      | some (some Xc) => rounds p fuel (hashLen - p.collisionByteLength) (lenIndices * 2) Xc := by
  rw [rounds.eq_def]
  exact if_pos h

/-- **The rounds**, by the number `d` of those that are left. -/
theorem rounds_blocks (hlen : indices.length = 2 ^ p.K) {d r fuel : ℕ}
    (hd : r + d = p.K) (hfuel : d < fuel) {X : List FullStepRow}
    (hX : List.Forall₂ (Represents oracle r) (chunks (2 ^ r) (2 ^ d) indices) X) :
    ∃ valid, rounds p fuel ((p.K + 1 - r) * p.collisionByteLength) (4 * 2 ^ r) X = some valid ∧
      (valid = true ↔ Accepted oracle r indices) := by
  induction d generalizing r fuel X with
  | zero =>
    obtain ⟨fuel, rfl⟩ : ∃ n, fuel = n + 1 := ⟨fuel - 1, by omega⟩
    obtain rfl : r = p.K := hd
    have hone : List.Forall₂ (Represents oracle p.K) [indices.take (2 ^ p.K)] X := hX
    obtain ⟨x, X₁, hx, hX₁, rfl⟩ := forall₂_cons_left_iff.1 hone
    cases hX₁
    rw [take_of_length_le hlen.le] at hx
    have hwidth : (p.K + 1 - p.K) * p.collisionByteLength = p.collisionByteLength := by
      rw [Nat.add_sub_cancel_left, Nat.one_mul]
    refine ⟨x.isZero p.collisionByteLength, by rw [hwidth]; rfl, ?_⟩
    rw [hx.isZero_iff]
    exact ⟨fun hlast => ⟨fun s hs hsK => absurd hsK (not_lt.2 hs), hlast⟩, fun h => h.last⟩
  | succ d ih =>
    obtain ⟨fuel, rfl⟩ : ∃ n, fuel = n + 1 := ⟨fuel - 1, by omega⟩
    have hr : r < p.K := by omega
    have hpairs : p.K - (r + 1) = d := by omega
    have hmany : 1 < X.length := by
      rw [← hX.length_eq, length_chunks]
      exact Nat.one_lt_two_pow (Nat.succ_ne_zero d)
    have htrim : (p.K + 1 - r) * p.collisionByteLength - p.collisionByteLength =
        (p.K + 1 - (r + 1)) * p.collisionByteLength := by
      rw [show p.K + 1 - r = p.K + 1 - (r + 1) + 1 by omega, Nat.succ_mul, Nat.add_sub_cancel]
    rw [accepted_iff hr, hpairs, rounds_succ fuel hmany]
    rw [pow_succ' 2 d] at hX
    rcases mergePairs_blocks hr hX with ⟨hall, Xc, hXc, hblocks⟩ | ⟨hnot, hreturn⟩
    · obtain ⟨valid, hvalid, hiff⟩ := ih (r := r + 1) (by omega)
        (lt_of_succ_lt_succ hfuel) hblocks
      refine ⟨valid, ?_, by rw [hiff]; exact (and_iff_right hall).symm⟩
      rw [hXc, htrim, mul_assoc, ← pow_succ]
      exact hvalid
    · exact ⟨false, by rw [hreturn], by simp [hnot]⟩

theorem firstRows_blocks (oracle : HashOracle p) (memory : ℕ → Bytes)
    (hlt : ∀ i ∈ indices, i < 2 ^ 32) (j : ℕ) :
    ∃ X, firstRows oracle memory j indices = some X ∧
      List.Forall₂ (Represents oracle 0) (chunks 1 indices.length indices) X := by
  induction indices generalizing j with
  | nil => exact ⟨[], rfl, .nil⟩
  | cons i indices ih =>
    obtain ⟨hi, hlt⟩ := forall_mem_cons.1 hlt
    obtain ⟨row, hrow, hrepresents⟩ := Represents.ofHash oracle (memory j) hi
    obtain ⟨X, hX, hblocks⟩ := ih hlt (j + 1)
    exact ⟨row :: X, by rw [firstRows, hrow, hX]; rfl, .cons hrepresents hblocks⟩

/-! ### Solutions -/

/-- What Equihash asks of the indices in the leaves of the tree. -/
structure ValidTree (oracle : HashOracle p) (indices : List ℕ) : Prop where
  nodup : indices.Nodup
  siblings : ∀ r < p.K, ∀ b < 2 ^ (p.K - (r + 1)),
    block r (2 * b) indices < block r (2 * b + 1) indices ∧
      ∀ j < r + 1, collisionGroup p j (xorHashes oracle (block r (2 * b) indices) ^^^
        xorHashes oracle (block r (2 * b + 1) indices)) = 0
  zero : xorHashes oracle indices = 0

/-- The solutions: bytes of the right length whose indices are those of a valid tree. -/
structure ValidSolution (oracle : HashOracle p) (soln : Bytes) : Prop where
  length_eq : soln.length = p.solutionWidth
  tree : ∃ indices, getIndicesFromMinimal soln p.collisionBitLength = some indices ∧
    ValidTree oracle indices

section tree
variable {indices : List ℕ}

theorem pair_lt {r b : ℕ} (hr : r < p.K) (hb : b < 2 ^ (p.K - (r + 1))) :
    2 * b < 2 ^ (p.K - r) ∧ 2 * b + 1 < 2 ^ (p.K - r) := by
  rw [show p.K - r = p.K - (r + 1) + 1 by omega, pow_succ]
  omega

theorem block_sublist (r b : ℕ) (indices : List ℕ) : (block r b indices).Sublist indices :=
  (take_sublist _ _).trans (drop_sublist _ _)

theorem Accepted.collisionGroup_block (h : Accepted oracle 0 indices) {r : ℕ} (hr : r ≤ p.K) :
    ∀ b < 2 ^ (p.K - r), ∀ j < r, collisionGroup p j (xorHashes oracle (block r b indices)) = 0 := by
  induction r with
  | zero => exact fun b _ j hj => absurd hj (not_lt_zero j)
  | succ r ih =>
    intro b hb j hj
    obtain ⟨hleft, hright⟩ := pair_lt hr hb
    rw [← block_append, xorHashes_append, collisionGroup_xor]
    rcases Nat.lt_succ_iff_lt_or_eq.1 hj with hj | rfl
    · rw [ih (le_of_succ_le hr) _ hleft j hj, ih (le_of_succ_le hr) _ hright j hj]
      rfl
    · rw [(h.siblings j (Nat.zero_le j) hr b hb).collide, Nat.xor_self]

/-- Blocks repeat no index when siblings share none. -/
theorem Accepted.nodup_block (h : Accepted oracle 0 indices) {r : ℕ} (hr : r ≤ p.K) :
    ∀ b < 2 ^ (p.K - r), (block r b indices).Nodup := by
  induction r with
  | zero =>
    intro b _
    have hone : (block 0 b indices).length ≤ 1 := by
      rw [block, length_take]
      exact min_le_left _ _
    match hblock : block 0 b indices with
    | [] => exact nodup_nil
    | [i] => exact nodup_singleton i
    | i :: j :: rest =>
      rw [hblock] at hone
      exact absurd hone (by simp)
  | succ r ih =>
    intro b hb
    obtain ⟨hleft, hright⟩ := pair_lt hr hb
    rw [← block_append]
    exact (ih (le_of_succ_le hr) _ hleft).append (ih (le_of_succ_le hr) _ hright)
      (h.siblings r (zero_le r) hr b hb).disjoint

/-- The rounds ask for a valid tree. -/
theorem accepted_zero_iff (hlen : indices.length = 2 ^ p.K) :
    Accepted oracle 0 indices ↔ ValidTree oracle indices := by
  constructor
  · intro h
    have hone : 0 < 2 ^ (p.K - p.K) := Nat.pow_pos (by decide)
    have hgroups := h.collisionGroup_block le_rfl 0 hone
    have hnodup := h.nodup_block le_rfl 0 hone
    rw [block_all hlen] at hgroups hnodup
    refine ⟨hnodup, fun r hr b hb => ?_, ?_⟩
    · refine ⟨(h.siblings r (zero_le r) hr b hb).before, fun j hj => ?_⟩
      rw [← xorHashes_append, block_append]
      exact h.collisionGroup_block hr b hb j hj
    · refine (eq_zero_iff_collisionGroup (xorHashes_lt oracle indices)).2 fun j hj => ?_
      rcases lt_or_eq_of_le hj with hj | rfl
      · exact hgroups j hj
      · exact h.last
  · intro h
    refine ⟨fun r _ hr b hb => ?_,
      (eq_zero_iff_collisionGroup (xorHashes_lt oracle indices)).1 h.zero _ le_rfl⟩
    obtain ⟨hbefore, hgroups⟩ := h.siblings r hr b hb
    have hgroup := hgroups r (lt_succ_self r)
    rw [collisionGroup_xor, xor_eq_zero_iff] at hgroup
    have hnodup := h.nodup.sublist (block_sublist (r + 1) b indices)
    rw [← block_append] at hnodup
    exact ⟨hgroup, hbefore, disjoint_of_nodup_append hnodup⟩

end tree

/-- `SolutionWidth` bytes are `2 ^ K` indices. -/
theorem Params.eight_mul_solutionWidth (p : Params) :
    8 * p.solutionWidth = (p.collisionBitLength + 1) * 2 ^ p.K := by cases p <;> rfl

/-- **`IsValidSolution` accepts the solutions**, and the indices in a solution and its bytes
determine each other. -/
theorem isValidSolution_iff (oracle : HashOracle p) (memory : ℕ → Bytes) (soln : Bytes) :
    (∃ valid, isValidSolution oracle memory soln = some valid ∧
      (valid = true ↔ ValidSolution oracle soln)) ∧
    (soln.length = p.solutionWidth →
      ∃ indices, getIndicesFromMinimal soln p.collisionBitLength = some indices ∧
        indices.length = 2 ^ p.K ∧ (∀ i ∈ indices, i < 2 ^ (p.N / (p.K + 1) + 1)) ∧
        getMinimalFromIndices indices p.collisionBitLength = some soln) ∧
    (∀ indices : List ℕ, indices.length = 2 ^ p.K →
      (∀ i ∈ indices, i < 2 ^ (p.N / (p.K + 1) + 1)) →
      ∃ minimal, getMinimalFromIndices indices p.collisionBitLength = some minimal ∧
        minimal.length = p.solutionWidth ∧
        getIndicesFromMinimal minimal p.collisionBitLength = some indices) := by
  have hwidth := p.eight_mul_solutionWidth
  refine ⟨?_, fun hlen => getMinimal_getIndices p.widths_index (by rw [hlen, hwidth]),
    fun indices hlen hlt => getIndices_getMinimal p.widths_index (by rw [hlen, hwidth]) hlt⟩
  by_cases hlen : soln.length = p.solutionWidth
  · obtain ⟨indices, hindices, hcount, hlt, -⟩ :=
      getMinimal_getIndices p.widths_index (by rw [hlen, hwidth] : 8 * soln.length = _)
    have hlt' : ∀ i ∈ indices, i < 2 ^ 32 := by
      intro i hi
      have hfits := p.widths_index
      exact (hlt i hi).trans_le (Nat.pow_le_pow_right (by decide) (by have := hfits.2; omega))
    obtain ⟨X, hX, hblocks⟩ := firstRows_blocks oracle memory hlt' 0
    have hmany : X.length = 2 ^ p.K := by rw [← hblocks.length_eq, length_chunks, hcount]
    rw [hcount] at hblocks
    have hfuel : p.K < X.length := by
      rw [hmany]
      exact Nat.lt_two_pow_self
    obtain ⟨valid, hvalid, hiff⟩ := rounds_blocks hcount (zero_add p.K) hfuel hblocks
    refine ⟨valid, ?_, ?_⟩
    · rw [isValidSolution, if_neg (not_not.2 hlen), hindices]
      simp only [Option.bind_eq_bind, Option.bind_some, hX]
      exact hvalid
    · rw [hiff, accepted_zero_iff hcount]
      constructor
      · exact fun htree => ⟨hlen, indices, hindices, htree⟩
      · rintro ⟨-, indices', hindices', htree⟩
        obtain rfl := Option.some.inj (hindices.symm.trans hindices')
        exact htree
  · refine ⟨false, by rw [isValidSolution, if_pos hlen], ?_⟩
    exact ⟨fun h => absurd h (by decide), fun h => absurd h.length_eq hlen⟩

theorem xorHashes_eq_of_length {h : ℕ} (hall : ∀ i, hash oracle i = h) {a b : List ℕ}
    (hlen : a.length = b.length) : xorHashes oracle a = xorHashes oracle b := by
  have hconst : ∀ block, xorHashes oracle block =
      (replicate block.length h).foldr (· ^^^ ·) 0 := by
    intro block
    induction block with
    | nil => rfl
    | cons i block ih =>
      rw [length_cons, replicate_succ, foldr_cons, ← ih, ← hall i]
      rfl
  rw [hconst a, hconst b, hlen]

/-- An oracle of one hash: every sum over a pair of blocks is zero. -/
def constantOracle : HashOracle .eh48_5 := ⟨fun _ => List.replicate 60 0x5A, fun _ => rfl⟩

theorem hash_constantOracle (i : ℕ) : hash constantOracle i = hash constantOracle 0 := by
  have hslice : ∀ i, hashIn constantOracle i = replicate 6 0x5A := by
    intro i
    have hlt := mod_lt i (by decide : 0 < 10)
    have hhash : hashIn constantOracle i = slice (replicate 60 0x5A) (i % 10 * 6) 6 := rfl
    rw [hhash, slice, drop_replicate, take_replicate, min_eq_left (by omega)]
  rw [hash, hash, hslice, hslice]

/-- The first 32 indices, packed, are a solution for the constant oracle. -/
theorem isValidSolution_constantOracle :
    ∃ minimal, getMinimalFromIndices (List.range 32) 8 = some minimal ∧
      isValidSolution constantOracle (fun _ => []) minimal = some true := by
  obtain ⟨-, -, hpack⟩ := isValidSolution_iff constantOracle (fun _ => []) []
  obtain ⟨minimal, hminimal, hlen, hindices⟩ := hpack (range 32) rfl (by decide)
  obtain ⟨⟨valid, hvalid, hiff⟩, hread, -⟩ :=
    isValidSolution_iff constantOracle (fun _ => []) minimal
  obtain ⟨indices, hindices', -⟩ := hread hlen
  obtain rfl := Option.some.inj (hindices'.symm.trans hindices)
  have htree : ValidTree constantOracle (range 32) := by
    have hxor : ∀ {a b : List ℕ}, a.length = b.length →
        xorHashes constantOracle a ^^^ xorHashes constantOracle b = 0 := by
      intro a b hab
      rw [xorHashes_eq_of_length hash_constantOracle hab, Nat.xor_self]
    have hblocks : ∀ r < 5, ∀ b < 2 ^ (5 - (r + 1)),
        block r (2 * b) (range 32) < block r (2 * b + 1) (range 32) ∧
          (block r (2 * b) (range 32)).length =
            (block r (2 * b + 1) (range 32)).length := by decide
    refine ⟨nodup_range, fun r hr b hb => ⟨(hblocks r hr b hb).1, fun j _ => ?_⟩, ?_⟩
    · rw [hxor (hblocks r hr b hb).2, collisionGroup, Nat.zero_div, Nat.zero_mod]
    · have hhalves : range 32 = range 16 ++ range' 16 16 := by decide
      rw [hhalves, xorHashes_append]
      exact hxor rfl
  rw [hiff.2 ⟨hlen, _, hindices, htree⟩] at hvalid
  exact ⟨minimal, hminimal, hvalid⟩

end Equihash
end Komodo
