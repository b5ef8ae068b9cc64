/-
# Merkle trees that double a last node

The level above a list of nodes has the hashes of its pairs; a last node without a partner is
hashed with itself (`nextLevel`). The levels end with a single node, the `root`.

A path is an index and the nodes beside the way from a leaf to the root, the lowest first
(`path`). Climbing it from the leaf gives the root (`climb_path`), and paths of trees that stand
on one another can be joined (`climb_append`).

A node that stands on the right of an equal one makes a path ambiguous: the tree doubles its last
node, so the same path could be read for a longer list. `canonical_path` says that the path of
the first leaf of its kind has no such node, as long as no two pairs of nodes of the tree have
one hash.
-/

import Mathlib.Tactic
import Mathlib.Data.Nat.Bitwise

namespace Komodo
namespace HashTree

open List Nat

variable {α : Type} (hash : α → α → α)

/-- The level above. -/
def nextLevel : List α → List α
  | [] => []
  | [a] => [hash a a]
  | a :: b :: level => hash a b :: nextLevel level

/-- The way from a leaf, taken with an index and the nodes beside it. -/
def climb : α → List α → ℕ → α
  | a, [], _ => a
  | a, b :: branch, i => climb (if i % 2 = 1 then hash b a else hash a b) branch (i / 2)

/-- No node on the way stands on the right of an equal one. -/
def Canonical : α → List α → ℕ → Prop
  | _, [], _ => True
  | a, b :: branch, i =>
    (i % 2 = 1 → b ≠ a) ∧ Canonical (if i % 2 = 1 then hash b a else hash a b) branch (i / 2)

/-- No two pairs of the nodes have one hash. -/
def CollisionFree (level : List α) : Prop :=
  ∀ a ∈ level, ∀ b ∈ level, ∀ c ∈ level, ∀ d ∈ level, hash a b = hash c d → a = c ∧ b = d

theorem length_nextLevel (level : List α) :
    (nextLevel hash level).length = (level.length + 1) / 2 := by
  induction level using nextLevel.induct with
  | case1 => simp [nextLevel]
  | case2 => simp [nextLevel]
  | case3 a b level ih =>
    rw [nextLevel, length_cons, ih, length_cons, length_cons]
    omega

section
variable [Inhabited α]

/-- The root of a list of leaves. -/
def root (level : List α) : α :=
  if 1 < level.length then root (nextLevel hash level) else level.getD 0 default
termination_by level.length
decreasing_by rw [length_nextLevel]; omega

/-- All nodes, level by level. -/
def nodes (level : List α) : List α :=
  if 1 < level.length then level ++ nodes (nextLevel hash level) else level
termination_by level.length
decreasing_by rw [length_nextLevel]; omega

/-- The nodes beside the way from a leaf. -/
def path (level : List α) (i : ℕ) : List α :=
  if 1 < level.length then
    level.getD (min (i ^^^ 1) (level.length - 1)) default :: path (nextLevel hash level) (i / 2)
  else []
termination_by level.length
decreasing_by rw [length_nextLevel]; omega

/-- No node before this one is equal to it. -/
def First (level : List α) (i : ℕ) : Prop :=
  ∀ p < i, level.getD p default ≠ level.getD i default

end

variable {hash}

theorem CollisionFree.mono {level level' : List α} (h : CollisionFree hash level)
    (hsub : ∀ a ∈ level', a ∈ level) : CollisionFree hash level' :=
  fun a ha b hb c hc d hd => h a (hsub a ha) b (hsub b hb) c (hsub c hc) d (hsub d hd)

/-! ### Climbing -/

section climbing
variable {a : α} {p q : List α} {i j : ℕ}

theorem add_mul_two_pow_lt {m n : ℕ} (hi : i < 2 ^ m) (hj : j < 2 ^ n) :
    i + j * 2 ^ m < 2 ^ (m + n) :=
  calc i + j * 2 ^ m < (j + 1) * 2 ^ m := by
        rw [add_mul]
        omega
    _ ≤ 2 ^ n * 2 ^ m := mul_le_mul_right _ hj
    _ = 2 ^ (m + n) := by rw [pow_add, mul_comm]

theorem climb_append (hi : i < 2 ^ p.length) :
    climb hash a (p ++ q) (i + j * 2 ^ p.length) = climb hash (climb hash a p i) q j := by
  induction p generalizing a i with
  | nil =>
    obtain rfl : i = 0 := lt_one_iff.1 hi
    simp [climb]
  | cons b p ih =>
    rw [length_cons, pow_succ'] at hi ⊢
    have hpow : j * (2 * 2 ^ p.length) = 2 * (j * 2 ^ p.length) := mul_left_comm ..
    have hmod : (i + 2 * (j * 2 ^ p.length)) % 2 = i % 2 := by omega
    have hdiv : (i + 2 * (j * 2 ^ p.length)) / 2 = i / 2 + j * 2 ^ p.length := by omega
    rw [cons_append, hpow, climb, climb, hmod, hdiv]
    exact ih (by omega)

theorem climb_ne {r : α} (hr : ∀ x y, hash x y ≠ r) (hne : p ≠ []) : climb hash a p i ≠ r := by
  induction p generalizing a i with
  | nil => exact absurd rfl hne
  | cons b p ih =>
    rw [climb]
    rcases eq_or_ne p [] with rfl | hmore
    · rw [climb]
      split_ifs
      · exact hr _ _
      · exact hr _ _
    · exact ih hmore

theorem canonical_append (hi : i < 2 ^ p.length) :
    Canonical hash a (p ++ q) (i + j * 2 ^ p.length) ↔
      Canonical hash a p i ∧ Canonical hash (climb hash a p i) q j := by
  induction p generalizing a i with
  | nil =>
    obtain rfl : i = 0 := lt_one_iff.1 hi
    simp [climb, Canonical]
  | cons b p ih =>
    rw [length_cons, pow_succ'] at hi ⊢
    have hpow : j * (2 * 2 ^ p.length) = 2 * (j * 2 ^ p.length) := mul_left_comm ..
    have hmod : (i + 2 * (j * 2 ^ p.length)) % 2 = i % 2 := by omega
    have hdiv : (i + 2 * (j * 2 ^ p.length)) / 2 = i / 2 + j * 2 ^ p.length := by omega
    rw [cons_append, hpow, Canonical, Canonical, climb, hmod, hdiv, and_assoc]
    exact and_congr_right fun _ => ih (by omega)

end climbing

section
variable [Inhabited α] {level : List α} {i : ℕ}

/-! ### The path of a leaf -/

/-- A node of the next level is the hash of two of this one. -/
theorem getD_nextLevel {k : ℕ} (hk : k < (level.length + 1) / 2) :
    (nextLevel hash level).getD k default = hash (level.getD (2 * k) default)
      (level.getD (min (2 * k + 1) (level.length - 1)) default) := by
  induction level using nextLevel.induct generalizing k with
  | case1 => simp at hk
  | case2 a =>
    obtain rfl : k = 0 := by simp only [length_singleton] at hk; omega
    rfl
  | case3 a b level ih =>
    cases k with
    | zero => rfl
    | succ k =>
      simp only [length_cons] at hk ⊢
      have hmin : min (2 * (k + 1) + 1) (level.length + 1 + 1 - 1)
          = min (2 * k + 1) (level.length - 1) + 1 + 1 := by omega
      rw [hmin, nextLevel, getD_cons_succ, ih (by omega)]
      rfl

theorem getD_nextLevel_half (hi : i < level.length) :
    (nextLevel hash level).getD (i / 2) default
      = if i % 2 = 1 then hash (level.getD (min (i ^^^ 1) (level.length - 1)) default)
          (level.getD i default)
        else hash (level.getD i default)
          (level.getD (min (i ^^^ 1) (level.length - 1)) default) := by
  rw [getD_nextLevel (by omega)]
  split_ifs with hodd
  · have hleft : min (i - 1) (level.length - 1) = 2 * (i / 2) := by omega
    have hright : min (2 * (i / 2) + 1) (level.length - 1) = i := by omega
    rw [xor_one_of_odd (odd_iff.2 hodd), hleft, hright]
  · have hleft : 2 * (i / 2) = i := by omega
    rw [xor_one_of_even (even_iff.2 (by omega)), hleft]

/-- **The path of a leaf leads to the root.** -/
theorem climb_path (hi : i < level.length) :
    climb hash (level.getD i default) (path hash level i) i = root hash level := by
  induction hn : level.length using Nat.strong_induction_on generalizing level i
  rename_i n ih
  rw [path, root]
  split_ifs with hmany
  · rw [climb, ← getD_nextLevel_half hi]
    have hlen := length_nextLevel hash level
    exact ih _ (by omega) (by omega) rfl
  · obtain rfl : i = 0 := by omega
    rfl

theorem getLast?_nodes (hne : level ≠ []) :
    (nodes hash level).getLast? = some (root hash level) := by
  induction hn : level.length using Nat.strong_induction_on generalizing level
  rename_i n ih
  have hlen := length_nextLevel hash level
  have hpos := length_pos_iff.2 hne
  rw [nodes, root]
  split_ifs with hmany
  · have hnext : nextLevel hash level ≠ [] := length_pos_iff.1 (by omega)
    rw [getLast?_append, ih _ (by omega) hnext rfl, Option.some_or]
  · obtain ⟨a, rfl⟩ := length_eq_one_iff.1 (by omega : level.length = 1)
    rfl

theorem lt_two_pow_length_path (hi : i < level.length) :
    i < 2 ^ (path hash level i).length := by
  induction hn : level.length using Nat.strong_induction_on generalizing level i
  rename_i n ih
  rw [path]
  split_ifs with hmany
  · have hlen := length_nextLevel hash level
    have hhalf := @ih _ (by omega) (nextLevel hash level) (i / 2) (by omega) rfl
    rw [length_cons, pow_succ']
    omega
  · simp only [length_nil, pow_zero]
    omega

/-! ### Canonical paths -/

theorem getD_mem (hi : i < level.length) : level.getD i default ∈ level := by
  rw [getD_eq_getElem _ _ hi]
  exact getElem_mem hi

theorem First.nextLevel (hfree : CollisionFree hash level) (hi : i < level.length)
    (h : First level i) : First (nextLevel hash level) (i / 2) := by
  intro p hp heq
  rw [getD_nextLevel (by omega), getD_nextLevel (by omega)] at heq
  obtain ⟨hleft, hright⟩ := hfree _ (getD_mem (by omega)) _ (getD_mem (by omega)) _
    (getD_mem (by omega)) _ (getD_mem (by omega)) heq
  rcases mod_two_eq_zero_or_one i with heven | hodd
  · have hown : 2 * (i / 2) = i := by omega
    rw [hown] at hleft
    exact h (2 * p) (by omega) hleft
  · have hown : min (2 * (i / 2) + 1) (level.length - 1) = i := by omega
    have hother : min (2 * p + 1) (level.length - 1) = 2 * p + 1 := by omega
    rw [hown, hother] at hright
    exact h (2 * p + 1) (by omega) hright

/-- **The path of the first leaf of its kind is canonical.** -/
theorem canonical_path (hfree : CollisionFree hash (nodes hash level)) (hi : i < level.length)
    (h : First level i) : Canonical hash (level.getD i default) (path hash level i) i := by
  induction hn : level.length using Nat.strong_induction_on generalizing level i
  rename_i n ih
  rw [path]
  split_ifs with hmany
  · rw [nodes, if_pos hmany] at hfree
    have hlen := length_nextLevel hash level
    have hlevel : CollisionFree hash level := hfree.mono fun a ha => mem_append_left _ ha
    have hrest : CollisionFree hash (nodes hash (HashTree.nextLevel hash level)) :=
      hfree.mono fun a ha => mem_append_right _ ha
    rw [Canonical, ← getD_nextLevel_half hi]
    refine ⟨fun hodd => ?_, ih _ (by omega) hrest (by omega) (h.nextLevel hlevel hi) rfl⟩
    have hleft : min (i - 1) (level.length - 1) = i - 1 := by omega
    rw [xor_one_of_odd (odd_iff.2 hodd), hleft]
    exact h (i - 1) (by omega)
  · trivial

end

end HashTree
end Komodo
