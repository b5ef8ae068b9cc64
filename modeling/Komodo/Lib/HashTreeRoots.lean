/-
# What a root says about the leaves

Lists of leaves of one length have one root only if they are equal, as long as the hash of a
pair tells the pair (`eq_of_root_eq`).  Lists of different lengths may share a root, since a
last node without a partner is hashed with itself.  Of such lists only the shortest one can be
without twins (`length_le_of_root_eq`): where a longer list has the same root, some level of
it pairs a node with an equal one (`Plain` says that no level does).

A hash that is never a leaf tells how far a node is above the leaves (`Above.unique`), so that
two trees with one root are equally high.
-/

import Komodo.Lib.HashTree

namespace Komodo
namespace HashTree

open List Nat

variable {α : Type} {hash : α → α → α}

/-- No node is paired with an equal one. -/
def NoTwins : List α → Prop
  | a :: b :: level => a ≠ b ∧ NoTwins level
  | _ => True

/-- `n` levels above a leaf, on the way down to the left. -/
def Above (hash : α → α → α) (leaf : α → Prop) : ℕ → α → Prop
  | 0, a => leaf a
  | n + 1, c => ∃ a b, c = hash a b ∧ Above hash leaf n a

/-- A node is on one level only. -/
theorem Above.unique {leaf : α → Prop} (hinj : Function.Injective2 hash)
    (hleaf : ∀ a b, ¬ leaf (hash a b)) {m n : ℕ} {c : α} (hm : Above hash leaf m c)
    (hn : Above hash leaf n c) : m = n := by
  induction m generalizing n c with
  | zero =>
    cases n with
    | zero => rfl
    | succ n =>
      obtain ⟨a, b, rfl, -⟩ := hn
      exact absurd hm (hleaf a b)
  | succ m ih =>
    obtain ⟨a, b, rfl, ha⟩ := hm
    cases n with
    | zero => exact absurd hn (hleaf a b)
    | succ n =>
      obtain ⟨a', b', heq, ha'⟩ := hn
      rw [ih ha ((hinj heq).1 ▸ ha')]

theorem above_nextLevel {leaf : α → Prop} {n : ℕ} {level : List α}
    (h : ∀ a ∈ level, Above hash leaf n a) :
    ∀ c ∈ nextLevel hash level, Above hash leaf (n + 1) c := by
  induction level using nextLevel.induct with
  | case1 => rintro c ⟨⟩
  | case2 a =>
    intro c hc
    rw [nextLevel, mem_singleton] at hc
    exact ⟨a, a, hc, h a (mem_singleton_self a)⟩
  | case3 a b level ih =>
    rw [nextLevel]
    refine forall_mem_cons.2 ⟨⟨a, b, rfl, h a mem_cons_self⟩, ih fun d hd => ?_⟩
    exact h d (mem_cons_of_mem _ (mem_cons_of_mem _ hd))

/-- Levels of one length with the same pairs above them. -/
theorem nextLevel_injective (hinj : Function.Injective2 hash) {level level' : List α}
    (hlen : level.length = level'.length) (h : nextLevel hash level = nextLevel hash level') :
    level = level' := by
  induction level using nextLevel.induct generalizing level' with
  | case1 => exact (length_eq_zero_iff.1 hlen.symm).symm
  | case2 a =>
    obtain ⟨a', rfl⟩ := length_eq_one_iff.1 hlen.symm
    rw [nextLevel, nextLevel, cons.injEq] at h
    rw [(hinj h.1).1]
  | case3 a b level ih =>
    rcases level' with _ | ⟨a', _ | ⟨b', level'⟩⟩
    · cases hlen
    · cases hlen
    · rw [nextLevel, nextLevel, cons.injEq] at h
      obtain ⟨rfl, rfl⟩ := hinj h.1
      rw [ih (by simpa using hlen) h.2]

/-- A node that is added to an odd level without changing the pairs is a twin. -/
theorem not_noTwins_of_succ (hinj : Function.Injective2 hash) {level level' : List α}
    (hlen : level'.length = level.length + 1) (h : nextLevel hash level = nextLevel hash level') :
    ¬ NoTwins level' := by
  induction level using nextLevel.induct generalizing level' with
  | case1 =>
    obtain ⟨a', rfl⟩ := length_eq_one_iff.1 hlen
    cases h
  | case2 a =>
    obtain ⟨a', b', rfl⟩ := length_eq_two.1 hlen
    rw [nextLevel, nextLevel, cons.injEq] at h
    obtain ⟨rfl, rfl⟩ := hinj h.1
    exact fun htwins => htwins.1 rfl
  | case3 a b level ih =>
    rcases level' with _ | ⟨a', _ | ⟨b', level'⟩⟩
    · cases hlen
    · cases hlen
    · rw [nextLevel, nextLevel, cons.injEq] at h
      exact fun htwins => ih (by simpa using hlen) h.2 htwins.2

theorem length_iterate_nextLevel (hash : α → α → α) (level : List α) (height : ℕ) :
    ((nextLevel hash)^[height] level).length = (level.length + 2 ^ height - 1) / 2 ^ height := by
  induction height with
  | zero => simp
  | succ height ih =>
    have hpos : 0 < 2 ^ height := Nat.two_pow_pos height
    rw [Function.iterate_succ_apply', length_nextLevel, ih, Nat.pow_succ, ← Nat.div_div_eq_div_mul,
      ← add_div_right _ hpos]
    congr 2
    omega

section
variable [Inhabited α] {level level' : List α}

/-- No level has twins. -/
def Plain (hash : α → α → α) (level : List α) : Prop :=
  NoTwins level ∧ (1 < level.length → Plain hash (nextLevel hash level))
termination_by level.length
decreasing_by rw [length_nextLevel]; omega

theorem root_of_many (h : 1 < level.length) : root hash level = root hash (nextLevel hash level) := by
  rw [root, if_pos h]

theorem root_of_one (h : level.length ≤ 1) : root hash level = level.getD 0 default := by
  rw [root, if_neg (not_lt.2 h)]

theorem above_root {leaf : α → Prop} {n : ℕ} (hne : level ≠ [])
    (h : ∀ a ∈ level, Above hash leaf n a) :
    ∃ d, Above hash leaf (n + d) (root hash level) ∧ (1 < level.length → 0 < d) := by
  induction hn : level.length using Nat.strong_induction_on generalizing level n
  rename_i k ih
  have hlen := length_nextLevel hash level
  rcases lt_or_ge 1 level.length with hmany | hone
  · have hnext : nextLevel hash level ≠ [] := ne_nil_of_length_pos (by omega)
    obtain ⟨d, hd, -⟩ := ih _ (by omega) hnext (above_nextLevel h) rfl
    refine ⟨1 + d, ?_, fun _ => by omega⟩
    rw [root_of_many hmany, ← add_assoc]
    exact hd
  · obtain ⟨a, rfl⟩ := length_eq_one_iff.1
      (le_antisymm hone (length_pos_iff.2 hne))
    refine ⟨0, ?_, fun hmany => absurd hmany (by omega)⟩
    rw [root_of_one le_rfl]
    exact h a (mem_singleton_self a)

/-- **Lists of one length with one root are equal.** -/
theorem eq_of_root_eq (hinj : Function.Injective2 hash) (hlen : level.length = level'.length)
    (h : root hash level = root hash level') : level = level' := by
  induction hn : level.length using Nat.strong_induction_on generalizing level level'
  rename_i n ih
  have hnext := length_nextLevel hash level
  have hnext' := length_nextLevel hash level'
  rcases lt_or_ge 1 level.length with hmany | hone
  · have hmany' : 1 < level'.length := hlen ▸ hmany
    rw [root_of_many hmany, root_of_many hmany'] at h
    exact nextLevel_injective hinj hlen (ih _ (by omega) (by omega) h rfl)
  · rw [root_of_one hone, root_of_one (hlen ▸ hone)] at h
    match level, level', hone, hlen with
    | [], [], _, _ => rfl
    | [a], [a'], _, _ => exact congrArg (fun a => [a]) h

/-- **A list without twins is the shortest with its root.** -/
theorem length_le_of_root_eq (leaf : α → Prop) (n : ℕ) (hinj : Function.Injective2 hash)
    (hleaf : ∀ a b, ¬ leaf (hash a b)) (hne : level ≠ []) (hlevel : ∀ a ∈ level, Above hash leaf n a)
    (hlevel' : ∀ a ∈ level', Above hash leaf n a) (hplain : Plain hash level')
    (h : root hash level' = root hash level) : level'.length ≤ level.length := by
  induction hk : level'.length using Nat.strong_induction_on generalizing level level' n
  rename_i k ih
  have hpos := length_pos_iff.2 hne
  have hnext := length_nextLevel hash level
  have hnext' := length_nextLevel hash level'
  rcases lt_or_ge 1 level'.length with hmany' | hone'
  · have hmany : 1 < level.length := by
      -- otherwise the root would be on two levels
      by_contra hone
      have hne' : level' ≠ [] := ne_nil_of_length_pos (by omega)
      obtain ⟨d, hd, hzero⟩ := above_root hne' hlevel'
      obtain ⟨a, rfl⟩ := length_eq_one_iff.1 (le_antisymm (not_lt.1 hone) hpos)
      rw [h, root_of_one le_rfl] at hd
      have hsame := Above.unique hinj hleaf hd (hlevel a (mem_singleton_self a))
      have hd := hzero hmany'
      omega
    have hne' : nextLevel hash level ≠ [] := ne_nil_of_length_pos (by omega)
    have htwins : NoTwins level' := by
      rw [Plain] at hplain
      exact hplain.1
    have habove : Plain hash (nextLevel hash level') := by
      rw [Plain] at hplain
      exact hplain.2 hmany'
    rw [root_of_many hmany, root_of_many hmany'] at h
    have hle := ih _ (by omega) (n + 1) hne' (above_nextLevel hlevel) (above_nextLevel hlevel') habove h rfl
    by_contra hlong
    have hsame : nextLevel hash level = nextLevel hash level' :=
      eq_of_root_eq hinj (by omega) h.symm
    exact not_noTwins_of_succ hinj (by omega) hsame htwins
  · omega

/-! ### Levels by their height -/

theorem root_iterate {height : ℕ}
    (hmany : ∀ h < height, 1 < ((nextLevel hash)^[h] level).length) :
    root hash ((nextLevel hash)^[height] level) = root hash level := by
  induction height with
  | zero => rfl
  | succ height ih =>
    rw [Function.iterate_succ_apply', ← root_of_many (hmany height (lt_succ_self _))]
    exact ih fun h hh => hmany h (lt_succ_of_lt hh)

end

/-! ### A hash without collisions -/

/-- A hash that tells its pair. -/
def pairHash (a b : ℕ) : ℕ := Nat.pair a b + 100

theorem pairHash_injective : Function.Injective2 pairHash := by
  intro a a' b b' h
  have hpair : pair a b = pair a' b' := add_right_cancel h
  exact pair_eq_pair.1 hpair

theorem pairHash_not_mem {hashes : List ℕ} (h : ∀ a ∈ hashes, a < 100) (a b : ℕ) :
    pairHash a b ∉ hashes := fun hmem => Nat.not_lt.2 (Nat.le_add_left 100 _) (h _ hmem)

end HashTree
end Komodo
