/-
# Gathering an amount

Items are taken from a list one after the other, each for what is still missing, until not more
than `stop` is missing.  An item that is taken covers what is missing, or no item of the list is
larger (`TakesNearest`); items without a value are not taken, and when there are no others it ends
without an answer.

With `stop` zero it is as good as any choice of items: when some of them, as many as may be taken
at most, come to the amount, those that are taken do (`gather_covers`).  `gather_stuck_iff` says
when it ends without an answer.
-/

import Mathlib.Tactic

namespace Komodo
namespace Gather

open List

variable {α : Type}

/-- The list without the item at a position, whose place the last one takes. -/
def swapRemove (l : List α) (i : ℕ) : List α :=
  match l.getLast? with
  | some last => (l.set i last).dropLast
  | none => []

variable {l T : List α}

theorem perm_swapRemove {i : ℕ} {a : α} (h : l[i]? = some a) :
    l.Perm (a :: swapRemove l i) := by
  rcases eq_nil_or_concat l with rfl | ⟨front, last, rfl⟩
  · exact absurd h nofun
  rw [concat_eq_append] at h ⊢
  rw [swapRemove, getLast?_concat]
  dsimp only
  by_cases hi : i < front.length
  · rw [getElem?_append_left hi] at h
    obtain ⟨hi, rfl⟩ := List.getElem?_eq_some_iff.1 h
    rw [set_append_left _ _ hi, dropLast_concat]
    calc front ++ [last]
      _ |>.Perm (last :: front) := perm_append_singleton last front
      _ |>.Perm (last :: front[i] :: front.eraseIdx i) :=
        (getElem_cons_eraseIdx_perm hi).symm.cons last
      _ |>.Perm (front[i] :: last :: front.eraseIdx i) := List.Perm.swap _ _ _
      _ |>.Perm (front[i] :: front.set i last) := (set_perm_cons_eraseIdx hi last).symm.cons _
  · -- the last item is the one that is picked
    have hlen : i < (front ++ [last]).length := (List.getElem?_eq_some_iff.1 h).1
    rw [length_append, length_singleton] at hlen
    obtain rfl : i = front.length := by omega
    rw [getElem?_concat_length] at h
    obtain rfl := Option.some.inj h
    rw [set_append_right _ _ (Nat.le_refl _), Nat.sub_self, set_cons_zero, dropLast_concat]
    exact perm_append_singleton last front

variable (val : α → ℤ)

/-- The items with a value. -/
def positive (l : List α) : List α := l.filter fun a => 0 < val a

/-- A way to take an item for what is missing: the item and what is left. -/
structure TakesNearest (take : List α → ℤ → Option (α × List α)) : Prop where
  none : ∀ l r, take l r = none → ∀ a ∈ l, val a ≤ 0
  perm : ∀ l r a rest, take l r = some (a, rest) → l.Perm (a :: rest)
  pos : ∀ l r a rest, take l r = some (a, rest) → 0 < val a
  nearest : ∀ l r a rest, take l r = some (a, rest) → r ≤ val a ∨ ∀ b ∈ l, val b ≤ val a

/-- What is taken, in `k` rounds at most, and whether there was nothing to take. -/
def gather (take : List α → ℤ → Option (α × List α)) (stop : ℤ) :
    (k : ℕ) → (r : ℤ) → List α → List α × Bool
  | 0, _, _ => ([], false)
  | k + 1, r, l =>
    if l = [] then ([], false)
    else
      match take l r with
      | none => ([], true)
      | some (a, rest) =>
        if r - val a ≤ stop then ([a], false)
        else (a :: (gather take stop k (r - val a) rest).1,
          (gather take stop k (r - val a) rest).2)

variable {val} {take : List α → ℤ → Option (α × List α)} {stop : ℤ}

theorem gather_nil (k : ℕ) (r : ℤ) : gather val take stop k r [] = ([], false) := by
  cases k with
  | zero => rfl
  | succ k => rfl

/-! ### What is taken -/

/-- Different items of the list are taken. -/
theorem gather_subperm (htake : TakesNearest val take) (k : ℕ) (r : ℤ) (l : List α) :
    (gather val take stop k r l).1.Subperm l := by
  induction k generalizing r l with
  | zero => exact nil_subperm
  | succ k ih =>
    rw [gather]
    by_cases hnil : l = []
    · rw [if_pos hnil]
      exact nil_subperm
    rw [if_neg hnil]
    cases hone : take l r with
    | none => exact nil_subperm
    | some one =>
      obtain ⟨a, rest⟩ := one
      have hperm := (htake.perm l r a rest hone).symm
      dsimp only
      split_ifs with hstop
      · exact singleton_subperm_iff.2 (hperm.subset mem_cons_self)
      · exact ((subperm_cons a).2 (ih (r - val a) rest)).trans hperm.subperm

theorem length_gather_le (k : ℕ) (r : ℤ) (l : List α) :
    (gather val take stop k r l).1.length ≤ k := by
  induction k generalizing r l with
  | zero => exact Nat.le_refl 0
  | succ k ih =>
    rw [gather]
    by_cases hnil : l = []
    · rw [if_pos hnil]
      exact Nat.zero_le _
    rw [if_neg hnil]
    cases take l r with
    | none => exact Nat.zero_le _
    | some one =>
      obtain ⟨a, rest⟩ := one
      dsimp only
      split_ifs with hstop
      · exact Nat.succ_le_succ (Nat.zero_le k)
      · exact Nat.succ_le_succ (ih _ _)

/-! ### What it comes to -/

theorem exists_subperm_of_cons {a : α} {rest : List α} (hT : T.Subperm (a :: rest)) (hne : T ≠ [])
    (hle : ∀ b ∈ a :: rest, val b ≤ val a) :
    ∃ T' : List α, T'.Subperm rest ∧ T'.length + 1 = T.length
      ∧ (T.map val).sum ≤ val a + (T'.map val).sum := by
  obtain ⟨s, hperm, hsub⟩ := hT
  cases s with
  | nil => exact absurd hperm.nil_eq.symm hne
  | cons b T' =>
    refine ⟨T', hsub.tail.subperm, hperm.length_eq, ?_⟩
    have hb := hle b (hsub.subset mem_cons_self)
    rw [← (hperm.map val).sum_eq, map_cons, sum_cons]
    omega

/-- **What is taken comes to the amount if any choice of items does.** -/
theorem gather_covers (htake : TakesNearest val take) {k : ℕ} {r : ℤ} (hr : 0 < r)
    (hT : T.Subperm l) (hlen : T.length ≤ k) (hsum : r ≤ (T.map val).sum) :
    r ≤ ((gather val take 0 k r l).1.map val).sum ∧ (gather val take 0 k r l).2 = false := by
  induction k generalizing r l T with
  | zero =>
    obtain rfl := length_eq_zero_iff.1 (Nat.le_zero.1 hlen)
    exact absurd hr (not_lt.2 hsum)
  | succ k ih =>
    have hne : T ≠ [] := by
      rintro rfl
      exact absurd hr (not_lt.2 hsum)
    have hnil : l ≠ [] := fun h => hne (subperm_nil.1 (h ▸ hT))
    rw [gather, if_neg hnil]
    cases hone : take l r with
    | none =>
      have hnone := htake.none l r hone
      have hle := sum_le_card_nsmul (T.map val) 0
        (forall_mem_map.2 fun a ha => hnone a (hT.subset ha))
      rw [nsmul_zero] at hle
      omega
    | some one =>
      obtain ⟨a, rest⟩ := one
      have hperm := htake.perm l r a rest hone
      dsimp only
      split_ifs with hstop
      · exact ⟨by simp only [map_singleton, sum_singleton]; omega, rfl⟩
      -- no item covers what is missing, so the one that is taken is the largest
      have hlargest := (htake.nearest l r a rest hone).resolve_left (by omega)
      obtain ⟨T', hT', hlen', hsum'⟩ := exists_subperm_of_cons (hT.trans hperm.subperm) hne
        fun b hb => hlargest b (hperm.mem_iff.2 hb)
      obtain ⟨hcovers, hstuck⟩ := ih (r := r - val a) (by omega) hT' (by omega) (by omega)
      refine ⟨?_, hstuck⟩
      rw [map_cons, sum_cons]
      omega

/-! ### When there is nothing to take -/

theorem positive_perm {l' : List α} (h : l.Perm l') : (positive val l).Perm (positive val l') :=
  h.filter _

theorem positive_cons {a : α} (h : 0 < val a) (l : List α) :
    positive val (a :: l) = a :: positive val l :=
  filter_cons_of_pos (decide_eq_true h)

theorem positive_eq_nil_iff : positive val l = [] ↔ ∀ a ∈ l, val a ≤ 0 := by
  rw [positive, filter_eq_nil_iff]
  simp only [decide_eq_true_eq, not_lt]

theorem sum_positive_nonneg (l : List α) : 0 ≤ ((positive val l).map val).sum :=
  sum_nonneg (forall_mem_map.2 fun a ha =>
    (of_decide_eq_true (mem_filter.1 ha).2 : 0 < val a).le)

theorem sum_le_sum_positive_self (l : List α) :
    (l.map val).sum ≤ ((positive val l).map val).sum := by
  induction l with
  | nil => exact le_refl _
  | cons a l ih =>
    rw [map_cons, sum_cons]
    by_cases hpos : 0 < val a
    · rw [positive_cons hpos, map_cons, sum_cons]
      omega
    · rw [positive, filter_cons_of_neg (by simpa using hpos), ← positive]
      omega

theorem sum_le_sum_positive (h : T.Subperm l) :
    (T.map val).sum ≤ ((positive val l).map val).sum := by
  obtain ⟨s, hperm, hsub⟩ := h
  have hle : ((positive val s).map val).sum ≤ ((positive val l).map val).sum := by
    refine List.Sublist.sum_le_sum ((hsub.filter _).map val) (forall_mem_map.2 fun a ha => ?_)
    exact (of_decide_eq_true (mem_filter.1 ha).2 : 0 < val a).le
  have hself : (s.map val).sum ≤ ((positive val s).map val).sum := sum_le_sum_positive_self s
  rw [← (hperm.map val).sum_eq]
  exact hself.trans hle

/-- **When it ends without an answer**: there is an item without a value, those with one are fewer
than may be taken, and more than `stop` is missing when all of them are taken. -/
theorem gather_stuck_iff (htake : TakesNearest val take) {k : ℕ} {r : ℤ} :
    (gather val take stop k r l).2 = true ↔ (∃ a ∈ l, val a ≤ 0) ∧ (positive val l).length < k
      ∧ (positive val l = [] ∨ stop < r - ((positive val l).map val).sum) := by
  induction k generalizing r l with
  | zero => exact iff_of_false nofun fun h => absurd h.2.1 (Nat.not_lt_zero _)
  | succ k ih =>
    rw [gather]
    by_cases hnil : l = []
    · rw [if_pos hnil]
      refine iff_of_false nofun fun ⟨⟨a, ha, _⟩, _⟩ => ?_
      rw [hnil] at ha
      exact absurd ha not_mem_nil
    rw [if_neg hnil]
    cases hone : take l r with
    | none =>
      have hnone := htake.none l r hone
      have hpositive := positive_eq_nil_iff.2 hnone
      obtain ⟨a, ha⟩ := exists_mem_of_ne_nil l hnil
      refine iff_of_true rfl ⟨⟨a, ha, hnone a ha⟩, ?_, .inl hpositive⟩
      rw [hpositive]
      exact Nat.succ_pos k
    | some one =>
      obtain ⟨a, rest⟩ := one
      have hperm := htake.perm l r a rest hone
      have hpos := htake.pos l r a rest hone
      have hpositive : (positive val l).Perm (a :: positive val rest) := by
        rw [← positive_cons hpos]
        exact positive_perm hperm
      have hlen := hpositive.length_eq
      have hsum := (hpositive.map val).sum_eq
      rw [length_cons] at hlen
      rw [map_cons, sum_cons] at hsum
      have hne : positive val l ≠ [] := fun h => by simp [h] at hlen
      have hnonneg : 0 ≤ ((positive val rest).map val).sum := sum_positive_nonneg rest
      have hexists : (∃ b ∈ l, val b ≤ 0) ↔ ∃ b ∈ rest, val b ≤ 0 := by
        simp only [hperm.mem_iff, mem_cons, exists_eq_or_imp, not_le.2 hpos, false_or]
      dsimp only
      split_ifs with hstop
      · refine iff_of_false nofun fun ⟨_, _, h⟩ => ?_
        have hmissing := h.resolve_left hne
        omega
      rw [ih, hexists]
      refine and_congr_right fun _ => ?_
      have hmissing : (positive val rest = []
          ∨ stop < r - val a - ((positive val rest).map val).sum) ↔
            stop < r - (val a + ((positive val rest).map val).sum) := by
        constructor
        · rintro (hnone | hmore)
          · rw [hnone, map_nil, sum_nil]
            omega
          · omega
        · exact fun h => .inr (by omega)
      rw [or_iff_right hne, hlen, hsum, hmissing, Nat.add_lt_add_iff_right]

theorem sum_gather_lt_of_stuck (htake : TakesNearest val take) {k : ℕ} {r : ℤ}
    (hr : stop < r) (h : (gather val take stop k r l).2 = true) :
    ((gather val take stop k r l).1.map val).sum < r - stop := by
  obtain ⟨-, -, hmissing⟩ := (gather_stuck_iff htake).1 h
  have hmost : ((gather val take stop k r l).1.map val).sum ≤ ((positive val l).map val).sum :=
    sum_le_sum_positive (gather_subperm htake k r l)
  rcases hmissing with hnone | hmore
  · rw [hnone, map_nil, sum_nil] at hmost
    omega
  · omega

end Gather
end Komodo
