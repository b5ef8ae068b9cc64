/-
# Positions in a list of groups

The items of all groups are gone through in one row.  A position in the row is the one inside the
group of the item and the items of the groups before on top of that.  The first item that is looked
for (`find?_zipIdx_concat`) and the last one (`getLast?_zipIdx_concat`) are described in this way:
the position in the row is the one inside the group exactly when the groups before are empty.

`map_filter_eq_iff` and `map_drop_filter_eq_iff` compare what two tests leave of a list, one of
which is weaker.
-/

import Mathlib.Tactic

namespace Komodo
namespace Grouped

open List

variable {κ τ α β : Type}

/-- The items of all groups, each with the key of its group. -/
def concat (key : τ → κ) (items : τ → List α) (groups : List τ) : List (κ × α) :=
  groups.flatMap fun g => (items g).map fun a => (key g, a)

/-- How many items the groups have. -/
def count (items : τ → List α) (groups : List τ) : ℕ := (groups.map fun g => (items g).length).sum

section
variable (key : τ → κ) (items : τ → List α) (p : α → Bool)

/-- The first group that has an item that is looked for, and the position of the first one in it. -/
def firstMatch (groups : List τ) : Option (τ × ℕ) :=
  groups.findSome? fun g => ((items g).findIdx? p).map fun i => (g, i)

/-- The groups before that. -/
def beforeFirst (groups : List τ) : List τ := groups.takeWhile fun g => !(items g).any p

/-- The position of the last item that is looked for. -/
def lastIdx (l : List α) : Option ℕ := ((l.zipIdx.filter fun a => p a.1).getLast?).map Prod.snd

/-- The last group that has an item that is looked for, and the position of the last one in it. -/
def lastMatch (groups : List τ) : Option (τ × ℕ) :=
  groups.reverse.findSome? fun g => (lastIdx p (items g)).map fun i => (g, i)

/-- The groups before that, from the last one on. -/
def beforeLast (groups : List τ) : List τ :=
  (groups.reverse.dropWhile fun g => !(items g).any p).tail

end

section
variable {key : τ → κ} {items : τ → List α} {p : α → Bool} {groups : List τ} {g : τ}

theorem concat_cons : concat key items (g :: groups)
    = (items g).map (fun a => (key g, a)) ++ concat key items groups := flatMap_cons

theorem concat_append (l l' : List τ) :
    concat key items (l ++ l') = concat key items l ++ concat key items l' := flatMap_append

theorem length_concat : (concat key items groups).length = count items groups := by
  induction groups with
  | nil => rfl
  | cons g groups ih =>
    rw [concat_cons, length_append, length_map, ih]
    rfl

theorem count_eq_zero_iff (items : τ → List α) :
    count items groups = 0 ↔ ∀ g ∈ groups, items g = [] := by
  induction groups with
  | nil => exact iff_of_true rfl (forall_mem_nil _)
  | cons g groups ih =>
    rw [forall_mem_cons, ← ih, ← length_eq_zero_iff]
    exact Nat.add_eq_zero_iff

/-! ### The first item -/

theorem firstMatch_cons : firstMatch items p (g :: groups)
    = (((items g).findIdx? p).map fun i => (g, i)).or (firstMatch items p groups) := by
  rw [firstMatch, findSome?_cons]
  cases (items g).findIdx? p with
  | some i => rfl
  | none => rfl

theorem count_beforeFirst_cons : count items (beforeFirst items p (g :: groups))
    = if (items g).any p then 0
      else (items g).length + count items (beforeFirst items p groups) := by
  rw [beforeFirst, takeWhile_cons]
  cases (items g).any p with
  | true => rfl
  | false => rfl

theorem find?_zipIdx (k : κ) (l : List α) (n : ℕ) :
    (((l.map fun a => (k, a)).zipIdx n).find? fun i => p i.1.2).map (fun i => (i.1.1, i.2))
      = (l.findIdx? p).map fun i => (k, n + i) := by
  induction l generalizing n with
  | nil => rfl
  | cons a l ih =>
    rw [map_cons, zipIdx_cons, find?_cons, findIdx?_cons]
    cases p a with
    | true => rfl
    | false =>
      rw [if_neg Bool.false_ne_true, Option.map_map]
      dsimp only
      rw [ih]
      refine Option.map_congr fun i _ => ?_
      dsimp only [Function.comp]
      rw [Nat.add_assoc, Nat.add_comm 1 i]

/-- **The first item that is looked for**, in the row of all items. -/
theorem find?_zipIdx_concat (key : τ → κ) (items : τ → List α) (p : α → Bool) (groups : List τ)
    (n : ℕ) :
    (((concat key items groups).zipIdx n).find? fun i => p i.1.2).map (fun i => (i.1.1, i.2))
      = (firstMatch items p groups).map fun r =>
        (key r.1, n + count items (beforeFirst items p groups) + r.2) := by
  induction groups generalizing n with
  | nil => rfl
  | cons g groups ih =>
    have hhead := find?_zipIdx (p := p) (key g) (items g) n
    rw [concat_cons, zipIdx_append, find?_append, length_map, Option.map_or, hhead,
      ih, firstMatch_cons, count_beforeFirst_cons, ← findIdx?_isSome]
    cases (items g).findIdx? p with
    | some i => rfl
    | none =>
      -- all items of the group are before
      refine Option.map_congr fun r _ => ?_
      rw [Option.isSome_none, if_neg Bool.false_ne_true, ← Nat.add_assoc]

theorem firstMatch_eq_none_iff :
    firstMatch items p groups = none ↔ ∀ g ∈ groups, (items g).any p = false := by
  simp only [firstMatch, findSome?_eq_none_iff, Option.map_eq_none_iff,
    ← findIdx?_isSome, Option.isSome_eq_false_iff, Option.isNone_iff_eq_none]

/-! ### The last item -/

theorem getLast?_zipIdx (k : κ) (l : List α) (n : ℕ) :
    ((((l.map fun a => (k, a)).zipIdx n).filter fun i => p i.1.2).getLast?).map Prod.snd
      = (lastIdx p l).map fun i => n + i := by
  have hshift : (l.map fun a => (k, a)).zipIdx n
      = l.zipIdx.map fun a => ((k, a.1), n + a.2) := by
    rw [zipIdx_map, zipIdx_eq_map_add, map_map]
    rfl
  rw [hshift, filter_map, getLast?_map, lastIdx, Option.map_map, Option.map_map]
  rfl

theorem lastIdx_isSome (l : List α) : (lastIdx p l).isSome = l.any p := by
  rw [lastIdx, Option.isSome_map, Bool.eq_iff_iff, getLast?_isSome, any_eq_true]
  constructor
  · intro hne
    obtain ⟨a, ha⟩ := exists_mem_of_ne_nil _ hne
    rw [mem_filter] at ha
    exact ⟨a.1, fst_mem_of_mem_zipIdx ha.1, ha.2⟩
  · rintro ⟨a, ha, hp⟩
    obtain ⟨i, hi, rfl⟩ := getElem_of_mem ha
    have hmem : (l[i], i) ∈ l.zipIdx :=
      mk_mem_zipIdx_iff_getElem?.2 (getElem?_eq_getElem hi)
    exact ne_nil_of_mem (mem_filter.2 ⟨hmem, hp⟩)

theorem lastMatch_append : lastMatch items p (groups ++ [g])
    = ((lastIdx p (items g)).map fun i => (g, i)).or (lastMatch items p groups) := by
  rw [lastMatch, reverse_append, reverse_singleton, singleton_append, findSome?_cons]
  cases lastIdx p (items g) with
  | some i => rfl
  | none => rfl

theorem count_beforeLast_append : count items (beforeLast items p (groups ++ [g]))
    = if (items g).any p then count items groups else count items (beforeLast items p groups) := by
  rw [beforeLast, reverse_append, reverse_singleton, singleton_append, dropWhile_cons]
  cases (items g).any p with
  | true => exact (congrArg sum map_reverse).trans (sum_reverse _)
  | false => rfl

/-- **The last item that is looked for**, in the row of all items. -/
theorem getLast?_zipIdx_concat (key : τ → κ) (items : τ → List α) (p : α → Bool) (groups : List τ)
    (n : ℕ) :
    ((((concat key items groups).zipIdx n).filter fun i => p i.1.2).getLast?).map Prod.snd
      = (lastMatch items p groups).map fun r =>
        n + count items (beforeLast items p groups) + r.2 := by
  induction groups using reverseRecOn with
  | nil => rfl
  | append_singleton groups g ih =>
    have hlast := getLast?_zipIdx (p := p) (key g) (items g) (n + count items groups)
    have hsingle : concat key items [g] = (items g).map fun a => (key g, a) := by
      rw [concat_cons]
      exact append_nil _
    rw [concat_append, zipIdx_append, filter_append, getLast?_append, length_concat, hsingle,
      Option.map_or, hlast, ih, lastMatch_append, count_beforeLast_append, ← lastIdx_isSome]
    cases lastIdx p (items g) with
    | some i => rfl
    | none => rfl

theorem lastMatch_eq_none_iff :
    lastMatch items p groups = none ↔ ∀ g ∈ groups, (items g).any p = false := by
  simp only [lastMatch, findSome?_eq_none_iff, Option.map_eq_none_iff, mem_reverse,
    ← lastIdx_isSome, Option.isSome_eq_false_iff, Option.isNone_iff_eq_none]

theorem map_fst_filter_concat (groups : List τ) :
    ((concat key items groups).filter fun a => p a.2).map Prod.fst
      = groups.flatMap fun g => replicate ((items g).countP p) (key g) := by
  induction groups with
  | nil => rfl
  | cons g groups ih =>
    rw [concat_cons, filter_append, map_append, ih, flatMap_cons, filter_map,
      map_map, countP_eq_length_filter]
    congr 1
    exact map_const'

/-- **The keys of the items that are looked for.** -/
theorem map_key_filter_zipIdx_concat (key : τ → κ) (items : τ → List α) (p : α → Bool)
    (groups : List τ) (n : ℕ) :
    (((concat key items groups).zipIdx n).filter fun i => p i.1.2).map (fun i => i.1.1)
      = groups.flatMap fun g => replicate ((items g).countP p) (key g) := by
  have hfst : (((concat key items groups).zipIdx n).filter fun i => p i.1.2).map Prod.fst
      = (concat key items groups).filter fun a => p a.2 := by
    rw [← zipIdx_map_fst n (concat key items groups), filter_map, zipIdx_map_fst]
    rfl
  rw [← map_fst_filter_concat, ← hfst, map_map]
  rfl

end

/-! ### Two tests -/

section
variable {l : List α} {p q : α → Bool}

theorem length_filter_le (hpq : ∀ a ∈ l, p a = true → q a = true) :
    (l.filter p).length ≤ (l.filter q).length := by
  rw [← countP_eq_length_filter, ← countP_eq_length_filter]
  exact countP_mono_left hpq

theorem forall_of_length_le (hpq : ∀ a ∈ l, p a = true → q a = true)
    (hlen : (l.filter q).length ≤ (l.filter p).length) : ∀ a ∈ l, q a = true → p a = true := by
  intro a ha hq
  have hboth : (l.filter q).filter p = l.filter p := by
    rw [filter_filter]
    refine filter_congr fun b hb => ?_
    cases hp : p b with
    | true => rw [hpq b hb hp, Bool.and_self]
    | false => rw [Bool.false_and]
  have hall : ((l.filter q).filter p).length = (l.filter q).length := by
    rw [hboth]
    exact Nat.le_antisymm (length_filter_le hpq) hlen
  exact length_filter_eq_length_iff.1 hall a (mem_filter.2 ⟨ha, hq⟩)

theorem filter_eq_filter (hpq : ∀ a ∈ l, p a = true → q a = true)
    (hqp : ∀ a ∈ l, q a = true → p a = true) : l.filter q = l.filter p :=
  filter_congr fun a ha => Bool.eq_iff_iff.2 ⟨hqp a ha, hpq a ha⟩

/-- **The elements that pass the weaker test are the ones that pass the other** when no other one
passes it. -/
theorem map_filter_eq_iff (hpq : ∀ a ∈ l, p a = true → q a = true) (f : α → β) :
    (l.filter q).map f = (l.filter p).map f ↔ ∀ a ∈ l, q a = true → p a = true := by
  constructor
  · intro h
    have hlen := congrArg length h
    rw [length_map, length_map] at hlen
    exact forall_of_length_le hpq (Nat.le_of_eq hlen)
  · intro hqp
    rw [filter_eq_filter hpq hqp]

/-- **The same without the first ones**, `m` and `n` of them. -/
theorem map_drop_filter_eq_iff (hpq : ∀ a ∈ l, p a = true → q a = true) (f : α → β) {m n : ℕ}
    (hmn : m ≤ n) : ((l.filter q).drop m).map f = ((l.filter p).drop n).map f ↔
      (l.filter q).length ≤ m ∨ n = m ∧ ∀ a ∈ l, q a = true → p a = true := by
  have hle := length_filter_le hpq
  constructor
  · intro h
    have hlen := congrArg length h
    rw [length_map, length_map, length_drop, length_drop] at hlen
    by_cases hfew : (l.filter q).length ≤ m
    · exact .inl hfew
    · exact .inr ⟨by omega, forall_of_length_le hpq (by omega)⟩
  · rintro (hfew | ⟨rfl, hqp⟩)
    · rw [drop_eq_nil_of_le hfew, drop_eq_nil_of_le (by omega)]
    · rw [filter_eq_filter hpq hqp]

end

end Grouped
end Komodo
