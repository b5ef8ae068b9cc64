/-
# Binary trees of a fixed height over a list of leaves

The root of the full binary tree of height `d` whose leaves are the values of a list in order and
then an empty value.  The hash of two children may depend on their height.

A list of no more than `2 ^ d` leaves is a left half in the next tree (`root_succ_of_length_le`), and
a list that begins with `2 ^ d` leaves is split behind them (`root_append`).

A *counter* is a list of slots, from a height `k` upwards.  A slot that is taken holds the root of
the full tree over the leaves that come before those of the lower slots; `Collapsed` says which leaves
the slots stand for.  Carrying a root of height `k` into the counter puts its leaves behind
the others (`Collapsed.carry`).
-/

import Mathlib.Tactic

namespace Komodo
namespace PaddedTree

open List

/-- How nodes are hashed: two children and their height. -/
structure NodeHash (H : Type) where
  combine : H → H → ℕ → H
  uncommitted : H

variable {H : Type} (M : NodeHash H)

namespace NodeHash

/-- The root of a tree without leaves. -/
def emptyRoot : ℕ → H
  | 0 => M.uncommitted
  | d + 1 => M.combine (emptyRoot d) (emptyRoot d) d

/-- The root of the tree of height `d` over the first `2 ^ d` values of a list. -/
def root : ℕ → List H → H
  | 0, leaves => leaves.headD M.uncommitted
  | d + 1, leaves => M.combine (root d (leaves.take (2 ^ d))) (root d (leaves.drop (2 ^ d))) d

variable {M}

@[simp] theorem root_nil (d : ℕ) : M.root d [] = M.emptyRoot d := by
  induction d with
  | zero => rfl
  | succ d ih => rw [root, take_nil, drop_nil, ih, emptyRoot]

@[simp] theorem root_singleton_zero (a : H) : M.root 0 [a] = a := rfl

theorem root_append {d : ℕ} {left right : List H} (h : left.length = 2 ^ d) :
    M.root (d + 1) (left ++ right) = M.combine (M.root d left) (M.root d right) d := by
  rw [root, take_left' h, drop_left' h]

theorem root_succ_of_length_le {d : ℕ} {leaves : List H} (h : leaves.length ≤ 2 ^ d) :
    M.root (d + 1) leaves = M.combine (M.root d leaves) (M.emptyRoot d) d := by
  rw [root, take_of_length_le h, drop_of_length_le h, root_nil]

theorem root_replicate (d n : ℕ) : M.root d (replicate n M.uncommitted) = M.emptyRoot d := by
  induction d generalizing n with
  | zero => cases n <;> rfl
  | succ d ih => rw [root, take_replicate, drop_replicate, ih, ih, emptyRoot]

theorem root_append_replicate (d n : ℕ) (leaves : List H) :
    M.root d (leaves ++ replicate n M.uncommitted) = M.root d leaves := by
  induction d generalizing n leaves with
  | zero =>
    cases leaves with
    | nil => exact root_replicate 0 n
    | cons a leaves => rfl
  | succ d ih =>
    rw [root, root, take_append, drop_append, take_replicate, drop_replicate, ih, ih]

end NodeHash

/-! ### Counters -/

/-- The leaves that the slots from height `k` upwards stand for. -/
def Collapsed : ℕ → List (Option H) → List H → Prop
  | _, [], leaves => leaves = []
  | k, none :: slots, leaves => Collapsed (k + 1) slots leaves
  | k, some h :: slots, leaves => ∃ before block, leaves = before ++ block
      ∧ block.length = 2 ^ k ∧ h = M.root k block ∧ Collapsed (k + 1) slots before

/-- The last slot is taken. -/
def LastTaken (slots : List (Option H)) : Prop := slots.getLast? ≠ some none

/-- A root of height `k` is carried into the slots from there upwards. -/
def carry (M : NodeHash H) : (k : ℕ) → (h : H) → List (Option H) → List (Option H)
  | _, h, [] => [some h]
  | _, h, none :: slots => some h :: slots
  | k, h, some h' :: slots => none :: carry M (k + 1) (M.combine h' h k) slots

variable {M}

theorem lastTaken_nil : LastTaken ([] : List (Option H)) := nofun

variable {slots : List (Option H)}

theorem LastTaken.tail {slot : Option H} (h : LastTaken (slot :: slots)) :
    LastTaken slots := by
  cases slots with
  | nil => exact lastTaken_nil
  | cons slot' slots => rwa [LastTaken, getLast?_cons_cons] at h

theorem LastTaken.cons {slot : Option H} (h : LastTaken slots)
    (hne : slots ≠ []) : LastTaken (slot :: slots) := by
  cases slots with
  | nil => contradiction
  | cons slot' slots => rwa [LastTaken, getLast?_cons_cons]

theorem carry_ne_nil (k : ℕ) (h : H) (slots : List (Option H)) : carry M k h slots ≠ [] := by
  match slots with
  | [] => exact cons_ne_nil _ _
  | none :: _ => exact cons_ne_nil _ _
  | some _ :: _ => exact cons_ne_nil _ _

theorem LastTaken.carry (h : LastTaken slots) (k : ℕ) (node : H) :
    LastTaken (carry M k node slots) := by
  induction slots generalizing k node with
  | nil => exact nofun
  | cons slot slots ih =>
    cases slot with
    | none =>
      by_cases hslots : slots = []
      · subst hslots
        exact absurd rfl h
      · exact h.tail.cons hslots
    | some node' => exact (ih h.tail _ _).cons (carry_ne_nil _ _ _)

namespace Collapsed

variable {slots : List (Option H)} {k : ℕ}

theorem tail_of_free {before : List H}
    (h : Collapsed M k slots before) (hfree : slots.head?.join = none) :
    Collapsed M (k + 1) slots.tail before := by
  match slots with
  | [] => exact h
  | none :: _ => exact h
  | some _ :: _ => exact absurd hfree (Option.some_ne_none _)

/-- **Carrying a full tree in.** -/
theorem carry {leaves block : List H}
    (h : Collapsed M k slots leaves) (hblock : block.length = 2 ^ k) :
    Collapsed M k (carry M k (M.root k block) slots) (leaves ++ block) := by
  induction slots generalizing k leaves block with
  | nil => exact ⟨leaves, block, rfl, hblock, rfl, h⟩
  | cons slot slots ih =>
    cases slot with
    | none => exact ⟨leaves, block, rfl, hblock, rfl, h⟩
    | some h' =>
      obtain ⟨before, block', rfl, hblock', rfl, hbefore⟩ := h
      have hlen : (block' ++ block).length = 2 ^ (k + 1) := by
        rw [length_append, hblock', hblock]
        ring
      show Collapsed M (k + 1) (PaddedTree.carry M (k + 1) _ slots) _
      rw [← NodeHash.root_append hblock', append_assoc]
      exact ih hbefore hlen

variable {leaves : List H}

theorem dvd_length (h : Collapsed M k slots leaves) : 2 ^ k ∣ leaves.length := by
  induction slots generalizing k leaves with
  | nil =>
    obtain rfl : leaves = [] := h
    exact dvd_zero _
  | cons slot slots ih =>
    cases slot with
    | none => exact (pow_dvd_pow 2 (Nat.le_succ k)).trans (ih h)
    | some h' =>
      obtain ⟨before, block, rfl, hblock, -, hbefore⟩ := h
      rw [length_append, hblock]
      exact Nat.dvd_add ((pow_dvd_pow 2 (Nat.le_succ k)).trans (ih hbefore)) dvd_rfl

/-- Behind whole trees one leaf is not two. -/
theorem append_ne {slots slots' : List (Option H)} {before before' : List H} {a a' b : H}
    (h : Collapsed M 1 slots before) (h' : Collapsed M 1 slots' before') :
    before ++ [a] ≠ before' ++ [a', b] := by
  intro hleaves
  have hlength := congrArg length hleaves
  obtain ⟨m, hm⟩ := h.dvd_length
  obtain ⟨n, hn⟩ := h'.dvd_length
  simp only [length_append, length_cons, length_nil] at hlength
  omega

/-- The number of leaves, with those of a tree of height `k`, is at most that of the tree above all
slots. -/
theorem length_le
    (h : Collapsed M k slots leaves) : leaves.length + 2 ^ k ≤ 2 ^ (k + slots.length) := by
  induction slots generalizing k leaves with
  | nil =>
    obtain rfl : leaves = [] := h
    simp
  | cons slot slots ih =>
    have hheight : k + (slots.length + 1) = k + 1 + slots.length := by omega
    rw [length_cons, hheight]
    cases slot with
    | none =>
      have hrest := ih h
      rw [pow_succ] at hrest
      omega
    | some h' =>
      obtain ⟨before, block, rfl, hblock, -, hbefore⟩ := h
      have hrest := ih hbefore
      rw [pow_succ] at hrest
      rw [length_append]
      omega

/-- It is that number exactly when all slots are taken. -/
theorem length_eq_iff (h : Collapsed M k slots leaves) :
    leaves.length + 2 ^ k = 2 ^ (k + slots.length) ↔ ∀ slot ∈ slots, slot.isSome = true := by
  induction slots generalizing k leaves with
  | nil =>
    obtain rfl : leaves = [] := h
    simp
  | cons slot slots ih =>
    have hheight : k + (slots.length + 1) = k + 1 + slots.length := by omega
    rw [length_cons, hheight, forall_mem_cons]
    cases slot with
    | none =>
      have hrest := length_le (k := k + 1) h
      have hpos := Nat.two_pow_pos k
      rw [pow_succ] at hrest
      exact ⟨fun heq => by omega, fun hall => absurd hall.1 (by simp)⟩
    | some h' =>
      obtain ⟨before, block, rfl, hblock, -, hbefore⟩ := h
      have hrest := ih hbefore
      rw [pow_succ] at hrest
      rw [length_append, hblock, and_iff_right Option.isSome_some, ← hrest]
      constructor <;> intro heq <;> omega

/-- When the last slot is taken there are as many leaves as its tree has. -/
theorem le_length (h : Collapsed M k slots leaves) (hlast : LastTaken slots) (hne : slots ≠ []) :
    2 ^ (k + slots.length) ≤ 2 * leaves.length := by
  induction slots generalizing k leaves with
  | nil => contradiction
  | cons slot slots ih =>
    have hheight : k + (slots.length + 1) = k + 1 + slots.length := by omega
    rw [length_cons, hheight]
    by_cases hslots : slots = []
    · subst hslots
      cases slot with
      | none => exact absurd rfl hlast
      | some h' =>
        obtain ⟨before, block, rfl, hblock, -, -⟩ := h
        rw [length_append, hblock, length_nil, pow_succ]
        omega
    · cases slot with
      | none => exact ih h hlast.tail hslots
      | some h' =>
        obtain ⟨before, block, rfl, hblock, -, hbefore⟩ := h
        have hrest := ih hbefore hlast.tail hslots
        rw [length_append]
        omega

/-- Every choice of taken slots has leaves that it stands for. -/
theorem exists_slots (M : NodeHash H) (bits : List Bool) (k : ℕ) :
    ∃ slots leaves, slots.map Option.isSome = bits ∧ Collapsed M k slots leaves := by
  induction bits generalizing k with
  | nil => exact ⟨[], [], rfl, rfl⟩
  | cons bit bits ih =>
    obtain ⟨slots, leaves, hslots, hcollapsed⟩ := ih (k + 1)
    cases bit with
    | false => exact ⟨none :: slots, leaves, congrArg _ hslots, hcollapsed⟩
    | true =>
      exact ⟨some _ :: slots, leaves ++ replicate (2 ^ k) M.uncommitted, congrArg _ hslots,
        leaves, _, rfl, length_replicate, rfl, hcollapsed⟩

/-- The leaves determine the slots. -/
theorem unique {slots slots' : List (Option H)}
    (h : Collapsed M k slots leaves) (h' : Collapsed M k slots' leaves) (hlast : LastTaken slots)
    (hlast' : LastTaken slots') : slots = slots' := by
  have hodd : ∀ {k : ℕ} {slots slots' : List (Option H)} {node : H} {leaves : List H},
      Collapsed M k (none :: slots) leaves → ¬ Collapsed M k (some node :: slots') leaves := by
    rintro k slots slots' node _ hfree ⟨before, block, rfl, hblock, -, hbefore⟩
    have hall : 2 ^ (k + 1) ∣ (before ++ block).length :=
      (show Collapsed M (k + 1) slots _ from hfree).dvd_length
    rw [length_append, hblock] at hall
    have hle := Nat.le_of_dvd (Nat.two_pow_pos k) ((Nat.dvd_add_right hbefore.dvd_length).1 hall)
    rw [pow_succ] at hle
    have hpos := Nat.two_pow_pos k
    omega
  have hempty : ∀ {k : ℕ} {slots : List (Option H)}, Collapsed M k slots [] → LastTaken slots →
      slots = [] := by
    intro k slots hslots hlast
    by_contra hne
    have hle := hslots.le_length hlast hne
    have hpos := Nat.two_pow_pos (k + slots.length)
    rw [length_nil] at hle
    omega
  induction slots generalizing k slots' leaves with
  | nil =>
    obtain rfl : leaves = [] := h
    exact (hempty h' hlast').symm
  | cons slot slots ih =>
    cases slots' with
    | nil =>
      obtain rfl : leaves = [] := h'
      exact hempty h hlast
    | cons slot' slots' =>
      cases slot with
      | none =>
        cases slot' with
        | none => rw [ih h h' hlast.tail hlast'.tail]
        | some node' => exact absurd h' (hodd h)
      | some node =>
        cases slot' with
        | none => exact absurd h (hodd h')
        | some node' =>
          obtain ⟨before, block, rfl, hblock, rfl, hbefore⟩ := h
          obtain ⟨before', block', heq, hblock', rfl, hbefore'⟩ := h'
          obtain ⟨rfl, rfl⟩ := append_inj' heq (hblock.trans hblock'.symm)
          rw [ih hbefore hbefore' hlast.tail hlast'.tail]

end Collapsed

end PaddedTree
end Komodo
