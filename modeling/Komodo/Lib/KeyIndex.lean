/-
# Indexes of a collection

An index is a map from keys to values that is kept beside a list of items: each item has
entries, pairs of a key and a value, and the map holds the entries of the items and nothing
else (`Indexes`). The maps are functions into `Option`, filled with `putAll` and emptied with
`dropKeys`.

`Indexes.concat_put` is about an item that comes in with keys that are free, `Indexes.drop` about
one that goes. An item may also take keys with it that are not its own; they must not be keys
of the items that stay.

Where an item comes in with keys that are taken, less is left (`Covers`): what the map holds is
still an entry of an item, and every key of an item is in it.
-/

import Mathlib.Tactic

namespace Komodo
namespace KeyIndex

open List

variable {κ β α : Type}

/-- The map holds the entries of the items. -/
def Indexes (entries : α → List (κ × β)) (items : List α) (idx : κ → Option β) : Prop :=
  ∀ k b, idx k = some b ↔ ∃ a ∈ items, (k, b) ∈ entries a

section
variable {entries : α → List (κ × β)} {items : List α} {idx : κ → Option β} {a a' : α} {k : κ}
  {b b' : β}

theorem indexes_nil : Indexes entries [] (fun _ : κ => (none : Option β)) := by simp [Indexes]

theorem Indexes.apply (h : Indexes entries items idx) (ha : a ∈ items) (he : (k, b) ∈ entries a) :
    idx k = some b :=
  (h k b).2 ⟨a, ha, he⟩

theorem Indexes.eq_none (h : Indexes entries items idx) (hno : ∀ a ∈ items, ∀ b, (k, b) ∉ entries a) :
    idx k = none := by
  refine Option.eq_none_iff_forall_ne_some.2 fun b hfound => ?_
  obtain ⟨a, ha, he⟩ := (h k b).1 hfound
  exact hno a ha b he

theorem Indexes.unique (h : Indexes entries items idx) (ha : a ∈ items) (ha' : a' ∈ items)
    (he : (k, b) ∈ entries a) (he' : (k, b') ∈ entries a') : b = b' :=
  Option.some.inj ((h.apply ha he).symm.trans (h.apply ha' he'))

/-- The map holds entries of the items only, and has a value for each of their keys. -/
structure Covers (entries : α → List (κ × β)) (items : List α) (idx : κ → Option β) : Prop where
  sound : ∀ k b, idx k = some b → ∃ a ∈ items, (k, b) ∈ entries a
  total : ∀ a ∈ items, ∀ e ∈ entries a, ∃ b, idx e.1 = some b

theorem Indexes.covers (h : Indexes entries items idx) : Covers entries items idx :=
  ⟨fun k b => (h k b).1, fun _ ha e he => ⟨e.2, h.apply ha he⟩⟩

end

variable [DecidableEq κ]

/-- Entries are written one after another. -/
def putAll (idx : κ → Option β) (entries : List (κ × β)) : κ → Option β :=
  entries.foldl (fun idx e => Function.update idx e.1 (some e.2)) idx

/-- Keys are erased. -/
def dropKeys (idx : κ → Option β) (keys : List κ) : κ → Option β :=
  fun k => if k ∈ keys then none else idx k

section maps
variable {idx : κ → Option β} {es : List (κ × β)} {k : κ} {b : β}

theorem putAll_cons (e : κ × β) :
    putAll idx (e :: es) = putAll (Function.update idx e.1 (some e.2)) es := rfl

theorem putAll_of_notMem (h : k ∉ es.map Prod.fst) : putAll idx es k = idx k := by
  induction es generalizing idx with
  | nil => rfl
  | cons e es ih =>
    rw [map_cons, mem_cons, not_or] at h
    rw [putAll_cons, ih h.2, Function.update_of_ne h.1]

theorem exists_putAll_of_mem (idx : κ → Option β) (h : k ∈ es.map Prod.fst) :
    ∃ b, (k, b) ∈ es ∧ putAll idx es k = some b := by
  induction es generalizing idx with
  | nil => cases h
  | cons e es ih =>
    rw [putAll_cons]
    by_cases hrest : k ∈ es.map Prod.fst
    · obtain ⟨b, hb, hput⟩ := ih (Function.update idx e.1 (some e.2)) hrest
      exact ⟨b, mem_cons_of_mem _ hb, hput⟩
    · obtain rfl : k = e.1 := (mem_cons.1 h).resolve_right hrest
      refine ⟨e.2, mem_cons_self, ?_⟩
      rw [putAll_of_notMem hrest, Function.update_self]

theorem dropKeys_of_mem {keys : List κ} (h : k ∈ keys) : dropKeys idx keys k = none := if_pos h

theorem dropKeys_of_notMem {keys : List κ} (h : k ∉ keys) : dropKeys idx keys k = idx k := if_neg h

end maps

section
variable {entries : α → List (κ × β)} {items : List α} {idx : κ → Option β} {a : α}

/-- An item comes in whose keys are free, each with one value. -/
theorem Indexes.concat_put (h : Indexes entries items idx)
    (hfree : ∀ e ∈ entries a, idx e.1 = none)
    (hone : ∀ k b b', (k, b) ∈ entries a → (k, b') ∈ entries a → b = b') :
    Indexes entries (items ++ [a]) (putAll idx (entries a)) := by
  intro k b
  simp only [mem_append, mem_singleton]
  by_cases hk : k ∈ (entries a).map Prod.fst
  · obtain ⟨b', hb', hput⟩ := exists_putAll_of_mem idx hk
    rw [hput, Option.some.injEq]
    constructor
    · rintro rfl
      exact ⟨a, Or.inr rfl, hb'⟩
    · rintro ⟨a', ha' | rfl, he⟩
      · have hnone := hfree _ hb'
        rw [h.apply ha' he] at hnone
        cases hnone
      · exact hone k b' b hb' he
  · rw [putAll_of_notMem hk, h k b]
    constructor
    · rintro ⟨a', ha', he⟩
      exact ⟨a', Or.inl ha', he⟩
    · rintro ⟨a', ha' | rfl, he⟩
      · exact ⟨a', ha', he⟩
      · exact absurd (mem_map_of_mem he) hk

/-- An item comes in, whoever has its keys. -/
theorem Covers.concat_put (h : Covers entries items idx) :
    Covers entries (items ++ [a]) (putAll idx (entries a)) := by
  constructor
  · intro k b hput
    by_cases hk : k ∈ (entries a).map Prod.fst
    · obtain ⟨b', hb', hput'⟩ := exists_putAll_of_mem idx hk
      obtain rfl := Option.some.inj (hput'.symm.trans hput)
      exact ⟨a, mem_append_right _ mem_cons_self, hb'⟩
    · rw [putAll_of_notMem hk] at hput
      obtain ⟨a', ha', he⟩ := h.sound k b hput
      exact ⟨a', mem_append_left _ ha', he⟩
  · intro a' ha' e he
    by_cases hk : e.1 ∈ (entries a).map Prod.fst
    · obtain ⟨b, -, hput⟩ := exists_putAll_of_mem idx hk
      exact ⟨b, hput⟩
    · rw [putAll_of_notMem hk]
      rcases mem_append.1 ha' with ha' | ha'
      · exact h.total a' ha' e he
      · obtain rfl := mem_singleton.1 ha'
        exact absurd (mem_map_of_mem he) hk

/-- An item goes, and with it keys that no other item has. -/
theorem Indexes.drop {items' : List α} {keys : List κ} (h : Indexes entries items idx)
    (hitems : ∀ a', a' ∈ items' ↔ a' ∈ items ∧ a' ≠ a)
    (hown : ∀ e ∈ entries a, e.1 ∈ keys)
    (hothers : ∀ a' ∈ items, a' ≠ a → ∀ e ∈ entries a', e.1 ∉ keys) :
    Indexes entries items' (dropKeys idx keys) := by
  intro k b
  by_cases hk : k ∈ keys
  · rw [dropKeys_of_mem hk]
    constructor
    · intro hnone
      cases hnone
    · rintro ⟨a', ha', he⟩
      obtain ⟨hmem, hne⟩ := (hitems a').1 ha'
      exact absurd hk (hothers a' hmem hne _ he)
  · rw [dropKeys_of_notMem hk, h k b]
    constructor
    · rintro ⟨a', ha', he⟩
      refine ⟨a', (hitems a').2 ⟨ha', ?_⟩, he⟩
      rintro rfl
      exact hk (hown _ he)
    · rintro ⟨a', ha', he⟩
      exact ⟨a', ((hitems a').1 ha').1, he⟩

end

end KeyIndex
end Komodo
