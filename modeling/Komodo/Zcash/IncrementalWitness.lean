/-
# Incremental witnesses

`IncrementalWitness` of `src/src/zcash/IncrementalMerkleTree.hpp` and `IncrementalMerkleTree.cpp`, for
any hash and any depth.

A witness keeps the tree whose last leaf it is about.  The leaves that come later fill the free slots
of that tree from the lowest on: `filled` has the roots of the slots that are full (`FullFills`) and
`cursor` is a tree over the leaves of the next one, whose height is `next_depth`.  `WitnessOf` says
which leaves a witness stands for.  `append` keeps it (`WitnessOf.append`), and `root` is the root of
the full tree over all leaves (`WitnessOf.root`).
-/

import Komodo.Zcash.IncrementalMerkleTree

namespace Komodo
namespace Zcash

open PaddedTree List

variable {H : Type} (M : NodeHash H)

@[ext]
structure IncrementalWitness (H : Type) where
  tree : IncrementalMerkleTree H
  filled : List H := []
  cursor : Option (IncrementalMerkleTree H) := none
  cursorDepth : ℕ := 0
deriving DecidableEq, Repr

def IncrementalMerkleTree.witness (t : IncrementalMerkleTree H) : IncrementalWitness H := { tree := t }

namespace IncrementalWitness

def element (w : IncrementalWitness H) : Option H := w.tree.last

def partialPath (w : IncrementalWitness H) : List H :=
  match w.cursor with
  | some cursor => w.filled ++ [cursor.root M w.cursorDepth]
  | none => w.filled

def root (Depth : ℕ) (w : IncrementalWitness H) : H := w.tree.root M Depth (w.partialPath M)

/-- `append`; `none` is the exception for a full tree. -/
def append (Depth : ℕ) (w : IncrementalWitness H) (obj : H) : Option (IncrementalWitness H) :=
  match w.cursor with
  | some cursor => do
    let cursor ← cursor.append M Depth obj
    if cursor.isComplete w.cursorDepth then
      some { w with filled := w.filled ++ [cursor.root M w.cursorDepth], cursor := none }
    else
      some { w with cursor := some cursor }
  | none =>
    let cursorDepth := w.tree.nextDepth w.filled.length
    if Depth ≤ cursorDepth then none
    else if cursorDepth = 0 then
      some { w with filled := w.filled ++ [obj], cursorDepth := cursorDepth }
    else do
      let cursor ← IncrementalMerkleTree.append M Depth {} obj
      some { w with cursor := some cursor, cursorDepth := cursorDepth }

end IncrementalWitness

open IncrementalMerkleTree

variable {M}

theorem TreeOf.nextDepth_eq {t : IncrementalMerkleTree H} {leaves : List H} (h : TreeOf M t leaves)
    (hne : leaves ≠ []) (skip : ℕ) : t.nextDepth skip = nextDepthLoop 0 skip t.slots := by
  cases h with
  | empty => contradiction
  | one a hcollapsed hlast =>
    cases skip with
    | zero => rfl
    | succ skip => rfl
  | two a b hcollapsed hlast => rfl

/-! ### Full slots -/

variable (M) in
/-- The roots of the free slots that are full, and the leaves under them. -/
inductive FullFills : ℕ → List (Option H) → List H → List H → Prop
  | done (k : ℕ) (slots : List (Option H)) : FullFills k slots [] []
  | taken {k : ℕ} {h : H} {slots : List (Option H)} {filled leaves : List H}
      (hrest : FullFills (k + 1) slots filled leaves) : FullFills k (some h :: slots) filled leaves
  | free {k : ℕ} {slots : List (Option H)} {filled leaves chunk : List H}
      (hfree : slots.head?.join = none) (hlen : chunk.length = 2 ^ k)
      (hrest : FullFills (k + 1) slots.tail filled leaves) :
      FullFills k slots (M.root k chunk :: filled) (chunk ++ leaves)

theorem nextDepthLoop_succ_of_free {k skip : ℕ} {slots : List (Option H)}
    (hfree : slots.head?.join = none) :
    nextDepthLoop k (skip + 1) slots = nextDepthLoop (k + 1) skip slots.tail := by
  match slots with
  | [] =>
    show k + (skip + 1) = k + 1 + skip
    omega
  | none :: _ => rfl
  | some _ :: _ => exact absurd hfree (Option.some_ne_none _)

theorem nextDepthLoop_some (k skip : ℕ) (h : H) (slots : List (Option H)) :
    nextDepthLoop k skip (some h :: slots) = nextDepthLoop (k + 1) skip slots := by
  cases skip <;> rfl

namespace FullFills

variable {k : ℕ} {slots : List (Option H)} {filled leaves chunk : List H}

theorem fills (h : FullFills M k slots filled leaves) : Fills M k slots filled leaves := by
  induction h with
  | done k slots => exact Fills.done k slots
  | taken hrest ih => exact ih.taken
  | @free k slots filled leaves chunk hfree hlen hrest ih =>
    have hpos := Nat.two_pow_pos k
    have hne : chunk ≠ [] := ne_nil_of_length_pos (by omega)
    exact Fills.free hfree hlen.le (fun _ => hlen) hne ih

/-- Leaves under the first free slot, which they may fill. -/
theorem one_slot (hne : chunk ≠ []) (hlen : chunk.length ≤ 2 ^ nextDepthLoop k 0 slots) :
    Fills M k slots [M.root (nextDepthLoop k 0 slots) chunk] chunk ∧
      (chunk.length = 2 ^ nextDepthLoop k 0 slots →
        FullFills M k slots [M.root (nextDepthLoop k 0 slots) chunk] chunk) := by
  have hfree : ∀ {k : ℕ} {slots : List (Option H)}, slots.head?.join = none →
      chunk.length ≤ 2 ^ k → Fills M k slots [M.root k chunk] chunk ∧
        (chunk.length = 2 ^ k → FullFills M k slots [M.root k chunk] chunk) := by
    intro k slots hhead hle
    have hfills := Fills.free hhead hle (fun h => absurd rfl h) hne
      (Fills.done (M := M) (k + 1) slots.tail)
    refine ⟨by rwa [append_nil] at hfills, fun hfull => ?_⟩
    have hfull' := FullFills.free hhead hfull (done (M := M) (k + 1) slots.tail)
    rwa [append_nil] at hfull'
  induction slots generalizing k with
  | nil => exact hfree rfl hlen
  | cons slot slots ih =>
    cases slot with
    | none => exact hfree rfl hlen
    | some h => exact ⟨(ih hlen).1.taken, fun hfull => ((ih hlen).2 hfull).taken⟩

/-- **The next slot.**  Leaves under the next free slot go behind those of the others, and they may
fill it. -/
theorem snoc (h : FullFills M k slots filled leaves) (hne : chunk ≠ [])
    (hlen : chunk.length ≤ 2 ^ nextDepthLoop k filled.length slots) :
    Fills M k slots (filled ++ [M.root (nextDepthLoop k filled.length slots) chunk])
        (leaves ++ chunk) ∧
      (chunk.length = 2 ^ nextDepthLoop k filled.length slots →
        FullFills M k slots (filled ++ [M.root (nextDepthLoop k filled.length slots) chunk])
          (leaves ++ chunk)) := by
  induction h with
  | done k slots => exact one_slot hne hlen
  | @taken k h slots filled leaves hrest ih =>
    rw [nextDepthLoop_some] at hlen ⊢
    exact ⟨(ih hlen).1.taken, fun hfull => ((ih hlen).2 hfull).taken⟩
  | @free k slots filled leaves first hfree hfirst hrest ih =>
    rw [length_cons, nextDepthLoop_succ_of_free hfree] at hlen ⊢
    have hpos := Nat.two_pow_pos k
    have hfirst' : first ≠ [] := ne_nil_of_length_pos (by omega)
    rw [append_assoc]
    exact ⟨Fills.free hfree hfirst.le (fun _ => hfirst) hfirst' (ih hlen).1,
      fun hfull => FullFills.free hfree hfirst ((ih hlen).2 hfull)⟩

/-- Before and in the slots there are as many leaves as the next free slot has room for. -/
theorem room_le {before : List H} (h : FullFills M k slots filled leaves)
    (hslots : Collapsed M k slots before) :
    2 ^ nextDepthLoop k filled.length slots ≤ before.length + 2 ^ k + leaves.length := by
  induction h generalizing before with
  | done k slots =>
    induction slots generalizing k before with
    | nil => exact Nat.le_add_left _ _
    | cons slot slots ih =>
      cases slot with
      | none => exact Nat.le_add_left _ _
      | some h =>
        obtain ⟨before, block, rfl, hblock, -, hbefore⟩ := hslots
        have hrest := ih (k + 1) hbefore
        rw [pow_succ] at hrest
        rw [length_append, hblock]
        exact hrest.trans (by omega)
  | @taken k h slots filled leaves hrest ih =>
    obtain ⟨before, block, rfl, hblock, -, hbefore⟩ := hslots
    have hle := ih hbefore
    rw [pow_succ] at hle
    rw [nextDepthLoop_some, length_append, hblock]
    exact hle.trans (by omega)
  | @free k slots filled leaves first hfree hfirst hrest ih =>
    have hle := ih (hslots.tail_of_free hfree)
    rw [pow_succ] at hle
    rw [length_cons, nextDepthLoop_succ_of_free hfree, length_append, hfirst]
    exact hle.trans (by omega)

end FullFills

/-! ### What a witness stands for -/

variable (M) in
/-- The leaves of the tree of a witness, and those that came later. -/
inductive WitnessOf : IncrementalWitness H → List H → List H → Prop
  | filled {tree : IncrementalMerkleTree H} {filled : List H} {leaves after : List H} (depth : ℕ)
      (htree : TreeOf M tree leaves) (hne : leaves ≠ [])
      (hfilled : FullFills M 0 tree.slots filled after) :
      WitnessOf ⟨tree, filled, none, depth⟩ leaves after
  | cursor {tree cursor : IncrementalMerkleTree H} {filled : List H} {leaves after rest : List H}
      (htree : TreeOf M tree leaves) (hne : leaves ≠ [])
      (hfilled : FullFills M 0 tree.slots filled after) (hcursor : TreeOf M cursor rest)
      (hrest : rest ≠ []) (hlt : rest.length < 2 ^ tree.nextDepth filled.length) :
      WitnessOf ⟨tree, filled, some cursor, tree.nextDepth filled.length⟩ leaves (after ++ rest)

/-- `witness` stands for the leaves so far. -/
theorem TreeOf.witness {t : IncrementalMerkleTree H} {leaves : List H} (h : TreeOf M t leaves)
    (hne : leaves ≠ []) : WitnessOf M t.witness leaves [] :=
  WitnessOf.filled 0 h hne (FullFills.done 0 t.slots)

theorem one_le_of_length_lt {rest : List H} {d : ℕ} (hrest : rest ≠ [])
    (hlt : rest.length < 2 ^ d) : 1 ≤ d := by
  have hpos := length_pos_iff.2 hrest
  rcases Nat.eq_zero_or_pos d with rfl | hd
  · rw [pow_zero] at hlt
    omega
  · exact hd

namespace WitnessOf

variable {w : IncrementalWitness H} {leaves after : List H} {D : ℕ}

/-- **`element` is the last leaf of the tree.** -/
theorem element (h : WitnessOf M w leaves after) : w.element = leaves.getLast? := by
  cases h with
  | filled depth htree hne hfilled => exact htree.last
  | cursor htree hne hfilled hcursor hrest hlt => exact htree.last

/-- **`root` is the root over all leaves.** -/
theorem root (h : WitnessOf M w leaves after) (hD : 1 ≤ D) (hlen : (leaves ++ after).length ≤ 2 ^ D) :
    w.root M D = M.root D (leaves ++ after) := by
  cases h with
  | filled depth htree hne hfilled => exact htree.root_fill hne hD hfilled.fills hlen
  | cursor htree hne hfilled hcursor hrest hlt =>
    refine htree.root_fill hne hD ?_ hlen
    show Fills M 0 _ (_ ++ [_]) _
    rw [hcursor.root (one_le_of_length_lt hrest hlt) hlt.le]
    rw [htree.nextDepth_eq hne] at hlt ⊢
    exact (hfilled.snoc hrest hlt.le).1

theorem nextDepth_lt {tree : IncrementalMerkleTree H} {filled : List H} (htree : TreeOf M tree leaves)
    (hne : leaves ≠ []) (hfilled : FullFills M 0 tree.slots filled after)
    (hlen : (leaves ++ after).length < 2 ^ D) : tree.nextDepth filled.length < D := by
  obtain ⟨before, a, rfl, hslots, -⟩ := htree.exists_slots hne
  have hroom := hfilled.room_le hslots
  rw [← htree.nextDepth_eq hne, pow_zero] at hroom
  rw [length_append, length_append, length_singleton] at hlen
  exact (Nat.pow_lt_pow_iff_right Nat.one_lt_two).1 (hroom.trans_lt hlen)

/-- **`append` puts a leaf behind the others.** -/
theorem append (h : WitnessOf M w leaves after) (hD : 1 ≤ D)
    (hlen : (leaves ++ after).length < 2 ^ D) (obj : H) :
    ∃ w', w.append M D obj = some w' ∧ WitnessOf M w' leaves (after ++ [obj]) := by
  cases h with
  | @filled tree filled leaves after depth htree hne hfilled =>
    have hlt := nextDepth_lt htree hne hfilled hlen
    have hsnoc := hfilled.snoc (cons_ne_nil obj [])
      (Nat.one_le_two_pow : [obj].length ≤ 2 ^ _)
    rw [← htree.nextDepth_eq hne] at hsnoc
    unfold IncrementalWitness.append
    simp only [if_neg (Nat.not_le.2 hlt)]
    split_ifs with hzero
    · rw [hzero] at hsnoc ⊢
      exact ⟨_, rfl, WitnessOf.filled 0 htree hne (hsnoc.2 rfl)⟩
    · obtain ⟨cursor, hcursor, hof⟩ := (TreeOf.empty (M := M)).append hD (Nat.two_pow_pos D) obj
      have hone : 1 < 2 ^ tree.nextDepth filled.length := Nat.one_lt_two_pow hzero
      rw [hcursor]
      exact ⟨_, rfl, WitnessOf.cursor htree hne hfilled hof (cons_ne_nil _ _) hone⟩
  | @cursor tree cursor filled leaves after rest htree hne hfilled hcursor hrest hlt =>
    have hrestD : rest.length < 2 ^ D := by
      simp only [length_append] at hlen
      omega
    have hd := one_le_of_length_lt hrest hlt
    obtain ⟨cursor', happend, hof⟩ := hcursor.append hD hrestD obj
    have hrest' : rest ++ [obj] ≠ [] := append_ne_nil_of_left_ne_nil hrest _
    have hle : (rest ++ [obj]).length ≤ 2 ^ tree.nextDepth filled.length := by
      rw [length_append, length_singleton]
      exact hlt
    unfold IncrementalWitness.append
    simp only [happend, Option.bind_eq_bind, Option.bind_some, append_assoc]
    split_ifs with hfull
    · refine ⟨_, rfl, WitnessOf.filled _ htree hne ?_⟩
      rw [hof.root hd hle]
      rw [hof.isComplete_iff hd] at hfull
      rw [htree.nextDepth_eq hne] at hle hfull ⊢
      exact (hfilled.snoc hrest' hle).2 hfull
    · rw [hof.isComplete_iff hd] at hfull
      exact ⟨_, rfl, WitnessOf.cursor htree hne hfilled hof hrest' (lt_of_le_of_ne hle hfull)⟩

end WitnessOf

end Zcash
end Komodo
