/-
# Incremental Merkle trees

`IncrementalMerkleTree` of `src/src/zcash/IncrementalMerkleTree.hpp` and `IncrementalMerkleTree.cpp`,
for any hash and any depth.

`left` and `right` are the last one or two leaves and `parents` is a counter over the pairs before
them (`Komodo.Lib.PaddedTree`): `TreeOf` says which leaves a tree stands for.  `append` keeps it
(`TreeOf.append`) and `root` is the root of the full tree over the leaves (`TreeOf.root`).

A witness calls `root` with hashes for the subtrees that are still to come.  They fill the slots that
are free, from the lowest on (`Fills`), and `root` is then the root over the leaves of both
(`TreeOf.root_fill`).
-/

import Komodo.Lib.PaddedTree

namespace Komodo
namespace Zcash

open PaddedTree List Nat

variable {H : Type} (M : NodeHash H)

@[ext]
structure IncrementalMerkleTree (H : Type) where
  left : Option H := none
  right : Option H := none
  parents : List (Option H) := []
deriving DecidableEq, Repr

namespace IncrementalMerkleTree

/-- `last`; `none` is the exception for a tree without leaves. -/
def last (t : IncrementalMerkleTree H) : Option H := t.right.or t.left

def isComplete (t : IncrementalMerkleTree H) (depth : ℕ) : Bool :=
  t.left.isSome && t.right.isSome && t.parents.length + 1 = depth && t.parents.all Option.isSome

/-- The loop of `append` that propagates a hash up the tree, for `i` from `Depth - rounds` on. -/
def propagate : (rounds i : ℕ) → (combined : H) → List (Option H) → List (Option H)
  | 0, _, _, parents => parents
  | _ + 1, _, combined, [] => [some combined]
  | _ + 1, _, combined, none :: parents => some combined :: parents
  | rounds + 1, i, combined, some parent :: parents =>
    none :: propagate rounds (i + 1) (M.combine parent combined (i + 1)) parents

/-- `append`; `none` is the exception for a full tree. -/
def append (Depth : ℕ) (t : IncrementalMerkleTree H) (obj : H) : Option (IncrementalMerkleTree H) :=
  if t.isComplete Depth then none
  else
    match t.left, t.right with
    | none, _ => some { t with left := some obj }
    | some _, none => some { t with right := some obj }
    | some left, some right => some {
        left := some obj
        right := none
        parents := propagate M Depth 0 (M.combine left right 0) t.parents }

/-- The next filler hash, and the others: `PathFiller::next`. -/
def nextFiller (filler : List H) (depth : ℕ) : H × List H :=
  match filler with
  | h :: queue => (h, queue)
  | [] => (M.emptyRoot depth, [])

/-- The loop of `root` over the parents and that above them, for `d` up to `d + rounds`. -/
def rootLoop : (rounds d : ℕ) → List (Option H) → (root : H) → (filler : List H) → H
  | 0, _, _, root, _ => root
  | rounds + 1, d, some parent :: parents, root, filler =>
    rootLoop rounds (d + 1) parents (M.combine parent root d) filler
  | rounds + 1, d, none :: parents, root, filler =>
    let (h, filler) := nextFiller M filler d
    rootLoop rounds (d + 1) parents (M.combine root h d) filler
  | rounds + 1, d, [], root, filler =>
    let (h, filler) := nextFiller M filler d
    rootLoop rounds (d + 1) [] (M.combine root h d) filler

/-- `root` with hashes for the free slots.  All parents are gone through, also those above
`depth`. -/
def root (t : IncrementalMerkleTree H) (depth : ℕ) (filler : List H := []) : H :=
  let (combineLeft, filler) := match t.left with
    | some h => (h, filler)
    | none => nextFiller M filler 0
  let (combineRight, filler) := match t.right with
    | some h => (h, filler)
    | none => nextFiller M filler 0
  rootLoop M (max (depth - 1) t.parents.length) 1 t.parents (M.combine combineLeft combineRight 0)
    filler

/-- The loop of `next_depth` over the parents. -/
def nextDepthLoop : (d skip : ℕ) → List (Option H) → ℕ
  | d, skip, [] => d + skip
  | d, skip, some _ :: parents => nextDepthLoop (d + 1) skip parents
  | d, 0, none :: _ => d
  | d, skip + 1, none :: parents => nextDepthLoop (d + 1) skip parents

/-- `next_depth`: the height of the free slot above `skip` others. -/
def nextDepth (t : IncrementalMerkleTree H) (skip : ℕ) : ℕ :=
  let free := t.left.isNone.toNat + t.right.isNone.toNat
  if skip < free then 0 else nextDepthLoop 1 (skip - free) t.parents

end IncrementalMerkleTree

/-! ### What a tree stands for -/

/-- The leaves of a tree. -/
inductive TreeOf : IncrementalMerkleTree H → List H → Prop
  | empty : TreeOf {} []
  | one {parents : List (Option H)} {before : List H} (a : H) (h : Collapsed M 1 parents before)
      (hlast : LastTaken parents) : TreeOf ⟨some a, none, parents⟩ (before ++ [a])
  | two {parents : List (Option H)} {before : List H} (a b : H) (h : Collapsed M 1 parents before)
      (hlast : LastTaken parents) : TreeOf ⟨some a, some b, parents⟩ (before ++ [a, b])

variable {M}

open IncrementalMerkleTree

/-- The loop of `append` carries the hash into the parents, when there are rounds enough. -/
theorem propagate_eq_carry {rounds i : ℕ} {parents : List (Option H)} (h : parents.length < rounds)
    (combined : H) : propagate M rounds i combined parents = carry M (i + 1) combined parents := by
  induction parents generalizing rounds i combined with
  | nil =>
    obtain ⟨rounds, rfl⟩ := Nat.exists_eq_add_of_lt h
    rfl
  | cons parent parents ih =>
    obtain ⟨rounds, rfl⟩ := exists_eq_succ_of_ne_zero (ne_zero_of_lt h)
    cases parent with
    | none => rfl
    | some parent =>
      rw [propagate, carry, ih (by simpa using h)]

namespace TreeOf

variable {t : IncrementalMerkleTree H} {leaves : List H} {d : ℕ}

/-- There are no more parents than the leaves need. -/
theorem parents_length_lt (h : TreeOf M t leaves) (hd : 1 ≤ d) (hlen : leaves.length ≤ 2 ^ d) :
    t.parents.length < d := by
  have hbefore : ∀ {parents : List (Option H)} {before : List H}, Collapsed M 1 parents before →
      LastTaken parents → before.length < 2 ^ d → parents.length < d := by
    intro parents before hcollapsed hlast hlt
    by_cases hne : parents = []
    · subst hne
      exact hd
    · have hle := hcollapsed.le_length hlast hne
      rw [add_comm, pow_succ] at hle
      have hpow : 2 ^ parents.length < 2 ^ d := by omega
      exact (Nat.pow_lt_pow_iff_right Nat.one_lt_two).1 hpow
  cases h with
  | empty => exact hd
  | one a hcollapsed hlast =>
    rw [length_append, length_singleton] at hlen
    exact hbefore hcollapsed hlast (by omega)
  | two a b hcollapsed hlast =>
    rw [length_append] at hlen
    exact hbefore hcollapsed hlast (by simp only [length_cons, length_nil] at hlen; omega)

/-- **`is_complete` tells whether a tree of a height is full.** -/
theorem isComplete_iff (h : TreeOf M t leaves) (hd : 1 ≤ d) :
    t.isComplete d = true ↔ leaves.length = 2 ^ d := by
  cases h with
  | empty =>
    have hpos := Nat.two_pow_pos d
    exact iff_of_false (by simp [isComplete]) (by rw [length_nil]; omega)
  | one a hcollapsed hlast =>
    refine iff_of_false (by simp [isComplete]) fun hlen => ?_
    obtain ⟨n, hn⟩ := hcollapsed.dvd_length
    obtain ⟨d, rfl⟩ := Nat.exists_eq_add_of_le' hd
    rw [length_append, length_singleton, hn, pow_succ] at hlen
    omega
  | @two parents before a b hcollapsed hlast =>
    have hall := hcollapsed.length_eq_iff
    simp only [isComplete, Option.isSome_some, Bool.true_and, Bool.and_eq_true, decide_eq_true_eq,
      all_eq_true, length_append, length_cons, length_nil]
    rw [← hall]
    constructor
    · rintro ⟨rfl, hlen⟩
      rw [add_comm 1] at hlen
      omega
    · intro hlen
      have hle := hcollapsed.length_le
      have hlt : parents.length < d := by
        refine parents_length_lt (TreeOf.two a b hcollapsed hlast) hd ?_
        simp only [length_append, length_cons, length_nil]
        omega
      have hge : d ≤ 1 + parents.length :=
        (Nat.pow_le_pow_iff_right (le_refl 2)).1 (by omega)
      obtain rfl : parents.length + 1 = d := by omega
      rw [add_comm 1]
      exact ⟨rfl, by omega⟩

/-- **`append` puts a leaf behind the others.** -/
theorem append {D : ℕ} (h : TreeOf M t leaves) (hD : 1 ≤ D) (hlen : leaves.length < 2 ^ D) (obj : H) :
    ∃ t', IncrementalMerkleTree.append M D t obj = some t' ∧ TreeOf M t' (leaves ++ [obj]) := by
  have hopen : ¬ t.isComplete D = true := fun hfull => by
    have := (h.isComplete_iff hD).1 hfull
    omega
  have hparents := h.parents_length_lt hD hlen.le
  unfold IncrementalMerkleTree.append
  rw [if_neg hopen]
  cases h with
  | empty => exact ⟨_, rfl, TreeOf.one obj (show Collapsed M 1 [] [] from rfl) lastTaken_nil⟩
  | @one _ before a hcollapsed hlast =>
    refine ⟨_, rfl, ?_⟩
    rw [append_assoc]
    exact TreeOf.two a obj hcollapsed hlast
  | @two _ before a b hcollapsed hlast =>
    refine ⟨_, rfl, ?_⟩
    rw [propagate_eq_carry hparents]
    have hpair : [a, b].length = 2 ^ 1 := rfl
    exact TreeOf.one obj (hcollapsed.carry hpair) (hlast.carry _ _)

/-- `append` throws exactly when the tree is full. -/
theorem append_eq_none {D : ℕ} (h : TreeOf M t leaves) (hD : 1 ≤ D) (obj : H) :
    IncrementalMerkleTree.append M D t obj = none ↔ leaves.length = 2 ^ D := by
  rw [← h.isComplete_iff hD, IncrementalMerkleTree.append]
  split_ifs with hfull
  · exact iff_of_true rfl hfull
  · refine iff_of_false ?_ hfull
    split <;> nofun

theorem last (h : TreeOf M t leaves) : t.last = leaves.getLast? := by
  cases h with
  | empty => rfl
  | one a hcollapsed hlast => rw [getLast?_append]; rfl
  | two a b hcollapsed hlast => rw [getLast?_append]; rfl

end TreeOf

/-! ### Roots -/

variable (M) in
/-- The filler hashes of the free slots from height `k` upwards, and the leaves that they stand
for.  Only the last of them may be over fewer leaves than its slot has room for. -/
inductive Fills : ℕ → List (Option H) → List H → List H → Prop
  | done (k : ℕ) (slots : List (Option H)) : Fills k slots [] []
  | taken {k : ℕ} {h : H} {slots : List (Option H)} {filler leaves : List H}
      (hrest : Fills (k + 1) slots filler leaves) : Fills k (some h :: slots) filler leaves
  | free {k : ℕ} {slots : List (Option H)} {filler leaves chunk : List H}
      (hfree : slots.head?.join = none) (hlen : chunk.length ≤ 2 ^ k)
      (hfull : leaves ≠ [] → chunk.length = 2 ^ k) (hne : chunk ≠ [])
      (hrest : Fills (k + 1) slots.tail filler leaves) :
      Fills k slots (M.root k chunk :: filler) (chunk ++ leaves)

theorem Fills.of_taken {k : ℕ} {h : H} {slots : List (Option H)} {filler leaves : List H}
    (hfills : Fills M k (some h :: slots) filler leaves) : Fills M (k + 1) slots filler leaves := by
  cases hfills with
  | done => exact Fills.done _ _
  | taken hrest => exact hrest
  | free hfree => exact absurd hfree (Option.some_ne_none h)

/-- **The loop of `root`.**  Below it the root over `cur` has been calculated, which fills its tree
if there are more leaves to come. -/
theorem rootLoop_eq {rounds k : ℕ} {slots : List (Option H)} {before cur filler after : List H}
    (hslots : Collapsed M k slots before) (hrounds : slots.length ≤ rounds)
    (hcur : cur.length ≤ 2 ^ k) (hfull : after ≠ [] → cur.length = 2 ^ k)
    (hfills : Fills M k slots filler after)
    (htotal : before.length + cur.length + after.length ≤ 2 ^ (k + rounds)) :
    rootLoop M rounds k slots (M.root k cur) filler = M.root (k + rounds) (before ++ cur ++ after) := by
  induction rounds generalizing k slots before cur filler after with
  | zero =>
    obtain rfl := length_eq_zero_iff.1 (le_zero.1 hrounds)
    obtain rfl : before = [] := hslots
    have hafter : after = [] := by
      by_contra hne
      have hpos := length_pos_iff.2 hne
      rw [hfull hne, add_zero] at htotal
      omega
    subst hafter
    rw [nil_append, append_nil]
    rfl
  | succ rounds ih =>
    have hheight : k + (rounds + 1) = k + 1 + rounds := by omega
    rw [hheight] at htotal ⊢
    -- a slot that is free, or the height above all slots
    have hup : ∀ slots', Collapsed M (k + 1) slots' before → slots'.length ≤ rounds →
        (filler = [] ∧ after = [] ∨ ∃ chunk filler' after', filler = M.root k chunk :: filler' ∧
          after = chunk ++ after' ∧ chunk.length ≤ 2 ^ k ∧ (after' ≠ [] → chunk.length = 2 ^ k) ∧
          chunk ≠ [] ∧ Fills M (k + 1) slots' filler' after') →
        rootLoop M rounds (k + 1) slots'
          (M.combine (M.root k cur) (nextFiller M filler k).1 k) (nextFiller M filler k).2
          = M.root (k + 1 + rounds) (before ++ cur ++ after) := by
      rintro slots' hslots' hlen' (⟨rfl, rfl⟩ | ⟨chunk, filler', after', rfl, rfl, hle, hchunk, hne, hrest⟩)
      · show rootLoop M rounds (k + 1) slots' (M.combine (M.root k cur) (M.emptyRoot k) k) [] = _
        rw [← NodeHash.root_succ_of_length_le hcur]
        exact ih hslots' hlen' (by rw [pow_succ]; omega) nofun (Fills.done _ _) htotal
      · have hcur' := hfull (append_ne_nil_of_left_ne_nil hne _)
        show rootLoop M rounds (k + 1) slots' (M.combine (M.root k cur) (M.root k chunk) k) filler' = _
        rw [← NodeHash.root_append hcur', ih hslots' hlen' ?_ ?_ hrest ?_]
        · simp only [append_assoc]
        · rw [length_append, pow_succ]
          omega
        · intro hafter
          rw [length_append, hcur', hchunk hafter]
          ring
        · simp only [length_append] at htotal ⊢
          omega
    have hinv : ∀ slots', slots'.head?.join = none → Fills M k slots' filler after →
        filler = [] ∧ after = [] ∨ ∃ chunk filler' after', filler = M.root k chunk :: filler' ∧
          after = chunk ++ after' ∧ chunk.length ≤ 2 ^ k ∧ (after' ≠ [] → chunk.length = 2 ^ k) ∧
          chunk ≠ [] ∧ Fills M (k + 1) slots'.tail filler' after' := by
      intro slots' hfree hf
      cases hf with
      | done => exact Or.inl ⟨rfl, rfl⟩
      | taken => exact absurd hfree (Option.some_ne_none _)
      | free _ hlen hchunk hne hrest => exact Or.inr ⟨_, _, _, rfl, rfl, hlen, hchunk, hne, hrest⟩
    cases slots with
    | nil => exact hup [] hslots (zero_le _) (hinv [] rfl hfills)
    | cons slot slots =>
      rw [length_cons] at hrounds
      cases slot with
      | none => exact hup slots hslots (by omega) (hinv (none :: slots) rfl hfills)
      | some h =>
        obtain ⟨before, block, rfl, hblock, rfl, hbefore⟩ := hslots
        show rootLoop M rounds (k + 1) slots (M.combine (M.root k block) (M.root k cur) k) filler = _
        rw [← NodeHash.root_append hblock, ih hbefore (by omega) ?_ ?_ hfills.of_taken ?_]
        · simp only [append_assoc]
        · rw [length_append, pow_succ]
          omega
        · intro hafter
          rw [length_append, hblock, hfull hafter]
          ring
        · simp only [length_append] at htotal ⊢
          omega

/-- The slots above the last leaf. -/
def IncrementalMerkleTree.slots (t : IncrementalMerkleTree H) : List (Option H) :=
  t.right.bind (fun _ => t.left) :: t.parents

namespace TreeOf

variable {t : IncrementalMerkleTree H} {leaves : List H} {d : ℕ}

/-- The leaves before the last one are in the slots, and `root` begins with the last one. -/
theorem exists_slots (h : TreeOf M t leaves) (hne : leaves ≠ []) :
    ∃ before a, leaves = before ++ [a] ∧ Collapsed M 0 t.slots before ∧
      ∀ d filler, t.parents.length ≤ d →
        t.root M (d + 1) filler = rootLoop M (d + 1) 0 t.slots a filler := by
  cases h with
  | empty => contradiction
  | @one parents before a hcollapsed hlast =>
    refine ⟨before, a, rfl, hcollapsed, fun d filler hparents => ?_⟩
    have hrounds : max (d + 1 - 1) parents.length = d := max_eq_left hparents
    show rootLoop M (max (d + 1 - 1) parents.length) 1 parents _ _ = rootLoop M d 1 parents _ _
    rw [hrounds]
  | @two parents before a b hcollapsed hlast =>
    refine ⟨before ++ [a], b, by simp, ⟨before, [a], rfl, rfl, rfl, hcollapsed⟩,
      fun d filler hparents => ?_⟩
    have hrounds : max (d + 1 - 1) parents.length = d := max_eq_left hparents
    show rootLoop M (max (d + 1 - 1) parents.length) 1 parents _ _ = rootLoop M d 1 parents _ _
    rw [hrounds]

/-- **`root` with fillers is the root over the leaves and those of the fillers.** -/
theorem root_fill {filler after : List H} (h : TreeOf M t leaves) (hne : leaves ≠ []) (hd : 1 ≤ d)
    (hfills : Fills M 0 t.slots filler after) (hlen : (leaves ++ after).length ≤ 2 ^ d) :
    t.root M d filler = M.root d (leaves ++ after) := by
  rw [length_append] at hlen
  have hparents := h.parents_length_lt hd (by omega)
  obtain ⟨before, a, rfl, hcollapsed, hroot⟩ := h.exists_slots hne
  obtain ⟨d, rfl⟩ := Nat.exists_eq_add_of_le' hd
  have hslots : t.slots.length ≤ d + 1 := by
    rw [slots, length_cons]
    omega
  have hheight : 0 + (d + 1) = d + 1 := zero_add _
  rw [length_append] at hlen
  have hloop := rootLoop_eq hcollapsed hslots (show [a].length ≤ 2 ^ 0 from le_refl 1)
    (fun _ => rfl) hfills (by rwa [hheight])
  rw [hheight, NodeHash.root_singleton_zero] at hloop
  rw [hroot d filler (by omega), hloop]

/-- **`root` is the root of the full tree over the leaves.** -/
theorem root (h : TreeOf M t leaves) (hd : 1 ≤ d) (hlen : leaves.length ≤ 2 ^ d) :
    t.root M d = M.root d leaves := by
  by_cases hne : leaves = []
  · subst hne
    have ht : t = {} := by
      generalize hleaves : ([] : List H) = leaves at h
      cases h with
      | empty => rfl
      | one => simp at hleaves
      | two => simp at hleaves
    subst ht
    obtain ⟨d, rfl⟩ := Nat.exists_eq_add_of_le' hd
    have hheight : 1 + d = d + 1 := add_comm 1 d
    have hloop := rootLoop_eq (show Collapsed M 1 [] [] from rfl) (zero_le d)
      (show ([] : List H).length ≤ 2 ^ 1 from zero_le _) (fun hafter => absurd rfl hafter)
      (Fills.done 1 []) (zero_le _)
    have hrounds : max (d + 1 - 1) 0 = d := max_eq_left (zero_le d)
    show rootLoop M (max (d + 1 - 1) 0) 1 [] _ [] = _
    rw [hrounds, ← hheight]
    exact hloop
  · have hfill := h.root_fill hne hd (Fills.done 0 _) (by rwa [append_nil])
    rwa [append_nil] at hfill

end TreeOf

/-! ### Appending many leaves -/

/-- `append` of one leaf after the other. -/
def IncrementalMerkleTree.appendAll (M : NodeHash H) (Depth : ℕ) (t : IncrementalMerkleTree H)
    (leaves : List H) : Option (IncrementalMerkleTree H) :=
  leaves.foldlM (IncrementalMerkleTree.append M Depth) t

theorem TreeOf.appendAll {D : ℕ} {t : IncrementalMerkleTree H} {leaves : List H}
    (h : TreeOf M t leaves) (hD : 1 ≤ D) (more : List H)
    (hlen : (leaves ++ more).length ≤ 2 ^ D) :
    ∃ t', t.appendAll M D more = some t' ∧ TreeOf M t' (leaves ++ more) := by
  induction more generalizing t leaves with
  | nil => exact ⟨t, rfl, by rwa [append_nil]⟩
  | cons obj more ih =>
    have hlt : leaves.length < 2 ^ D := by
      rw [length_append, length_cons] at hlen
      omega
    obtain ⟨t', happend, hof⟩ := h.append hD hlt obj
    rw [append_cons] at hlen
    obtain ⟨t'', hall, hof'⟩ := ih hof hlen
    refine ⟨t'', ?_, by rwa [append_cons]⟩
    rw [IncrementalMerkleTree.appendAll, foldlM_cons, happend]
    exact hall

/-- **The tree after any leaves.**  `root` is the root of the full tree over the leaves and the empty
value behind them, `last` is the last leaf, and `append` throws exactly when the tree is full. -/
theorem appended_tree (M : NodeHash H) {D : ℕ} (hD : 1 ≤ D) (leaves : List H)
    (hlen : leaves.length ≤ 2 ^ D) :
    ∃ t, IncrementalMerkleTree.appendAll M D {} leaves = some t
      ∧ t.root M D
        = M.root D (leaves ++ List.replicate (2 ^ D - leaves.length) M.uncommitted)
      ∧ t.last = leaves.getLast?
      ∧ ∀ obj, t.append M D obj = none ↔ leaves.length = 2 ^ D := by
  obtain ⟨t, happend, hof⟩ := (TreeOf.empty (M := M)).appendAll hD leaves hlen
  refine ⟨t, happend, ?_, hof.last, hof.append_eq_none hD⟩
  rw [NodeHash.root_append_replicate]
  exact hof.root hD hlen

/-- Nodes are numbers, and a node is told from its children. -/
def numberHash : NodeHash ℕ := ⟨fun left right depth => 100 * left + 10 * right + depth, 7⟩

theorem appended_tree_three :
    1 ≤ 2 ∧ [1, 2, 3].length ≤ 2 ^ 2 ∧ ∃ t,
      IncrementalMerkleTree.appendAll numberHash 2 {} [1, 2, 3] = some t
      ∧ t.root numberHash 2 = numberHash.root 2 ([1, 2, 3] ++ List.replicate (2 ^ 2 - 3) 7)
      ∧ t.last = some 3
      ∧ ∀ obj, t.append numberHash 2 obj = none ↔ 3 = 2 ^ 2 :=
  ⟨by omega, by decide, appended_tree numberHash (by omega) [1, 2, 3] (by decide)⟩

end Zcash
end Komodo
