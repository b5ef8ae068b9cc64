/-
# Trees and witnesses that are stored

`IncrementalMerkleTree::wfcheck` and `size`, `IncrementalWitness::position`, and the serialization
of both, `src/src/zcash/IncrementalMerkleTree.hpp` and `IncrementalMerkleTree.cpp`, with that of
`boost::optional` from `src/src/serialize.h`.

`wfcheck` accepts the shapes of the trees that come about by appending (`wfcheck_iff`), so that a
tree with any hashes in it goes on as one of these would (`append_shape`).

A witness is stored without its `cursor_depth`.  While there is a cursor it is `next_depth` of the
number of filled slots, as when the cursor was made, and without a cursor it is not read before
`append` sets it again (`Sound`, `append_recomputed`).
-/

import Komodo.Zcash.MerklePath

namespace Komodo
namespace Zcash

open PaddedTree Streams Unserialize IncrementalMerkleTree List Nat

variable {H : Type} {M : NodeHash H} {D : ℕ}

/-! ### Shapes -/

namespace IncrementalMerkleTree

/-- `wfcheck`, true where it throws nothing. -/
def wfcheck (Depth : ℕ) (t : IncrementalMerkleTree H) : Bool :=
  if Depth ≤ t.parents.length then false
  else if ¬ t.parents.isEmpty ∧ t.parents.getLast?.join.isNone then false
  else if t.left.isNone ∧ t.right.isSome then false
  else if t.left.isNone ∧ 0 < t.parents.length then false
  else true

/-- `size`, a `size_t`: the shifts are those of an `int`. -/
def size (t : IncrementalMerkleTree H) : ℕ :=
  let shifts := t.parents.zipIdx.map fun p : Option H × ℕ =>
    if p.1.isSome then ((2 : ℤ) ^ (p.2 + 1)).bmod (2 ^ 32) else 0
  ((t.left.isSome.toNat + t.right.isSome.toNat + shifts.sum) % 2 ^ 64).toNat

/-- The slots that are occupied. -/
def shape (t : IncrementalMerkleTree H) : Bool × Bool × List Bool :=
  (t.left.isSome, t.right.isSome, t.parents.map Option.isSome)

/-- A tree that leaves were appended to has the same shape. -/
def Reached (M : NodeHash H) (D : ℕ) (t : IncrementalMerkleTree H) : Prop :=
  ∃ leaves t', leaves.length ≤ 2 ^ D ∧ appendAll M D {} leaves = some t' ∧ t'.shape = t.shape

variable {t t' : IncrementalMerkleTree H}

theorem shape_eq_iff : t.shape = t'.shape ↔
    t.left.isSome = t'.left.isSome ∧ t.right.isSome = t'.right.isSome
      ∧ t.parents.map Option.isSome = t'.parents.map Option.isSome := by
  simp [shape]

theorem lastTaken_iff {slots : List (Option H)} :
    LastTaken slots ↔ (slots.map Option.isSome).getLast? ≠ some false := by
  rw [LastTaken, getLast?_map]
  rcases slots.getLast? with _ | _ | _ <;> simp

theorem wfcheck_eq_true {t : IncrementalMerkleTree H} : t.wfcheck D = true ↔
    t.parents.length < D ∧ LastTaken t.parents
      ∧ (t.left.isSome = false → t.right.isSome = false ∧ t.parents = []) := by
  have hlast : LastTaken t.parents ↔
      ¬ (¬ t.parents.isEmpty ∧ t.parents.getLast?.join.isNone) := by
    rw [LastTaken]
    rcases hlast : t.parents.getLast? with _ | _ | _
    · simp [getLast?_eq_none_iff.1 hlast]
    · have hne : t.parents ≠ [] := fun h => by simp [h] at hlast
      simp [hne]
    · simp
  rw [hlast, wfcheck]
  split_ifs with hlen hparents hright hempty
  · simp [hlen]
  · simp [hparents]
  · simp_all
  · have hne : t.parents ≠ [] := length_pos_iff.1 hempty.2
    simp_all
  · simp_all

theorem wfcheck_congr (h : t.shape = t'.shape) :
    t.wfcheck D = true ↔ t'.wfcheck D = true := by
  obtain ⟨hleft, hright, hparents⟩ := shape_eq_iff.1 h
  have hlength := congrArg length hparents
  rw [length_map, length_map] at hlength
  rw [wfcheck_eq_true, wfcheck_eq_true, lastTaken_iff, lastTaken_iff, hleft, hright, hparents,
    hlength, ← length_eq_zero_iff, ← length_eq_zero_iff, hlength]

theorem isComplete_congr (h : t.shape = t'.shape) :
    t.isComplete D = t'.isComplete D := by
  obtain ⟨hleft, hright, hparents⟩ := shape_eq_iff.1 h
  have hlength := congrArg length hparents
  have hall := congrArg (all · id) hparents
  rw [length_map, length_map] at hlength
  rw [all_map, all_map] at hall
  simp only [isComplete, hleft, hright, hlength]
  exact congrArg _ hall

theorem propagate_shape {rounds i i' : ℕ} {node node' : H} {parents parents' : List (Option H)}
    (h : parents.map Option.isSome = parents'.map Option.isSome) :
    (propagate M rounds i node parents).map Option.isSome
      = (propagate M rounds i' node' parents').map Option.isSome := by
  induction rounds generalizing i i' node node' parents parents' with
  | zero => exact h
  | succ rounds ih =>
    match parents, parents' with
    | [], [] => rfl
    | none :: _, none :: _ => simpa [propagate] using h
    | some _ :: _, some _ :: _ =>
      rw [propagate, propagate, map_cons, map_cons, ih (cons.inj h).2]
    | [], _ :: _ => cases h
    | _ :: _, [] => cases h
    | none :: _, some _ :: _ => cases h
    | some _ :: _, none :: _ => cases h

/-- **`append` does not look at the hashes**: trees of one shape go on with one shape, or both
throw. -/
theorem append_shape (h : t.shape = t'.shape) (obj obj' : H) :
    (t.append M D obj).map shape = (t'.append M D obj').map shape := by
  unfold IncrementalMerkleTree.append
  rw [isComplete_congr h]
  obtain ⟨hleft, hright, hparents⟩ := shape_eq_iff.1 h
  obtain ⟨left, right, parents⟩ := t
  obtain ⟨left', right', parents'⟩ := t'
  split_ifs with hfull
  · rfl
  · match left, left', right, right' with
    | none, none, _, _ => simpa [shape] using ⟨hright, hparents⟩
    | some _, some _, none, none => simpa [shape] using hparents
    | some _, some _, some _, some _ => simpa [shape] using propagate_shape hparents
    | none, some _, _, _ => cases hleft
    | some _, none, _, _ => cases hleft
    | some _, some _, none, some _ => cases hright
    | some _, some _, some _, none => cases hright

end IncrementalMerkleTree

variable {leaves : List H}

/-- A tree that leaves are appended to stands for them. -/
theorem treeOf_of_appendAll (hD : 1 ≤ D) {t : IncrementalMerkleTree H}
    (h : IncrementalMerkleTree.appendAll M D {} leaves = some t) :
    TreeOf M t leaves ∧ leaves.length ≤ 2 ^ D := by
  induction leaves using reverseRecOn generalizing t with
  | nil =>
    cases h
    exact ⟨TreeOf.empty, zero_le _⟩
  | append_singleton leaves obj ih =>
    rw [IncrementalMerkleTree.appendAll, foldlM_append, Option.bind_eq_bind,
      Option.bind_eq_some_iff] at h
    obtain ⟨t', hleaves, hobj⟩ := h
    obtain ⟨htree, hlen⟩ := ih hleaves
    have happend : t'.append M D obj = some t := by
      simpa [foldlM_cons, foldlM_nil] using hobj
    have hne : leaves.length ≠ 2 ^ D := fun hfull => by
      rw [(htree.append_eq_none hD obj).2 hfull] at happend
      cases happend
    obtain ⟨t'', ht'', hof⟩ := htree.append hD (lt_of_le_of_ne hlen hne) obj
    obtain rfl := Option.some.inj (happend.symm.trans ht'')
    refine ⟨hof, ?_⟩
    rw [length_append, length_singleton]
    exact succ_le_of_lt (lt_of_le_of_ne hlen hne)

variable {t t' : IncrementalMerkleTree H}

theorem TreeOf.unique (h : TreeOf M t leaves) (h' : TreeOf M t' leaves) : t = t' := by
  cases h with
  | empty =>
    generalize hleaves : ([] : List H) = leaves at h'
    cases h' with
    | empty => rfl
    | one | two => simp at hleaves
  | @one parents before a hcollapsed hlast =>
    generalize hleaves : before ++ [a] = leaves at h'
    cases h' with
    | empty => simp at hleaves
    | one a' hcollapsed' hlast' =>
      obtain ⟨rfl, ha⟩ := append_inj' hleaves rfl
      rw [hcollapsed.unique hcollapsed' hlast hlast', (cons.inj ha).1]
    | two a' b' hcollapsed' hlast' => exact absurd hleaves (hcollapsed.append_ne hcollapsed')
  | @two parents before a b hcollapsed hlast =>
    generalize hleaves : before ++ [a, b] = leaves at h'
    cases h' with
    | empty => simp at hleaves
    | one a' hcollapsed' hlast' => exact absurd hleaves.symm (hcollapsed'.append_ne hcollapsed)
    | two a' b' hcollapsed' hlast' =>
      obtain ⟨rfl, hab⟩ := append_inj' hleaves rfl
      obtain ⟨rfl, hb⟩ := cons.inj hab
      rw [hcollapsed.unique hcollapsed' hlast hlast', (cons.inj hb).1]

theorem TreeOf.reached (hD : 1 ≤ D)
    (h : TreeOf M t leaves) (hlen : leaves.length ≤ 2 ^ D) (hshape : t.shape = t'.shape) :
    Reached M D t' := by
  obtain ⟨t'', happend, hof⟩ := (TreeOf.empty (M := M)).appendAll hD leaves hlen
  exact ⟨leaves, t'', hlen, happend, hof.unique h ▸ hshape⟩

/-- **`wfcheck` accepts the shapes of the trees that leaves were appended to.** -/
theorem wfcheck_iff (M : NodeHash H) (hD : 1 ≤ D) {t : IncrementalMerkleTree H} :
    t.wfcheck D = true ↔ Reached M D t := by
  constructor
  · rw [wfcheck_eq_true]
    rintro ⟨hlen, hlast, hempty⟩
    obtain ⟨left, right, parents⟩ := t
    cases left with
    | none =>
      obtain ⟨hright, rfl⟩ := hempty rfl
      obtain rfl : right = none := by simpa using hright
      exact ⟨[], {}, zero_le _, rfl, rfl⟩
    | some left =>
      obtain ⟨slots, before, hslots, hcollapsed⟩ :=
        Collapsed.exists_slots M (parents.map Option.isSome) 1
      have hlast' : LastTaken slots := by
        rw [lastTaken_iff, hslots]
        exact lastTaken_iff.1 hlast
      have hroom := hcollapsed.length_le
      have hslotsLen := congrArg length hslots
      rw [length_map, length_map] at hslotsLen
      have hpow : 2 ^ (1 + slots.length) ≤ 2 ^ D :=
        Nat.pow_le_pow_right Nat.two_pos (by
          rw [hslotsLen, add_comm]
          exact hlen)
      cases right with
      | none =>
        refine (TreeOf.one left hcollapsed hlast').reached hD ?_ (by simp [shape, hslots])
        rw [length_append, length_singleton]
        omega
      | some right =>
        refine (TreeOf.two left right hcollapsed hlast').reached hD ?_ (by simp [shape, hslots])
        simp only [length_append, length_cons, length_nil]
        omega
  · rintro ⟨leaves, t', hlen, happend, hshape⟩
    have htree := (treeOf_of_appendAll hD happend).1
    rw [← wfcheck_congr hshape, wfcheck_eq_true]
    refine ⟨htree.parents_length_lt hD hlen, ?_⟩
    cases htree with
    | empty => exact ⟨lastTaken_nil, fun _ => ⟨rfl, rfl⟩⟩
    | one a hcollapsed hlast => exact ⟨hlast, nofun⟩
    | two a b hcollapsed hlast => exact ⟨hlast, nofun⟩

theorem Reached.append (hD : 1 ≤ D) (h : Reached M D t) {obj : H}
    (happend : t.append M D obj = some t') : Reached M D t' := by
  obtain ⟨leaves, t₀, -, hleaves, hshape⟩ := h
  have hsim := append_shape hshape obj obj (M := M) (D := D)
  rw [happend, Option.map_some, Option.map_eq_some_iff] at hsim
  obtain ⟨t₀', happend₀, hshape'⟩ := hsim
  have hall : IncrementalMerkleTree.appendAll M D {} (leaves ++ [obj]) = some t₀' := by
    rw [IncrementalMerkleTree.appendAll, foldlM_append, ← IncrementalMerkleTree.appendAll, hleaves]
    simpa using happend₀
  exact ⟨_, t₀', (treeOf_of_appendAll hD hall).2, hall, hshape'⟩

theorem wfcheck_append (M : NodeHash H) (hD : 1 ≤ D)
    (h : t.wfcheck D = true) {obj : H} (happend : t.append M D obj = some t') :
    t'.wfcheck D = true :=
  (wfcheck_iff M hD).2 (Reached.append hD ((wfcheck_iff M hD).1 h) happend)

theorem wfcheck_appendAll (M : NodeHash H) (hD : 1 ≤ D)
    (h : t.wfcheck D = true) (happend : t.appendAll M D leaves = some t') :
    t'.wfcheck D = true := by
  induction leaves generalizing t with
  | nil => exact Option.some.inj happend ▸ h
  | cons obj leaves ih =>
    rw [IncrementalMerkleTree.appendAll, foldlM_cons, Option.bind_eq_bind,
      Option.bind_eq_some_iff] at happend
    obtain ⟨t'', hobj, hleaves⟩ := happend
    exact ih (wfcheck_append M hD h hobj) hleaves

/-! ### Levels -/

theorem length_pathLoop (rounds d : ℕ) (parents : List (Option H)) (filler : List H) :
    (pathLoop M rounds d parents filler).length = rounds := by
  induction rounds generalizing d parents filler with
  | zero => rfl
  | succ rounds ih =>
    match parents with
    | [] => exact congrArg succ (ih _ _ _)
    | none :: parents => exact congrArg succ (ih _ _ _)
    | some parent :: parents => exact congrArg succ (ih _ _ _)

/-- **`root` combines as many times as the tree is high.** -/
theorem root_levels (M : NodeHash H) (hD : 1 ≤ D) {t : IncrementalMerkleTree H}
    (h : t.wfcheck D = true) (filler : List H) :
    ∃ node path, path.length = D ∧ t.root M D filler = climb M 0 node path := by
  obtain ⟨hlen, -, hempty⟩ := wfcheck_eq_true.1 h
  have hrounds : max (D - 1) t.parents.length + 1 = D := by omega
  obtain ⟨left, right, parents⟩ := t
  cases left with
  | none =>
    obtain ⟨hright, rfl⟩ := hempty rfl
    obtain rfl : right = none := by simpa using hright
    refine ⟨_, (false, _) :: pathLoop M _ 1 [] _, ?_, (climb_pathLoop _ _ _ _ _).symm⟩
    rw [length_cons, length_pathLoop]
    exact hrounds
  | some left =>
    cases right with
    | none =>
      refine ⟨_, (false, _) :: pathLoop M _ 1 parents _, ?_, (climb_pathLoop _ _ _ _ _).symm⟩
      rw [length_cons, length_pathLoop]
      exact hrounds
    | some right =>
      refine ⟨_, (true, left) :: pathLoop M _ 1 parents _, ?_, (climb_pathLoop _ _ _ _ _).symm⟩
      rw [length_cons, length_pathLoop]
      exact hrounds

/-! ### Serialization -/

/-- `ss << x` for a `boost::optional`. -/
def optionalBytes {α : Type} (write : α → Bytes) : Option α → Bytes
  | none => [0]
  | some a => 1 :: write a

/-- `ss >> x` for a `boost::optional`. -/
def optionalOf {α : Type} (one : Unserialize α) : Unserialize (Option α) := do
  let discriminant ← uint8
  if discriminant = 0 then pure none
  else if discriminant = 1 then some <$> one
  else failure

theorem reads_optionalOf {α : Type} {one : Unserialize α} {write : α → Bytes} {o : Option α}
    (h : ∀ a ∈ o, Reads one (write a) a) : Reads (optionalOf one) (optionalBytes write o) o := by
  cases o with
  | none => exact (reads_uint8 0).bind (reads_pure none)
  | some a => exact (reads_uint8 1).bind ((h a rfl).map some)

namespace IncrementalMerkleTree

def bytes (t : IncrementalMerkleTree (ByteArr 32)) : Bytes :=
  optionalBytes Subtype.val t.left ++ optionalBytes Subtype.val t.right
    ++ listBytes (optionalBytes Subtype.val) t.parents

/-- `ss << tree`, which calls `wfcheck`. -/
def serialize (Depth : ℕ) (t : IncrementalMerkleTree (ByteArr 32)) : Option Bytes :=
  if t.wfcheck Depth then some t.bytes else none

/-- `ss >> tree` -/
def unserialize (Depth : ℕ) : Unserialize (IncrementalMerkleTree (ByteArr 32)) := do
  let left ← optionalOf (array 32)
  let right ← optionalOf (array 32)
  let parents ← vectorOf (optionalOf (array 32))
  guard (wfcheck Depth ⟨left, right, parents⟩)
  pure ⟨left, right, parents⟩

theorem reads_unserialize (hD : D ≤ 32) {t : IncrementalMerkleTree (ByteArr 32)}
    (h : t.wfcheck D = true) : Reads (unserialize D) t.bytes t := by
  have hash : ∀ o : Option (ByteArr 32), Reads (optionalOf (array 32))
      (optionalBytes Subtype.val o) o := fun o =>
    reads_optionalOf fun _ _ => (codec_array 32).reads trivial
  have hlen : t.parents.length ≤ maxSize := by
    have hlt := (wfcheck_eq_true.1 h).1
    unfold maxSize
    omega
  have hguard : Reads (guard (wfcheck D t) >>= fun _ => pure t) [] t := fun s => by
    rw [guard_bind_apply, if_pos h]
    rfl
  have hread := (hash t.left).bind
    (f := fun left => optionalOf (array 32) >>= fun right => vectorOf (optionalOf (array 32)) >>=
      fun parents => (guard (wfcheck D ⟨left, right, parents⟩) >>= fun _ =>
        pure ⟨left, right, parents⟩ : Unserialize (IncrementalMerkleTree (ByteArr 32))))
    ((hash t.right).bind ((reads_vectorOf hlen fun o _ => hash o).bind hguard))
  rw [append_nil, ← append_assoc] at hread
  exact hread

theorem wfcheck_of_unserialize {t : IncrementalMerkleTree (ByteArr 32)} {s s' : Bytes}
    (h : unserialize D s = some (t, s')) : t.wfcheck D = true := by
  simp only [unserialize, bind_apply, Option.bind_eq_some_iff] at h
  obtain ⟨⟨left, s₁⟩, -, ⟨right, s₂⟩, -, ⟨parents, s₃⟩, -, ⟨_, s₄⟩, hguard, hpure⟩ := h
  cases hpure
  by_contra hnot
  simp [guard, hnot] at hguard
  cases hguard

end IncrementalMerkleTree

namespace IncrementalWitness

/-- `position`, a `uint64_t`. -/
def position (w : IncrementalWitness H) : ℕ := (w.tree.size + (2 ^ 64 - 1)) % 2 ^ 64

/-- `cursor_depth` as the serialization sets it, in reading and in writing. -/
def recomputed (w : IncrementalWitness H) : IncrementalWitness H :=
  { w with cursorDepth := w.tree.nextDepth w.filled.length }

/-- `ss << witness`, and the witness after it. -/
def serialize (Depth : ℕ) (w : IncrementalWitness (ByteArr 32)) :
    Option (Bytes × IncrementalWitness (ByteArr 32)) := do
  let tree ← w.tree.serialize Depth
  let cursor ← w.cursor.elim (some [0]) fun cursor => (cursor.serialize Depth).map (1 :: ·)
  some (tree ++ listBytes Subtype.val w.filled ++ cursor, w.recomputed)

/-- `ss >> witness` -/
def unserialize (Depth : ℕ) : Unserialize (IncrementalWitness (ByteArr 32)) := do
  let tree ← IncrementalMerkleTree.unserialize Depth
  let filled ← vectorOf (array 32)
  let cursor ← optionalOf (IncrementalMerkleTree.unserialize Depth)
  pure { tree, filled, cursor, cursorDepth := tree.nextDepth filled.length }

/-! ### Witnesses -/

/-- What a witness keeps: `cursor_depth` is not stale while there is a cursor. -/
structure Sound (D : ℕ) (w : IncrementalWitness H) : Prop where
  tree : w.tree.wfcheck D = true
  filled : w.filled.length ≤ D + 1
  cursor : ∀ c ∈ w.cursor, c.wfcheck D = true ∧ w.cursorDepth = w.tree.nextDepth w.filled.length
    ∧ w.cursorDepth < D

theorem le_nextDepthLoop (d skip : ℕ) (parents : List (Option H)) :
    d + skip ≤ nextDepthLoop d skip parents := by
  induction parents generalizing d skip with
  | nil => exact le_rfl
  | cons parent parents ih =>
    match parent, skip with
    | some _, 0 => exact (ih (d + 1) 0).trans' (by omega)
    | some _, skip + 1 => exact (ih (d + 1) (skip + 1)).trans' (by omega)
    | none, 0 => exact le_rfl
    | none, skip + 1 => exact (ih (d + 1) skip).trans' (by omega)

/-- There are two slots at height 0 at most. -/
theorem le_nextDepth (t : IncrementalMerkleTree H) (skip : ℕ) : skip ≤ t.nextDepth skip + 1 := by
  have hfree : t.left.isNone.toNat + t.right.isNone.toNat ≤ 2 :=
    Nat.add_le_add (Bool.toNat_le _) (Bool.toNat_le _)
  unfold nextDepth
  dsimp only
  split_ifs with hskip
  · omega
  · have hle := le_nextDepthLoop 1 (skip - (t.left.isNone.toNat + t.right.isNone.toNat)) t.parents
    omega

/-- **`append` keeps `cursor_depth` in step**, for a witness of any tree, the empty one included. -/
theorem Sound.append (hD : 1 ≤ D) {w w' : IncrementalWitness H} (h : w.Sound D) {obj : H}
    (happend : w.append M D obj = some w') : w'.Sound D := by
  obtain ⟨tree, filled, cursor, depth⟩ := w
  have hfilled : ∀ node : H, tree.nextDepth filled.length < D →
      (filled ++ [node]).length ≤ D + 1 := by
    intro node hlt
    have hle := le_nextDepth tree filled.length
    rw [length_append, length_singleton]
    omega
  unfold IncrementalWitness.append at happend
  cases cursor with
  | none =>
    dsimp only at happend
    split_ifs at happend with hfull hzero
    · cases happend
      exact ⟨h.tree, hfilled obj (not_le.1 hfull), nofun⟩
    · obtain ⟨cursor, hcursor, hw⟩ := Option.bind_eq_some_iff.1 happend
      cases hw
      refine ⟨h.tree, h.filled, fun c hc => ?_⟩
      obtain rfl := Option.mem_some_iff.1 hc
      have hempty : ({} : IncrementalMerkleTree H).wfcheck D = true :=
        wfcheck_eq_true.2 ⟨hD, lastTaken_nil, fun _ => ⟨rfl, rfl⟩⟩
      exact ⟨wfcheck_append M hD hempty hcursor, rfl, not_le.1 hfull⟩
  | some cursor =>
    obtain ⟨hwf, hdepth, hlt⟩ := h.cursor cursor rfl
    obtain ⟨cursor', hcursor, hw⟩ := Option.bind_eq_some_iff.1 happend
    dsimp only at hw
    split_ifs at hw with hfull
    · cases hw
      exact ⟨h.tree, hfilled _ (hdepth ▸ hlt), nofun⟩
    · cases hw
      refine ⟨h.tree, h.filled, fun c hc => ?_⟩
      obtain rfl := Option.mem_some_iff.1 hc
      exact ⟨wfcheck_append M hD hwf hcursor, hdepth, hlt⟩

theorem Sound.appendAll (hD : 1 ≤ D) {w w' : IncrementalWitness H} (h : w.Sound D) {leaves : List H}
    (happend : w.appendAll M D leaves = some w') : w'.Sound D := by
  induction leaves generalizing w with
  | nil => exact Option.some.inj happend ▸ h
  | cons obj leaves ih =>
    rw [IncrementalWitness.appendAll, foldlM_cons, Option.bind_eq_bind,
      Option.bind_eq_some_iff] at happend
    obtain ⟨w'', hobj, hleaves⟩ := happend
    exact ih (h.append hD hobj) hleaves

/-- With a cursor nothing changes, and without one `append` sets `cursor_depth`. -/
theorem append_recomputed {w : IncrementalWitness H} (h : w.Sound D) (obj : H) :
    w.recomputed.append M D obj = w.append M D obj := by
  obtain ⟨tree, filled, cursor, depth⟩ := w
  cases cursor with
  | none => rfl
  | some cursor =>
    obtain ⟨-, hdepth, -⟩ := h.cursor cursor rfl
    rw [recomputed, ← hdepth]

theorem reads_unserialize (hD : D ≤ 32) {w : IncrementalWitness (ByteArr 32)} (h : w.Sound D) :
    ∃ bytes, w.serialize D = some (bytes, w.recomputed)
      ∧ Reads (unserialize D) bytes w.recomputed := by
  have htree := IncrementalMerkleTree.reads_unserialize hD h.tree
  have hlen : w.filled.length ≤ maxSize := h.filled.trans (by unfold maxSize; omega)
  have hfilled := reads_vectorOf hlen fun a (_ : a ∈ w.filled) =>
    (codec_array 32).reads (a := a) trivial
  have hcursor := reads_optionalOf fun c (hc : c ∈ w.cursor) =>
    IncrementalMerkleTree.reads_unserialize hD (h.cursor c hc).1
  have hread := htree.bind (f := fun tree => vectorOf (array 32) >>= fun filled =>
    optionalOf (IncrementalMerkleTree.unserialize D) >>= fun cursor =>
      (pure ⟨tree, filled, cursor, tree.nextDepth filled.length⟩ :
        Unserialize (IncrementalWitness (ByteArr 32))))
    (hfilled.bind (hcursor.bind (reads_pure w.recomputed)))
  rw [append_nil, ← append_assoc] at hread
  refine ⟨_, ?_, hread⟩
  have hcursorBytes : w.cursor.elim (some [0]) (fun cursor => (cursor.serialize D).map (1 :: ·))
      = some (optionalBytes IncrementalMerkleTree.bytes w.cursor) := by
    cases hc : w.cursor with
    | none => rfl
    | some cursor =>
      rw [Option.elim_some, IncrementalMerkleTree.serialize, if_pos (h.cursor cursor hc).1]
      rfl
  rw [serialize, IncrementalMerkleTree.serialize, if_pos h.tree, hcursorBytes]
  rfl

/-- Two witnesses answer alike. -/
structure SameAnswers (M : NodeHash (ByteArr 32)) (D : ℕ) (w w' : IncrementalWitness (ByteArr 32)) :
    Prop where
  root : w.root M D = w'.root M D
  path : w.path M D = w'.path M D
  element : w.element = w'.element
  position : w.position = w'.position

theorem sameAnswers_recomputed {M : NodeHash (ByteArr 32)} {w : IncrementalWitness (ByteArr 32)}
    (h : w.Sound D) (leaves : List (ByteArr 32)) : Option.Rel (SameAnswers M D)
      (w.appendAll M D leaves) (w.recomputed.appendAll M D leaves) := by
  cases leaves with
  | nil =>
    have hpath : w.recomputed.partialPath M = w.partialPath M := by
      obtain ⟨tree, filled, cursor, depth⟩ := w
      cases cursor with
      | none => rfl
      | some cursor =>
        obtain ⟨-, hdepth, -⟩ := h.cursor cursor rfl
        rw [recomputed, ← hdepth]
    refine Option.Rel.some ⟨?_, ?_, rfl, rfl⟩
    · rw [IncrementalWitness.root, IncrementalWitness.root, hpath]
      rfl
    · rw [IncrementalWitness.path, IncrementalWitness.path, hpath]
      rfl
  | cons obj leaves =>
    have hsame : w.recomputed.appendAll M D (obj :: leaves) = w.appendAll M D (obj :: leaves) := by
      rw [appendAll, foldlM_cons, append_recomputed h]
      rfl
    rw [hsame]
    cases w.appendAll M D (obj :: leaves) with
    | none => exact Option.Rel.none
    | some w' => exact Option.Rel.some ⟨rfl, rfl, rfl, rfl⟩

end IncrementalWitness

/-- **Trees and witnesses go on after a reload as they would have.** -/
theorem reload_tree_and_witness (M : NodeHash (ByteArr 32)) (hD : 1 ≤ D ∧ D ≤ 32) :
    (∀ t : IncrementalMerkleTree (ByteArr 32), t.wfcheck D = true ↔ Reached M D t)
    ∧ (∀ s t s', IncrementalMerkleTree.unserialize D s = some (t, s') →
      ∀ leaves t', t.appendAll M D leaves = some t' → Reached M D t' ∧
        ∃ node path, path.length = D ∧ t'.root M D = climb M 0 node path)
    ∧ (∀ leaves t, IncrementalMerkleTree.appendAll M D {} leaves = some t →
      ∃ bytes, t.serialize D = some bytes ∧ Reads (IncrementalMerkleTree.unserialize D) bytes t)
    ∧ ∀ leaves t after w, IncrementalMerkleTree.appendAll M D {} leaves = some t →
      t.witness.appendAll M D after = some w →
      ∃ bytes w', w.serialize D = some (bytes, w')
        ∧ Reads (IncrementalWitness.unserialize D) bytes w'
        ∧ ∀ further, Option.Rel (IncrementalWitness.SameAnswers M D) (w.appendAll M D further)
          (w'.appendAll M D further) := by
  have hempty : ({} : IncrementalMerkleTree (ByteArr 32)).wfcheck D = true :=
    wfcheck_eq_true.2 ⟨hD.1, lastTaken_nil, fun _ => ⟨rfl, rfl⟩⟩
  refine ⟨fun t => wfcheck_iff M hD.1, ?_, ?_, ?_⟩
  · intro s t s' hread leaves t' happend
    have hwf := wfcheck_appendAll M hD.1 (wfcheck_of_unserialize hread) happend
    exact ⟨(wfcheck_iff M hD.1).1 hwf, root_levels M hD.1 hwf []⟩
  · intro leaves t happend
    have hwf := wfcheck_appendAll M hD.1 hempty happend
    exact ⟨_, if_pos hwf, IncrementalMerkleTree.reads_unserialize hD.2 hwf⟩
  · intro leaves t after w happend hafter
    have hwf := wfcheck_appendAll M hD.1 hempty happend
    have hsound : w.Sound D := IncrementalWitness.Sound.appendAll hD.1
      ⟨hwf, Nat.zero_le _, fun c hc => absurd hc (Option.not_mem_none c)⟩ hafter
    obtain ⟨bytes, hbytes, hread⟩ := IncrementalWitness.reads_unserialize hD.2 hsound
    exact ⟨bytes, _, hbytes, hread, IncrementalWitness.sameAnswers_recomputed hsound⟩

/-- A witness of the first of three leaves is stored after the second. -/
theorem reload_second_leaf : ∃ w bytes w',
    (IncrementalMerkleTree.appendAll sumHash 2 {} [smallLeaf 1]).bind
      (fun t => t.witness.appendAll sumHash 2 [smallLeaf 2])
      = some w ∧ w.serialize 2 = some (bytes, w')
    ∧ Reads (IncrementalWitness.unserialize 2) bytes w'
    ∧ Option.Rel (IncrementalWitness.SameAnswers sumHash 2) (w.appendAll sumHash 2 [smallLeaf 3])
      (w'.appendAll sumHash 2 [smallLeaf 3]) := by
  obtain ⟨bytes, w', hbytes, hread, hsame⟩ := (reload_tree_and_witness sumHash (D := 2)
    ⟨by omega, by omega⟩).2.2.2 [smallLeaf 1] _ [smallLeaf 2] _ rfl rfl
  exact ⟨_, bytes, w', rfl, hbytes, hread, hsame _⟩

end Zcash
end Komodo
