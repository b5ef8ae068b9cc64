/-
# The checkpoints of a chain's state

`komodo_state` of `src/src/komodo_structs.h`, with `AddCheckpoint` and `NotarizedData` of
`src/src/komodo_structs.cpp`.

`NotarizedData` keeps the position where it stopped and starts the next search there, when the
checkpoint in front of it is below the height.  That is the search from the start (`scan`), unless an
earlier checkpoint is at or above the height: then the search from the start stops earlier
(`Shadowed`).  Checkpoints are added in the order of the blocks that are connected, so they ascend
until blocks are connected again at lower heights.
-/

import Komodo.Primitives.WireFormat

namespace Komodo
namespace Notary

open List

/-- `notarized_checkpoint`.  The fields of a MoMoM are never set. -/
structure NotarizedCheckpoint where
  notarized_hash : Uint256 := 0
  notarized_desttxid : Uint256 := 0
  MoM : Uint256 := 0
  nHeight : ℤ := 0
  notarized_height : ℤ := 0
  MoMdepth : ℤ := 0
deriving DecidableEq

structure KomodoState where
  NPOINTS : List NotarizedCheckpoint := []
  /-- The position where the last search stopped. -/
  NPOINTS_last_index : ℕ := 0
  last : NotarizedCheckpoint := {}
deriving DecidableEq

/-- What a search for a notarization finds: `notarized_height`, `notarized_hash` and
`notarized_desttxid`. -/
structure NotarizedData where
  notarized_height : ℤ := 0
  notarized_hash : Uint256 := 0
  notarized_desttxid : Uint256 := 0
deriving DecidableEq

def KomodoState.addCheckpoint (sp : KomodoState) (cp : NotarizedCheckpoint) : KomodoState :=
  { sp with NPOINTS := sp.NPOINTS ++ [cp], last := cp }

/-- The state of a search: whether a checkpoint at or above the height was found, the checkpoint in
front of it and the position. -/
structure Search where
  found : Bool
  np : Option NotarizedCheckpoint
  last_index : ℕ

/-- The loops of `NotarizedData`: from the position `i` on, until a checkpoint is at or above the
height. -/
def search (nHeight : ℤ) : (points : List NotarizedCheckpoint) → (i : ℕ) →
    (np : Option NotarizedCheckpoint) → (last_index : ℕ) → Search
  | [], _, np, last_index => { found := false, np, last_index }
  | point :: points, i, np, last_index =>
    if nHeight ≤ point.nHeight then { found := true, np, last_index }
    else search nHeight points (i + 1) (some point) i

/-- The data of a checkpoint, or zeros where there is none. -/
def dataOf : Option NotarizedCheckpoint → NotarizedData
  | some np => { notarized_height := np.notarized_height, notarized_hash := np.notarized_hash
                 notarized_desttxid := np.notarized_desttxid }
  | none => {}

/-- The search that starts at the cached position. -/
def KomodoState.searchCached (sp : KomodoState) (nHeight : ℤ) : Search :=
  let last_index := sp.NPOINTS_last_index
  let unmoved : Search := { found := false, np := none, last_index }
  if last_index < sp.NPOINTS.length ∧ 0 < last_index then
    match sp.NPOINTS[last_index - 1]? with
    | some np =>
      if np.nHeight < nHeight then
        search nHeight (sp.NPOINTS.drop last_index) last_index (some np) last_index
      else unmoved
    | none => unmoved
  else unmoved

/-- `NotarizedData(nHeight)`, which moves the position. -/
def KomodoState.notarizedData (sp : KomodoState) (nHeight : ℤ) : NotarizedData × KomodoState :=
  if 0 < sp.NPOINTS.length then
    let cached := sp.searchCached nHeight
    let searched :=
      if cached.found then cached else search nHeight sp.NPOINTS 0 none cached.last_index
    (dataOf searched.np, { sp with NPOINTS_last_index := searched.last_index })
  else ({}, sp)

/-! ### The search from the start -/

/-- The last checkpoint in front of the first one at or above the height. -/
def before (nHeight : ℤ) (points : List NotarizedCheckpoint) : Option NotarizedCheckpoint :=
  (points.takeWhile (·.nHeight < nHeight)).getLast?

/-- What the search from the start finds. -/
def scan (nHeight : ℤ) (points : List NotarizedCheckpoint) : NotarizedData :=
  dataOf (before nHeight points)

variable {nHeight : ℤ} {points below rest : List NotarizedCheckpoint} {point : NotarizedCheckpoint}

theorem before_cons (h : point.nHeight < nHeight) :
    before nHeight (point :: points) = (before nHeight points).or (some point) := by
  unfold before
  rw [takeWhile_cons_of_pos (by simpa using h), getLast?_cons]
  cases (points.takeWhile (·.nHeight < nHeight)).getLast? <;> rfl

theorem before_cons_of_le (h : nHeight ≤ point.nHeight) : before nHeight (point :: points) = none := by
  unfold before
  rw [takeWhile_cons_of_neg (by simpa using h)]
  rfl

theorem before_append (hbelow : ∀ p ∈ below, p.nHeight < nHeight) (h : point.nHeight < nHeight) :
    before nHeight (below ++ point :: rest) = before nHeight (point :: rest) := by
  induction below with
  | nil => rfl
  | cons p below ih =>
    rw [cons_append, before_cons (hbelow p (mem_cons_self ..)),
      ih fun q hq => hbelow q (mem_cons_of_mem p hq), before_cons h]
    cases before nHeight rest <;> rfl

theorem before_drop {i : ℕ} (hget : points[i]? = some point) (h : point.nHeight < nHeight)
    (hbelow : ∀ p ∈ points.take i, p.nHeight < nHeight) :
    before nHeight (points.drop i) = before nHeight points := by
  obtain ⟨hi, rfl⟩ := List.getElem?_eq_some_iff.1 hget
  have hskip : before nHeight (points.take i ++ points[i] :: points.drop (i + 1))
      = before nHeight (points[i] :: points.drop (i + 1)) := before_append hbelow h
  rw [← drop_eq_getElem_cons hi, take_append_drop] at hskip
  exact hskip.symm

theorem search_np (i : ℕ) (np : Option NotarizedCheckpoint) (last_index : ℕ) :
    (search nHeight points i np last_index).np = (before nHeight points).or np := by
  induction points generalizing i np last_index with
  | nil => rfl
  | cons point points ih =>
    unfold search
    by_cases h : nHeight ≤ point.nHeight
    · rw [if_pos h, before_cons_of_le h]
      rfl
    · rw [if_neg h, ih, before_cons (Int.lt_of_not_ge h), Option.or_assoc]
      rfl

theorem search_found (i : ℕ) (np : Option NotarizedCheckpoint) (last_index : ℕ) :
    (search nHeight points i np last_index).found = true
      ↔ ∃ p ∈ points, nHeight ≤ p.nHeight := by
  induction points generalizing i np last_index with
  | nil => exact ⟨fun h => Bool.noConfusion h, fun ⟨_, hp, _⟩ => nomatch hp⟩
  | cons point points ih =>
    unfold search
    rw [exists_mem_cons_iff]
    by_cases h : nHeight ≤ point.nHeight
    · rw [if_pos h]
      exact ⟨fun _ => .inl h, fun _ => rfl⟩
    · rw [if_neg h, ih, or_iff_right h]

/-! ### The search from the cached position -/

/-- The search from the cached position comes to an end. -/
def KomodoState.FromCache (sp : KomodoState) (nHeight : ℤ) : Prop :=
  0 < sp.NPOINTS_last_index
    ∧ (∃ np ∈ sp.NPOINTS[sp.NPOINTS_last_index - 1]?, np.nHeight < nHeight)
    ∧ ∃ p ∈ sp.NPOINTS.drop sp.NPOINTS_last_index, nHeight ≤ p.nHeight

/-- The search from the cached position comes to an end, and an earlier checkpoint is at or above the
height. -/
def Shadowed (sp : KomodoState) (nHeight : ℤ) : Prop :=
  sp.FromCache nHeight
    ∧ ∃ p ∈ sp.NPOINTS.take (sp.NPOINTS_last_index - 1), nHeight ≤ p.nHeight

variable {sp : KomodoState}

theorem searchCached_spec (h : sp.FromCache nHeight) :
    (sp.searchCached nHeight).found = true ∧ (sp.searchCached nHeight).np
      = before nHeight (sp.NPOINTS.drop (sp.NPOINTS_last_index - 1)) := by
  obtain ⟨hpos, ⟨np, hnp, hbelow⟩, hlater⟩ := h
  obtain ⟨p, hp, -⟩ := id hlater
  have hlt : sp.NPOINTS_last_index < sp.NPOINTS.length := by
    have hlen := length_pos_of_mem hp
    rw [length_drop] at hlen
    omega
  have hget : sp.NPOINTS[sp.NPOINTS_last_index - 1]? = some np := hnp
  have hdrop : sp.NPOINTS.drop (sp.NPOINTS_last_index - 1)
      = np :: sp.NPOINTS.drop sp.NPOINTS_last_index := by
    obtain ⟨hi, rfl⟩ := List.getElem?_eq_some_iff.1 hget
    rw [drop_eq_getElem_cons hi]
    congr 2
    omega
  have hsearch : sp.searchCached nHeight = search nHeight (sp.NPOINTS.drop sp.NPOINTS_last_index)
      sp.NPOINTS_last_index (some np) sp.NPOINTS_last_index := by
    unfold KomodoState.searchCached
    simp only [hget, if_pos hbelow, if_pos (And.intro hlt hpos)]
  rw [hsearch, search_np, hdrop, before_cons hbelow]
  exact ⟨(search_found ..).2 hlater, rfl⟩

theorem searchCached_not_found (h : ¬ sp.FromCache nHeight) :
    (sp.searchCached nHeight).found = false := by
  unfold KomodoState.searchCached
  by_cases hcached : sp.NPOINTS_last_index < sp.NPOINTS.length ∧ 0 < sp.NPOINTS_last_index
  · simp only [if_pos hcached]
    cases hnp : sp.NPOINTS[sp.NPOINTS_last_index - 1]? with
    | none => rfl
    | some np =>
      by_cases hbelow : np.nHeight < nHeight
      · simp only [if_pos hbelow]
        refine Bool.eq_false_iff.2 fun hfound => h ⟨hcached.2, ⟨np, hnp, hbelow⟩, ?_⟩
        exact (search_found ..).1 hfound
      · simp only [if_neg hbelow]
  · simp only [if_neg hcached]

/-- **A search finds what the search from the start finds, unless it is shadowed**: then it stops
later, and only the same data in another checkpoint could be found. -/
theorem notarizedData_eq_scan_iff (sp : KomodoState) (nHeight : ℤ) :
    (sp.notarizedData nHeight).1 = scan nHeight sp.NPOINTS ↔ (Shadowed sp nHeight →
      scan nHeight (sp.NPOINTS.drop (sp.NPOINTS_last_index - 1)) = scan nHeight sp.NPOINTS) := by
  have hscan : ¬ sp.FromCache nHeight →
      (sp.notarizedData nHeight).1 = scan nHeight sp.NPOINTS := by
    intro hcache
    unfold KomodoState.notarizedData
    by_cases hlen : 0 < sp.NPOINTS.length
    · simp only [if_pos hlen, searchCached_not_found hcache, Bool.false_eq_true, if_false,
        search_np, Option.or_none]
      rfl
    · rw [if_neg hlen, eq_nil_of_length_eq_zero (Nat.le_zero.1 (Nat.le_of_not_lt hlen))]
      rfl
  by_cases hcache : sp.FromCache nHeight
  · obtain ⟨hfound, hnp⟩ := searchCached_spec hcache
    have hlen : 0 < sp.NPOINTS.length := by
      obtain ⟨p, hp, -⟩ := hcache.2.2
      exact length_pos_of_mem (mem_of_mem_drop hp)
    have hdata : (sp.notarizedData nHeight).1
        = scan nHeight (sp.NPOINTS.drop (sp.NPOINTS_last_index - 1)) := by
      unfold KomodoState.notarizedData scan
      simp only [if_pos hlen, if_pos hfound, hnp]
    rw [hdata]
    by_cases hearlier : ∃ p ∈ sp.NPOINTS.take (sp.NPOINTS_last_index - 1), nHeight ≤ p.nHeight
    · exact ⟨fun h _ => h, fun h => h ⟨hcache, hearlier⟩⟩
    · refine ⟨fun _ h => absurd h.2 hearlier, fun _ => ?_⟩
      have hbelow : ∀ p ∈ sp.NPOINTS.take (sp.NPOINTS_last_index - 1), p.nHeight < nHeight :=
        fun p hp => Int.lt_of_not_ge fun hle => hearlier ⟨p, hp, hle⟩
      obtain ⟨-, ⟨np, hget, hnp⟩, -⟩ := hcache
      exact congrArg dataOf (before_drop hget hnp hbelow)
  · exact ⟨fun _ h => absurd h.1 hcache, fun _ => hscan hcache⟩

/-! ### Runs -/

inductive Call
  | addCheckpoint (cp : NotarizedCheckpoint)
  | notarizedData (nHeight : ℤ)

def KomodoState.call (sp : KomodoState) : Call → KomodoState
  | .addCheckpoint cp => sp.addCheckpoint cp
  | .notarizedData nHeight => (sp.notarizedData nHeight).2

/-- The searches of a run, each with the state that it is called in. -/
def KomodoState.searches (sp : KomodoState) : List Call → List (KomodoState × ℤ)
  | [] => []
  | .addCheckpoint cp :: calls => (sp.addCheckpoint cp).searches calls
  | .notarizedData nHeight :: calls =>
    (sp, nHeight) :: (sp.notarizedData nHeight).2.searches calls

/-- **The searches of a run depend on the checkpoints alone where none is shadowed.** -/
theorem searches_eq_scan_iff (calls : List Call) :
    (∀ q ∈ ({} : KomodoState).searches calls, (q.1.notarizedData q.2).1 = scan q.2 q.1.NPOINTS)
      ↔ ∀ q ∈ ({} : KomodoState).searches calls, Shadowed q.1 q.2 →
        scan q.2 (q.1.NPOINTS.drop (q.1.NPOINTS_last_index - 1)) = scan q.2 q.1.NPOINTS :=
  forall₂_congr fun q _ => notarizedData_eq_scan_iff q.1 q.2

/-- Four checkpoints, the third below the second.  A search above all of them leaves its position at
the last one, and the next search finds the third, where the first would be found from the start. -/
theorem searches_shadowed : ¬ ∀ calls, ∀ q ∈ ({} : KomodoState).searches calls,
    (q.1.notarizedData q.2).1 = scan q.2 q.1.NPOINTS := by
  intro h
  have hrun := h [.addCheckpoint { nHeight := 5, notarized_height := 4 },
    .addCheckpoint { nHeight := 20, notarized_height := 19 },
    .addCheckpoint { nHeight := 8, notarized_height := 7 },
    .addCheckpoint { nHeight := 30, notarized_height := 29 },
    .notarizedData 31, .notarizedData 10]
  exact absurd hrun (by decide)

end Notary
end Komodo
