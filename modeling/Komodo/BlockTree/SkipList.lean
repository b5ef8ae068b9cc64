/-
# Ancestors in the block index

`CBlockIndex::GetAncestor` and `BuildSkip` of `src/src/chain.cpp`.

An entry points to its parent (`pprev`) and, behind a skip, to an ancestor far below (`pskip`).
`Linked` says that the entries form a tree with the genesis block as its root, `Skips` that every
`pskip` that is set leads to the ancestor at the height `GetSkipHeight` names.  The walk of
`GetAncestor` keeps a pointer and a height, and they stay in step (`getAncestorLoop_eq`), so that it
finds the same entry as the walk along `pprev` (`getAncestor_eq`).  `BuildSkip` relies on that, and
keeps it (`Skips.buildSkip`).

Entries live in a map of pointers, `none` being the null pointer where the source has one.  A
result `none` around it is a failed assertion, or a pointer to no entry.
-/

import Komodo.Primitives.Transaction

namespace Komodo
namespace SkipList

open Option Function

structure CBlockIndex (Ptr : Type) where
  hash : Uint256
  pprev : Option Ptr
  pskip : Option Ptr
  nHeight : ℕ
deriving DecidableEq, Repr

/-- The entries, by their pointers. -/
abbrev BlockMap (Ptr : Type) := Ptr → Option (CBlockIndex Ptr)

/-! ### Skip heights -/

def invertLowestOne (n : ℕ) : ℕ := n &&& (n - 1)

def getSkipHeight (height : ℕ) : ℕ :=
  if height < 2 then 0
  else if height &&& 1 ≠ 0 then invertLowestOne (invertLowestOne (height - 1)) + 1
  else invertLowestOne height

theorem invertLowestOne_le (n : ℕ) : invertLowestOne n ≤ n - 1 := Nat.and_le_right

theorem getSkipHeight_lt {height : ℕ} (h : 0 < height) : getSkipHeight height < height := by
  unfold getSkipHeight
  split_ifs with hlow hodd
  · exact h
  · have h₁ := invertLowestOne_le (height - 1)
    have h₂ := invertLowestOne_le (invertLowestOne (height - 1))
    omega
  · have := invertLowestOne_le height
    omega

variable {Ptr : Type}

namespace BlockMap

/-- `pprev` of the entry. -/
def pprev (m : BlockMap Ptr) (p : Ptr) : Option Ptr := (m p).bind CBlockIndex.pprev

/-- The `k`-th parent, the null pointer where there are not so many. -/
def parent (m : BlockMap Ptr) (k : ℕ) (p : Ptr) : Option Ptr :=
  (fun q => q.bind m.pprev)^[k] (some p)

/-! ### The walk -/

/-- Whether the walk of `GetAncestor` to `height` follows `pskip` from `heightWalk`, if it is there:
it does not when the skip of the parent leads closer. -/
def followsSkip (height heightWalk : ℕ) : Bool :=
  let heightSkip : ℤ := getSkipHeight heightWalk
  let heightSkipPrev : ℤ := getSkipHeight (heightWalk - 1)
  heightSkip = height
    ∨ (heightSkip > height ∧ ¬ (heightSkipPrev < heightSkip - 2 ∧ heightSkipPrev ≥ height))

/-- The loop of `GetAncestor`; every round lowers `heightWalk`. -/
def getAncestorLoop (m : BlockMap Ptr) (height : ℕ) :
    (fuel : ℕ) → (pindexWalk : Option Ptr) → (heightWalk : ℕ) → Option (Option Ptr)
  | _, none, _ => some none
  | 0, some p, heightWalk => if heightWalk > height then none else some (some p)
  | fuel + 1, some p, heightWalk =>
    if heightWalk > height then
      match m p with
      | none => none
      | some e =>
        if e.pskip ≠ none ∧ followsSkip height heightWalk then
          getAncestorLoop m height fuel e.pskip (getSkipHeight heightWalk)
        else if e.pprev = none then none
        else getAncestorLoop m height fuel e.pprev (heightWalk - 1)
    else some (some p)

def getAncestor (m : BlockMap Ptr) (p : Ptr) (height : ℤ) : Option (Option Ptr) :=
  match m p with
  | none => none
  | some e =>
    if height > e.nHeight ∨ height < 0 then some none
    else getAncestorLoop m height.toNat e.nHeight (some p) e.nHeight

section
variable [DecidableEq Ptr]

def buildSkip (m : BlockMap Ptr) (p : Ptr) : Option (BlockMap Ptr) :=
  match m p with
  | none => none
  | some e =>
    match e.pprev with
    | none => some m
    | some prev =>
      (getAncestor m prev (getSkipHeight e.nHeight)).map fun pskip =>
        Function.update m p (some { e with pskip })

/-- What `AddToBlockIndex` does for a block whose parent has the entry `prev`, up to `BuildSkip`. -/
def link (m : BlockMap Ptr) (p prev : Ptr) (e : CBlockIndex Ptr) (hash : Uint256) : BlockMap Ptr :=
  Function.update m p (some { hash, pprev := some prev, pskip := none, nHeight := e.nHeight + 1 })

end

/-! ### Trees -/

/-- The entries form a tree whose root is the genesis block, and know their heights. -/
structure Linked (m : BlockMap Ptr) (genesis : Ptr) : Prop where
  root : ∀ p e, m p = some e → e.pprev = none → p = genesis ∧ e.nHeight = 0
  prev : ∀ p e q, m p = some e → e.pprev = some q → ∃ e', m q = some e' ∧ e.nHeight = e'.nHeight + 1

/-- A `pskip` that is set leads to the ancestor at the height `GetSkipHeight` names. -/
def Skips (m : BlockMap Ptr) : Prop :=
  ∀ p e q, m p = some e → e.pskip = some q →
    m.parent (e.nHeight - getSkipHeight e.nHeight) p = some q

variable {m : BlockMap Ptr} {genesis p q : Ptr} {e : CBlockIndex Ptr}

theorem parent_zero (m : BlockMap Ptr) (p : Ptr) : m.parent 0 p = some p := rfl

theorem parent_succ (he : m p = some e) (k : ℕ) :
    m.parent (k + 1) p = e.pprev.bind (m.parent k) := by
  have hnone : (fun q : Option Ptr => q.bind m.pprev)^[k] none = none :=
    iterate_fixed rfl k
  rw [parent, iterate_succ_apply, bind_some, pprev, he, bind_some]
  cases e.pprev with
  | none => exact hnone
  | some q => rfl

theorem parent_add {k : ℕ} (h : m.parent k p = some q) (j : ℕ) :
    m.parent (k + j) p = m.parent j q := by
  rw [parent, Nat.add_comm, iterate_add_apply]
  rw [parent] at h
  rw [h, parent]

theorem Linked.exists_parent (h : Linked m genesis) (he : m p = some e) {k : ℕ}
    (hk : k ≤ e.nHeight) :
    ∃ q e', m.parent k p = some q ∧ m q = some e' ∧ e'.nHeight + k = e.nHeight := by
  induction k generalizing p e with
  | zero => exact ⟨p, e, rfl, he, rfl⟩
  | succ k ih =>
    rcases hprev : e.pprev with _ | q
    · have := (h.root p e he hprev).2
      omega
    · obtain ⟨e', he', hheight⟩ := h.prev p e q he hprev
      obtain ⟨q', e'', hq', he'', hheight'⟩ := ih he' (by omega)
      refine ⟨q', e'', ?_, he'', by omega⟩
      rw [parent_succ he, hprev, bind_some, hq']

theorem Linked.parent_nHeight (h : Linked m genesis) (he : m p = some e) :
    m.parent e.nHeight p = some genesis := by
  obtain ⟨q, e', hq, he', hheight⟩ := h.exists_parent he (Nat.le_refl _)
  rcases hprev : e'.pprev with _ | q'
  · rw [hq, (h.root q e' he' hprev).1]
  · obtain ⟨e'', -, hheight'⟩ := h.prev q e' q' he' hprev
    omega

theorem le_of_followsSkip {height heightWalk : ℕ} (h : followsSkip height heightWalk) :
    height ≤ getSkipHeight heightWalk := by
  unfold followsSkip at h
  rw [decide_eq_true_iff] at h
  omega

/-- The pointer and the height stay in step, so the walk ends at the parent it would have come to
along `pprev`. -/
theorem getAncestorLoop_eq (h : Linked m genesis) (hskips : m.Skips) {height : ℕ} {fuel : ℕ}
    (he : m p = some e) (hle : height ≤ e.nHeight) (hfuel : e.nHeight ≤ fuel) :
    m.getAncestorLoop height fuel (some p) e.nHeight = some (m.parent (e.nHeight - height) p) := by
  induction fuel generalizing p e with
  | zero =>
    have hheight : e.nHeight = height := by omega
    rw [getAncestorLoop, if_neg (by omega), hheight, Nat.sub_self, parent_zero]
  | succ fuel ih =>
    rw [getAncestorLoop]
    by_cases hgt : e.nHeight > height
    · rw [if_pos hgt, he]
      dsimp only
      split_ifs with hfollow hprev
      · obtain ⟨hset, hfollow⟩ := hfollow
        obtain ⟨q, hq⟩ := ne_none_iff_exists'.1 hset
        have hskip := hskips p e q he hq
        have hlt := getSkipHeight_lt (show 0 < e.nHeight by omega)
        obtain ⟨q', e', hq', he', hheight⟩ := h.exists_parent he
          (Nat.sub_le e.nHeight (getSkipHeight e.nHeight))
        obtain rfl : q' = q := some.inj (hq'.symm.trans hskip)
        have hlow := le_of_followsSkip hfollow
        rw [hq, show getSkipHeight e.nHeight = e'.nHeight by omega, ih he' (by omega) (by omega),
          show e.nHeight - height = e.nHeight - getSkipHeight e.nHeight + (e'.nHeight - height) by
            omega, parent_add hskip]
      · have := (h.root p e he hprev).2
        omega
      · obtain ⟨q, hq⟩ := ne_none_iff_exists'.1 hprev
        obtain ⟨e', he', hheight⟩ := h.prev p e q he hq
        rw [hq, show e.nHeight - 1 = e'.nHeight by omega, ih he' (by omega) (by omega),
          show e.nHeight - height = e'.nHeight - height + 1 by omega, parent_succ he, hq, bind_some]
    · rw [if_neg hgt, show e.nHeight - height = 0 by omega, parent_zero]

theorem getAncestor_eq (h : Linked m genesis) (hskips : m.Skips) (he : m p = some e) (height : ℤ) :
    m.getAncestor p height =
      some (if 0 ≤ height ∧ height ≤ e.nHeight then m.parent (e.nHeight - height.toNat) p
        else none) := by
  unfold getAncestor
  rw [he]
  dsimp only
  by_cases hrange : 0 ≤ height ∧ height ≤ e.nHeight
  · rw [if_neg (by omega), if_pos hrange, getAncestorLoop_eq h hskips he (by omega) (Nat.le_refl _)]
  · rw [if_pos (by omega), if_neg hrange]

/-! ### What a step keeps -/

/-- The entries are still there, and differ in `pskip` at most. -/
def Keeps (m m' : BlockMap Ptr) : Prop :=
  ∀ p e, m p = some e → ∃ e', m' p = some e' ∧ e'.pprev = e.pprev ∧ e'.nHeight = e.nHeight
    ∧ e'.hash = e.hash

theorem Keeps.refl (m : BlockMap Ptr) : Keeps m m := fun _ e he => ⟨e, he, rfl, rfl, rfl⟩

theorem Keeps.parent_eq {m' : BlockMap Ptr} (hkeeps : Keeps m m') (h : Linked m genesis)
    (he : m p = some e) {k : ℕ} (hk : k ≤ e.nHeight) : m'.parent k p = m.parent k p := by
  induction k generalizing p e with
  | zero => rfl
  | succ k ih =>
    obtain ⟨e', he', hpprev, -, -⟩ := hkeeps p e he
    rw [parent_succ he', parent_succ he, hpprev]
    rcases hprev : e.pprev with _ | q
    · rfl
    · obtain ⟨e'', he'', hheight⟩ := h.prev p e q he hprev
      exact ih he'' (by omega)

theorem Keeps.lower {m' : BlockMap Ptr} (hkeeps : Keeps m m') {n : ℕ}
    (h : ∃ e, m q = some e ∧ n = e.nHeight + 1) : ∃ e, m' q = some e ∧ n = e.nHeight + 1 := by
  obtain ⟨e, he, hheight⟩ := h
  obtain ⟨e', he', -, hheight', -⟩ := hkeeps q e he
  exact ⟨e', he', by rw [hheight', hheight]⟩

section
variable [DecidableEq Ptr] {m' : BlockMap Ptr}

theorem keeps_link (hnew : m p = none) (prev : Ptr) (e : CBlockIndex Ptr) (hash : Uint256) :
    Keeps m (m.link p prev e hash) := by
  intro q e' he'
  have hne : q ≠ p := by
    rintro rfl
    rw [hnew] at he'
    cases he'
  exact ⟨e', by rw [link, update_of_ne hne, he'], rfl, rfl, rfl⟩

theorem Linked.link (h : Linked m genesis) {prev : Ptr} (he : m prev = some e) (hnew : m p = none)
    (hash : Uint256) : Linked (m.link p prev e hash) genesis := by
  have hkeeps := keeps_link hnew prev e hash
  constructor
  · intro q e' he' hprev
    rw [BlockMap.link, update_apply] at he'
    split_ifs at he' with hq
    · cases he'
      cases hprev
    · exact h.root q e' he' hprev
  · intro q e' q' he' hprev
    rw [BlockMap.link, update_apply] at he'
    split_ifs at he' with hq
    · cases he'
      cases hprev
      exact hkeeps.lower ⟨e, he, rfl⟩
    · exact hkeeps.lower (h.prev q e' q' he' hprev)

theorem Skips.link (hskips : m.Skips) (h : Linked m genesis) (hnew : m p = none) (prev : Ptr)
    (e : CBlockIndex Ptr) (hash : Uint256) : (m.link p prev e hash).Skips := by
  intro q e' q' he' hskip
  have hkeeps := keeps_link hnew prev e hash
  rw [BlockMap.link, update_apply] at he'
  split_ifs at he' with hq
  · cases he'
    cases hskip
  · rw [hkeeps.parent_eq h he' (Nat.sub_le _ _)]
    exact hskips q e' q' he' hskip

theorem buildSkip_cases (hbuild : m.buildSkip p = some m') :
    m' = m ∨ ∃ e prev pskip, m p = some e ∧ e.pprev = some prev
      ∧ m.getAncestor prev (getSkipHeight e.nHeight) = some pskip
      ∧ m' = Function.update m p (some { e with pskip }) := by
  unfold BlockMap.buildSkip at hbuild
  rcases he : m p with _ | e
  · rw [he] at hbuild
    cases hbuild
  · rw [he] at hbuild
    dsimp only at hbuild
    rcases hprev : e.pprev with _ | prev
    · rw [hprev] at hbuild
      exact .inl (some.inj hbuild).symm
    · rw [hprev] at hbuild
      obtain ⟨pskip, hancestor, rfl⟩ := map_eq_some_iff.1 hbuild
      exact .inr ⟨e, prev, pskip, rfl, hprev, hancestor, by rw [hprev]⟩

theorem keeps_buildSkip (hbuild : m.buildSkip p = some m') : Keeps m m' := by
  obtain rfl | ⟨e, prev, pskip, he, -, -, rfl⟩ := buildSkip_cases hbuild
  · exact Keeps.refl _
  · intro q e' he'
    by_cases hq : q = p
    · subst hq
      obtain rfl := some.inj (he.symm.trans he')
      exact ⟨_, update_self .., rfl, rfl, rfl⟩
    · exact ⟨e', by rw [update_of_ne hq, he'], rfl, rfl, rfl⟩

theorem Linked.buildSkip (h : Linked m genesis) (hbuild : m.buildSkip p = some m') :
    Linked m' genesis := by
  have hkeeps := keeps_buildSkip hbuild
  obtain rfl | ⟨e, prev, pskip, he, hprev, -, rfl⟩ := buildSkip_cases hbuild
  · exact h
  constructor
  · intro q e' he' hnone
    rw [update_apply] at he'
    split_ifs at he' with hq
    · cases he'
      exact h.root q e (hq ▸ he) hnone
    · exact h.root q e' he' hnone
  · intro q e' q' he' hq'
    rw [update_apply] at he'
    split_ifs at he' with hq
    · cases he'
      exact hkeeps.lower (h.prev p e q' he hq')
    · exact hkeeps.lower (h.prev q e' q' he' hq')

/-- `BuildSkip` sets the `pskip` that it should. -/
theorem Skips.buildSkip (hskips : m.Skips) (h : Linked m genesis)
    (hbuild : m.buildSkip p = some m') : m'.Skips := by
  have hkeeps := keeps_buildSkip hbuild
  obtain rfl | ⟨e, prev, pskip, he, hprev, hancestor, rfl⟩ := buildSkip_cases hbuild
  · exact hskips
  intro q e' q' he' hskip
  rw [update_apply] at he'
  split_ifs at he' with hq
  · cases he'
    subst hq
    obtain ⟨e', he', hheight⟩ := h.prev q e prev he hprev
    have hlt := getSkipHeight_lt (show 0 < e.nHeight by omega)
    rw [getAncestor_eq h hskips he', if_pos (by omega), Int.toNat_natCast] at hancestor
    rw [hkeeps.parent_eq h he (Nat.sub_le _ _),
      show e.nHeight - getSkipHeight e.nHeight = e'.nHeight - getSkipHeight e.nHeight + 1 by omega,
      parent_succ he, hprev, bind_some, some.inj hancestor]
    exact hskip
  · rw [hkeeps.parent_eq h he' (Nat.sub_le _ _)]
    exact hskips q e' q' he' hskip

end

end BlockMap
end SkipList
end Komodo
