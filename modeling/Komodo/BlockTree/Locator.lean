/-
# The active chain and block locators

`CChain` of `src/src/chain.h`, with `SetTip` and `GetLocator` of `src/src/chain.cpp`.

The active chain is an array of pointers by height.  `IsChain` says that it holds the ancestors of
its tip, which is what `SetTip` leaves behind (`setTip_isChain`) although it stops at the first
entry that is there already.

`GetLocator` steps down from a block, ten times to the parent and then by steps that double, and
takes the array where the block is in the active chain and the skip list where it is not.  Both give
the same ancestor (`IsChain.next_eq`), and below height `2^30` the doubled steps fit an `int`.  So
the locator is made of ancestors of the block down to the genesis block, and the array does not show
in it (`ancestors_and_locators`).
-/

import Komodo.BlockTree.SkipList

namespace Komodo
namespace SkipList

open List Option

variable {Ptr : Type}

/-- `CChain::vChain`. -/
abbrev CChain (Ptr : Type) := List (Option Ptr)

namespace CChain

/-- `CChain::at`, which is `operator[]`. -/
def index (v : CChain Ptr) (nHeight : ℤ) : Option Ptr :=
  if nHeight < 0 ∨ nHeight ≥ v.length then none else v.getD nHeight.toNat none

def tip (v : CChain Ptr) : Option Ptr := if 0 < v.length then v.getD (v.length - 1) none else none

/-- `CChain::Contains`, of a pointer to the entry. -/
def contains [DecidableEq Ptr] (v : CChain Ptr) (p : Ptr) (e : CBlockIndex Ptr) : Bool :=
  v.index e.nHeight = some p

def resize (v : CChain Ptr) (n : ℕ) : CChain Ptr := v.take n ++ List.replicate (n - v.length) none

end CChain

namespace BlockMap

section
variable [DecidableEq Ptr]

/-- The loop of `CChain::SetTip`, from the tip down to what is there already. -/
def setTipLoop (m : BlockMap Ptr) : (fuel : ℕ) → CChain Ptr → Option Ptr → Option (CChain Ptr)
  | _, vChain, none => some vChain
  | 0, _, some _ => none
  | fuel + 1, vChain, some p =>
    match m p with
    | none => none
    | some e =>
      if vChain[e.nHeight]? = some (some p) then some vChain
      else setTipLoop m fuel (vChain.set e.nHeight (some p)) e.pprev

def setTip (m : BlockMap Ptr) (vChain : CChain Ptr) : Option Ptr → Option (CChain Ptr)
  | none => some []
  | some p =>
    match m p with
    | none => none
    | some e => setTipLoop m (e.nHeight + 1) (vChain.resize (e.nHeight + 1)) (some p)

/-- The loop of `CChain::GetLocator`, where a step doubles in an `int`. -/
def getLocatorLoop (m : BlockMap Ptr) (vChain : CChain Ptr) :
    (fuel : ℕ) → (vHave : List Uint256) → (nStep : ℤ) → Option Ptr → Option (List Uint256)
  | _, vHave, _, none => some vHave
  | 0, _, _, some _ => none
  | fuel + 1, vHave, nStep, some p =>
    match m p with
    | none => none
    | some e =>
      let vHave := vHave ++ [e.hash]
      if e.nHeight = 0 then some vHave
      else
        let nHeight := max (e.nHeight - nStep) 0
        let next :=
          if vChain.contains p e then some (vChain.index nHeight) else m.getAncestor p nHeight
        next.bind fun pindex =>
          let nStep := if vHave.length > 10 then Int.bmod (nStep * 2) (2 ^ 32) else nStep
          getLocatorLoop m vChain fuel vHave nStep pindex

/-- `CChain::GetLocator`; every round goes down, so there are no more than the height says. -/
def getLocator (m : BlockMap Ptr) (vChain : CChain Ptr) (pindex : Option Ptr) :
    Option (List Uint256) :=
  let pindex := pindex.or vChain.tip
  let fuel := ((pindex.bind m).map CBlockIndex.nHeight).getD 0 + 1
  getLocatorLoop m vChain fuel [] 1 pindex

end

/-! ### The active chain -/

variable {m m' : BlockMap Ptr} {genesis p q : Ptr} {e : CBlockIndex Ptr} {vChain : CChain Ptr}

/-- The array holds the ancestors of a tip by their heights, or nothing. -/
def IsChain (m : BlockMap Ptr) (vChain : CChain Ptr) : Prop :=
  vChain = [] ∨ ∃ tip e, m tip = some e ∧ vChain.length = e.nHeight + 1 ∧
    ∀ i ≤ e.nHeight, vChain[i]? = some (m.parent (e.nHeight - i) tip)

theorem IsChain.below (h : Linked m genesis) (hchain : IsChain m vChain) {i : ℕ}
    (hi : vChain[i]? = some (some q)) :
    ∃ e, m q = some e ∧ e.nHeight = i ∧ ∀ j ≤ i, vChain[j]? = some (m.parent (i - j) q) := by
  obtain rfl | ⟨tip, e, he, hlength, hget⟩ := hchain
  · cases hi
  have hle : i ≤ e.nHeight := by
    have := (List.getElem?_eq_some_iff.1 hi).1
    omega
  have hq : m.parent (e.nHeight - i) tip = some q := some.inj ((hget i hle).symm.trans hi)
  obtain ⟨q', e', hq', he', hheight⟩ := h.exists_parent he (Nat.sub_le e.nHeight i)
  obtain rfl : q' = q := some.inj (hq'.symm.trans hq)
  refine ⟨e', he', by omega, fun j hj => ?_⟩
  rw [hget j (by omega), ← parent_add hq, show e.nHeight - i + (i - j) = e.nHeight - j by omega]

theorem length_resize (v : CChain Ptr) (n : ℕ) : (v.resize n).length = n := by
  rw [CChain.resize, length_append, length_take, length_replicate]
  omega

theorem getElem?_resize {v : CChain Ptr} {n i j : ℕ} (hi : (v.resize n)[i]? = some (some q))
    (hj : j ≤ i) : (v.resize n)[j]? = v[j]? := by
  have hlt : i < (v.take n).length := by
    by_contra hge
    rw [CChain.resize, getElem?_append_right (Nat.not_lt.1 hge), getElem?_replicate] at hi
    split_ifs at hi
    cases hi
  have hn : j < n := by
    rw [length_take] at hlt
    omega
  rw [CChain.resize, getElem?_append_left (by omega), getElem?_take_of_lt hn]

theorem index_natCast (v : CChain Ptr) (n : ℕ) : v.index n = v[n]?.join := by
  unfold CChain.index
  by_cases hn : n < v.length
  · rw [if_neg (by omega), Int.toNat_natCast, getD_eq_getElem?_getD,
      getElem?_eq_getElem hn, getD_some, join_some]
  · rw [if_pos (by omega), getElem?_eq_none (by omega), join_none]

/-- `a` stands above `b`. -/
def Above (m : BlockMap Ptr) (a b : Ptr) : Prop :=
  ∃ ea eb, m a = some ea ∧ m b = some eb ∧ eb.nHeight < ea.nHeight

theorem Above.trans {a b c : Ptr} (hab : m.Above a b) (hbc : m.Above b c) : m.Above a c := by
  obtain ⟨ea, eb, ha, hb, hlt⟩ := hab
  obtain ⟨eb', ec, hb', hc, hlt'⟩ := hbc
  obtain rfl := some.inj (hb.symm.trans hb')
  exact ⟨ea, ec, ha, hc, Nat.lt_trans hlt' hlt⟩

/-- The locator of a block: hashes of ancestors from it down to the genesis block. -/
structure Locates (m : BlockMap Ptr) (genesis p : Ptr) (vHave : List Uint256) (ps : List Ptr) :
    Prop where
  hashes : vHave.map some = ps.map fun q => (m q).map CBlockIndex.hash
  first : ps.head? = some p
  last : ps.getLast? = some genesis
  ancestors : ∀ q ∈ ps, ∃ k, m.parent k p = some q
  down : ps.Pairwise m.Above

theorem Locates.cons {k : ℕ} {vHave : List Uint256} {ps : List Ptr}
    (hlocates : Locates m genesis q vHave ps) (he : m p = some e) (hk : m.parent k p = some q)
    (habove : m.Above p q) : Locates m genesis p (e.hash :: vHave) (p :: ps) := by
  obtain ⟨hhashes, hfirst, hlast, hancestors, hdown⟩ := hlocates
  obtain ⟨qs, rfl⟩ : ∃ qs, ps = q :: qs := by
    cases ps with
    | nil => cases hfirst
    | cons q' qs =>
      cases hfirst
      exact ⟨qs, rfl⟩
  refine ⟨?_, rfl, ?_, ?_, ?_⟩
  · rw [map_cons, map_cons, hhashes, he]
    rfl
  · rw [getLast?_cons_cons]
    exact hlast
  · intro q' hq'
    obtain rfl | hq' := mem_cons.1 hq'
    · exact ⟨0, rfl⟩
    · obtain ⟨j, hj⟩ := hancestors q' hq'
      exact ⟨k + j, by rw [parent_add hk, hj]⟩
  · refine pairwise_cons.2 ⟨fun q' hq' => ?_, hdown⟩
    obtain rfl | hq' := mem_cons.1 hq'
    · exact habove
    · exact habove.trans ((pairwise_cons.1 hdown).1 q' hq')

section
variable [DecidableEq Ptr]

/-- The loop writes the ancestors of the block below it, and nothing above. -/
theorem setTipLoop_eq (h : Linked m genesis) {fuel : ℕ} (he : m p = some e)
    (hfuel : e.nHeight < fuel) (hlength : e.nHeight < vChain.length)
    (hbelow : ∀ i ≤ e.nHeight, ∀ q, vChain[i]? = some (some q) →
      ∀ j ≤ i, vChain[j]? = some (m.parent (i - j) q)) :
    ∃ v', m.setTipLoop fuel vChain (some p) = some v' ∧ v'.length = vChain.length ∧
      (∀ i, e.nHeight < i → v'[i]? = vChain[i]?) ∧
      ∀ i ≤ e.nHeight, v'[i]? = some (m.parent (e.nHeight - i) p) := by
  induction fuel generalizing p e vChain with
  | zero => omega
  | succ fuel ih =>
    rw [setTipLoop, he]
    dsimp only
    split_ifs with hthere
    · exact ⟨vChain, rfl, rfl, fun _ _ => rfl, hbelow _ (Nat.le_refl _) p hthere⟩
    · have hself : (vChain.set e.nHeight (some p))[e.nHeight]? = some (m.parent 0 p) :=
        getElem?_set_self hlength
      have hother : ∀ i, i ≠ e.nHeight →
          (vChain.set e.nHeight (some p))[i]? = vChain[i]? := fun i hi =>
        getElem?_set_ne (Ne.symm hi)
      rcases hprev : e.pprev with _ | q
      · have hzero := (h.root p e he hprev).2
        refine ⟨vChain.set e.nHeight (some p), by cases fuel <;> rfl, length_set,
          fun i hi => hother i (by omega), fun i hi => ?_⟩
        obtain rfl : i = e.nHeight := by omega
        rw [Nat.sub_self]
        exact hself
      · obtain ⟨e', he', hheight⟩ := h.prev p e q he hprev
        have hbelow' : ∀ i ≤ e'.nHeight, ∀ q',
            (vChain.set e.nHeight (some p))[i]? = some (some q') → ∀ j ≤ i,
              (vChain.set e.nHeight (some p))[j]? = some (m.parent (i - j) q') := by
          intro i hi q' hq' j hj
          rw [hother i (by omega)] at hq'
          rw [hother j (by omega)]
          exact hbelow i (by omega) q' hq' j hj
        obtain ⟨v', hv', hlength', habove, hget⟩ := ih he' (by omega)
          (by rw [length_set]; omega) hbelow'
        refine ⟨v', hv', hlength'.trans length_set, fun i hi => ?_, fun i hi => ?_⟩
        · rw [habove i (by omega), hother i (by omega)]
        · by_cases htop : i = e.nHeight
          · subst htop
            rw [habove _ (by omega), Nat.sub_self]
            exact hself
          · rw [hget i (by omega), show e.nHeight - i = e'.nHeight - i + 1 by omega,
              parent_succ he, hprev, bind_some]

/-- `SetTip` leaves the ancestors of the new tip. -/
theorem setTip_isChain (h : Linked m genesis) (hchain : IsChain m vChain) (he : m p = some e) :
    ∃ v', m.setTip vChain (some p) = some v' ∧ IsChain m v' := by
  have hbelow : ∀ i ≤ e.nHeight, ∀ q, (vChain.resize (e.nHeight + 1))[i]? = some (some q) →
      ∀ j ≤ i, (vChain.resize (e.nHeight + 1))[j]? = some (m.parent (i - j) q) := by
    intro i _ q hq j hj
    rw [getElem?_resize hq hj]
    rw [getElem?_resize hq (Nat.le_refl _)] at hq
    obtain ⟨e', -, -, hget⟩ := hchain.below h hq
    exact hget j hj
  obtain ⟨v', hv', hlength, -, hget⟩ := setTipLoop_eq h he (Nat.lt_succ_self _)
    (by rw [length_resize]; omega) hbelow
  refine ⟨v', ?_, .inr ⟨p, e, he, hlength.trans (length_resize _ _), hget⟩⟩
  rw [setTip, he]
  exact hv'

theorem IsChain.next_eq (hchain : IsChain m vChain) (h : Linked m genesis) (hskips : m.Skips)
    (he : m p = some e) {height : ℤ} (hlow : 0 ≤ height) (hhigh : height ≤ e.nHeight) :
    (if vChain.contains p e then some (vChain.index height) else m.getAncestor p height) =
      some (m.parent (e.nHeight - height.toNat) p) := by
  split_ifs with hin
  · rw [CChain.contains, decide_eq_true_iff, index_natCast, join_eq_some_iff] at hin
    obtain ⟨e', he', -, hget⟩ := hchain.below h hin
    obtain ⟨n, rfl⟩ := Int.eq_ofNat_of_zero_le hlow
    rw [index_natCast, hget n (by omega), join_some, Int.toNat_natCast]
  · rw [getAncestor_eq h hskips he, if_pos ⟨hlow, hhigh⟩]

theorem getLocator_eq {pindex : Option Ptr} (hp : pindex.or vChain.tip = some p)
    (he : m p = some e) :
    m.getLocator vChain pindex = m.getLocatorLoop vChain (e.nHeight + 1) [] 1 (some p) := by
  rw [getLocator, hp, bind_some, he]
  rfl

/-- The locator of a block depends on the tree alone, whatever the active chain is. -/
theorem getLocatorLoop_eq (h : Linked m genesis) (hskips : m.Skips) {fuel n : ℕ} {nStep : ℤ}
    (he : m p = some e) (hfuel : e.nHeight < fuel)
    (hstep : 0 < e.nHeight → 1 ≤ nStep ∧ e.nHeight + nStep ≤ 2 ^ 30) :
    ∃ rest ps, Locates m genesis p rest ps ∧ ∀ vChain vHave, IsChain m vChain →
      vHave.length = n →
        m.getLocatorLoop vChain fuel vHave nStep (some p) = some (vHave ++ rest) := by
  -- the bound is on height and step together: a step that does not reach the genesis block lowers
  -- the first by as much as doubling raises the second
  induction fuel generalizing p e n nStep with
  | zero => omega
  | succ fuel ih =>
    by_cases hzero : e.nHeight = 0
    · have hgenesis := h.parent_nHeight he
      rw [hzero, parent_zero] at hgenesis
      refine ⟨[e.hash], [p], ⟨by simp [he], rfl, hgenesis, ?_, pairwise_singleton _ _⟩, ?_⟩
      · intro q hq
        obtain rfl := mem_singleton.1 hq
        exact ⟨0, rfl⟩
      · intro vChain vHave _ _
        rw [getLocatorLoop, he]
        exact if_pos hzero
    · obtain ⟨hpos, hbound⟩ := hstep (by omega)
      obtain ⟨height, hheight⟩ : ∃ height, height = max (e.nHeight - nStep) 0 := ⟨_, rfl⟩
      obtain ⟨q, e', hq, he', hlower⟩ := h.exists_parent he (Nat.sub_le e.nHeight height.toNat)
      have hdouble : Int.bmod (nStep * 2) (2 ^ 32) = nStep * 2 :=
        Int.bmod_eq_of_le (by omega) (by omega)
      obtain ⟨step, hnext⟩ : ∃ step : ℤ, (if n + 1 > 10 then nStep * 2 else nStep) = step :=
        ⟨_, rfl⟩
      have hstep' : 0 < e'.nHeight → 1 ≤ step ∧ e'.nHeight + step ≤ 2 ^ 30 := by
        intro hlow
        rw [← hnext]
        split_ifs <;> omega
      obtain ⟨rest, ps, hlocates, hloop⟩ := ih (n := n + 1) he' (by omega) hstep'
      refine ⟨e.hash :: rest, p :: ps, hlocates.cons he hq ⟨e, e', he, he', by omega⟩, ?_⟩
      intro vChain vHave hchain hlength
      have hlength' : (vHave ++ [e.hash]).length = n + 1 := by
        rw [length_append, hlength]
        rfl
      rw [getLocatorLoop, he]
      dsimp only
      rw [if_neg hzero, ← hheight, hchain.next_eq h hskips he (by omega) (by omega), hq, bind_some,
        hlength', hdouble, hnext, hloop vChain _ hchain hlength', append_assoc]
      rfl

end

end BlockMap

/-! ### Runs -/

/-- The block index and the active chain. -/
structure Chains (Ptr : Type) where
  mapBlockIndex : BlockMap Ptr
  chainActive : CChain Ptr

/-- What happens to them: a block is linked to its parent, an entry gets its `pskip`, the tip is
set. -/
inductive Step [DecidableEq Ptr] : Chains Ptr → Chains Ptr → Prop
  | link (s : Chains Ptr) (p prev : Ptr) (e : CBlockIndex Ptr) (hash : Uint256)
      (hnew : s.mapBlockIndex p = none) (hprev : s.mapBlockIndex prev = some e) :
      Step s { s with mapBlockIndex := s.mapBlockIndex.link p prev e hash }
  | buildSkip (s : Chains Ptr) (p : Ptr) (m : BlockMap Ptr)
      (hbuild : s.mapBlockIndex.buildSkip p = some m) : Step s { s with mapBlockIndex := m }
  | setTip (s : Chains Ptr) (pindex : Option Ptr) (v : CChain Ptr)
      (htip : s.mapBlockIndex.setTip s.chainActive pindex = some v) :
      Step s { s with chainActive := v }

/-- The entries are a tree, each `pskip` leads where it should, the active chain is one. -/
structure Sound (genesis : Ptr) (s : Chains Ptr) : Prop where
  linked : s.mapBlockIndex.Linked genesis
  skips : s.mapBlockIndex.Skips
  chain : s.mapBlockIndex.IsChain s.chainActive

variable {genesis : Ptr} {s s' : Chains Ptr}

theorem sound_of_linked {m : BlockMap Ptr} (h : m.Linked genesis)
    (hnone : ∀ p e, m p = some e → e.pskip = none) : Sound genesis ⟨m, []⟩ := by
  refine ⟨h, fun p e q he hq => ?_, .inl rfl⟩
  rw [hnone p e he] at hq
  cases hq

theorem BlockMap.IsChain.keeps {m m' : BlockMap Ptr} {v : CChain Ptr} (hchain : m.IsChain v)
    (h : m.Linked genesis) (hkeeps : m.Keeps m') : m'.IsChain v := by
  obtain rfl | ⟨tip, e, he, hlength, hget⟩ := hchain
  · exact .inl rfl
  · obtain ⟨e', he', -, hheight, -⟩ := hkeeps tip e he
    refine .inr ⟨tip, e', he', by rw [hlength, hheight], fun i hi => ?_⟩
    rw [hheight] at hi ⊢
    rw [hkeeps.parent_eq h he (Nat.sub_le _ _), hget i hi]

section
variable [DecidableEq Ptr]

theorem Sound.step (hs : Sound genesis s) (hstep : Step s s') : Sound genesis s' := by
  obtain ⟨hlinked, hskips, hchain⟩ := hs
  cases hstep with
  | link p prev e hash hnew hprev =>
    have hkeeps := BlockMap.keeps_link hnew prev e hash
    exact ⟨hlinked.link hprev hnew hash, hskips.link hlinked hnew prev e hash,
      hchain.keeps hlinked hkeeps⟩
  | buildSkip p m hbuild =>
    have hkeeps := BlockMap.keeps_buildSkip hbuild
    exact ⟨hlinked.buildSkip hbuild, hskips.buildSkip hlinked hbuild, hchain.keeps hlinked hkeeps⟩
  | setTip pindex v htip =>
    refine ⟨hlinked, hskips, ?_⟩
    cases pindex with
    | none =>
      cases htip
      exact .inl rfl
    | some p =>
      rcases he : s.mapBlockIndex p with _ | e
      · rw [BlockMap.setTip, he] at htip
        cases htip
      · obtain ⟨v', hv', hchain'⟩ := BlockMap.setTip_isChain hlinked hchain he
        obtain rfl := some.inj (hv'.symm.trans htip)
        exact hchain'

theorem Sound.run (hs : Sound genesis s) (hrun : Relation.ReflTransGen Step s s') :
    Sound genesis s' := by
  induction hrun with
  | refl => exact hs
  | tail _ hstep ih => exact ih.step hstep

/-- In every run that starts from a tree, `GetAncestor` finds the parents of an entry by their
heights, and the null pointer outside of them; and below height `2^30` the locator of a block names
ancestors of it, from itself down to the genesis block, and is the one that the skip list alone
gives, where no block is in the active chain. -/
theorem ancestors_and_locators {m₀ : BlockMap Ptr} (hlinked : m₀.Linked genesis)
    (hnone : ∀ p e, m₀ p = some e → e.pskip = none)
    (hrun : Relation.ReflTransGen Step ⟨m₀, []⟩ s)
    (hheight : ∀ p e, s.mapBlockIndex p = some e → e.nHeight < 2 ^ 30) :
    (∀ p e, s.mapBlockIndex p = some e →
      (∀ height : ℕ, height ≤ e.nHeight → ∃ q e',
        s.mapBlockIndex.getAncestor p height = some (some q)
        ∧ s.mapBlockIndex.parent (e.nHeight - height) p = some q
        ∧ s.mapBlockIndex q = some e' ∧ e'.nHeight = height) ∧
      ∀ height : ℤ, ¬ (0 ≤ height ∧ height ≤ e.nHeight) →
        s.mapBlockIndex.getAncestor p height = some none) ∧
    ∀ pindex p e, pindex.or s.chainActive.tip = some p → s.mapBlockIndex p = some e →
      ∃ vHave ps, s.mapBlockIndex.getLocator s.chainActive pindex = some vHave ∧
        s.mapBlockIndex.Locates genesis p vHave ps ∧
        s.mapBlockIndex.getLocator [] (some p) = some vHave := by
  obtain ⟨h, hskips, hchain⟩ := (sound_of_linked hlinked hnone).run hrun
  refine ⟨fun p e he => ⟨fun height hle => ?_, fun height hrange => ?_⟩, ?_⟩
  · obtain ⟨q, e', hq, he', hlower⟩ := h.exists_parent he (Nat.sub_le e.nHeight height)
    refine ⟨q, e', ?_, hq, he', by omega⟩
    rw [BlockMap.getAncestor_eq h hskips he, if_pos (by omega), Int.toNat_natCast, hq]
  · rw [BlockMap.getAncestor_eq h hskips he, if_neg hrange]
  · intro pindex p e hp he
    have hlt := hheight p e he
    have hfirst : 0 < e.nHeight → (1 : ℤ) ≤ 1 ∧ (e.nHeight : ℤ) + 1 ≤ 2 ^ 30 := by omega
    obtain ⟨vHave, ps, hlocates, hloop⟩ := BlockMap.getLocatorLoop_eq (n := 0) h hskips he
      (Nat.lt_succ_self e.nHeight) hfirst
    refine ⟨vHave, ps, ?_, hlocates, ?_⟩
    · rw [BlockMap.getLocator_eq hp he]
      exact hloop _ [] hchain rfl
    · rw [BlockMap.getLocator_eq (Option.some_or ..) he]
      exact hloop _ [] (.inl rfl) rfl

/-- A block is linked to the genesis block, gets its skip, and becomes the tip. -/
theorem ancestors_and_locators_second_block : ∃ (s : Chains ℕ) (vHave : List Uint256) (ps : List ℕ),
    s.chainActive = [some 0, some 1] ∧ s.mapBlockIndex.getLocator s.chainActive none = some vHave ∧
      s.mapBlockIndex.Locates 0 1 vHave ps := by
  let m₀ : BlockMap ℕ := fun p => if p = 0 then some ⟨10, none, none, 0⟩ else none
  let m₁ := m₀.link 1 0 ⟨10, none, none, 0⟩ 11
  let m₂ : BlockMap ℕ := Function.update m₁ 1 (some ⟨11, some 0, some 0, 1⟩)
  have hlinked : m₀.Linked 0 := by
    constructor
    · intro p e he _
      obtain ⟨rfl, he⟩ := Option.ite_none_right_eq_some.1 he
      cases he
      exact ⟨rfl, rfl⟩
    · intro p e q he hq
      obtain ⟨rfl, he⟩ := Option.ite_none_right_eq_some.1 he
      cases he
      cases hq
  have hnone : ∀ p e, m₀ p = some e → e.pskip = none := by
    intro p e he
    obtain ⟨rfl, he⟩ := Option.ite_none_right_eq_some.1 he
    cases he
    rfl
  have hrun : Relation.ReflTransGen Step ⟨m₀, []⟩ ⟨m₂, [some 0, some 1]⟩ :=
    .tail (.tail (.tail .refl (Step.link _ 1 0 _ 11 rfl rfl)) (Step.buildSkip _ 1 m₂ rfl))
      (Step.setTip _ (some 1) [some 0, some 1] rfl)
  have hheight : ∀ p e, m₂ p = some e → e.nHeight < 2 ^ 30 := by
    intro p e he
    simp only [m₂, m₁, m₀, BlockMap.link, Function.update_apply] at he
    split_ifs at he <;> cases he <;> decide
  obtain ⟨vHave, ps, hlocator, hlocates, -⟩ :=
    (ancestors_and_locators hlinked hnone hrun hheight).2 none 1 ⟨11, some 0, some 0, 1⟩ rfl rfl
  exact ⟨⟨m₂, [some 0, some 1]⟩, vHave, ps, rfl, hlocator, hlocates⟩

end

end SkipList
end Komodo
