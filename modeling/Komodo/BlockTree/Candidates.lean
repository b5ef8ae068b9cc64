/-
# What the set of candidates is for

`src/src/main.cpp` says of `setBlockIndexCandidates` that it holds every block that
is valid, has its data and is as good as the tip or better; `CheckBlockIndex`
asserts it.  `FindMostWorkChain` relies on it when it takes the last of the set.

Five kinds of steps break it.  `AcceptBlockHeader` takes the flags of a known block
back without putting the block into the set.  `ReceivedBlockTransactions` does not
put a block into `mapBlocksUnlinked` while its parent is marked.  A reorganisation
that fails on its way, and an `InvalidateBlock` that cannot disconnect the block,
leave a lower tip and do not look for the blocks between the two.  And
`ReconsiderBlock` clears the ancestors of its block without putting them into the
set.  `Keeps` excludes just these steps, and a run of other steps keeps the set
complete (`covers_run`).
-/

import Komodo.BlockTree.Steps

namespace Komodo
namespace BlockTree
namespace ChainState

open List

variable {params : Params} {disk : Disk} {s s' : ChainState} {p q : BlockPtr}

/-- The block and its ancestors have their data, and none of them is marked. -/
def Eligible (s : ChainState) (p : BlockPtr) : Prop :=
  p ≠ [] ∧ ∀ q ∈ p.tails, q ≠ [] → (s.entry q).haveData = true ∧ (s.entry q).failed = false

instance : Decidable (s.Eligible p) := inferInstanceAs (Decidable (_ ∧ _))

/-- What the set is for: an eligible block that is not worse than the tip is in it or below an
eligible block in it, and `FindMostWorkChain` returns an eligible block with the most work. -/
structure Covers (params : Params) (s : ChainState) : Prop where
  candidate : ∀ p, s.Eligible p → s.valueComp params p s.chainActive = false →
    ∃ q, p <:+ q ∧ s.Eligible q ∧ q ∈ s.setBlockIndexCandidates
  mostWork : ∀ turns > s.setBlockIndexCandidates.length, ∃ m s',
    findMostWorkChain params turns s = some (m, s') ∧ ((m = [] ∧ ∀ p, ¬ s.Eligible p) ∨
      s.Eligible m ∧ ∀ p, s.Eligible p → params.nChainWork p ≤ params.nChainWork m)

/-! ### The steps that keep it -/

/-- The blocks of the chain from the block upwards can be disconnected: the files are there, and
none of them is the last notarised one. -/
def Disconnects (disk : Disk) (s : ChainState) (p : BlockPtr) : Prop :=
  ∀ q, p <:+ q → q <:+ s.chainActive → disk.disconnects q = true ∧
    ∀ n, s.last = some n → q.head? ≠ some n.notarized_hash

/-- The condition on one step. -/
def Keeps (params : Params) (s : ChainState) : Op → Prop
  -- the flags of a complete block that is not worse than the tip are not taken back
  | .acceptBlockHeader hash _ _ => params.ASSETCHAINS_CC = 0 ∨ ∀ p ∈ s.mapBlockIndex,
      p.head? = some hash → (s.entry p).failed = true → s.Complete p →
        s.valueComp params p s.chainActive = true
  -- neither the block nor the parent it has to wait for is marked
  | .acceptBlock p verdict => (s.entry p).haveData = true ∨ verdict.isOk = false ∨
      (s.entry p).failed = false ∧
        (p.pprev = [] ∨ s.Complete p.pprev ∨ (s.entry p.pprev).failed = false)
  -- the new tip is not worse than the old one
  | .activateBestChain fSkipdpow disk =>
      s.valueComp params (s.activateBestChain params disk fSkipdpow).2.chainActive s.chainActive = false
  | .invalidateBlock p disk => s.Disconnects disk p
  -- no proper ancestor that is complete and not worse than the tip is marked
  | .reconsiderBlock p => ∀ q, q <:+ p → q ≠ p → (s.entry q).failed = true → s.Complete q →
      s.valueComp params q s.chainActive = true

/-- Every step of the run from this state meets the condition. -/
def Meets (params : Params) : ChainState → List Op → Prop
  | _, [] => True
  | s, op :: ops => Keeps params s op ∧ Meets params (s.step params op) ops

/-! ### What holds in such runs -/

/-- The set has every complete block that is not marked and not worse than the tip; the chain is
not marked; and what has data is complete or waits for its parent. -/
structure Covered (params : Params) (s : ChainState) : Prop where
  candidates : ∀ p, s.Complete p → (s.entry p).failed = false →
    s.valueComp params p s.chainActive = false → p ∈ s.setBlockIndexCandidates
  active : ∀ p, p <:+ s.chainActive → p ≠ [] → (s.entry p).failed = false
  data : ∀ p, (s.entry p).haveData = true → s.Complete p ∨ (p.pprev, p) ∈ s.mapBlocksUnlinked
  tree : ∀ p ∈ s.mapBlockIndex, BLOCK_VALID_TREE ≤ (s.entry p).validity
  transactions : ∀ p, (s.entry p).haveData = true → BLOCK_VALID_TRANSACTIONS ≤ (s.entry p).validity

namespace Covered

theorem empty : Covered params {} where
  candidates _ h := absurd rfl h
  active _ h hne := absurd (List.suffix_nil.1 h) hne
  data _ h := nomatch h
  tree _ h := nomatch h
  transactions _ h := nomatch h

/-- A change of flags, candidates and tip. -/
theorem frame (h : Covered params s) (hframe : Frame s s')
    (hcandidates : ∀ p, s.Complete p → (s'.entry p).failed = false →
      s.valueComp params p s'.chainActive = false → p ∈ s'.setBlockIndexCandidates)
    (hactive : ∀ p, p <:+ s'.chainActive → p ≠ [] → (s'.entry p).failed = false) :
    Covered params s' where
  candidates p hp hfailed hnot :=
    hcandidates p (hframe.complete.1 hp) hfailed (hframe.valueComp p _ ▸ hnot)
  active := hactive
  data p := by
    rw [hframe.haveData, hframe.complete, hframe.mapBlocksUnlinked]
    exact h.data p
  tree p := by
    rw [hframe.mapBlockIndex, hframe.validity]
    exact h.tree p
  transactions p := by
    rw [hframe.haveData, hframe.validity]
    exact h.transactions p

end Covered

/-! ### Eligible blocks -/

theorem Eligible.entry (h : s.Eligible p) (hq : q <:+ p) (hne : q ≠ []) :
    (s.entry q).haveData = true ∧ (s.entry q).failed = false :=
  h.2 q ((mem_tails _ _).2 hq) hne

theorem Eligible.suffix (h : s.Eligible p) (hq : q <:+ p) (hne : q ≠ []) : s.Eligible q :=
  ⟨hne, fun _ hr => h.entry (((mem_tails _ _).1 hr).trans hq)⟩

theorem eligible_of_complete (h : Linked params s) (hp : s.Complete p)
    (hfailed : ∀ q, q <:+ p → q ≠ [] → (s.entry q).failed = false) : s.Eligible p := by
  refine ⟨h.ne_nil_of_complete hp, fun q hq hne => ?_⟩
  have hqp := (mem_tails _ _).1 hq
  exact ⟨(h.complete q (h.complete_of_suffix hp hqp hne)).1, hfailed q hqp hne⟩

theorem valueComp_nil (hne : p ≠ []) : s.valueComp params p [] = false := by
  by_contra hworse
  have hlt := valueComp_iff.1 (Bool.not_eq_false _ ▸ hworse)
  exact absurd (nChainWork_le_of_key_le hlt.le)
    (not_le.2 (nChainWork_lt nil_suffix hne.symm))

section

variable (h : Linked params s) (hc : Covered params s)
include h hc

theorem Eligible.complete (hp : s.Eligible p) : s.Complete p := by
  induction p with
  | nil => exact absurd rfl hp.1
  | cons hash prev ih =>
    rcases hc.data _ (hp.entry suffix_rfl (cons_ne_nil _ _)).1 with hcomplete | hwaits
    · exact hcomplete
    · obtain ⟨-, hne, hnot, -⟩ := h.unlinked _ hwaits
      exact absurd (ih (hp.suffix (suffix_cons _ _) hne)) hnot

theorem exists_candidate (hp : s.Eligible p) :
    ∃ q ∈ s.setBlockIndexCandidates, s.Eligible q ∧ s.key params p ≤ s.key params q := by
  have hmem : ∀ q, s.Eligible q → s.valueComp params q s.chainActive = false →
      q ∈ s.setBlockIndexCandidates := fun q hq =>
    hc.candidates q (hq.complete h hc) (hq.entry suffix_rfl hq.1).2
  by_cases hworse : s.valueComp params p s.chainActive = true
  · rcases h.active with hnil | hcomplete
    · rw [hnil, valueComp_nil hp.1] at hworse
      cases hworse
    · have htip := eligible_of_complete h hcomplete hc.active
      exact ⟨_, hmem _ htip (not_valueComp_iff.2 le_rfl), htip, (valueComp_iff.1 hworse).le⟩
  · exact ⟨p, hmem p hp (Bool.not_eq_true _ ▸ hworse), hp, le_rfl⟩

/-- **The set does what it is for.** -/
theorem covers : Covers params s where
  candidate p hp hnot := ⟨p, suffix_rfl, hp,
    hc.candidates p (hp.complete h hc) (hp.entry List.suffix_rfl hp.1).2 hnot⟩
  mostWork turns hturns := by
    obtain ⟨s', heq, hweeds, hnone, hcause⟩ := findMostWorkChain_spec h hturns
    refine ⟨_, s', heq, ?_⟩
    -- an eligible candidate is not taken out
    have hkept : ∀ q ∈ s.setBlockIndexCandidates, s.Eligible q →
        q ∈ s'.setBlockIndexCandidates := by
      intro q hq hel
      refine (hweeds.kept q hq).resolve_right fun hfailed => ?_
      obtain ⟨r, ⟨hne, hrq, hr⟩ | hr⟩ := hcause q hfailed
      · rw [(hel.entry hrq hne).2] at hr
        cases hr
      · rw [(hel.entry suffix_rfl hel.1).2] at hr
        cases hr
    rcases rbegin_spec (hweeds.linked h) with ⟨hnil, hempty⟩ | ⟨hmem, hbest⟩
    · refine Or.inl ⟨hnil, fun p hp => ?_⟩
      obtain ⟨q, hq, hel, -⟩ := exists_candidate h hc hp
      have hq' := hkept q hq hel
      rw [hempty] at hq'
      cases hq'
    · have hcomplete := h.candidates _ (hweeds.sublist.subset hmem)
      refine Or.inr ⟨eligible_of_complete h hcomplete fun q hq hne => ?_, fun p hp => ?_⟩
      · rcases pindexTest_eq_none hnone hq hne with hon | ⟨hoff, -⟩
        · exact hc.active q (hweeds.chainActive ▸ hon) hne
        · by_contra hfailed
          rw [hweeds.failed_mono q (by simpa using hfailed)] at hoff
          cases hoff
      · obtain ⟨q, hq, hel, hle⟩ := exists_candidate h hc hp
        have hle' := nChainWork_le_of_key_le (hbest q (hkept q hq hel))
        exact (nChainWork_le_of_key_le hle).trans hle'

end

/-! ### One step -/

theorem covered_acceptBlockHeader (h : Linked params s) (hc : Covered params s)
    {hash hashPrevBlock : Uint256} {checks : Bool}
    (hkeeps : Keeps params s (.acceptBlockHeader hash hashPrevBlock checks)) :
    Covered params (s.acceptBlockHeader params hash hashPrevBlock checks).2 := by
  rcases acceptBlockHeader_spec h hash hashPrevBlock checks with
    heq | ⟨p, hp, hcc, hfailed, hhead, heq⟩ | ⟨p, hnew, hadds⟩
  · rw [heq]
    exact hc
  · rw [heq]
    refine hc.frame (Frame.modify (f := CBlockIndex.clearFailed) (fun _ => rfl) p)
      (fun q hq hnot hle => ?_) fun q hq hne => ?_
    · by_cases heq' : q = p
      · rw [heq'] at hq hle
        have hworse := hkeeps.resolve_left hcc p hp hhead hfailed hq
        exact absurd (hle.symm.trans hworse) Bool.false_ne_true
      · rw [entry_modify, if_neg heq'] at hnot
        exact hc.candidates q hq hnot hle
    · rw [entry_modify]
      split
      · rfl
      · exact hc.active q hq hne
  · set s' := (s.acceptBlockHeader params hash hashPrevBlock checks).2
    have hpne : p ≠ [] := hadds.linked.ne_nil p (hadds.mapBlockIndex ▸ mem_cons_self)
    have hon : ∀ q, q <:+ s.chainActive → q ≠ p := by
      rintro q hq rfl
      refine hnew (h.mem_of_complete ?_)
      rcases h.active with hnil | hcomplete
      · rw [hnil, suffix_nil] at hq
        exact absurd hq hpne
      · exact h.complete_of_suffix hcomplete hq hpne
    have hself : (s'.entry p).nChainTx = 0 ∧ (s'.entry p).haveData = false := by
      rw [hadds.entry_self]
      exact ⟨rfl, rfl⟩
    have hdata : ∀ q, (s'.entry q).haveData = true → q ≠ p := by
      rintro q hq rfl
      rw [hself.2] at hq
      cases hq
    have hcomplete : ∀ q ≠ p, s'.Complete q ↔ s.Complete q := fun q hq => by
      rw [Complete, Complete, hadds.other q hq]
    refine ⟨fun q hq hfailed hnot => ?_, fun q hq hne => ?_, fun q hq => ?_, fun q hq => ?_,
      fun q hq => ?_⟩
    · have hqp : q ≠ p := by
        rintro rfl
        exact hq hself.1
      rw [hadds.candidates]
      rw [hadds.other q hqp] at hfailed
      rw [hadds.chainActive, valueComp_congr (hadds.other q hqp)
        (hadds.other _ (hon _ suffix_rfl))] at hnot
      exact hc.candidates q ((hcomplete q hqp).1 hq) hfailed hnot
    · rw [hadds.chainActive] at hq
      rw [hadds.other q (hon q hq)]
      exact hc.active q hq hne
    · have hqp := hdata q hq
      rw [hadds.other q hqp] at hq
      rw [hadds.unlinked, hcomplete q hqp]
      exact hc.data q hq
    · rw [hadds.mapBlockIndex] at hq
      by_cases heq : q = p
      · rw [heq, hadds.entry_self]
      · rw [hadds.other q heq]
        exact hc.tree q ((mem_cons.1 hq).resolve_left heq)
    · have hqp := hdata q hq
      rw [hadds.other q hqp] at hq ⊢
      exact hc.transactions q hq

theorem covered_acceptBlock (h : Linked params s) (hc : Covered params s) {verdict : BlockVerdict}
    (hkeeps : Keeps params s (.acceptBlock p verdict)) :
    Covered params (s.acceptBlock params p verdict) := by
  have hspec := acceptBlock_spec h p verdict
  -- a block gets its data only in a step that meets the condition
  have hreceives : (s.entry p).haveData = false →
      ((s.acceptBlock params p verdict).entry p).haveData = true →
        p ∈ s.mapBlockIndex ∧ (s.entry p).failed = false ∧
          (p.pprev = [] ∨ s.Complete p.pprev ∨ (s.entry p.pprev).failed = false) := by
    intro hno hhas
    unfold acceptBlock at hhas
    split at hhas
    · next hknown =>
      refine ⟨hknown.1, ?_⟩
      rcases hkeeps with hdata | hverdict | hgood
      · rw [hno] at hdata
        cases hdata
      · cases verdict with
        | ok nTx contextual => cases hverdict
        | invalid =>
          rw [entry_modify, if_pos rfl] at hhas
          exact absurd (hno.symm.trans hhas) Bool.false_ne_true
        | error => exact absurd (hno.symm.trans hhas) Bool.false_ne_true
      · exact hgood
    · exact absurd (hno.symm.trans hhas) Bool.false_ne_true
  set s' := s.acceptBlock params p verdict
  have hother : ∀ q ≠ p, (s'.entry q).haveData = (s.entry q).haveData ∧
      (s'.entry q).validity = (s.entry q).validity := fun q hq =>
    have hdata := congrArg CBlockIndex.haveData (hspec.other q hq)
    have hvalidity := congrArg CBlockIndex.validity (hspec.other q hq)
    ⟨hdata, hvalidity⟩
  have hsame : ∀ q, (s'.entry q).haveData = true → (s.entry q).haveData = true ∨
      q = p ∧ (s.entry p).haveData = false ∧ (s'.entry p).haveData = true := by
    intro q hq
    by_cases heq : q = p
    · subst heq
      cases hdata : (s.entry q).haveData with
      | true => exact Or.inl rfl
      | false => exact Or.inr ⟨rfl, rfl, hq⟩
    · exact Or.inl ((hother q heq).1 ▸ hq)
  refine ⟨fun q hq hfailed hnot => ?_, fun q hq hne => ?_, fun q hq => ?_, fun q hq => ?_,
    fun q hq => ?_⟩
  · rw [hspec.chainActive] at hnot
    by_cases hbefore : s.Complete q
    · refine hspec.subset (hc.candidates q hbefore (hspec.same q hbefore ▸ hfailed) ?_)
      rcases h.active with hnil | hcomplete
      · rw [hnil]
        exact valueComp_nil (h.ne_nil_of_complete hbefore)
      · rw [← valueComp_congr (hspec.same q hbefore) (hspec.same _ hcomplete)]
        exact hnot
    · exact hspec.inserted q hbefore hq (Or.inr hnot)
  · rw [hspec.chainActive] at hq
    have hcomplete : s.Complete q := by
      refine h.complete_of_suffix (h.active.resolve_left fun hnil => hne ?_) hq hne
      rw [hnil] at hq
      exact suffix_nil.1 hq
    rw [hspec.same q hcomplete]
    exact hc.active q hq hne
  · rcases hsame q hq with hbefore | ⟨rfl, hno, hhas⟩
    · rcases hc.data q hbefore with hcomplete | hwaits
      · exact Or.inl (hspec.toGrows.complete hcomplete)
      · exact (hspec.unlinked _ hwaits).symm
    · obtain ⟨hknown, -, hparent⟩ := hreceives hno hhas
      obtain ⟨hcounted, hwaits, -⟩ := hspec.received hno hhas
      by_cases hready : q.pprev = [] ∨ s.Complete q.pprev
      · exact Or.inl (hcounted hready)
      · obtain ⟨hne, hnot⟩ := not_or.1 hready
        have hvalid : (s.entry q.pprev).isValid BLOCK_VALID_TREE = true := by
          have hgood := (hparent.resolve_left hne).resolve_left hnot
          have htree := hc.tree _ ((h.pprev_mem q hknown).resolve_left hne)
          simp [CBlockIndex.isValid, hgood, htree]
        exact Or.inr (hwaits hne hnot hvalid)
  · rw [hspec.mapBlockIndex] at hq
    by_cases heq : q = p
    · exact heq ▸ (hc.tree q hq).trans (heq ▸ hspec.validity_mono)
    · rw [(hother q heq).2]
      exact hc.tree q hq
  · rcases hsame q hq with hbefore | ⟨rfl, hno, hhas⟩
    · by_cases heq : q = p
      · subst heq
        rw [hspec.haveData hbefore]
        exact hc.transactions q hbefore
      · rw [(hother q heq).2]
        exact hc.transactions q hbefore
    · exact (hspec.received hno hhas).2.2 (hreceives hno hhas).2.1

theorem Covered.weeds (hc : Covered params s) (hweeds : Weeds s s') : Covered params s' := by
  refine hc.frame hweeds.toFrame (fun p hp hfailed hnot => ?_) fun p hp hne => ?_
  · rw [hweeds.chainActive] at hnot
    have hbefore : (s.entry p).failed = false := by
      by_contra hmarked
      rw [hweeds.failed_mono p (by simpa using hmarked)] at hfailed
      cases hfailed
    refine (hweeds.kept p (hc.candidates p hp hbefore hnot)).resolve_right fun hmarked => ?_
    rw [hmarked] at hfailed
    cases hfailed
  · rw [hweeds.chainActive] at hp
    by_contra hmarked
    rcases hweeds.failed_off p (by simpa using hmarked) with hbefore | hoff
    · rw [hc.active p hp hne] at hbefore
      cases hbefore
    · exact hoff hp

theorem Covered.invalidates (hc : Covered params s) (h : Linked params s)
    (hinv : Invalidates params p .ok s s') : Covered params s' := by
  refine hc.frame hinv.toFrame (fun q hq hfailed hnot => ?_) fun q hq hne => ?_
  · refine hinv.inserted rfl q (h.mem_of_complete hq) ?_ hq hnot
    have hvalid := hc.transactions q (h.complete q hq).1
    rw [← hinv.toFrame.validity] at hvalid
    simp [CBlockIndex.isValid, hfailed, hvalid]
  · by_contra hmarked
    rcases hinv.failed_off rfl q (by simpa using hmarked) with hbefore | hoff
    · rw [hc.active q (hq.trans hinv.chainActive) hne] at hbefore
      cases hbefore
    · exact hoff hq

theorem covered_activateBestChain (h : Linked params s) (hc : Covered params s) {fSkipdpow : Bool}
    (hkeeps : Keeps params s (.activateBestChain fSkipdpow disk)) :
    Covered params (s.activateBestChain params disk fSkipdpow).2 := by
  obtain ⟨s₁, m, hweeds, hlinked, heq | ⟨hm, hoff, hvalid, heq⟩⟩ :=
    activateBestChain_spec h disk fSkipdpow
  · rw [heq]
    exact hc.weeds hweeds
  have hc₁ := hc.weeds hweeds
  obtain ⟨r, s', heq', -, ⟨l, -, -, hinv⟩ | ⟨l, tip, htip, hclimbs, hend⟩⟩ :=
    activateBestChainStep_spec disk hlinked (hlinked.candidates m hm) hoff fSkipdpow
  · rw [heq, heq']
    have hc₂ : Covered params { s₁ with last := l } :=
      hc₁.frame ⟨rfl, rfl, fun _ => rfl⟩ hc₁.candidates hc₁.active
    exact hc₂.invalidates (hlinked.lower suffix_rfl) hinv
  · have hnot : s₁.valueComp params s'.chainActive s₁.chainActive = false := by
      rw [Keeps, heq, heq'] at hkeeps
      rw [hweeds.toFrame.valueComp, hweeds.chainActive]
      exact hkeeps
    rw [heq, heq']
    refine hc₁.frame ⟨hclimbs.mapBlockIndex, hclimbs.mapBlocksUnlinked, hclimbs.entry⟩
      (fun q hq hfailed hle => ?_) fun q hq hne => ?_
    · -- a block as good as the new tip is as good as the old one
      have hle' : s₁.valueComp params q s₁.chainActive = false :=
        not_valueComp_iff.2 ((not_valueComp_iff.1 hnot).trans (not_valueComp_iff.1 hle))
      have hbefore : (s₁.entry q).failed = false := by
        by_contra hmarked
        rw [hclimbs.failed_mono q (by simpa using hmarked)] at hfailed
        cases hfailed
      rcases hclimbs.kept q (hc₁.candidates q hq hbefore hle') with hin | hmarked | hworse
      · exact hin
      · rw [hfailed] at hmarked
        cases hmarked
      · exact absurd (hle.symm.trans hworse) Bool.false_ne_true
    · by_contra hmarked
      have hgood : (s₁.entry q).failed = false := by
        rcases hend with hlow | hbelow
        · exact hc₁.active q ((hlow ▸ hq).trans htip) hne
        · exact (hvalid q (hq.trans hbelow) hne).elim (fun hon => hc₁.active q hon hne) id
      rcases hclimbs.failed_off q (by simpa using hmarked) with hbefore | hoff
      · exact absurd (hgood.symm.trans hbefore) Bool.false_ne_true
      · exact hoff hq

theorem disconnectTip_ok (hdisk : disk.disconnects s.chainActive = true)
    (hlast : ∀ n, s.last = some n → s.chainActive.head? ≠ some n.notarized_hash) :
    ∃ l, s.disconnectTip disk = (.ok, { s with last := l, chainActive := s.chainActive.pprev }) ∧
      (l = s.last ∨ l = none) := by
  obtain ⟨l, hl, hcase⟩ := notarizedHeight_eq s
  have hsame : l = s.last ∨ l = none := by
    rcases hcase with hcase | ⟨n, hn, hunknown⟩
    · exact Or.inl hcase
    · have hnone : s.notarizedHeight.1 = none := by simp [notarizedHeight, hn, hunknown]
      rw [hl] at hnone
      exact Or.inr hnone
  refine ⟨l, ?_, hsame⟩
  have hfree : ∀ n, l = some n → s.chainActive.head? ≠ some n.notarized_hash := fun n hn =>
    hsame.elim (fun heq => hlast n (heq ▸ hn)) fun heq => absurd (heq.symm.trans hn) nofun
  unfold disconnectTip
  rw [hl]
  cases l with
  | none => simp [hdisk]
  | some n => simp [hdisk, hfree n rfl]

theorem invalidateLoop_ok {fuel : ℕ} (hdisk : s.Disconnects disk p) :
    (invalidateLoop disk p fuel s).1 = .ok := by
  induction fuel generalizing s with
  | zero => rfl
  | succ fuel ih =>
    rw [invalidateLoop]
    split
    · next hin =>
      set s₁ := (s.modify s.chainActive fun e => { e with failedChild := true }).erase s.chainActive
      obtain ⟨htip, hlast⟩ := hdisk s.chainActive (contains_iff.1 hin) suffix_rfl
      obtain ⟨l, heq, hl⟩ := disconnectTip_ok (s := s₁) htip hlast
      simp only [heq]
      refine ih fun q hpq hq => ?_
      obtain ⟨hread, hfree⟩ := hdisk q hpq (hq.trans (tail_suffix _))
      refine ⟨hread, fun n hn => ?_⟩
      rcases hl with hl | hl
      · exact hfree n (hl.symm.trans hn)
      · cases hl.symm.trans hn
    · rfl

section

variable (h : Linked params s) (hc : Covered params s)
include h hc

theorem covered_invalidateBlock (hne : p ≠ [])
    (hkeeps : Keeps params s (.invalidateBlock p disk)) :
    Covered params (s.invalidateBlock params disk p).2 := by
  obtain ⟨r, s', heq, hinv⟩ := invalidateBlock_spec disk h hne
  have hok : r = .ok := by
    unfold invalidateBlock at heq
    dsimp only at heq
    set s₁ := (s.modify p fun e => { e with failedValid := true }).erase p
    have hloop : (invalidateLoop disk p s₁.chainActive.length s₁).1 = .ok :=
      invalidateLoop_ok hkeeps
    split at heq
    · exact (congrArg Prod.fst heq).symm
    · next hnot => exact (hnot _ (Prod.ext hloop rfl)).elim
  rw [heq]
  exact hc.invalidates h (hok ▸ hinv)

theorem covered_reconsiderBlock (hp : p ∈ s.mapBlockIndex)
    (hkeeps : Keeps params s (.reconsiderBlock p)) : Covered params (s.reconsiderBlock params p) := by
  obtain ⟨hclears, hspec⟩ := reconsiderBlock_spec params hp
  refine hc.frame hclears.toFrame (fun q hq hfailed hnot => ?_) fun q hq hne => ?_
  · rw [hclears.chainActive] at hnot
    cases hbefore : (s.entry q).failed with
    | false => exact hclears.subset (hc.candidates q hq hbefore hnot)
    | true =>
      rcases hspec q hbefore hfailed with ⟨hqp, hne⟩ | ⟨-, -, hins⟩
      · exact absurd (hnot.symm.trans (hkeeps q hqp hne hbefore hq)) Bool.false_ne_true
      · refine hins hq (hc.transactions q (h.complete q hq).1) (valueComp_iff.2 ?_)
        -- a marked block is not the tip
        refine lt_of_le_of_ne (not_valueComp_iff.1 hnot) fun heq => ?_
        have htip := key_injective heq
        rw [hc.active q (htip ▸ suffix_rfl) (h.ne_nil_of_complete hq)] at hbefore
        cases hbefore
  · rw [hclears.chainActive] at hq
    by_contra hmarked
    have hbefore := hclears.failed_anti q (by simpa using hmarked)
    rw [hc.active q hq hne] at hbefore
    cases hbefore

theorem covered_step {op : Op} (hkeeps : Keeps params s op) : Covered params (s.step params op) := by
  cases op with
  | acceptBlockHeader hash hashPrevBlock checks => exact covered_acceptBlockHeader h hc hkeeps
  | acceptBlock p verdict => exact covered_acceptBlock h hc hkeeps
  | activateBestChain fSkipdpow disk => exact covered_activateBestChain h hc hkeeps
  | invalidateBlock p disk =>
    rw [step]
    split
    · next hp => exact covered_invalidateBlock h hc (h.ne_nil p hp) hkeeps
    · exact hc
  | reconsiderBlock p =>
    rw [step]
    split
    · next hp => exact covered_reconsiderBlock h hc hp hkeeps
    · exact hc

theorem covered_foldl {ops : List Op} (hmeets : Meets params s ops) :
    Covered params (ops.foldl (step params) s) := by
  induction ops generalizing s with
  | nil => exact hc
  | cons op ops ih => exact ih (linked_step h op) (covered_step h hc hmeets.1) hmeets.2

end

/-- **The candidates in every run.** `FindMostWorkChain` ends in every state that is reached, and
where every step meets the condition the set does what it is for. -/
theorem covers_run (params : Params) (ops : List Op) :
    (∀ turns > (run params ops).setBlockIndexCandidates.length,
      (findMostWorkChain params turns (run params ops)).isSome = true) ∧
    (Meets params {} ops → Covers params (run params ops)) := by
  have hlinked := linked_run params ops
  refine ⟨fun turns hturns => ?_, fun hmeets => ?_⟩
  · obtain ⟨s', heq, -⟩ := findMostWorkChain_spec hlinked hturns
    rw [heq, Option.isSome_some]
  · exact covers hlinked (covered_foldl Linked.empty Covered.empty hmeets)

/-! ### Runs that lose a block -/

/-- Two blocks connect on a chain with `ASSETCHAINS_CC`, the second at the second try. -/
theorem covers_run_two : Covers (unitParams 1) (run (unitParams 1) (connected 1 0 [] ++
    received 2 1 [1] ++ [.activateBestChain false { connects := fun _ => .error [] },
      .activateBestChain false {}])) := by
  refine (covers_run (unitParams 1) _).2 ?_
  simp only [connected, received, cons_append, nil_append, Meets, Keeps]
  decide

/-- On a chain with `ASSETCHAINS_CC` a block does not connect; then its header comes again. -/
def reconsidered : List Op :=
  connected 1 0 [] ++ received 2 1 [1] ++
    [.activateBestChain false { connects := fun _ => .invalid false }, .acceptBlockHeader 2 1 true]

/-- While a block is marked, the data of its child arrives. -/
def unlinked : List Op :=
  connected 1 0 [] ++ [.acceptBlockHeader 2 1 true, .acceptBlockHeader 3 2 true,
    .invalidateBlock [2, 1] {}, .acceptBlock [3, 2, 1] (.ok 1 true), .reconsiderBlock [2, 1],
    .acceptBlock [2, 1] (.ok 1 true)]

/-- A reorganisation from `3, 2, 1` to `6, 5, 4, 1` fails at `5`. -/
def reorganised : List Op :=
  connected 1 0 [] ++ connected 2 1 [1] ++ connected 3 2 [2, 1] ++ received 4 1 [1] ++
    received 5 4 [4, 1] ++ received 6 5 [5, 4, 1] ++
    [.activateBestChain false { connects := fun p =>
      if p = [5, 4, 1] then .invalid false else .connected [] }]

/-- The file of the only child of the genesis block cannot be read when it is to be invalidated
with its own child. -/
def interrupted : List Op :=
  connected 1 0 [] ++ connected 4 1 [1] ++ received 2 1 [1] ++ received 3 2 [2, 1] ++
    [.activateBestChain false {}, .activateBestChain false {},
      .invalidateBlock [2, 1] { disconnects := fun p => p ≠ [2, 1] }]

/-- A block is invalidated, and its child, of which there is only the header, reconsidered. -/
def reconsideredChild : List Op :=
  connected 1 0 [] ++ connected 2 1 [1] ++
    [.acceptBlockHeader 3 2 true, .invalidateBlock [2, 1] {}, .reconsiderBlock [3, 2, 1]]

/-- An eligible block that is not worse than the tip, and nothing eligible on top of it in the set. -/
def lost (params : Params) (s : ChainState) (p : BlockPtr) : Prop :=
  s.Eligible p ∧ s.valueComp params p s.chainActive = false ∧
    ∀ q ∈ s.setBlockIndexCandidates, p <:+ q → ¬ s.Eligible q

instance : Decidable (lost params s p) := inferInstanceAs (Decidable (_ ∧ _))

theorem not_covers_of_lost (h : lost params s p) : ¬ Covers params s := fun hcovers =>
  have ⟨q, hpq, hel, hq⟩ := hcovers.candidate p h.1 h.2.1
  h.2.2 q hq hpq hel

/-- Each of the five kinds of steps loses a block. -/
theorem not_covers_run : ¬ Covers (unitParams 1) (run (unitParams 1) reconsidered) ∧
    ∀ ops ∈ [unlinked, reorganised, interrupted, reconsideredChild],
      ¬ Covers (unitParams 0) (run (unitParams 0) ops) := by
  refine ⟨not_covers_of_lost (p := [2, 1]) (by decide), ?_⟩
  rintro ops hops
  simp only [mem_cons, not_mem_nil, or_false] at hops
  rcases hops with rfl | rfl | rfl | rfl
  · exact not_covers_of_lost (p := [3, 2, 1]) (by decide)
  · exact not_covers_of_lost (p := [4, 1]) (by decide)
  · exact not_covers_of_lost (p := [4, 1]) (by decide)
  · exact not_covers_of_lost (p := [2, 1]) (by decide)

end ChainState
end BlockTree
end Komodo
