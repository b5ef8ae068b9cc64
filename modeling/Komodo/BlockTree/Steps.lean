/-
# One step, and the runs

A turn of `ActivateBestChain` put together: `FindMostWorkChain` takes bad candidates
out, and `ActivateBestChainStep` either refuses and leaves the chain as it is, or goes
down to a tip and climbs from there. `linked_run`: the index is a tree in every run.
-/

import Komodo.BlockTree.Movement
import Komodo.BlockTree.Arrival

namespace Komodo
namespace BlockTree
namespace ChainState

variable {params : Params} {disk : Disk} {s s' : ChainState} {p q : BlockPtr}

/-! ### A step towards the best chain -/

/-- `FindMostWorkChain` as `ActivateBestChain` calls it. -/
theorem mostWork_spec (h : Linked params s) :
    ∃ s', s.mostWork params = (s'.rbegin params, s') ∧ Weeds s s' ∧
      s'.pindexTest (s'.rbegin params) = none := by
  obtain ⟨s', heq, hweeds, hnone, -⟩ := findMostWorkChain_spec h
    (Nat.lt_succ_self s.setBlockIndexCandidates.length)
  exact ⟨s', by rw [mostWork, heq]; rfl, hweeds, hnone⟩

theorem Linked.lower (h : Linked params s) {l : Option Notarized} {tip : BlockPtr}
    (htip : tip <:+ s.chainActive) : Linked params { s with last := l, chainActive := tip } :=
  (Falls.tip (p := []) htip).linked h

/-- `ActivateBestChainStep` invalidates the block and leaves the chain as it is, or it goes down to
a tip and climbs from there. -/
theorem activateBestChainStep_spec (disk : Disk) {m : BlockPtr} (h : Linked params s) (hm : s.Complete m)
    (hoff : ¬ m <:+ s.chainActive) (fSkipdpow : Bool) :
    ∃ r s', s.activateBestChainStep params disk fSkipdpow m = (r, s') ∧ Linked params s' ∧
      ((∃ l, r = .pastNotarized ∧ s'.chainActive = s.chainActive ∧
          Invalidates params m .ok { s with last := l } s') ∨
        ∃ l tip, tip <:+ s.chainActive ∧
          Climbs params { s with last := l, chainActive := tip } s' ∧
            (s'.chainActive = tip ∨ s'.chainActive <:+ m)) := by
  obtain ⟨hforkm, hforktip, -⟩ := findFork_spec s m
  obtain ⟨l, hl, -⟩ := notarizedHeight_eq s
  have hlast : Linked params { s with last := l } := h.lower (l := l) List.suffix_rfl
  rw [activateBestChainStep, hl]
  dsimp only
  split
  · obtain ⟨r, s', heq, hinv⟩ :=
      invalidateBlock_spec disk hlast (h.ne_nil_of_complete hm)
    obtain ⟨rfl, htip⟩ := hinv.off_chain hoff
    refine ⟨.pastNotarized, s', congrArg (Prod.mk _) (by rw [heq]), hinv.linked, Or.inl ?_⟩
    exact ⟨l, rfl, htip, hinv⟩
  · split
    · exact ⟨.failed, _, rfl, hlast, Or.inr ⟨l, s.chainActive, List.suffix_rfl, Climbs.refl _,
        Or.inl rfl⟩⟩
    · obtain ⟨r, l', tip, heq, -, htip, hok⟩ := disconnectTo_spec disk
        (s := { s with last := l }) hforktip (le_refl s.chainActive.length)
      have hlower : Linked params { s with last := l', chainActive := tip } := h.lower htip
      have hstop : ∀ o : Outcome, ∃ r s', (o, { s with last := l', chainActive := tip }) = (r, s') ∧
          Linked params s' ∧ ((∃ l, r = .pastNotarized ∧ s'.chainActive = s.chainActive ∧
            Invalidates params m .ok { s with last := l } s') ∨
          ∃ l tip, tip <:+ s.chainActive ∧
            Climbs params { s with last := l, chainActive := tip } s' ∧
              (s'.chainActive = tip ∨ s'.chainActive <:+ m)) := fun o =>
        ⟨o, _, rfl, hlower, Or.inr ⟨l', tip, htip, Climbs.refl _, Or.inl rfl⟩⟩
      simp only [heq]
      cases r with
      | pastNotarized => exact hstop _
      | failed => exact hstop _
      | ok =>
        obtain rfl := hok rfl
        obtain ⟨hpath, -⟩ := isPath_above hforkm
        have hmem : ∀ p ∈ (above (s.findFork m) m).reverse, p <:+ m ∧ s.Complete p := by
          intro p hp
          obtain ⟨hpm, -, -, hne⟩ := (mem_above hforkm).1 (List.mem_reverse.1 hp)
          exact ⟨hpm, h.complete_of_suffix hm hpm hne⟩
        obtain ⟨r, s', heq', -, hclimbs, hlinked, hend⟩ := connectPath_spec disk s.chainActive
          hlower hpath fun p hp => (hmem p hp).2
        exact ⟨r, s', heq', hlinked, Or.inr ⟨l', s.findFork m, htip, hclimbs,
          hend.imp_right fun hp => (hmem _ hp).1⟩⟩

/-- A turn of `ActivateBestChain`: bad candidates are taken out; then there may be nothing to do, or
there is a step towards the best block, which is valid down to the chain. -/
theorem activateBestChain_spec (h : Linked params s) (disk : Disk) (fSkipdpow : Bool) :
    ∃ s₁ m, Weeds s s₁ ∧ Linked params s₁ ∧
      (s.activateBestChain params disk fSkipdpow = (.ok, s₁) ∨
        m ∈ s₁.setBlockIndexCandidates ∧ ¬ m <:+ s₁.chainActive ∧
          (∀ p, p <:+ m → p ≠ [] → p <:+ s₁.chainActive ∨ (s₁.entry p).failed = false) ∧
          s.activateBestChain params disk fSkipdpow =
            s₁.activateBestChainStep params disk fSkipdpow m) := by
  obtain ⟨s₁, heq, hweeds, hnone⟩ := mostWork_spec h
  have hlinked := hweeds.linked h
  refine ⟨s₁, s₁.rbegin params, hweeds, hlinked, ?_⟩
  rw [activateBestChain, heq]
  dsimp only
  split
  · exact Or.inl rfl
  · next hdo =>
    obtain ⟨hne, htip⟩ := not_or.1 hdo
    obtain ⟨hmem, -⟩ := (rbegin_spec hlinked).resolve_left fun hnil => hne hnil.1
    refine Or.inr ⟨hmem, fun hin => htip (hlinked.no_ancestor _ hmem hin), fun p hp hpne => ?_, rfl⟩
    exact (pindexTest_eq_none hnone hp hpne).imp_right And.left

/-! ### Runs -/

theorem linked_step (h : Linked params s) (op : Op) : Linked params (s.step params op) := by
  cases op with
  | acceptBlockHeader hash hashPrevBlock checks =>
    rcases acceptBlockHeader_spec h hash hashPrevBlock checks with
      heq | ⟨p, -, -, -, -, heq⟩ | ⟨p, -, hadds⟩
    · rw [step, heq]
      exact h
    · rw [step, heq]
      exact (Clears.clear p).linked h
    · exact hadds.linked
  | acceptBlock p verdict => exact (acceptBlock_spec h p verdict).linked
  | activateBestChain fSkipdpow disk =>
    obtain ⟨s₁, m, -, hlinked, heq | ⟨hm, hoff, -, heq⟩⟩ := activateBestChain_spec h disk fSkipdpow
    · rw [step, heq]
      exact hlinked
    · obtain ⟨r, s', heq', hlinked', -⟩ := activateBestChainStep_spec disk hlinked
        (hlinked.candidates m hm) hoff fSkipdpow
      rw [step, heq, heq']
      exact hlinked'
  | invalidateBlock p disk =>
    rw [step]
    split
    · next hp =>
      obtain ⟨r, s', heq, hinv⟩ := invalidateBlock_spec disk h (h.ne_nil p hp)
      rw [heq]
      exact hinv.linked
    · exact h
  | reconsiderBlock p =>
    rw [step]
    split
    · next hp => exact (reconsiderBlock_spec params hp).1.linked h
    · exact h

theorem linked_foldl {ops : List Op} (h : Linked params s) :
    Linked params (ops.foldl (step params) s) := by
  induction ops generalizing s with
  | nil => exact h
  | cons op ops ih => exact ih (linked_step h op)

/-- **The index is a tree in every run.** -/
theorem linked_run (params : Params) (ops : List Op) : Linked params (run params ops) :=
  linked_foldl Linked.empty

/-! ### A small chain -/

/-- Every block has the same proof, and the genesis block has the hash `1`. -/
def unitParams (ASSETCHAINS_CC : ℕ) : Params where
  hashGenesisBlock := 1
  getBlockProof _ := 1
  getBlockProof_pos _ := Nat.one_pos
  address := Encodable.encode
  address_injective := Encodable.encode_injective
  ASSETCHAINS_CC
  MAX_REORG_LENGTH := 100

/-- The data of a block arrives, after its header. -/
def received (hash hashPrevBlock : Uint256) (prev : BlockPtr) : List Op :=
  [.acceptBlockHeader hash hashPrevBlock true, .acceptBlock (hash :: prev) (.ok 1 true)]

/-- A block arrives and connects. -/
def connected (hash hashPrevBlock : Uint256) (prev : BlockPtr) : List Op :=
  received hash hashPrevBlock prev ++ [.activateBestChain false {}]

end ChainState
end BlockTree
end Komodo
