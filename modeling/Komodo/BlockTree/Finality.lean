/-
# Notarised blocks stay in the active chain

`komodo_voutupdate` keeps one notarisation, the last one, and only records one that
names a higher block.  `DisconnectTip` refuses the block it names, and
`ActivateBestChainStep` refuses a fork below its height.  Nothing is taken back when
the block that holds the notarisation is itself disconnected.

Where what is recorded names blocks of the active chain (`Sound`), this is enough
for all that was ever recorded (`Final`): the blocks are on one chain and the last
one is the highest, so the others are below it.
-/

import Komodo.BlockTree.Steps

namespace Komodo
namespace BlockTree

open List

/-- The notarisation names the block, and the block is in the chain. -/
structure Names (n : Notarized) (chain B : BlockPtr) : Prop where
  ne_nil : B ≠ []
  mem : B <:+ chain
  hash : B.head? = some n.notarized_hash
  height : B.nHeight = n.notarized_height

theorem suffix_of_nHeight_le {chain A B : BlockPtr} (hA : A <:+ chain) (hB : B <:+ chain)
    (hle : A.nHeight ≤ B.nHeight) : A <:+ B := by
  refine suffix_of_suffix_length_le hA hB ?_
  unfold BlockPtr.nHeight at hle
  omega

namespace ChainState

variable {params : Params} {disk : Disk} {s s' : ChainState} {p : BlockPtr}

/-- Every notarisation that was recorded names a block of the chain of that moment. -/
def Sound (s : ChainState) : Prop := ∀ r ∈ s.recorded, ∃ B, Names r.1 r.2 B

/-- All that was recorded as notarised is in the active chain, and nothing is higher than the last
one. -/
structure Final (s : ChainState) : Prop where
  active : ∀ r ∈ s.recorded, ∀ B, Names r.1 r.2 B → B <:+ s.chainActive
  last_mem : ∀ n, s.last = some n → ∃ chain, (n, chain) ∈ s.recorded
  highest : ∀ r ∈ s.recorded, ∃ n, s.last = some n ∧ r.1.notarized_height ≤ n.notarized_height

namespace Final

theorem empty : Final {} := ⟨fun _ h => (nomatch h), fun _ h => (nomatch h), fun _ h => (nomatch h)⟩

theorem congr (h : Final s) (hactive : s'.chainActive = s.chainActive)
    (hrecorded : s'.recorded = s.recorded) (hlast : s'.last = s.last) : Final s' where
  active := hrecorded ▸ hactive ▸ h.active
  last_mem := hrecorded ▸ hlast ▸ h.last_mem
  highest := hrecorded ▸ hlast ▸ h.highest

theorem exists_last (h : Final s) (hsound : s.Sound) {n : Notarized} (hn : s.last = some n) :
    ∃ B, Names n s.chainActive B := by
  obtain ⟨chain, hmem⟩ := h.last_mem n hn
  obtain ⟨B, hB⟩ := hsound _ hmem
  exact ⟨B, hB.ne_nil, h.active _ hmem B hB, hB.hash, hB.height⟩

theorem below_last (h : Final s) {n : Notarized} (hn : s.last = some n) {B : BlockPtr}
    (hB : Names n s.chainActive B) {r : Notarized × BlockPtr} (hr : r ∈ s.recorded) {A : BlockPtr}
    (hA : Names r.1 r.2 A) : A <:+ B := by
  refine suffix_of_nHeight_le (h.active r hr A hA) hB.mem ?_
  obtain ⟨n', hn', hle⟩ := h.highest r hr
  obtain rfl := Option.some.inj (hn.symm.trans hn')
  rw [hA.height, hB.height]
  exact hle

theorem lower (h : Final s) (hsound : s.Sound) {tip : BlockPtr}
    (hlast : ∀ n B, s.last = some n → Names n s.chainActive B → B <:+ tip) :
    Final { s with chainActive := tip } where
  active r hr A hA := by
    obtain ⟨n, hn, -⟩ := h.highest r hr
    obtain ⟨B, hB⟩ := h.exists_last hsound hn
    exact (h.below_last hn hB hr hA).trans (hlast n B hn hB)
  last_mem := h.last_mem
  highest := h.highest

theorem raise (h : Final s) (tip : BlockPtr) (htip : s.chainActive <:+ tip) :
    Final { s with chainActive := tip } where
  active r hr B hB := (h.active r hr B hB).trans htip
  last_mem := h.last_mem
  highest := h.highest

/-- What is recorded is higher than the last one. -/
theorem voutUpdate (h : Final s) (disk : Disk) (height : ℤ) (n : Notarized) :
    Final (voutUpdate disk height s n) := by
  unfold ChainState.voutUpdate
  split
  · next hnew =>
    refine ⟨fun r hr B hB => ?_, fun m hm => ⟨s.chainActive, ?_⟩, fun r hr => ⟨n, rfl, ?_⟩⟩
    · rcases mem_append.1 hr with hr | hr
      · exact h.active r hr B hB
      · rw [mem_singleton.1 hr] at hB
        exact hB.mem
    · cases hm
      exact mem_append_right _ (mem_singleton_self _)
    · rcases mem_append.1 hr with hr | hr
      · obtain ⟨m, hm, hle⟩ := h.highest r hr
        have hlt := hnew.2.1
        rw [hm, Option.elim_some] at hlt
        exact hle.trans hlt.le
      · rw [mem_singleton.1 hr]
  · exact h

theorem foldl_voutUpdate (h : Final s) (disk : Disk) (height : ℤ) (ns : List Notarized) :
    Final (ns.foldl (ChainState.voutUpdate disk height) s) := by
  induction ns generalizing s with
  | nil => exact h
  | cons n ns ih => exact ih (h.voutUpdate disk height n)

end Final

/-! ### Disconnecting -/

/-- The last notarisation is not forgotten. -/
theorem notarizedHeight_of_final (h : Linked params s) (hsound : s.Sound) (hf : Final s) :
    s.notarizedHeight = (s.last, s) := by
  unfold notarizedHeight
  cases hn : s.last with
  | none => rfl
  | some n =>
    obtain ⟨B, hB⟩ := hf.exists_last hsound hn
    have hcomplete : s.Complete s.chainActive := by
      refine h.active.resolve_left fun hnil => hB.ne_nil ?_
      have hmem := hB.mem
      rw [hnil] at hmem
      exact suffix_nil.1 hmem
    have hknown := h.mem_of_complete (h.complete_of_suffix hcomplete hB.mem hB.ne_nil)
    have hfind : s.find n.notarized_hash ≠ none := fun hnone => find_eq_none hnone hknown hB.hash
    simp [Option.isNone_iff_eq_none, hfind]

/-- `DisconnectTip` refuses the last notarised block, fails, or takes a block off that is above
it. -/
theorem disconnectTip_of_final (h : Linked params s) (hsound : s.Sound) (hf : Final s) (disk : Disk) :
    (∃ n, s.last = some n ∧ s.chainActive.head? = some n.notarized_hash ∧
        s.disconnectTip disk = (.pastNotarized, s)) ∨
      s.disconnectTip disk = (.failed, s) ∨
      (s.disconnectTip disk = (.ok, { s with chainActive := s.chainActive.pprev }) ∧
        Final { s with chainActive := s.chainActive.pprev }) := by
  have hl := notarizedHeight_of_final h hsound hf
  rcases disconnectTip_eq (s := s) disk hl with ⟨n, hn, hhead, heq⟩ | ⟨hfree, heq | heq⟩
  · exact Or.inl ⟨n, hn, hhead, heq⟩
  · exact Or.inr (Or.inl heq)
  · refine Or.inr (Or.inr ⟨heq, hf.lower hsound fun n B hn hB => ?_⟩)
    -- the block of the last notarisation is not the tip
    cases hchain : s.chainActive with
    | nil =>
      have hmem := hB.mem
      rwa [hchain] at hmem
    | cons hash prev =>
      rcases suffix_cons_iff.1 (hchain ▸ hB.mem) with heq | hmem
      · rw [hchain] at hfree
        exact absurd (heq ▸ hB.hash) (hfree n hn)
      · exact hmem

theorem final_disconnectTo (disk : Disk) (h : Linked params s) (hsound : s.Sound) (hf : Final s) (fork : BlockPtr)
    (fuel : ℕ) : Final (disconnectTo disk fork fuel s).2 := by
  induction fuel generalizing s with
  | zero => exact hf
  | succ fuel ih =>
    rw [disconnectTo]
    split
    · rcases disconnectTip_of_final h hsound hf disk with ⟨-, -, -, heq⟩ | heq | ⟨heq, hlow⟩
      · rw [heq]
        exact hf
      · rw [heq]
        exact hf
      · rw [heq]
        exact ih (h.lower (tail_suffix _)) hsound hlow
    · exact hf

/-- Down to a fork above the last notarised block nothing is refused. -/
theorem disconnectTo_not_refused (disk : Disk) (h : Linked params s) (hsound : s.Sound) (hf : Final s)
    {fork : BlockPtr} (hfork : fork <:+ s.chainActive)
    (hlast : ∀ n B, s.last = some n → Names n s.chainActive B → B <:+ fork) (fuel : ℕ) :
    (disconnectTo disk fork fuel s).1 ≠ .pastNotarized := by
  induction fuel generalizing s with
  | zero => rintro ⟨⟩
  | succ fuel ih =>
    rw [disconnectTo]
    split
    · next hgo =>
      rcases disconnectTip_of_final h hsound hf disk with ⟨n, hn, hhead, -⟩ | heq | ⟨heq, hlow⟩
      · -- the refused tip would be the notarised block, which is in the fork
        obtain ⟨B, hB⟩ := hf.exists_last hsound hn
        have hcomplete := h.active.resolve_left hgo.1
        have hBtip : B = s.chainActive :=
          h.hash_inj B (h.mem_of_complete (h.complete_of_suffix hcomplete hB.mem hB.ne_nil)) _
            (h.mem_of_complete hcomplete) (hB.hash.trans hhead.symm)
        have hin := hlast n B hn hB
        rw [hBtip] at hin
        exact absurd (hin.eq_of_length_le hfork.length_le) hgo.2
      · rw [heq]
        rintro ⟨⟩
      · rw [heq]
        have hfork' : fork <:+ s.chainActive.pprev := by
          cases hchain : s.chainActive with
          | nil => exact absurd hchain hgo.1
          | cons hash prev =>
            exact (suffix_cons_iff.1 (hchain ▸ hfork)).resolve_left fun heq =>
              hgo.2 (hchain.trans heq.symm)
        refine ih (h.lower (tail_suffix _)) hsound hlow hfork' fun n B hn hB => ?_
        exact hlast n B hn ⟨hB.ne_nil, hB.mem.trans (tail_suffix _), hB.hash, hB.height⟩
    · rintro ⟨⟩

theorem final_invalidateLoop (disk : Disk) (h : Linked params s) (hsound : s.Sound) (hf : Final s) (p : BlockPtr)
    (fuel : ℕ) : Final (invalidateLoop disk p fuel s).2 := by
  induction fuel generalizing s with
  | zero => exact hf
  | succ fuel ih =>
    rw [invalidateLoop]
    split
    · next hin =>
      have hmark : Falls p s ((s.modify s.chainActive fun e =>
          { e with failedChild := true }).erase s.chainActive) :=
        Falls.mark (fun _ => rfl) (fun e => show (e.failedValid || true) = true from Bool.or_true _)
          (contains_iff.1 hin)
      have hlinked := hmark.linked h
      set s₁ := (s.modify s.chainActive fun e => { e with failedChild := true }).erase s.chainActive
      have hf₁ : Final s₁ := hf.congr rfl rfl rfl
      rcases disconnectTip_of_final hlinked hsound hf₁ disk with ⟨-, -, -, heq⟩ | heq | ⟨heq, hlow⟩
      · simp only [heq]
        exact hf₁
      · simp only [heq]
        exact hf₁
      · simp only [heq]
        exact ih (hlinked.lower (tail_suffix _)) hsound hlow
    · exact hf

theorem final_invalidateBlock (h : Linked params s) (hsound : s.Sound) (hf : Final s)
    (p : BlockPtr) : Final (s.invalidateBlock params disk p).2 := by
  have hmark : Falls p s ((s.modify p fun e => { e with failedValid := true }).erase p) :=
    Falls.mark (fun _ => rfl) (fun _ => rfl) suffix_rfl
  have hlinked := hmark.linked h
  unfold invalidateBlock
  dsimp only
  set s₁ := (s.modify p fun e => { e with failedValid := true }).erase p
  have hf₁ : Final s₁ := hf.congr rfl rfl rfl
  have hloop := final_invalidateLoop disk hlinked hsound hf₁ p s₁.chainActive.length
  split
  · next s₂ heq =>
    rw [heq] at hloop
    obtain ⟨c, hc, -⟩ := foldl_insert (s₂.mapBlockIndex.filter fun p =>
      (s₂.entry p).isValid BLOCK_VALID_TRANSACTIONS && (s₂.entry p).nChainTx ≠ 0 &&
        !s₂.valueComp params p s₂.chainActive) s₂
    rw [insertValid, hc]
    exact hloop.congr rfl rfl rfl
  · exact hloop

/-! ### A step towards the best chain -/

theorem final_connectPath {oldTip : BlockPtr} {path : List BlockPtr} (hf : Final s)
    (hpath : IsPath s.chainActive path) : Final (connectPath params disk oldTip path s).2 := by
  induction path generalizing s with
  | nil => exact hf
  | cons p path ih =>
    obtain ⟨-, hprev, hrest⟩ := hpath
    rw [connectPath, connectTip]
    cases disk.connects p with
    | connected ns =>
      obtain ⟨l, r, heq⟩ := foldl_voutUpdate disk p.nHeight ns s
      have hns := hf.foldl_voutUpdate disk p.nHeight ns
      rw [heq] at hns
      have hup := hns.raise p (hprev ▸ tail_suffix p)
      simp only [heq]
      split
      · exact hup.congr rfl rfl rfl
      · exact ih (hup.congr rfl rfl rfl) hrest
    | invalid corruptionPossible =>
      cases corruptionPossible with
      | true => exact hf
      | false => exact hf.congr rfl rfl rfl
    | error ns => exact hf.foldl_voutUpdate disk p.nHeight ns

theorem final_activateBestChainStep (h : Linked params s) (hsound : s.Sound) (hf : Final s)
    (fSkipdpow : Bool) (m : BlockPtr) :
    Final (s.activateBestChainStep params disk fSkipdpow m).2 := by
  obtain ⟨hforkm, hforktip, -⟩ := findFork_spec s m
  rw [activateBestChainStep, notarizedHeight_of_final h hsound hf]
  dsimp only
  split
  · exact final_invalidateBlock h hsound hf m
  · split
    · exact hf
    · have hdown := final_disconnectTo disk h hsound hf (s.findFork m) s.chainActive.length
      obtain ⟨r, l, tip, heq, -, -, hok⟩ := disconnectTo_spec disk hforktip
        (le_refl s.chainActive.length)
      rw [heq] at hdown ⊢
      cases r with
      | pastNotarized => exact hdown
      | failed => exact hdown
      | ok =>
        refine final_connectPath hdown ?_
        obtain rfl := hok rfl
        exact (isPath_above hforkm).1

theorem root_suffix (h : Linked params s) (hp : p ∈ s.mapBlockIndex) :
    [params.hashGenesisBlock] <:+ p := by
  induction p with
  | nil => exact absurd rfl (h.ne_nil _ hp)
  | cons hash prev ih =>
    by_cases hnil : prev = []
    · rw [h.root _ hp hnil]
    · have hmem := (h.pprev_mem _ hp).resolve_left hnil
      exact (ih hmem).trans (suffix_cons _ _)

/-- **What is refused because of a notarisation does not move the chain.** A fork below the last
notarised block is refused before anything is disconnected; where the tip is that block, the first
disconnect is refused; and above it none is. -/
theorem activateBestChainStep_refused {m : BlockPtr} (h : Linked params s) (hsound : s.Sound)
    (hf : Final s) (hm : s.Complete m) (hoff : ¬ m <:+ s.chainActive)
    (hrefused : (s.activateBestChainStep params disk false m).1 = .pastNotarized) :
    (s.activateBestChainStep params disk false m).2.chainActive = s.chainActive := by
  obtain ⟨hforkm, hforktip, hforkmax⟩ := findFork_spec s m
  have hl := notarizedHeight_of_final h hsound hf
  rw [activateBestChainStep, hl] at hrefused ⊢
  dsimp only at hrefused ⊢
  split at hrefused
  · next hguard =>
    rw [if_pos hguard]
    obtain ⟨r, s', heq, hinv⟩ :=
      invalidateBlock_spec disk h (h.ne_nil_of_complete hm)
    rw [heq]
    exact (hinv.off_chain hoff).2
  · next hguard =>
    rw [if_neg hguard]
    split at hrefused
    · cases hrefused
    · next hlong =>
      rw [if_neg hlong]
      by_cases hlast : ∀ n B, s.last = some n → Names n s.chainActive B → B <:+ s.findFork m
      · -- nothing is refused on the way down to the fork
        have hnot := disconnectTo_not_refused disk h hsound hf hforktip hlast
          s.chainActive.length
        obtain ⟨r, l, tip, heq, -, htip, hok⟩ := disconnectTo_spec disk hforktip
          (le_refl s.chainActive.length)
        rw [heq] at hnot hrefused
        cases r with
        | pastNotarized => exact absurd rfl hnot
        | failed => cases hrefused
        | ok =>
          obtain rfl := hok rfl
          have hlower : Linked params { s with last := l, chainActive := s.findFork m } :=
            h.lower htip
          obtain ⟨r, s', heq', hr, -⟩ := connectPath_spec disk s.chainActive
            hlower (isPath_above hforkm).1 fun p hp => by
              obtain ⟨hpm, -, -, hne⟩ := (mem_above hforkm).1 (mem_reverse.1 hp)
              exact h.complete_of_suffix hm hpm hne
          dsimp only at hrefused
          rw [heq'] at hrefused
          exact absurd hrefused hr
      · -- the notarised block is above the fork, and it is the tip
        push Not at hlast
        obtain ⟨n, B, hn, hB, habove⟩ := hlast
        have hcomplete : s.Complete s.chainActive := by
          refine h.active.resolve_left fun hnil => hB.ne_nil ?_
          have hmem := hB.mem
          rw [hnil] at hmem
          exact suffix_nil.1 hmem
        have hroot := hforkmax _ (root_suffix h (h.mem_of_complete hm))
          (root_suffix h (h.mem_of_complete hcomplete))
        have hforkne : s.findFork m ≠ [] := fun hnil => by
          rw [hnil] at hroot
          exact absurd (suffix_nil.1 hroot) (cons_ne_nil _ _)
        have hlow : (s.findFork m).nHeight < B.nHeight := by
          by_contra hle
          exact habove (suffix_of_nHeight_le hB.mem hforktip (not_lt.1 hle))
        have htip : B = s.chainActive := by
          refine hB.mem.eq_of_length_le (not_lt.1 fun hlt => hguard ?_)
          rw [hn, Option.elim_some, ← hB.height]
          refine ⟨rfl, hforkne, ?_, hlow⟩
          unfold BlockPtr.nHeight
          omega
        have hheld : s.disconnectTip disk = (.pastNotarized, s) := by
          rcases disconnectTip_eq (s := s) disk hl with ⟨-, -, -, heq⟩ | ⟨hfree, -⟩
          · exact heq
          · exact absurd (htip ▸ hB.hash) (hfree n hn)
        have hgo : s.chainActive ≠ [] ∧ s.chainActive ≠ s.findFork m :=
          ⟨htip ▸ hB.ne_nil, fun heq => habove (htip ▸ heq ▸ suffix_rfl)⟩
        have hstop : ∀ fuel, 0 < fuel →
            disconnectTo disk (s.findFork m) fuel s = (.pastNotarized, s) := by
          intro fuel hfuel
          obtain ⟨fuel, rfl⟩ := Nat.exists_eq_succ_of_ne_zero hfuel.ne'
          rw [disconnectTo, if_pos hgo, hheld]
        rw [hstop _ (length_pos_iff.2 hgo.1)]

/-! ### Runs -/

theorem recorded_step (h : Linked params s) (op : Op) : s.recorded <+: (s.step params op).recorded := by
  cases op with
  | acceptBlockHeader hash hashPrevBlock checks =>
    rcases acceptBlockHeader_spec h hash hashPrevBlock checks with
      heq | ⟨p, -, -, -, -, heq⟩ | ⟨p, -, hadds⟩
    · rw [step, heq]
    · rw [step, heq]
      exact prefix_rfl
    · rw [step, hadds.recorded]
  | acceptBlock p verdict => rw [step, (acceptBlock_spec h p verdict).recorded]
  | activateBestChain fSkipdpow disk =>
    obtain ⟨s₁, m, hweeds, hlinked, heq | ⟨hm, hoff, -, heq⟩⟩ := activateBestChain_spec h disk fSkipdpow
    · rw [step, heq, hweeds.recorded]
    · obtain ⟨r, s', heq', -, ⟨l, -, -, hinv⟩ | ⟨l, tip, -, hclimbs, -⟩⟩ :=
        activateBestChainStep_spec disk hlinked (hlinked.candidates m hm) hoff fSkipdpow
      · rw [step, heq, heq', hinv.recorded, ← hweeds.recorded]
      · rw [step, heq, heq', ← hweeds.recorded]
        exact hclimbs.recorded
  | invalidateBlock p disk =>
    rw [step]
    split
    · next hp =>
      obtain ⟨r, s', heq, hinv⟩ := invalidateBlock_spec disk h (h.ne_nil p hp)
      rw [heq, hinv.recorded]
    · exact prefix_rfl
  | reconsiderBlock p =>
    rw [step]
    split
    · next hp => rw [(reconsiderBlock_spec params hp).1.recorded]
    · exact prefix_rfl

theorem final_step (h : Linked params s) (hsound : s.Sound) (hf : Final s) (op : Op) :
    Final (s.step params op) := by
  cases op with
  | acceptBlockHeader hash hashPrevBlock checks =>
    rcases acceptBlockHeader_spec h hash hashPrevBlock checks with
      heq | ⟨p, -, -, -, -, heq⟩ | ⟨p, -, hadds⟩
    · rw [step, heq]
      exact hf
    · rw [step, heq]
      exact hf.congr rfl rfl rfl
    · exact hf.congr hadds.chainActive hadds.recorded hadds.last
  | acceptBlock p verdict =>
    have hspec := acceptBlock_spec h p verdict
    exact hf.congr hspec.chainActive hspec.recorded hspec.last
  | activateBestChain fSkipdpow disk =>
    obtain ⟨s₁, m, hweeds, hlinked, heq | ⟨hm, hoff, -, heq⟩⟩ := activateBestChain_spec h disk fSkipdpow
    all_goals have hf₁ := hf.congr hweeds.chainActive hweeds.recorded hweeds.last
    · rw [step, heq]
      exact hf₁
    · rw [step, heq]
      have hsound₁ : s₁.Sound := fun r hr => hsound r (hweeds.recorded ▸ hr)
      exact final_activateBestChainStep hlinked hsound₁ hf₁ fSkipdpow m
  | invalidateBlock p disk =>
    rw [step]
    split
    · exact final_invalidateBlock h hsound hf p
    · exact hf
  | reconsiderBlock p =>
    rw [step]
    split
    · next hp =>
      have hclears := (reconsiderBlock_spec params hp).1
      exact hf.congr hclears.chainActive hclears.recorded hclears.last
    · exact hf

theorem recorded_foldl (ops : List Op) (h : Linked params s) :
    s.recorded <+: (ops.foldl (step params) s).recorded := by
  induction ops generalizing s with
  | nil => exact prefix_rfl
  | cons op ops ih => exact (recorded_step h op).trans (ih (linked_step h op))

theorem final_foldl {ops : List Op} (h : Linked params s) (hf : Final s)
    (hsound : (ops.foldl (step params) s).Sound) : Final (ops.foldl (step params) s) := by
  induction ops generalizing s with
  | nil => exact hf
  | cons op ops ih =>
    refine ih (linked_step h op) (final_step h (fun r hr => hsound r ?_) hf op) hsound
    exact (recorded_foldl (op :: ops) h).subset hr

theorem activateBestChain_refused (h : Linked params s) (hsound : s.Sound) (hf : Final s)
    (hrefused : (s.activateBestChain params disk false).1 = .pastNotarized) :
    (s.activateBestChain params disk false).2.chainActive = s.chainActive := by
  obtain ⟨s₁, m, hweeds, hlinked, heq | ⟨hm, hoff, -, heq⟩⟩ := activateBestChain_spec h disk false
  · rw [heq] at hrefused
    cases hrefused
  · rw [heq] at hrefused ⊢
    have hsound₁ : s₁.Sound := fun r hr => hsound r (hweeds.recorded ▸ hr)
    have hf₁ := hf.congr hweeds.chainActive hweeds.recorded hweeds.last
    rw [activateBestChainStep_refused hlinked hsound₁ hf₁ (hlinked.candidates m hm) hoff hrefused,
      hweeds.chainActive]

/-- **Notarised blocks are final.** In every run in which what is recorded names blocks of the active
chain, a block that was recorded as notarised is in the active chain from then on, and a
reorganisation that is refused because of a notarisation leaves the chain as it is. -/
theorem notarised_stays (params : Params) (ops later : List Op)
    (hsound : (run params (ops ++ later)).Sound) :
    (∀ r ∈ (run params ops).recorded, ∀ B, Names r.1 r.2 B →
      B <:+ (run params (ops ++ later)).chainActive) ∧
    ∀ disk : Disk,
      ((run params (ops ++ later)).activateBestChain params disk false).1 = .pastNotarized →
        ((run params (ops ++ later)).activateBestChain params disk false).2.chainActive =
          (run params (ops ++ later)).chainActive := by
  have hlinked := linked_run params (ops ++ later)
  have hf : Final (run params (ops ++ later)) := final_foldl Linked.empty Final.empty hsound
  refine ⟨fun r hr B hB => hf.active r ?_ B hB, fun disk hrefused =>
    activateBestChain_refused hlinked hsound hf hrefused⟩
  rw [run, foldl_append]
  exact (recorded_foldl later (linked_run params ops)).subset hr

/-- The block `3` notarises the block `2`. -/
def notarising : List Op :=
  connected 1 0 [] ++ connected 2 1 [1] ++ received 3 2 [2, 1] ++
    [.activateBestChain false { connects := fun _ => .connected [⟨2, 1⟩] }]

/-- A longer branch that leaves the chain below the block `2`. -/
def branching : List Op := received 4 1 [1] ++ received 5 4 [4, 1] ++ received 6 5 [5, 4, 1]

/-- The branch is refused, and the block `2` stays. -/
theorem notarised_stays_two :
    [2, 1] <:+ (run (unitParams 0) (notarising ++ branching)).chainActive ∧
      ((run (unitParams 0) (notarising ++ branching)).activateBestChain (unitParams 0) {} false).1 =
        .pastNotarized ∧
      ((run (unitParams 0) (notarising ++ branching)).activateBestChain (unitParams 0) {}
        false).2.chainActive = (run (unitParams 0) (notarising ++ branching)).chainActive := by
  have hnames : Names ⟨2, 1⟩ [2, 1] [2, 1] := ⟨by decide, suffix_rfl, rfl, rfl⟩
  have hbefore : (run (unitParams 0) notarising).recorded = [(⟨2, 1⟩, [2, 1])] := by decide
  have hafter : (run (unitParams 0) (notarising ++ branching)).recorded = [(⟨2, 1⟩, [2, 1])] := by
    decide
  have hsound : (run (unitParams 0) (notarising ++ branching)).Sound := by
    intro r hr
    rw [hafter, mem_singleton] at hr
    exact ⟨[2, 1], hr ▸ hnames⟩
  obtain ⟨hstays, hrefused⟩ := notarised_stays (unitParams 0) notarising branching hsound
  have hpast : ((run (unitParams 0) (notarising ++ branching)).activateBestChain (unitParams 0) {}
      false).1 = .pastNotarized := by decide
  exact ⟨hstays _ (hbefore ▸ mem_singleton_self _) _ hnames, hpast, hrefused {} hpast⟩

end ChainState
end BlockTree
end Komodo
