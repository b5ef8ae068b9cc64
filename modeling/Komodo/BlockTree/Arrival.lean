/-
# How headers and blocks arrive

A header adds an entry (`Adds`), or takes flags back where `ASSETCHAINS_CC` is set. A
block that arrives makes itself and all that waited for it complete, in one pass over
`mapBlocksUnlinked` (`processQueue_spec`); what becomes complete becomes a candidate
where it is not worse than the tip (`Grows`, `Arrives`).
-/

import Komodo.BlockTree.Linked

namespace Komodo
namespace BlockTree
namespace ChainState

open List

variable {params : Params} {s s' : ChainState} {p q : BlockPtr}

/-! ### Blocks arrive -/

/-- An entry but for what `ReceivedBlockTransactions` counts. -/
def uncounted (e : CBlockIndex) : CBlockIndex := { e with nChainTx := 0, nSequenceId := 0 }

/-- Blocks that were not complete become so, and candidates where they are not worse than the
tip. -/
structure Grows (params : Params) (s s' : ChainState) : Prop where
  mapBlockIndex : s'.mapBlockIndex = s.mapBlockIndex
  chainActive : s'.chainActive = s.chainActive
  recorded : s'.recorded = s.recorded
  last : s'.last = s.last
  same : ∀ p, s.Complete p → s'.entry p = s.entry p
  subset : s.setBlockIndexCandidates ⊆ s'.setBlockIndexCandidates
  new : ∀ p ∈ s'.setBlockIndexCandidates, p ∈ s.setBlockIndexCandidates ∨
    s'.Complete p ∧ (s.chainActive = [] ∨ s'.valueComp params p s.chainActive = false)
  inserted : ∀ p, ¬ s.Complete p → s'.Complete p →
    s.chainActive = [] ∨ s'.valueComp params p s.chainActive = false →
      p ∈ s'.setBlockIndexCandidates

theorem valueComp_congr (hp : s'.entry p = s.entry p) (hq : s'.entry q = s.entry q) :
    s'.valueComp params p q = s.valueComp params p q := by
  rw [Bool.eq_iff_iff, valueComp_iff, valueComp_iff, key, key, key, key, hp, hq]

namespace Grows

theorem refl (s : ChainState) : Grows params s s :=
  ⟨rfl, rfl, rfl, rfl, fun _ _ => rfl, List.Subset.refl _, fun _ => Or.inl,
    fun _ h h' => absurd h' h⟩

theorem complete (h : Grows params s s') (hp : s.Complete p) : s'.Complete p := by
  rw [Complete, h.same p hp]
  exact hp

theorem trans {s₁ s₂ s₃ : ChainState} (hactive : s₁.chainActive = [] ∨ s₁.Complete s₁.chainActive)
    (h : Grows params s₁ s₂) (h' : Grows params s₂ s₃) : Grows params s₁ s₃ := by
  -- a block that is complete keeps its place in the order
  have hplace : ∀ p, s₂.Complete p →
      (s₁.chainActive = [] ∨ s₂.valueComp params p s₁.chainActive = false ↔
        s₁.chainActive = [] ∨ s₃.valueComp params p s₁.chainActive = false) := by
    intro p hp
    rcases hactive with hnil | htip
    · exact iff_of_true (Or.inl hnil) (Or.inl hnil)
    · rw [valueComp_congr (h'.same p hp) (h'.same _ (h.complete htip))]
  refine ⟨h'.mapBlockIndex.trans h.mapBlockIndex, h'.chainActive.trans h.chainActive,
    h'.recorded.trans h.recorded, h'.last.trans h.last,
    fun p hp => (h'.same p (h.complete hp)).trans (h.same p hp), List.Subset.trans h.subset h'.subset,
    fun p hp => ?_, fun p hno hp hworse => ?_⟩
  · rcases h'.new p hp with hp | hp
    · exact (h.new p hp).imp_right fun hp => ⟨h'.complete hp.1, (hplace p hp.1).1 hp.2⟩
    · exact Or.inr (h.chainActive ▸ hp)
  · by_cases hp₂ : s₂.Complete p
    · exact h'.subset (h.inserted p hno hp₂ ((hplace p hp₂).2 hworse))
    · exact h'.inserted p hp₂ hp (h.chainActive.symm ▸ hworse)

end Grows

/-- The block can be counted: it has its data, and its parent is complete. -/
def Ready (s : ChainState) (p : BlockPtr) : Prop :=
  (s.entry p).haveData = true ∧ ¬ s.Complete p ∧ (p.pprev = [] ∨ s.Complete p.pprev)

/-- One turn of the loop: the block gets its count and its place, nothing else changes. -/
theorem link_eq (params : Params) (s : ChainState) (p : BlockPtr) :
    ∃ n c, (s.entry p).nTx ≤ n ∧
      s.link params p = { s with
        entry := Function.update s.entry p
          { s.entry p with nChainTx := n, nSequenceId := s.nBlockSequenceId }
        setBlockIndexCandidates := c
        nBlockSequenceId := s.nBlockSequenceId + 1 } ∧
      (c = s.setBlockIndexCandidates ∨ c = p :: s.setBlockIndexCandidates.filter (· ≠ p)) ∧
      (p ∈ c ∧ p ∉ s.setBlockIndexCandidates →
        s.chainActive = [] ∨ (s.link params p).valueComp params p s.chainActive = false) ∧
      (s.chainActive = [] ∨ (s.link params p).valueComp params p s.chainActive = false → p ∈ c) := by
  let n := (if p.pprev = [] then 0 else (s.entry p.pprev).nChainTx) + (s.entry p).nTx
  let s₂ := { s with
    entry := Function.update s.entry p
      { s.entry p with nChainTx := n, nSequenceId := s.nBlockSequenceId }
    nBlockSequenceId := s.nBlockSequenceId + 1 }
  have hlink : s.link params p =
      if s₂.chainActive = [] ∨ s₂.valueComp params p s₂.chainActive = false then s₂.insert p
      else s₂ := rfl
  have hn : (s.entry p).nTx ≤ n := Nat.le_add_left _ _
  by_cases hins : s₂.chainActive = [] ∨ s₂.valueComp params p s₂.chainActive = false
  · rw [if_pos hins] at hlink
    rw [hlink]
    exact ⟨n, _, hn, rfl, Or.inr rfl, fun _ => hins, fun _ => mem_cons_self⟩
  · rw [if_neg hins] at hlink
    rw [hlink]
    exact ⟨n, _, hn, rfl, Or.inl rfl, fun h => absurd h.1 h.2, fun h => absurd h hins⟩

theorem grows_link (h : Linked params s) (hp : Ready s p) :
    Grows params s (s.link params p) ∧ (s.link params p).Complete p ∧
      (s.link params p).mapBlocksUnlinked = s.mapBlocksUnlinked ∧
      (∀ q ≠ p, (s.link params p).entry q = s.entry q) ∧
        ∀ q, uncounted ((s.link params p).entry q) = uncounted (s.entry q) := by
  obtain ⟨n, c, hn, heq, hc, hnew, hins⟩ := link_eq params s p
  have hother : ∀ q ≠ p, (s.link params p).entry q = s.entry q := by
    intro q hq
    rw [heq]
    exact Function.update_of_ne hq ..
  have hcount : (s.link params p).entry p =
      { s.entry p with nChainTx := n, nSequenceId := s.nBlockSequenceId } := by
    rw [heq]
    exact Function.update_self ..
  have hcomplete : (s.link params p).Complete p := by
    have hpos := h.nTx p hp.1
    rw [Complete, hcount]
    show n ≠ 0
    omega
  have hcandidates : (s.link params p).setBlockIndexCandidates = c := by rw [heq]
  have hunlinked : (s.link params p).mapBlocksUnlinked = s.mapBlocksUnlinked := by rw [heq]
  have hfirst : (s.link params p).mapBlockIndex = s.mapBlockIndex ∧
      (s.link params p).chainActive = s.chainActive ∧ (s.link params p).recorded = s.recorded ∧
        (s.link params p).last = s.last := by
    rw [heq]
    exact ⟨rfl, rfl, rfl, rfl⟩
  have hnotin : p ∉ s.setBlockIndexCandidates := fun hmem => hp.2.1 (h.candidates p hmem)
  refine ⟨⟨hfirst.1, hfirst.2.1, hfirst.2.2.1, hfirst.2.2.2, fun q hq => hother q ?_, ?_, ?_,
    fun q hno hq hworse => ?_⟩, hcomplete, hunlinked, hother, fun q => ?_⟩
  · rintro rfl
    exact hp.2.1 hq
  · rw [hcandidates]
    intro q hq
    rcases hc with rfl | rfl
    · exact hq
    · refine mem_cons_of_mem _ (mem_filter.2 ⟨hq, ?_⟩)
      have hne : q ≠ p := fun heq => hnotin (heq ▸ hq)
      simpa using hne
  · rw [hcandidates]
    intro q hq
    by_cases hqp : q = p
    · subst hqp
      exact Or.inr ⟨hcomplete, hnew ⟨hq, hnotin⟩⟩
    · rcases hc with rfl | rfl
      · exact Or.inl hq
      · exact Or.inl (mem_filter.1 ((mem_cons.1 hq).resolve_left hqp)).1
  · have hqp : q = p := by
      by_contra hne
      rw [Complete, hother q hne] at hq
      exact hno hq
    subst hqp
    rw [hcandidates]
    exact hins hworse
  · by_cases hqp : q = p
    · rw [hqp, hcount]
      rfl
    · rw [hother q hqp]

/-- The index after one turn, with the blocks that wait for this one taken off the map. -/
theorem linked_link (h : Linked params s) (hp : Ready s p)
    (hnotin : p ∉ s.mapBlocksUnlinked.map Prod.snd) {rest : List (BlockPtr × BlockPtr)}
    (hsub : rest.Sublist s.mapBlocksUnlinked) (hrest : ∀ l ∈ rest, l.1 ≠ p) :
    Linked params { s.link params p with mapBlocksUnlinked := rest } := by
  obtain ⟨hgrows, hcomplete, -, hother, huncounted⟩ := grows_link h hp
  have hback : ∀ q ≠ p, (s.link params p).Complete q → s.Complete q := by
    intro q hq hc
    rwa [Complete, hother q hq] at hc
  have hdata : ∀ q, ((s.link params p).entry q).haveData = (s.entry q).haveData := fun q =>
    have hq := congrArg CBlockIndex.haveData (huncounted q)
    hq
  have htx : ∀ q, ((s.link params p).entry q).nTx = (s.entry q).nTx := fun q =>
    have hq := congrArg CBlockIndex.nTx (huncounted q)
    hq
  constructor
  case ne_nil => exact hgrows.mapBlockIndex ▸ h.ne_nil
  case pprev_mem => exact hgrows.mapBlockIndex ▸ h.pprev_mem
  case hash_inj => exact hgrows.mapBlockIndex ▸ h.hash_inj
  case root => exact hgrows.mapBlockIndex ▸ h.root
  case unknown =>
    intro q hq
    have hq' : q ∉ s.mapBlockIndex := hgrows.mapBlockIndex ▸ hq
    have hqp : q ≠ p := by
      rintro rfl
      have hno := congrArg CBlockIndex.haveData (h.unknown q hq')
      have hno' : (s.entry q).haveData = false := hno
      rw [hp.1] at hno'
      cases hno'
    exact (hother q hqp).symm ▸ h.unknown q hq'
  case nTx =>
    intro q hq
    rw [htx]
    exact h.nTx q (hdata q ▸ hq)
  case complete =>
    intro q hq
    have hs : (s.entry q).haveData = true ∧ (q.pprev = [] ∨ s.Complete q.pprev) := by
      by_cases hqp : q = p
      · subst hqp
        exact ⟨hp.1, hp.2.2⟩
      · exact h.complete q (hback q hqp hq)
    exact ⟨(hdata q).trans hs.1, hs.2.imp_right fun hprev => hgrows.complete hprev⟩
  case candidates =>
    intro q hq
    exact (hgrows.new q hq).elim (fun hq => hgrows.complete (h.candidates q hq)) And.left
  case no_ancestor =>
    intro q hq hin
    have hin' : q <:+ s.chainActive := hgrows.chainActive ▸ hin
    have htip : s.chainActive = (s.link params p).chainActive := hgrows.chainActive.symm
    rcases hgrows.new q hq with hq | ⟨-, hnil | hworse⟩
    · exact (h.no_ancestor q hq hin').trans htip
    · rw [hnil, suffix_nil] at hin'
      exact (hin'.trans hnil.symm).trans htip
    · by_contra hne
      rw [valueComp_of_suffix hin' fun heq => hne (heq.trans htip)] at hworse
      cases hworse
  case unlinked =>
    intro l hl
    obtain ⟨hpprev, hne, hfst, hldata, hsnd⟩ := h.unlinked l (hsub.subset hl)
    have hl₂ : l.2 ≠ p := fun heq => hnotin (heq ▸ mem_map_of_mem (hsub.subset hl))
    exact ⟨hpprev, hne, fun hc => hfst (hback _ (hrest l hl) hc), (hdata _).trans hldata,
      fun hc => hsnd (hback _ hl₂ hc)⟩
  case unlinked_nodup =>
    exact (hsub.map _).nodup h.unlinked_nodup
  case active =>
    show (s.link params p).chainActive = [] ∨ (s.link params p).Complete (s.link params p).chainActive
    rw [hgrows.chainActive]
    exact h.active.imp_right hgrows.complete

/-- The loop counts the blocks of the queue and all that waited for them. -/
theorem processQueue_spec (h : Linked params s) (queue : List BlockPtr) (fuel : ℕ)
    (hready : ∀ p ∈ queue, Ready s p) (hnodup : (queue ++ s.mapBlocksUnlinked.map Prod.snd).Nodup)
    (hfuel : queue.length + s.mapBlocksUnlinked.length ≤ fuel) :
    Grows params s (processQueue params fuel queue s) ∧
      Linked params (processQueue params fuel queue s) ∧
      (∀ p ∈ queue, (processQueue params fuel queue s).Complete p) ∧
      (∀ l ∈ s.mapBlocksUnlinked, l ∈ (processQueue params fuel queue s).mapBlocksUnlinked ∨
        (processQueue params fuel queue s).Complete l.2) ∧
      ∀ q, uncounted ((processQueue params fuel queue s).entry q) = uncounted (s.entry q) := by
  induction fuel generalizing s queue with
  | zero =>
    have hnil : queue = [] := length_eq_zero_iff.1 (by omega)
    subst hnil
    exact ⟨Grows.refl s, h, fun _ hp => (nomatch hp), fun _ => Or.inl, fun _ => rfl⟩
  | succ fuel ih =>
    cases queue with
    | nil => exact ⟨Grows.refl s, h, fun _ hp => (nomatch hp), fun _ => Or.inl, fun _ => rfl⟩
    | cons p queue =>
      obtain ⟨hgrows, hcomplete, hunlinked, hother, huncounted⟩ :=
        grows_link h (hready p mem_cons_self)
      rw [cons_append, nodup_cons, mem_append, not_or] at hnodup
      rw [processQueue]
      simp only [partition_eq_filter_filter, hunlinked]
      set range := s.mapBlocksUnlinked.filter fun l => decide (l.1 = p) with hrange
      set rest := s.mapBlocksUnlinked.filter (not ∘ fun l => decide (l.1 = p)) with hrest
      have hperm : (range ++ rest).Perm s.mapBlocksUnlinked := filter_append_perm _ _
      set s₁ := { s.link params p with mapBlocksUnlinked := rest }
      have hlinked : Linked params s₁ :=
        linked_link h (hready p mem_cons_self) hnodup.1.2 filter_sublist fun l hl => by
          simpa [hrest] using (mem_filter.1 hl).2
      have hgrows₁ : Grows params s s₁ := ⟨hgrows.mapBlockIndex, hgrows.chainActive,
        hgrows.recorded, hgrows.last, hgrows.same, hgrows.subset, hgrows.new, hgrows.inserted⟩
      -- a block that is not this one is as ready as before
      have hkeep : ∀ q ≠ p, (s.entry q).haveData = true → ¬ s.Complete q →
          (q.pprev = [] ∨ s₁.Complete q.pprev) → Ready s₁ q := by
        intro q hq hdata hno hprev
        have hentry : s₁.entry q = s.entry q := hother q hq
        refine ⟨hentry ▸ hdata, ?_, hprev⟩
        rw [Complete, hentry]
        exact hno
      have hnext : ∀ q ∈ queue ++ range.map Prod.snd, Ready s₁ q := by
        intro q hq
        rcases mem_append.1 hq with hq | hq
        · have hqp : q ≠ p := fun heq => hnodup.1.1 (heq ▸ hq)
          obtain ⟨hdata, hno, hprev⟩ := hready q (mem_cons_of_mem _ hq)
          exact hkeep q hqp hdata hno (hprev.imp_right hgrows₁.complete)
        · obtain ⟨l, hl, rfl⟩ := mem_map.1 hq
          obtain ⟨hl, hlp⟩ := mem_filter.1 hl
          obtain ⟨hpprev, -, -, hdata, hno⟩ := h.unlinked l hl
          have hqp : l.2 ≠ p := fun heq => hnodup.1.2 (heq ▸ mem_map_of_mem hl)
          refine hkeep l.2 hqp hdata hno (Or.inr ?_)
          rw [← hpprev, of_decide_eq_true hlp]
          exact hcomplete
      have hnodup' : (queue ++ range.map Prod.snd ++ rest.map Prod.snd).Nodup := by
        refine (List.Perm.nodup_iff ?_).1 hnodup.2
        rw [append_assoc, ← map_append]
        exact (hperm.map _).symm.append_left queue
      have hlength := hperm.length_eq
      rw [length_append] at hlength
      obtain ⟨hgrows', hlinked', hall, hwait, huncounted'⟩ := ih hlinked _ hnext hnodup' (by
        rw [length_cons] at hfuel
        show (queue ++ range.map Prod.snd).length + rest.length ≤ fuel
        rw [length_append, length_map]
        omega)
      refine ⟨Grows.trans h.active hgrows₁ hgrows', hlinked', fun q hq => ?_, fun l hl => ?_,
        fun q => (huncounted' q).trans (huncounted q)⟩
      · rcases mem_cons.1 hq with rfl | hq
        · exact hgrows'.complete hcomplete
        · exact hall q (mem_append_left _ hq)
      · rcases mem_append.1 (hperm.mem_iff.2 hl) with hl | hl
        · exact Or.inr (hall l.2 (mem_append_right _ (mem_map_of_mem hl)))
        · exact hwait l hl

variable {f : CBlockIndex → CBlockIndex}

theorem complete_modify (hcount : (f (s.entry p)).nChainTx = (s.entry p).nChainTx) :
    (s.modify p f).Complete q ↔ s.Complete q := by
  rw [Complete, Complete, entry_modify]
  split
  · next heq => rw [hcount, heq]
  · exact Iff.rfl

/-- A known entry changes, but neither its count nor the data it may have. -/
theorem Linked.modify (h : Linked params s) (hp : p ∈ s.mapBlockIndex)
    (hcount : (f (s.entry p)).nChainTx = (s.entry p).nChainTx)
    (hdata : (s.entry p).haveData = true → (f (s.entry p)).haveData = true)
    (htx : (f (s.entry p)).haveData = true → (f (s.entry p)).nTx ≠ 0) :
    Linked params (s.modify p f) := by
  have hmono : ∀ q, (s.entry q).haveData = true → ((s.modify p f).entry q).haveData = true := by
    intro q hq
    rw [entry_modify]
    split
    · next heq => exact hdata (heq ▸ hq)
    · exact hq
  constructor
  case ne_nil => exact h.ne_nil
  case pprev_mem => exact h.pprev_mem
  case hash_inj => exact h.hash_inj
  case root => exact h.root
  case unknown =>
    intro q hq
    have hne : q ≠ p := fun heq => hq (heq ▸ hp)
    rw [entry_modify, if_neg hne]
    exact h.unknown q hq
  case nTx =>
    intro q
    rw [entry_modify]
    split
    · exact htx
    · exact h.nTx q
  case complete =>
    intro q hq
    obtain ⟨hq₁, hq₂⟩ := h.complete q ((complete_modify hcount).1 hq)
    exact ⟨hmono q hq₁, hq₂.imp_right (complete_modify hcount).2⟩
  case candidates => exact fun q hq => (complete_modify hcount).2 (h.candidates q hq)
  case no_ancestor => exact h.no_ancestor
  case unlinked =>
    intro l hl
    obtain ⟨hpprev, hne, hfst, hldata, hsnd⟩ := h.unlinked l hl
    exact ⟨hpprev, hne, fun hc => hfst ((complete_modify hcount).1 hc), hmono _ hldata,
      fun hc => hsnd ((complete_modify hcount).1 hc)⟩
  case unlinked_nodup => exact h.unlinked_nodup
  case active => exact h.active.imp_right (complete_modify hcount).2

/-- What the arrival of the block does. -/
structure Arrives (params : Params) (p : BlockPtr) (s s' : ChainState) : Prop
    extends Grows params s s' where
  linked : Linked params s'
  other : ∀ q ≠ p, uncounted (s'.entry q) = uncounted (s.entry q)
  unlinked : ∀ l ∈ s.mapBlocksUnlinked, l ∈ s'.mapBlocksUnlinked ∨ s'.Complete l.2
  haveData : (s.entry p).haveData = true → s'.entry p = s.entry p
  failed_mono : (s.entry p).failed = true → (s'.entry p).failed = true
  validity_mono : (s.entry p).validity ≤ (s'.entry p).validity
  received : (s.entry p).haveData = false → (s'.entry p).haveData = true →
    (p.pprev = [] ∨ s.Complete p.pprev → s'.Complete p) ∧
    (p.pprev ≠ [] → ¬ s.Complete p.pprev → (s.entry p.pprev).isValid BLOCK_VALID_TREE = true →
      (p.pprev, p) ∈ s'.mapBlocksUnlinked) ∧
    ((s.entry p).failed = false → BLOCK_VALID_TRANSACTIONS ≤ (s'.entry p).validity)

theorem raiseValidity_spec (e : CBlockIndex) (nUpTo : ℕ) :
    ∃ v, e.raiseValidity nUpTo = { e with validity := v } ∧ e.validity ≤ v ∧
      (e.failed = false → nUpTo ≤ v) := by
  rw [CBlockIndex.raiseValidity]
  split
  · next hfailed => exact ⟨e.validity, rfl, le_rfl, fun hno => absurd hfailed (by simp [hno])⟩
  · split
    · next hlt => exact ⟨nUpTo, rfl, hlt.le, fun _ => le_rfl⟩
    · next hle => exact ⟨e.validity, rfl, le_rfl, fun _ => not_lt.1 hle⟩

theorem receivedBlockTransactions_spec (h : Linked params s) (hp : p ∈ s.mapBlockIndex)
    (hdata : (s.entry p).haveData = false) {nTx : ℕ} (hnTx : nTx ≠ 0) :
    Arrives params p s (s.receivedBlockTransactions params p nTx) := by
  have hno : ¬ s.Complete p := fun hc => by
    rw [(h.complete p hc).1] at hdata
    cases hdata
  have hzero : (s.entry p).nChainTx = 0 := not_not.1 hno
  obtain ⟨v, hraise, hmono, hvalid⟩ := raiseValidity_spec
    { s.entry p with nTx, nChainTx := 0, haveData := true } BLOCK_VALID_TRANSACTIONS
  rw [receivedBlockTransactions]
  set s₁ := s.modify p fun e =>
    { e with nTx, nChainTx := 0, haveData := true }.raiseValidity BLOCK_VALID_TRANSACTIONS with hs₁
  have hself : s₁.entry p = { s.entry p with
      nTx, nChainTx := 0, haveData := true, validity := v } := by
    rw [hs₁, entry_modify, if_pos rfl]
    exact hraise
  have hother : ∀ q ≠ p, s₁.entry q = s.entry q := fun q hq => by rw [hs₁, entry_modify, if_neg hq]
  have hcomplete : ∀ q, s₁.Complete q ↔ s.Complete q := by
    refine fun q => complete_modify ?_
    rw [hzero, hraise]
  have hlinked : Linked params s₁ := by
    refine h.modify hp ?_ (fun _ => ?_) fun _ => ?_
    · rw [hzero, hraise]
    · rw [hraise]
    · rw [hraise]
      exact hnTx
  have hgrows : Grows params s s₁ := ⟨rfl, rfl, rfl, rfl, fun q hq => hother q fun heq =>
    hno (heq ▸ hq), List.Subset.refl _, fun _ => Or.inl,
    fun q hq hq' => absurd ((hcomplete q).1 hq') hq⟩
  have hwait : p ∉ s.mapBlocksUnlinked.map Prod.snd := by
    intro hmem
    obtain ⟨l, hl, rfl⟩ := mem_map.1 hmem
    rw [(h.unlinked l hl).2.2.2.1] at hdata
    cases hdata
  have hparent : (p.pprev = [] ∨ (s₁.entry p.pprev).nChainTx ≠ 0) ↔
      (p.pprev = [] ∨ s.Complete p.pprev) := or_congr_right (hcomplete p.pprev)
  split
  · next hready =>
    obtain ⟨hgrows', hlinked', hall, hunlinked, huncounted⟩ := processQueue_spec hlinked
      [p] (s₁.mapBlocksUnlinked.length + 1)
      (fun q hq => by
        obtain rfl := mem_singleton.1 hq
        exact ⟨by rw [hself], fun hc => hno ((hcomplete q).1 hc), hready⟩)
      (nodup_cons.2 ⟨hwait, h.unlinked_nodup⟩) (by rw [length_singleton, Nat.add_comm])
    set s' := processQueue params (s₁.mapBlocksUnlinked.length + 1) [p] s₁
    have hfields : uncounted (s'.entry p) = uncounted (s₁.entry p) := huncounted p
    have hvalidity : (s'.entry p).validity = v := by
      have hv := congrArg CBlockIndex.validity hfields
      rw [hself] at hv
      exact hv
    refine ⟨Grows.trans h.active hgrows hgrows', hlinked', fun q hq => ?_, hunlinked,
      fun hc => absurd hc (by rw [hdata]; exact Bool.false_ne_true), fun hfailed => ?_,
      hvalidity ▸ hmono, fun _ _ => ⟨fun _ => hall p mem_cons_self, fun hne hnot => ?_,
        fun hok => hvalidity ▸ hvalid hok⟩⟩
    · rw [huncounted, hother q hq]
    · have hf := congrArg CBlockIndex.failed hfields
      rw [hself] at hf
      exact hf.trans hfailed
    · exact absurd (hparent.1 hready) (not_or.2 ⟨hne, hnot⟩)
  · next hnot =>
    have hnot' := not_or.1 fun hc => hnot (hparent.2 hc)
    have hfields : (∀ q ≠ p, uncounted (s₁.entry q) = uncounted (s.entry q)) ∧
        ((s.entry p).haveData = true → s₁.entry p = s.entry p) ∧
        ((s.entry p).failed = true → (s₁.entry p).failed = true) ∧
        (s.entry p).validity ≤ (s₁.entry p).validity ∧
        ((s.entry p).failed = false → BLOCK_VALID_TRANSACTIONS ≤ (s₁.entry p).validity) := by
      rw [hself]
      exact ⟨fun q hq => by rw [hother q hq],
        fun hc => absurd hc (by rw [hdata]; exact Bool.false_ne_true), id, hmono, hvalid⟩
    split
    · refine ⟨⟨rfl, rfl, rfl, rfl, hgrows.same, hgrows.subset, hgrows.new, hgrows.inserted⟩,
        ⟨hlinked.ne_nil, hlinked.pprev_mem, hlinked.hash_inj, hlinked.root, hlinked.unknown,
          hlinked.nTx, hlinked.complete, hlinked.candidates, hlinked.no_ancestor, fun l hl => ?_,
          ?_, hlinked.active⟩,
        hfields.1, fun l hl => Or.inl (mem_append_left _ hl), hfields.2.1, hfields.2.2.1,
        hfields.2.2.2.1, fun _ _ => ⟨fun hc => absurd hc (not_or.2 hnot'), fun _ _ _ => ?_,
          hfields.2.2.2.2⟩⟩
      · rcases mem_append.1 hl with hl | hl
        · exact hlinked.unlinked l hl
        · obtain rfl := mem_singleton.1 hl
          exact ⟨rfl, hnot'.1, fun hc => hnot'.2 ((hcomplete _).1 hc),
            congrArg CBlockIndex.haveData hself, fun hc => hno ((hcomplete p).1 hc)⟩
      · rw [map_append, nodup_append_comm]
        exact nodup_cons.2 ⟨hwait, h.unlinked_nodup⟩
      · exact mem_append_right _ mem_cons_self
    · next hprev =>
      refine ⟨hgrows, hlinked, hfields.1, fun l hl => Or.inl hl, hfields.2.1, hfields.2.2.1,
        hfields.2.2.2.1, fun _ _ => ⟨fun hc => absurd hc (not_or.2 hnot'), fun _ _ hvalid' => ?_,
          hfields.2.2.2.2⟩⟩
      have hne : p.pprev ≠ p := by
        intro heq
        obtain ⟨hash, prev, rfl⟩ := exists_cons_of_ne_nil (h.ne_nil p hp)
        exact cons_ne_self _ _ (Eq.symm heq)
      rw [hother _ hne] at hprev
      exact absurd hvalid' hprev

/-- The entry of a block without data changes first. -/
theorem Arrives.of_modify (h : Linked params s) (hp : p ∈ s.mapBlockIndex)
    (hdata : (s.entry p).haveData = false) {v : ℕ}
    (hf : f (s.entry p) = { s.entry p with validity := v }) (hv : (s.entry p).validity ≤ v)
    (ha : Arrives params p (s.modify p f) s') : Arrives params p s s' := by
  have hno : ¬ s.Complete p := fun hc => by
    rw [(h.complete p hc).1] at hdata
    cases hdata
  have hself : (s.modify p f).entry p = { s.entry p with validity := v } := by
    rw [entry_modify, if_pos rfl, hf]
  have hother : ∀ q ≠ p, (s.modify p f).entry q = s.entry q :=
    fun q hq => by rw [entry_modify, if_neg hq]
  have hcomplete : ∀ q, (s.modify p f).Complete q ↔ s.Complete q :=
    fun q => complete_modify (by rw [hf])
  have hgrows : Grows params s (s.modify p f) := ⟨rfl, rfl, rfl, rfl, fun q hq => hother q
    fun heq => hno (heq ▸ hq), List.Subset.refl _, fun _ => Or.inl,
    fun q hq hq' => absurd ((hcomplete q).1 hq') hq⟩
  refine ⟨Grows.trans h.active hgrows ha.toGrows, ha.linked,
    fun q hq => (ha.other q hq).trans (by rw [hother q hq]), ha.unlinked,
    fun hc => absurd hc (by rw [hdata]; exact Bool.false_ne_true), fun hfailed => ?_, ?_,
    fun _ hdata' => ?_⟩
  · refine ha.failed_mono ?_
    rw [hself]
    exact hfailed
  · refine hv.trans (le_trans ?_ ha.validity_mono)
    rw [hself]
  · have hrec := ha.received (by rw [hself]; exact hdata) hdata'
    rw [hcomplete, hself] at hrec
    refine ⟨hrec.1, fun hne hnot hvalid => hrec.2.1 hne hnot ?_, hrec.2.2⟩
    have hnep : p.pprev ≠ p := by
      intro heq
      obtain ⟨hash, prev, rfl⟩ := exists_cons_of_ne_nil (h.ne_nil p hp)
      exact cons_ne_self _ _ (Eq.symm heq)
    rw [hother _ hnep]
    exact hvalid

/-- `AcceptBlock`. -/
theorem acceptBlock_spec (h : Linked params s) (p : BlockPtr) (verdict : BlockVerdict) :
    Arrives params p s (s.acceptBlock params p verdict) := by
  have hrefl : Arrives params p s s := ⟨Grows.refl s, h, fun _ _ => rfl, fun _ => Or.inl,
    fun _ => rfl, id, le_rfl, fun hno hyes => absurd hyes (by rw [hno]; exact Bool.false_ne_true)⟩
  unfold acceptBlock
  split
  · next hguard =>
    obtain ⟨hp, hdata⟩ := hguard
    have hno : ¬ s.Complete p := fun hc => by
      rw [(h.complete p hc).1] at hdata
      cases hdata
    cases verdict with
    | error => exact hrefl
    | invalid =>
      have hself : (s.modify p fun e => { e with failedValid := true }).entry p =
          { s.entry p with failedValid := true } := by rw [entry_modify, if_pos rfl]
      have hother : ∀ q ≠ p, (s.modify p fun e => { e with failedValid := true }).entry q =
          s.entry q := fun q hq => by rw [entry_modify, if_neg hq]
      refine ⟨⟨rfl, rfl, rfl, rfl, fun q hq => hother q fun heq => hno (heq ▸ hq),
        List.Subset.refl _, fun _ => Or.inl,
        fun q hq hq' => absurd ((complete_modify (by rfl)).1 hq') hq⟩,
        h.modify hp rfl id (h.nTx p), fun q hq => by rw [hother q hq], fun _ => Or.inl,
        fun hc => absurd hc (by rw [hdata]; exact Bool.false_ne_true), fun _ => ?_, ?_,
        fun _ hyes => ?_⟩
      · rw [hself]
        rfl
      · rw [hself]
      · rw [hself] at hyes
        exact absurd hyes (by rw [hdata]; exact Bool.false_ne_true)
    | ok nTx contextual =>
      dsimp only
      split
      · exact hrefl
      · next hnTx =>
        cases contextual with
        | false => exact receivedBlockTransactions_spec h hp hdata hnTx
        | true =>
          have hdata' : ((s.modify p fun e =>
              { e with validity := e.validity ||| BLOCK_VALID_CONTEXT }).entry p).haveData =
                false := by
            rw [entry_modify, if_pos rfl]
            exact hdata
          have hlinked : Linked params (s.modify p fun e =>
              { e with validity := e.validity ||| BLOCK_VALID_CONTEXT }) :=
            h.modify hp rfl id (h.nTx p)
          exact Arrives.of_modify h hp hdata rfl Nat.left_le_or
            (receivedBlockTransactions_spec hlinked hp hdata' hnTx)
  · exact hrefl

/-! ### Headers arrive -/

theorem find_eq_some {hash : Uint256} (h : s.find hash = some p) :
    p ∈ s.mapBlockIndex ∧ p.head? = some hash :=
  ⟨mem_of_find?_eq_some h, by simpa using find?_some h⟩

theorem find_eq_none {hash : Uint256} (h : s.find hash = none) (hp : p ∈ s.mapBlockIndex) :
    p.head? ≠ some hash := by
  simpa using find?_eq_none.1 h p hp

/-- A new entry without data. -/
structure Adds (params : Params) (p : BlockPtr) (s s' : ChainState) : Prop where
  linked : Linked params s'
  entry_self : s'.entry p = { validity := BLOCK_VALID_TREE }
  mapBlockIndex : s'.mapBlockIndex = p :: s.mapBlockIndex
  other : ∀ q ≠ p, s'.entry q = s.entry q
  candidates : s'.setBlockIndexCandidates = s.setBlockIndexCandidates
  unlinked : s'.mapBlocksUnlinked = s.mapBlocksUnlinked
  chainActive : s'.chainActive = s.chainActive
  recorded : s'.recorded = s.recorded
  last : s'.last = s.last

theorem addToBlockIndex_spec (h : Linked params s) {hash : Uint256} {prev : BlockPtr}
    (hnew : s.find hash = none)
    (hprev : prev = [] ∧ hash = params.hashGenesisBlock ∨ prev ∈ s.mapBlockIndex) :
    (hash :: prev) ∉ s.mapBlockIndex ∧ Adds params (hash :: prev) s (s.addToBlockIndex hash prev) := by
  have hnotin : (hash :: prev) ∉ s.mapBlockIndex := fun hmem => find_eq_none hnew hmem rfl
  have hself : (s.addToBlockIndex hash prev).entry (hash :: prev) =
      { validity := BLOCK_VALID_TREE } := Function.update_self ..
  have hother : ∀ q ≠ hash :: prev, (s.addToBlockIndex hash prev).entry q = s.entry q :=
    fun q hq => Function.update_of_ne hq ..
  -- neither before nor after has the block anything
  have hold := h.unknown _ hnotin
  have hcount : ∀ q, ((s.addToBlockIndex hash prev).entry q).nChainTx = (s.entry q).nChainTx := by
    intro q
    by_cases hq : q = hash :: prev
    · have hzero := congrArg CBlockIndex.nChainTx hold
      rw [hq, hself]
      exact hzero.symm
    · rw [hother q hq]
  have hdata : ∀ q, ((s.addToBlockIndex hash prev).entry q).haveData = (s.entry q).haveData := by
    intro q
    by_cases hq : q = hash :: prev
    · have hno := congrArg CBlockIndex.haveData hold
      rw [hq, hself]
      exact hno.symm
    · rw [hother q hq]
  have hcomplete : ∀ q, (s.addToBlockIndex hash prev).Complete q ↔ s.Complete q :=
    fun q => by rw [Complete, Complete, hcount]
  refine ⟨hnotin, ?_, hself, rfl, hother, rfl, rfl, rfl, rfl, rfl⟩
  constructor
  case ne_nil => exact forall_mem_cons.2 ⟨cons_ne_nil _ _, h.ne_nil⟩
  case pprev_mem =>
    refine forall_mem_cons.2 ⟨?_, fun q hq => ?_⟩
    · exact hprev.imp And.left (mem_cons_of_mem _)
    · exact (h.pprev_mem q hq).imp_right (mem_cons_of_mem _)
  case hash_inj =>
    refine forall_mem_cons.2 ⟨forall_mem_cons.2 ⟨fun _ => rfl, fun q hq heq => ?_⟩,
      fun q hq => forall_mem_cons.2 ⟨fun heq => ?_, h.hash_inj q hq⟩⟩
    · exact absurd heq.symm (find_eq_none hnew hq)
    · exact absurd heq (find_eq_none hnew hq)
  case root =>
    refine forall_mem_cons.2 ⟨fun hnil => ?_, h.root⟩
    rcases hprev with ⟨rfl, rfl⟩ | hmem
    · rfl
    · exact absurd hnil (h.ne_nil prev hmem)
  case unknown =>
    intro q hq
    have hq' := not_or.1 fun hc => hq (mem_cons.2 hc)
    rw [hother q hq'.1]
    exact h.unknown q hq'.2
  case nTx =>
    intro q hq
    have hqne : q ≠ hash :: prev := by
      rintro rfl
      rw [hself] at hq
      cases hq
    rw [hother q hqne] at hq ⊢
    exact h.nTx q hq
  case complete =>
    intro q hq
    rw [hdata, hcomplete]
    exact h.complete q ((hcomplete q).1 hq)
  case candidates => exact fun q hq => (hcomplete q).2 (h.candidates q hq)
  case no_ancestor => exact h.no_ancestor
  case unlinked =>
    intro l hl
    rw [hdata, hcomplete, hcomplete]
    exact h.unlinked l hl
  case unlinked_nodup => exact h.unlinked_nodup
  case active => exact h.active.imp_right (hcomplete _).2

/-- `AcceptBlockHeader` leaves the index as it is, takes the flags of a known block back, which it
does only on chains with `ASSETCHAINS_CC`, or adds a block. -/
theorem acceptBlockHeader_spec (h : Linked params s) (hash hashPrevBlock : Uint256) (checks : Bool) :
    (s.acceptBlockHeader params hash hashPrevBlock checks).2 = s ∨
      (∃ p ∈ s.mapBlockIndex, params.ASSETCHAINS_CC ≠ 0 ∧ (s.entry p).failed = true ∧
        p.head? = some hash ∧ (s.acceptBlockHeader params hash hashPrevBlock checks).2 =
          s.modify p CBlockIndex.clearFailed) ∨
      ∃ p ∉ s.mapBlockIndex,
        Adds params p s (s.acceptBlockHeader params hash hashPrevBlock checks).2 := by
  rw [acceptBlockHeader]
  cases hfind : s.find hash with
  | some p =>
    obtain ⟨hp, hhead⟩ := find_eq_some hfind
    dsimp only
    split
    · next hfailed =>
      split
      · exact Or.inl rfl
      · next hcc => exact Or.inr (Or.inl ⟨p, hp, hcc, hfailed, hhead, rfl⟩)
    · exact Or.inl rfl
  | none =>
    dsimp only
    split
    · next hgenesis =>
      split
      · exact Or.inr (Or.inr ⟨_, addToBlockIndex_spec h hfind (Or.inl ⟨rfl, hgenesis⟩)⟩)
      · exact Or.inl rfl
    · cases hprev : s.find hashPrevBlock with
      | none => exact Or.inl rfl
      | some prev =>
        dsimp only
        split
        · exact Or.inl rfl
        · split
          · exact Or.inr (Or.inr ⟨_, addToBlockIndex_spec h hfind (Or.inr (find_eq_some hprev).1)⟩)
          · exact Or.inl rfl

end ChainState
end BlockTree
end Komodo
