/-
# What holds of the block index in every run

`Linked` says that the entries form a tree with the genesis block at its root, that
a block with transactions counted (`nChainTx`) has its data and so have its
ancestors, that only such blocks are candidates or active, and that no candidate
is an ancestor of the tip. `linked_run` proves it of every run.

Most functions leave the entries as they are but for the failure flags (`Frame`);
what they do beyond that is stated once for each of them: `findMostWorkChain_spec`
(with the proof that the loop ends), `disconnectTo_spec`, `connectPath_spec`,
`invalidateBlock_spec`, `reconsiderBlock_spec` and `processQueue_spec`.
-/

import Komodo.BlockTree.Activation

namespace Komodo
namespace BlockTree

open List

variable {params : Params} {disk : Disk} {s s' : ChainState} {p q : BlockPtr}

/-! ### Work and order -/

theorem nChainWork_cons (hash : Uint256) (prev : BlockPtr) :
    params.nChainWork (hash :: prev) = params.getBlockProof hash + params.nChainWork prev := rfl

theorem nChainWork_le (h : p <:+ q) : params.nChainWork p ≤ params.nChainWork q := by
  obtain ⟨t, rfl⟩ := h
  rw [Params.nChainWork, Params.nChainWork, map_append, sum_append]
  exact Nat.le_add_left _ _

theorem nChainWork_lt (h : p <:+ q) (hne : p ≠ q) : params.nChainWork p < params.nChainWork q := by
  obtain ⟨t, rfl⟩ := h
  cases t with
  | nil => exact absurd rfl hne
  | cons hash t =>
    have hle : params.nChainWork p ≤ params.nChainWork (t ++ p) := nChainWork_le ⟨t, rfl⟩
    have hpos := params.getBlockProof_pos hash
    rw [cons_append, nChainWork_cons]
    omega

namespace ChainState

/-- The comparator is the order of these keys. -/
def key (params : Params) (s : ChainState) (p : BlockPtr) : ℕ ×ₗ ℕᵒᵈ ×ₗ ℕᵒᵈ :=
  toLex (params.nChainWork p,
    toLex (OrderDual.toDual (s.entry p).nSequenceId, OrderDual.toDual (params.address p)))

theorem valueComp_iff : s.valueComp params p q = true ↔ s.key params p < s.key params q := by
  simp only [key, Prod.Lex.toLex_lt_toLex, OrderDual.toDual_lt_toDual, EmbeddingLike.apply_eq_iff_eq]
  unfold valueComp
  grind

theorem key_injective : Function.Injective (s.key params) := by
  intro p q h
  rw [key, key, toLex_inj, Prod.mk.injEq, toLex_inj, Prod.mk.injEq] at h
  exact params.address_injective h.2.2

theorem not_valueComp_iff : s.valueComp params p q = false ↔ s.key params q ≤ s.key params p := by
  rw [← not_lt, ← valueComp_iff, Bool.not_eq_true]

theorem valueComp_of_lt (h : params.nChainWork p < params.nChainWork q) :
    s.valueComp params p q = true :=
  valueComp_iff.2 (Prod.Lex.toLex_lt_toLex.2 (Or.inl h))

theorem nChainWork_le_of_key_le (h : s.key params p ≤ s.key params q) :
    params.nChainWork p ≤ params.nChainWork q := by
  rcases Prod.Lex.toLex_le_toLex.1 h with h | h
  · exact h.le
  · exact h.1.le

theorem valueComp_of_suffix (h : p <:+ q) (hne : p ≠ q) : s.valueComp params p q = true :=
  valueComp_of_lt (nChainWork_lt h hne)

theorem key_le_of_suffix (h : p <:+ q) : s.key params p ≤ s.key params q := by
  by_cases heq : p = q
  · rw [heq]
  · exact (valueComp_iff.1 (valueComp_of_suffix h heq)).le

theorem contains_iff : s.contains p = true ↔ p <:+ s.chainActive := isSuffixOf_iff_suffix

/-! ### Entries up to their failure flags -/

@[simp] theorem entry_modify (f : CBlockIndex → CBlockIndex) :
    (s.modify p f).entry q = if q = p then f (s.entry p) else s.entry q :=
  Function.update_apply ..

/-- The entries are the same but for the failure flags. -/
structure Frame (s s' : ChainState) : Prop where
  mapBlockIndex : s'.mapBlockIndex = s.mapBlockIndex
  mapBlocksUnlinked : s'.mapBlocksUnlinked = s.mapBlocksUnlinked
  entry : ∀ p, (s'.entry p).clearFailed = (s.entry p).clearFailed

/-- The block and all its ancestors have their transactions. -/
def Complete (s : ChainState) (p : BlockPtr) : Prop := (s.entry p).nChainTx ≠ 0

instance : Decidable (s.Complete p) := inferInstanceAs (Decidable (_ ≠ _))

namespace Frame

theorem refl (s : ChainState) : Frame s s := ⟨rfl, rfl, fun _ => rfl⟩

theorem trans {s₁ s₂ s₃ : ChainState} (h : Frame s₁ s₂) (h' : Frame s₂ s₃) : Frame s₁ s₃ :=
  ⟨h'.mapBlockIndex.trans h.mapBlockIndex, h'.mapBlocksUnlinked.trans h.mapBlocksUnlinked,
    fun p => (h'.entry p).trans (h.entry p)⟩

theorem modify {f : CBlockIndex → CBlockIndex} (hf : ∀ e, (f e).clearFailed = e.clearFailed)
    (p : BlockPtr) : Frame s (s.modify p f) := by
  refine ⟨rfl, rfl, fun q => ?_⟩
  rw [entry_modify]
  split
  · next h => rw [hf, h]
  · rfl

theorem erase (p : BlockPtr) : Frame s (s.erase p) := ⟨rfl, rfl, fun _ => rfl⟩

theorem insert (p : BlockPtr) : Frame s (s.insert p) := ⟨rfl, rfl, fun _ => rfl⟩

variable (h : Frame s s')
include h

theorem nChainTx (p : BlockPtr) : (s'.entry p).nChainTx = (s.entry p).nChainTx :=
  have hp := congrArg CBlockIndex.nChainTx (h.entry p)
  hp

theorem nTx (p : BlockPtr) : (s'.entry p).nTx = (s.entry p).nTx :=
  have hp := congrArg CBlockIndex.nTx (h.entry p)
  hp

theorem haveData (p : BlockPtr) : (s'.entry p).haveData = (s.entry p).haveData :=
  have hp := congrArg CBlockIndex.haveData (h.entry p)
  hp

theorem validity (p : BlockPtr) : (s'.entry p).validity = (s.entry p).validity :=
  have hp := congrArg CBlockIndex.validity (h.entry p)
  hp

theorem complete : s'.Complete p ↔ s.Complete p := by rw [Complete, Complete, h.nChainTx]

theorem key (p : BlockPtr) : s'.key params p = s.key params p := by
  have hp := congrArg CBlockIndex.nSequenceId (h.entry p)
  have hid : (s'.entry p).nSequenceId = (s.entry p).nSequenceId := hp
  rw [ChainState.key, ChainState.key, hid]

theorem valueComp (p q : BlockPtr) : s'.valueComp params p q = s.valueComp params p q := by
  rw [Bool.eq_iff_iff, valueComp_iff, valueComp_iff, h.key, h.key]

end Frame

/-! ### The tree -/

/-- What holds of the block index in every run. -/
structure Linked (params : Params) (s : ChainState) : Prop where
  ne_nil : ∀ p ∈ s.mapBlockIndex, p ≠ []
  pprev_mem : ∀ p ∈ s.mapBlockIndex, p.pprev = [] ∨ p.pprev ∈ s.mapBlockIndex
  hash_inj : ∀ p ∈ s.mapBlockIndex, ∀ q ∈ s.mapBlockIndex, p.head? = q.head? → p = q
  root : ∀ p ∈ s.mapBlockIndex, p.pprev = [] → p = [params.hashGenesisBlock]
  unknown : ∀ p ∉ s.mapBlockIndex, (s.entry p).clearFailed = {}
  nTx : ∀ p, (s.entry p).haveData = true → (s.entry p).nTx ≠ 0
  complete : ∀ p, s.Complete p → (s.entry p).haveData = true ∧ (p.pprev = [] ∨ s.Complete p.pprev)
  candidates : ∀ p ∈ s.setBlockIndexCandidates, s.Complete p
  no_ancestor : ∀ p ∈ s.setBlockIndexCandidates, p <:+ s.chainActive → p = s.chainActive
  unlinked : ∀ l ∈ s.mapBlocksUnlinked, l.1 = l.2.pprev ∧ l.1 ≠ [] ∧ ¬ s.Complete l.1 ∧
    (s.entry l.2).haveData = true ∧ ¬ s.Complete l.2
  unlinked_nodup : (s.mapBlocksUnlinked.map Prod.snd).Nodup
  active : s.chainActive = [] ∨ s.Complete s.chainActive

namespace Linked

theorem empty : Linked params {} where
  ne_nil _ h := nomatch h
  pprev_mem _ h := nomatch h
  hash_inj _ h := nomatch h
  root _ h := nomatch h
  unknown _ _ := rfl
  nTx _ h := nomatch h
  complete _ h := absurd rfl h
  candidates _ h := nomatch h
  no_ancestor _ h := nomatch h
  unlinked _ h := nomatch h
  unlinked_nodup := List.nodup_nil
  active := Or.inl rfl

/-- A change of flags, candidates and tip. -/
theorem frame (h : Linked params s) (hframe : Frame s s')
    (hcandidates : ∀ p ∈ s'.setBlockIndexCandidates, s.Complete p)
    (hno : ∀ p ∈ s'.setBlockIndexCandidates, p <:+ s'.chainActive → p = s'.chainActive)
    (hactive : s'.chainActive = [] ∨ s.Complete s'.chainActive) : Linked params s' where
  ne_nil := hframe.mapBlockIndex ▸ h.ne_nil
  pprev_mem := hframe.mapBlockIndex ▸ h.pprev_mem
  hash_inj := hframe.mapBlockIndex ▸ h.hash_inj
  root := hframe.mapBlockIndex ▸ h.root
  unknown p := by
    rw [hframe.mapBlockIndex, hframe.entry]
    exact h.unknown p
  nTx p := by
    rw [hframe.haveData, hframe.nTx]
    exact h.nTx p
  complete p := by
    rw [hframe.complete, hframe.complete, hframe.haveData]
    exact h.complete p
  candidates p hp := hframe.complete.2 (hcandidates p hp)
  no_ancestor := hno
  unlinked l := by
    rw [hframe.mapBlocksUnlinked, hframe.complete, hframe.complete, hframe.haveData]
    exact h.unlinked l
  unlinked_nodup := hframe.mapBlocksUnlinked ▸ h.unlinked_nodup
  active := hactive.imp_right hframe.complete.2

theorem mem_of_complete (h : Linked params s) (hp : s.Complete p) : p ∈ s.mapBlockIndex := by
  by_contra hmem
  have hentry := congrArg CBlockIndex.nChainTx (h.unknown p hmem)
  exact hp hentry

theorem ne_nil_of_complete (h : Linked params s) (hp : s.Complete p) : p ≠ [] :=
  h.ne_nil p (h.mem_of_complete hp)

theorem complete_of_suffix (h : Linked params s) (hq : s.Complete q) (hpq : p <:+ q)
    (hne : p ≠ []) : s.Complete p := by
  induction q with
  | nil => exact absurd (suffix_nil.1 hpq) hne
  | cons hash prev ih =>
    rcases suffix_cons_iff.1 hpq with rfl | hprev
    · exact hq
    · rcases (h.complete _ hq).2 with hnil | hcomplete
      · have hprevnil : prev = [] := hnil
        rw [hprevnil, suffix_nil] at hprev
        exact absurd hprev hne
      · exact ih hcomplete hprev

end Linked

/-! ### The walks of `FindMostWorkChain` -/

theorem foldl_max (params : Params) (s : ChainState) (l : List BlockPtr) (b : BlockPtr) :
    let m := l.foldl (fun b p => if s.valueComp params b p then p else b) b
    (m = b ∨ m ∈ l) ∧ s.key params b ≤ s.key params m ∧ ∀ p ∈ l, s.key params p ≤ s.key params m := by
  induction l generalizing b with
  | nil => exact ⟨Or.inl rfl, le_rfl, fun _ h => nomatch h⟩
  | cons a l ih =>
    rw [foldl_cons]
    by_cases hlt : s.valueComp params b a = true
    · obtain ⟨hmem, hle, hall⟩ := ih a
      rw [if_pos hlt]
      refine ⟨Or.inr ?_, (valueComp_iff.1 hlt).le.trans hle, forall_mem_cons.2 ⟨hle, hall⟩⟩
      rcases hmem with heq | hmem
      · exact mem_cons.2 (Or.inl heq)
      · exact mem_cons_of_mem _ hmem
    · obtain ⟨hmem, hle, hall⟩ := ih b
      rw [if_neg hlt]
      have hab := not_valueComp_iff.1 (Bool.not_eq_true _ ▸ hlt)
      exact ⟨hmem.imp_right (mem_cons_of_mem _), hle, forall_mem_cons.2 ⟨hab.trans hle, hall⟩⟩

theorem rbegin_spec (h : Linked params s) :
    (s.rbegin params = [] ∧ s.setBlockIndexCandidates = []) ∨
      (s.rbegin params ∈ s.setBlockIndexCandidates ∧
        ∀ p ∈ s.setBlockIndexCandidates, s.key params p ≤ s.key params (s.rbegin params)) := by
  obtain ⟨hmem, -, hall⟩ := foldl_max params s s.setBlockIndexCandidates []
  rcases hmem with hnil | hmem
  · refine Or.inl ⟨hnil, eq_nil_iff_forall_not_mem.2 fun p hp => ?_⟩
    have hle := nChainWork_le_of_key_le (hall p hp)
    rw [hnil] at hle
    exact absurd hle (not_le.2 (nChainWork_lt nil_suffix
      (h.ne_nil_of_complete (h.candidates p hp)).symm))
  · exact Or.inr ⟨hmem, hall⟩

theorem pindexTest_eq_none (h : s.pindexTest p = none) (hq : q <:+ p) (hne : q ≠ []) :
    q <:+ s.chainActive ∨ ((s.entry q).failed = false ∧ (s.entry q).haveData = true) := by
  induction p with
  | nil => exact absurd (suffix_nil.1 hq) hne
  | cons hash prev ih =>
    rw [pindexTest] at h
    split at h
    · next hin => exact Or.inl (hq.trans (contains_iff.1 hin))
    · split at h
      · cases h
      · next hbad =>
        rcases suffix_cons_iff.1 hq with rfl | hprev
        · exact Or.inr (by simpa using hbad)
        · exact ih h hprev

theorem pindexTest_eq_some {bad : BlockPtr} (h : s.pindexTest p = some bad) :
    bad <:+ p ∧ bad ≠ [] ∧ ¬ bad <:+ s.chainActive ∧
      ((s.entry bad).failed = true ∨ (s.entry bad).haveData = false) := by
  induction p with
  | nil => cases h
  | cons hash prev ih =>
    rw [pindexTest] at h
    split at h
    · cases h
    · next hout =>
      split at h
      · next hbad =>
        cases h
        refine ⟨suffix_rfl, cons_ne_nil _ _, fun hin => hout (contains_iff.2 hin), ?_⟩
        simpa using hbad
      · obtain ⟨hsuffix, hrest⟩ := ih h
        exact ⟨hsuffix.trans (suffix_cons _ _), hrest⟩

theorem mem_above {stop : BlockPtr} (hstop : stop <:+ p) :
    q ∈ above stop p ↔ q <:+ p ∧ stop <:+ q ∧ q ≠ stop ∧ q ≠ [] := by
  induction p with
  | nil =>
    refine iff_of_false not_mem_nil fun h => ?_
    exact h.2.2.2 (suffix_nil.1 h.1)
  | cons hash prev ih =>
    rw [above]
    split
    · next heq =>
      refine iff_of_false not_mem_nil fun h => h.2.2.1 ?_
      exact h.2.1.eq_of_length_le (heq ▸ h.1.length_le) |>.symm
    · next hne =>
      have hstop' := (suffix_cons_iff.1 hstop).resolve_left (Ne.symm hne)
      rw [mem_cons, ih hstop', suffix_cons_iff]
      constructor
      · rintro (rfl | ⟨hq, hrest⟩)
        · exact ⟨Or.inl rfl, hstop, hne, cons_ne_nil _ _⟩
        · exact ⟨Or.inr hq, hrest⟩
      · rintro ⟨rfl | hq, hrest⟩
        · exact Or.inl rfl
        · exact Or.inr ⟨hq, hrest⟩

/-- Candidates that are bad are taken out, and blocks off the active chain are marked. -/
structure Weeds (s s' : ChainState) : Prop extends Frame s s' where
  chainActive : s'.chainActive = s.chainActive
  last : s'.last = s.last
  recorded : s'.recorded = s.recorded
  failed_mono : ∀ p, (s.entry p).failed = true → (s'.entry p).failed = true
  failed_off : ∀ p, (s'.entry p).failed = true →
    (s.entry p).failed = true ∨ ¬ p <:+ s.chainActive
  sublist : s'.setBlockIndexCandidates.Sublist s.setBlockIndexCandidates
  kept : ∀ p ∈ s.setBlockIndexCandidates,
    p ∈ s'.setBlockIndexCandidates ∨ (s'.entry p).failed = true

namespace Weeds

theorem refl (s : ChainState) : Weeds s s :=
  ⟨Frame.refl s, rfl, rfl, rfl, fun _ => id, fun _ => Or.inl, List.Sublist.refl _, fun _ => Or.inl⟩

theorem trans {s₁ s₂ s₃ : ChainState} (h : Weeds s₁ s₂) (h' : Weeds s₂ s₃) : Weeds s₁ s₃ where
  toFrame := h.toFrame.trans h'.toFrame
  chainActive := h'.chainActive.trans h.chainActive
  last := h'.last.trans h.last
  recorded := h'.recorded.trans h.recorded
  failed_mono p hp := h'.failed_mono p (h.failed_mono p hp)
  failed_off p hp := by
    rcases h'.failed_off p hp with hp | hp
    · exact h.failed_off p hp
    · exact Or.inr (h.chainActive ▸ hp)
  sublist := h'.sublist.trans h.sublist
  kept p hp := by
    rcases h.kept p hp with hp | hp
    · exact h'.kept p hp
    · exact Or.inr (h'.failed_mono p hp)

/-- A block off the chain is marked and taken out. -/
theorem mark {f : CBlockIndex → CBlockIndex} (hf : ∀ e, (f e).clearFailed = e.clearFailed)
    (hfail : ∀ e, (f e).failed = true) (hoff : ¬ p <:+ s.chainActive) :
    Weeds s ((s.modify p f).erase p) where
  toFrame := (Frame.modify hf p).trans (Frame.erase p)
  chainActive := rfl
  last := rfl
  recorded := rfl
  failed_mono q hq := by
    show ((s.modify p f).entry q).failed = true
    rw [entry_modify]
    split
    · exact hfail _
    · exact hq
  failed_off q hq := by
    have hq' : ((s.modify p f).entry q).failed = true := hq
    rw [entry_modify] at hq'
    split at hq'
    · next heq => exact Or.inr (heq ▸ hoff)
    · exact Or.inl hq'
  sublist := filter_sublist
  kept q hq := by
    show _ ∨ ((s.modify p f).entry q).failed = true
    rw [entry_modify]
    split
    · exact Or.inr (hfail _)
    · next hne => exact Or.inl (mem_filter.2 ⟨hq, by simpa using hne⟩)

theorem erase (hfail : (s.entry p).failed = true) : Weeds s (s.erase p) where
  toFrame := Frame.erase p
  chainActive := rfl
  last := rfl
  recorded := rfl
  failed_mono _ := id
  failed_off _ := Or.inl
  sublist := List.filter_sublist
  kept q hq := by
    by_cases heq : q = p
    · exact Or.inr (heq ▸ hfail)
    · exact Or.inl (mem_filter.2 ⟨hq, by simpa using heq⟩)

theorem linked (h : Weeds s s') (hs : Linked params s) : Linked params s' := by
  refine hs.frame h.toFrame (fun p hp => hs.candidates p (h.sublist.subset hp)) ?_ ?_
  · rw [h.chainActive]
    exact fun p hp => hs.no_ancestor p (h.sublist.subset hp)
  · rw [h.chainActive]
    exact hs.active

end Weeds

theorem weeds_removeFailed (hoff : ¬ p <:+ s.chainActive) : Weeds s (removeFailed true s p) :=
  Weeds.mark (f := fun e => { e with failedChild := true }) (fun _ => rfl)
    (fun e => show (e.failedValid || true) = true from Bool.or_true _) hoff

/-- The blocks of the list are marked, no others, and none of them is left in the set. -/
theorem weeds_foldl {l : List BlockPtr} (hoff : ∀ p ∈ l, ¬ p <:+ s.chainActive) :
    Weeds s (l.foldl (removeFailed true) s) ∧
      (∀ p ∈ l, p ∉ (l.foldl (removeFailed true) s).setBlockIndexCandidates) ∧
      ∀ p ∉ l, (l.foldl (removeFailed true) s).entry p = s.entry p := by
  induction l generalizing s with
  | nil => exact ⟨Weeds.refl s, fun _ h => (nomatch h), fun _ _ => rfl⟩
  | cons a l ih =>
    have hfirst := weeds_removeFailed (hoff a mem_cons_self)
    obtain ⟨hrest, hnot, hother⟩ := ih (s := removeFailed true s a) fun p hp =>
      hfirst.chainActive ▸ hoff p (mem_cons_of_mem _ hp)
    refine ⟨hfirst.trans hrest, forall_mem_cons.2 ⟨fun hmem => ?_, hnot⟩, fun p hp => ?_⟩
    · have hmem' := hrest.sublist.subset hmem
      simp [removeFailed, ChainState.erase] at hmem'
    · rw [mem_cons, not_or] at hp
      have hsame : (removeFailed true s a).entry p = s.entry p := by
        show (s.modify a fun e => { e with failedChild := true }).entry p = _
        rw [entry_modify, if_neg hp.1]
      exact (hother p hp.2).trans hsame

/-- **`FindMostWorkChain` ends**, with the best of the candidates that are left: each turn but the
last takes the best one out. Down to the active chain, what it returns is valid and has its
data. What it marks has a marked ancestor. -/
theorem findMostWorkChain_spec {turns : ℕ} (h : Linked params s)
    (hturns : s.setBlockIndexCandidates.length < turns) :
    ∃ s', findMostWorkChain params turns s = some (s'.rbegin params, s') ∧ Weeds s s' ∧
      s'.pindexTest (s'.rbegin params) = none ∧
      ∀ p, (s'.entry p).failed = true → ∃ q, q ≠ [] ∧ q <:+ p ∧ (s.entry q).failed = true ∨
        (s.entry p).failed = true := by
  induction turns generalizing s with
  | zero => exact absurd hturns (Nat.not_lt_zero _)
  | succ turns ih =>
    rw [findMostWorkChain]
    cases htest : s.pindexTest (s.rbegin params) with
    | none => exact ⟨s, rfl, Weeds.refl s, htest, fun p hp => ⟨p, Or.inr hp⟩⟩
    | some bad =>
      obtain ⟨hbad, hbadne, hoff, hcause⟩ := pindexTest_eq_some htest
      have hnew : s.rbegin params ∈ s.setBlockIndexCandidates := by
        refine (rbegin_spec h).elim (fun hnil => absurd ?_ hbadne) And.left
        rw [hnil.1] at hbad
        exact suffix_nil.1 hbad
      -- a candidate has its data, and so have its ancestors: the cause is a failure
      have hcomplete := h.complete_of_suffix (h.candidates _ hnew) hbad hbadne
      have hfailed : (s.entry bad).failed = true := by
        refine hcause.resolve_right fun hno => ?_
        rw [(h.complete bad hcomplete).1] at hno
        cases hno
      obtain ⟨hfold, hgone, hother⟩ := weeds_foldl (s := s) (l := above bad (s.rbegin params)) fun p hp hin =>
        hoff (((mem_above hbad).1 hp).2.1.trans hin)
      have herase := Weeds.erase (hfold.failed_mono bad hfailed)
      have hweeds := hfold.trans herase
      -- the best one is gone
      have hnotin : s.rbegin params ∉ (((above bad (s.rbegin params)).foldl (removeFailed true)
          s).erase bad).setBlockIndexCandidates := by
        intro hmem
        obtain ⟨hmem, hne⟩ := mem_filter.1 hmem
        refine hgone _ ((mem_above hbad).2 ⟨suffix_rfl, hbad, by simpa using hne, ?_⟩) hmem
        exact h.ne_nil_of_complete (h.candidates _ hnew)
      have hlength : (((above bad (s.rbegin params)).foldl (removeFailed true) s).erase
          bad).setBlockIndexCandidates.length < s.setBlockIndexCandidates.length :=
        lt_of_le_of_ne hweeds.sublist.length_le fun heq =>
          hnotin (hweeds.sublist.eq_of_length heq ▸ hnew)
      obtain ⟨s', heq, hrest, hnone, hmarked⟩ := ih (hweeds.linked h) (by omega)
      have hstep : ∀ q, ((((above bad (s.rbegin params)).foldl (removeFailed true) s).erase
          bad).entry q).failed = true → bad <:+ q ∨ (s.entry q).failed = true := by
        intro q hq
        by_cases hqmem : q ∈ above bad (s.rbegin params)
        · exact Or.inl ((mem_above hbad).1 hqmem).2.1
        · have hentry : (((above bad (s.rbegin params)).foldl (removeFailed true) s).erase
              bad).entry q = s.entry q := hother q hqmem
          exact Or.inr (hentry ▸ hq)
      refine ⟨s', ?_, hweeds.trans hrest, hnone, fun p hp => ?_⟩
      · simp only [hfailed]
        exact heq
      · obtain ⟨q, ⟨hne, hqp, hq⟩ | hp⟩ := hmarked p hp
        · rcases hstep q hq with hbq | hq
          · exact ⟨bad, Or.inl ⟨hbadne, hbq.trans hqp, hfailed⟩⟩
          · exact ⟨q, Or.inl ⟨hne, hqp, hq⟩⟩
        · rcases hstep p hp with hbp | hp
          · exact ⟨bad, Or.inl ⟨hbadne, hbp, hfailed⟩⟩
          · exact ⟨p, Or.inr hp⟩

end ChainState

end BlockTree
end Komodo
