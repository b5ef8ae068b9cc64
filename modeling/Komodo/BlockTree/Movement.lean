/-
# How the active chain moves

One lemma for each function of `Komodo.BlockTree.Activation`. What happens to the
candidates and to the failure flags is kept apart by direction: on the way up
(`Climbs`: blocks are connected, worse candidates are dropped, a bad one is marked),
on the way down by hand (`Falls`, `Invalidates`), and when flags are taken back
(`Clears`).
-/

import Komodo.BlockTree.Linked

namespace Komodo
namespace BlockTree
namespace ChainState

open List

variable {params : Params} {disk : Disk} {s s' : ChainState} {p q : BlockPtr}

/-! ### Disconnecting -/

theorem notarizedHeight_eq (s : ChainState) :
    ∃ l, s.notarizedHeight = (l, { s with last := l }) ∧
      (l = s.last ∨ ∃ n, s.last = some n ∧ s.find n.notarized_hash = none) := by
  unfold notarizedHeight
  cases hlast : s.last with
  | none =>
    have hself : s = { s with last := none } := by rw [← hlast]
    exact ⟨none, congrArg (Prod.mk none) hself, Or.inl rfl⟩
  | some n =>
    have hself : s = { s with last := some n } := by rw [← hlast]
    simp only [Option.isNone_iff_eq_none]
    split
    · next hnone => exact ⟨none, rfl, Or.inr ⟨n, rfl, hnone⟩⟩
    · exact ⟨some n, congrArg (Prod.mk (some n)) hself, Or.inl rfl⟩

/-- `DisconnectTip` refuses the notarised block, fails, or takes one block off. -/
theorem disconnectTip_eq (disk : Disk) {l : Option Notarized}
    (hl : s.notarizedHeight = (l, { s with last := l })) :
    (∃ n, l = some n ∧ s.chainActive.head? = some n.notarized_hash ∧
        s.disconnectTip disk = (.pastNotarized, { s with last := l })) ∨
      (∀ n, l = some n → s.chainActive.head? ≠ some n.notarized_hash) ∧
        (s.disconnectTip disk = (.failed, { s with last := l }) ∨
          s.disconnectTip disk =
            (.ok, { s with last := l, chainActive := s.chainActive.pprev })) := by
  unfold disconnectTip
  rw [hl]
  cases l with
  | none =>
    refine Or.inr ⟨fun _ hn => (nomatch hn), ?_⟩
    simp only [Option.isSome_none, Bool.false_eq_true, false_and, if_false]
    split
    · exact Or.inr rfl
    · exact Or.inl rfl
  | some n =>
    simp only [Option.isSome_some, true_and, Option.map_some]
    split
    · next h => exact Or.inl ⟨n, rfl, h, rfl⟩
    · next h =>
      refine Or.inr ⟨fun m hm => Option.some.inj hm ▸ h, ?_⟩
      split
      · exact Or.inr rfl
      · exact Or.inl rfl

/-- Disconnecting ends at the fork, or above it with a failure. -/
theorem disconnectTo_spec (disk : Disk) {fork : BlockPtr} {fuel : ℕ} (hfork : fork <:+ s.chainActive)
    (hfuel : s.chainActive.length ≤ fuel) :
    ∃ r l tip, disconnectTo disk fork fuel s = (r, { s with last := l, chainActive := tip }) ∧
      fork <:+ tip ∧ tip <:+ s.chainActive ∧ (r = .ok → tip = fork) := by
  induction fuel generalizing s with
  | zero =>
    have hnil : s.chainActive = [] := length_eq_zero_iff.1 (Nat.le_zero.1 hfuel)
    refine ⟨.ok, s.last, s.chainActive, rfl, hfork, suffix_rfl, fun _ => ?_⟩
    rw [hnil] at hfork ⊢
    exact (suffix_nil.1 hfork).symm
  | succ fuel ih =>
    rw [disconnectTo]
    split
    · next hmore =>
      obtain ⟨l, hl, -⟩ := notarizedHeight_eq s
      rcases disconnectTip_eq disk hl with ⟨n, -, -, heq⟩ | ⟨-, heq | heq⟩
      · exact ⟨.pastNotarized, l, s.chainActive, by rw [heq], hfork, suffix_rfl, nofun⟩
      · exact ⟨.failed, l, s.chainActive, by rw [heq], hfork, suffix_rfl, nofun⟩
      · obtain ⟨hash, prev, htip⟩ := exists_cons_of_ne_nil hmore.1
        have hprev : fork <:+ prev := by
          rw [htip] at hfork
          exact (suffix_cons_iff.1 hfork).resolve_left fun h => hmore.2 (htip.trans h.symm)
        have htail : s.chainActive.pprev = prev := by rw [htip]; rfl
        obtain ⟨r, l', tip, hrest, hlow, hhigh, hok⟩ :=
          ih (s := { s with last := l, chainActive := s.chainActive.pprev })
            (by rw [htail]; exact hprev) (by
              rw [htip, length_cons] at hfuel
              show s.chainActive.pprev.length ≤ fuel
              rw [htail]
              omega)
        refine ⟨r, l', tip, ?_, hlow, ?_, hok⟩
        · rw [heq]
          exact hrest
        · have hhigh' : tip <:+ s.chainActive.pprev := hhigh
          exact hhigh'.trans (tail_suffix _)
    · next hdone =>
      refine ⟨.ok, s.last, s.chainActive, rfl, hfork, suffix_rfl, fun _ => ?_⟩
      by_cases hnil : s.chainActive = []
      · rw [hnil] at hfork ⊢
        exact (suffix_nil.1 hfork).symm
      · exact not_not.1 fun hne => hdone ⟨hnil, hne⟩

theorem findFork_spec (s : ChainState) (p : BlockPtr) :
    s.findFork p <:+ p ∧ s.findFork p <:+ s.chainActive ∧
      ∀ q, q <:+ p → q <:+ s.chainActive → q <:+ s.findFork p := by
  induction p with
  | nil => exact ⟨suffix_rfl, nil_suffix, fun q hq _ => hq⟩
  | cons hash prev ih =>
    rw [findFork]
    split
    · next hin => exact ⟨suffix_rfl, contains_iff.1 hin, fun q hq _ => hq⟩
    · next hout =>
      obtain ⟨hp, htip, hmax⟩ := ih
      refine ⟨hp.trans (suffix_cons _ _), htip, fun q hq hin => ?_⟩
      refine hmax q ((suffix_cons_iff.1 hq).resolve_left fun heq => ?_) hin
      exact hout (contains_iff.2 (heq ▸ hin))

/-! ### Connecting -/

/-- Blocks are connected: the tip goes up, candidates that are worse are dropped, and a block off
the chain may be marked. -/
structure Climbs (params : Params) (s s' : ChainState) : Prop extends Frame s s' where
  chainActive : s.chainActive <:+ s'.chainActive
  recorded : s.recorded <+: s'.recorded
  failed_mono : ∀ p, (s.entry p).failed = true → (s'.entry p).failed = true
  failed_off : ∀ p, (s'.entry p).failed = true →
    (s.entry p).failed = true ∨ ¬ p <:+ s'.chainActive
  subset : s'.setBlockIndexCandidates ⊆ s.setBlockIndexCandidates
  kept : ∀ p ∈ s.setBlockIndexCandidates, p ∈ s'.setBlockIndexCandidates ∨
    (s'.entry p).failed = true ∨ s.valueComp params p s'.chainActive = true

namespace Climbs

theorem refl (s : ChainState) : Climbs params s s :=
  ⟨Frame.refl s, suffix_rfl, prefix_rfl, fun _ => id, fun _ => Or.inl,
    List.Subset.refl _, fun _ => Or.inl⟩

/-- Nothing is marked before the last block. -/
theorem trans {s₁ s₂ s₃ : ChainState} (h : Climbs params s₁ s₂) (h' : Climbs params s₂ s₃)
    (hsame : ∀ p, (s₂.entry p).failed = true → (s₁.entry p).failed = true) :
    Climbs params s₁ s₃ where
  toFrame := h.toFrame.trans h'.toFrame
  chainActive := h.chainActive.trans h'.chainActive
  recorded := h.recorded.trans h'.recorded
  failed_mono p hp := h'.failed_mono p (h.failed_mono p hp)
  failed_off p hp := by
    exact (h'.failed_off p hp).imp_left (hsame p)
  subset := List.Subset.trans h'.subset h.subset
  kept p hp := by
    rcases h.kept p hp with hp | hp | hworse
    · rw [← h.toFrame.valueComp]
      exact h'.kept p hp
    · exact Or.inr (Or.inl (h'.failed_mono p hp))
    · refine Or.inr (Or.inr (valueComp_iff.2 ((valueComp_iff.1 hworse).trans_le ?_)))
      exact key_le_of_suffix h'.chainActive

theorem of_weeds (h : Weeds s s') : Climbs params s s' where
  toFrame := h.toFrame
  chainActive := h.chainActive ▸ List.suffix_rfl
  recorded := h.recorded ▸ List.prefix_rfl
  failed_mono := h.failed_mono
  failed_off p hp := h.chainActive ▸ h.failed_off p hp
  subset := h.sublist.subset
  kept p hp := (h.kept p hp).imp_right Or.inl

end Climbs

/-- `komodo_voutupdate` only records. -/
theorem foldl_voutUpdate (disk : Disk) (height : ℤ) (ns : List Notarized) (s : ChainState) :
    ∃ l r, ns.foldl (voutUpdate disk height) s =
      { s with last := l, recorded := s.recorded ++ r } := by
  induction ns generalizing s with
  | nil =>
    refine ⟨s.last, [], ?_⟩
    rw [foldl_nil, append_nil]
  | cons n ns ih =>
    rw [foldl_cons, voutUpdate]
    split
    · obtain ⟨l, r, heq⟩ := ih { s with last := some n, recorded := s.recorded ++ [(n, s.chainActive)] }
      refine ⟨l, (n, s.chainActive) :: r, heq.trans ?_⟩
      rw [append_assoc]
      rfl
    · exact ih s

/-- Each block of the list is a child of the one before it, the first one of the tip. -/
def IsPath : BlockPtr → List BlockPtr → Prop
  | _, [] => True
  | tip, p :: path => p ≠ [] ∧ p.pprev = tip ∧ IsPath p path

theorem isPath_append {tip : BlockPtr} {path : List BlockPtr} (h : IsPath tip path) (hne : p ≠ [])
    (hlast : (tip :: path).getLast? = some p.pprev) : IsPath tip (path ++ [p]) := by
  induction path generalizing tip with
  | nil => exact ⟨hne, (Option.some.inj hlast).symm, trivial⟩
  | cons q path ih => exact ⟨h.1, h.2.1, ih h.2.2 (by rwa [getLast?_cons_cons] at hlast)⟩

theorem isPath_above {stop : BlockPtr} (h : stop <:+ p) :
    IsPath stop (above stop p).reverse ∧ (stop :: (above stop p).reverse).getLast? = some p := by
  induction p with
  | nil =>
    obtain rfl := suffix_nil.1 h
    exact ⟨trivial, rfl⟩
  | cons hash prev ih =>
    rw [above]
    split
    · next heq => exact ⟨trivial, congrArg some heq.symm⟩
    · next hne =>
      obtain ⟨hpath, hlast⟩ := ih ((suffix_cons_iff.1 h).resolve_left (Ne.symm hne))
      rw [reverse_cons]
      refine ⟨isPath_append hpath (cons_ne_nil _ _) hlast, ?_⟩
      rw [← cons_append, getLast?_append]
      rfl

/-- A block is connected and the set pruned. -/
theorem climbs_connect (h : Linked params s) (hp : s.Complete p) (hprev : p.pprev = s.chainActive)
    (l : Option Notarized) (r : List (Notarized × BlockPtr)) :
    let s' := ({ s with
      last := l, recorded := s.recorded ++ r, chainActive := p } :
        ChainState).pruneBlockIndexCandidates params
    Climbs params s s' ∧ Linked params s' := by
  intro s'
  have hframe : Frame s s' := ⟨rfl, rfl, fun _ => rfl⟩
  have hmem : ∀ q, q ∈ s'.setBlockIndexCandidates ↔
      q ∈ s.setBlockIndexCandidates ∧ s.valueComp params q p = false := by
    intro q
    refine mem_filter.trans (and_congr_right fun _ => ?_)
    rw [Bool.not_eq_true']
    exact Iff.rfl
  constructor
  · refine ⟨hframe, ?_, prefix_append _ _, fun _ => id, fun _ => Or.inl,
      fun q hq => ((hmem q).1 hq).1, fun q hq => ?_⟩
    · rw [← hprev]
      exact tail_suffix p
    · cases hworse : s.valueComp params q p with
      | false => exact Or.inl ((hmem q).2 ⟨hq, hworse⟩)
      | true => exact Or.inr (Or.inr hworse)
  · refine h.frame hframe (fun q hq => h.candidates q ((hmem q).1 hq).1) (fun q hq hin => ?_)
      (Or.inr hp)
    -- an ancestor of the new tip is worse than it
    by_contra hne
    have hin' : q <:+ p := hin
    have hworse := ((hmem q).1 hq).2
    rw [valueComp_of_suffix hin' hne] at hworse
    cases hworse

/-- `ActivateBestChainStep` after it has disconnected. -/
theorem connectPath_spec (disk : Disk) (oldTip : BlockPtr) {path : List BlockPtr} (h : Linked params s)
    (hpath : IsPath s.chainActive path) (hcomplete : ∀ p ∈ path, s.Complete p) :
    ∃ r s', connectPath params disk oldTip path s = (r, s') ∧ r ≠ .pastNotarized ∧
      Climbs params s s' ∧ Linked params s' ∧
        (s'.chainActive = s.chainActive ∨ s'.chainActive ∈ path) := by
  induction path generalizing s with
  | nil => exact ⟨.ok, s, rfl, nofun, Climbs.refl s, h, Or.inl rfl⟩
  | cons p path ih =>
    rw [connectPath, connectTip]
    cases hconnects : disk.connects p with
    | connected notarisations =>
      obtain ⟨l, r, heq⟩ := foldl_voutUpdate disk p.nHeight notarisations s
      obtain ⟨hclimbs, hlinked⟩ := climbs_connect h (hcomplete p mem_cons_self) hpath.2.1 l r
      simp only [heq]
      split
      · exact ⟨.ok, _, rfl, nofun, hclimbs, hlinked, Or.inr mem_cons_self⟩
      · obtain ⟨r', s', hrest, hr', hclimbs', hlinked', htip⟩ := ih hlinked hpath.2.2
          fun q hq => hcomplete q (mem_cons_of_mem _ hq)
        refine ⟨r', s', hrest, hr', hclimbs.trans hclimbs' fun _ => id, hlinked', Or.inr ?_⟩
        rcases htip with htip | htip
        · exact htip ▸ mem_cons_self
        · exact mem_cons_of_mem _ htip
    | invalid corruptionPossible =>
      cases corruptionPossible with
      | true => exact ⟨.ok, s, rfl, nofun, Climbs.refl s, h, Or.inl rfl⟩
      | false =>
        have hoff : ¬ p <:+ s.chainActive := by
          intro hin
          obtain ⟨hash, prev, rfl⟩ := exists_cons_of_ne_nil hpath.1
          have hprev : prev = s.chainActive := hpath.2.1
          have hle := hin.length_le
          rw [← hprev, length_cons] at hle
          omega
        have hweeds := Weeds.mark (f := fun e => { e with failedValid := true }) (fun _ => rfl)
          (fun _ => rfl) hoff
        exact ⟨.ok, _, rfl, nofun, Climbs.of_weeds hweeds, hweeds.linked h, Or.inl rfl⟩
    | error notarisations =>
      obtain ⟨l, r, heq⟩ := foldl_voutUpdate disk p.nHeight notarisations s
      simp only [heq]
      refine ⟨.failed, _, rfl, nofun, ⟨⟨rfl, rfl, fun _ => rfl⟩, suffix_rfl,
        prefix_append _ _, fun _ => id, fun _ => Or.inl, List.Subset.refl _,
        fun _ => Or.inl⟩, ?_, Or.inl rfl⟩
      exact h.frame ⟨rfl, rfl, fun _ => rfl⟩ h.candidates h.no_ancestor h.active

/-! ### `InvalidateBlock` -/

/-- The loop takes blocks off the chain until the block is off it, and marks them. -/
structure Falls (p : BlockPtr) (s s' : ChainState) : Prop extends Frame s s' where
  chainActive : s'.chainActive <:+ s.chainActive
  recorded : s'.recorded = s.recorded
  failed_mono : ∀ q, (s.entry q).failed = true → (s'.entry q).failed = true
  failed_on : ∀ q, (s'.entry q).failed = true → (s.entry q).failed = true ∨ p <:+ q
  subset : s'.setBlockIndexCandidates ⊆ s.setBlockIndexCandidates

namespace Falls

theorem refl (p : BlockPtr) (s : ChainState) : Falls p s s :=
  ⟨Frame.refl s, suffix_rfl, rfl, fun _ => id, fun _ => Or.inl, List.Subset.refl _⟩

theorem trans {s₁ s₂ s₃ : ChainState} (h : Falls p s₁ s₂) (h' : Falls p s₂ s₃) :
    Falls p s₁ s₃ where
  toFrame := h.toFrame.trans h'.toFrame
  chainActive := h'.chainActive.trans h.chainActive
  recorded := h'.recorded.trans h.recorded
  failed_mono q hq := h'.failed_mono q (h.failed_mono q hq)
  failed_on q hq := (h'.failed_on q hq).elim (h.failed_on q) Or.inr
  subset := List.Subset.trans h'.subset h.subset

theorem mark {f : CBlockIndex → CBlockIndex} (hf : ∀ e, (f e).clearFailed = e.clearFailed)
    (hfail : ∀ e, (f e).failed = true) (hq : p <:+ q) : Falls p s ((s.modify q f).erase q) where
  toFrame := (Frame.modify hf q).trans (Frame.erase q)
  chainActive := List.suffix_rfl
  recorded := rfl
  failed_mono r hr := by
    show ((s.modify q f).entry r).failed = true
    rw [entry_modify]
    split
    · exact hfail _
    · exact hr
  failed_on r hr := by
    have hr' : ((s.modify q f).entry r).failed = true := hr
    rw [entry_modify] at hr'
    split at hr'
    · next heq => exact Or.inr (heq ▸ hq)
    · exact Or.inl hr'
  subset _ hr := (mem_filter.1 hr).1

theorem tip {l : Option Notarized} {t : BlockPtr} (ht : t <:+ s.chainActive) :
    Falls p s { s with last := l, chainActive := t } :=
  ⟨⟨rfl, rfl, fun _ => rfl⟩, ht, rfl, fun _ => id, fun _ => Or.inl, List.Subset.refl _⟩

theorem linked (h : Falls p s s') (hs : Linked params s) : Linked params s' := by
  refine hs.frame h.toFrame (fun q hq => hs.candidates q (h.subset hq)) (fun q hq hin => ?_) ?_
  · have heq := hs.no_ancestor q (h.subset hq) (hin.trans h.chainActive)
    exact hin.eq_of_length_le (heq ▸ h.chainActive.length_le)
  · rcases hs.active with hnil | hcomplete
    · exact Or.inl (suffix_nil.1 (hnil ▸ h.chainActive))
    · by_cases hnil : s'.chainActive = []
      · exact Or.inl hnil
      · exact Or.inr (hs.complete_of_suffix hcomplete h.chainActive hnil)

end Falls

theorem invalidateLoop_spec (disk : Disk) {fuel : ℕ} (hne : p ≠ []) (hfuel : s.chainActive.length ≤ fuel) :
    ∃ r s', invalidateLoop disk p fuel s = (r, s') ∧ Falls p s s' ∧
      (r = .ok → ¬ p <:+ s'.chainActive) := by
  induction fuel generalizing s with
  | zero =>
    have hnil : s.chainActive = [] := length_eq_zero_iff.1 (Nat.le_zero.1 hfuel)
    refine ⟨.ok, s, rfl, Falls.refl p s, fun _ hin => hne ?_⟩
    rw [hnil] at hin
    exact suffix_nil.1 hin
  | succ fuel ih =>
    rw [invalidateLoop]
    split
    · next hin =>
      have hin := contains_iff.1 hin
      have hmark : Falls p s ((s.modify s.chainActive fun e =>
          { e with failedChild := true }).erase s.chainActive) :=
        Falls.mark (fun _ => rfl) (fun e => show (e.failedValid || true) = true from Bool.or_true _)
          hin
      set s₁ := (s.modify s.chainActive fun e => { e with failedChild := true }).erase s.chainActive
      obtain ⟨l, hl, -⟩ := notarizedHeight_eq s₁
      rcases disconnectTip_eq disk hl with ⟨n, -, -, heq⟩ | ⟨-, heq | heq⟩
      · refine ⟨.pastNotarized, { s₁ with last := l }, by simp only [heq], ?_, nofun⟩
        exact hmark.trans (Falls.tip suffix_rfl)
      · refine ⟨.failed, { s₁ with last := l }, by simp only [heq], ?_, nofun⟩
        exact hmark.trans (Falls.tip suffix_rfl)
      · obtain ⟨r, s', hrest, hfalls, hok⟩ :=
          ih (s := { s₁ with last := l, chainActive := s₁.chainActive.pprev }) (by
            have hlen : s₁.chainActive.pprev.length = s.chainActive.length - 1 := length_tail
            show s₁.chainActive.pprev.length ≤ fuel
            omega)
        refine ⟨r, s', ?_, (hmark.trans (Falls.tip (tail_suffix _))).trans hfalls, hok⟩
        simp only [heq]
        exact hrest
    · next hout => exact ⟨.ok, s, rfl, Falls.refl p s, fun _ hin => hout (contains_iff.2 hin)⟩

theorem invalidateLoop_of_notMem {fuel : ℕ} (h : ¬ p <:+ s.chainActive) :
    invalidateLoop disk p fuel s = (.ok, s) := by
  cases fuel with
  | zero => rfl
  | succ fuel => rw [invalidateLoop, if_neg fun hin => h (contains_iff.1 hin)]

theorem foldl_insert (l : List BlockPtr) (s : ChainState) :
    ∃ c, l.foldl insert s = { s with setBlockIndexCandidates := c } ∧
      ∀ q, q ∈ c ↔ q ∈ l ∨ q ∈ s.setBlockIndexCandidates := by
  induction l generalizing s with
  | nil => exact ⟨s.setBlockIndexCandidates, rfl, fun q => by simp⟩
  | cons a l ih =>
    obtain ⟨c, heq, hc⟩ := ih (s.insert a)
    refine ⟨c, heq, fun q => ?_⟩
    rw [hc, insert]
    simp only [mem_cons, mem_filter, decide_eq_true_eq]
    grind

/-- What `InvalidateBlock` does: with success, the chain is valid if it was, and every valid block
that is not worse than the tip is a candidate. -/
structure Invalidates (params : Params) (p : BlockPtr) (r : Outcome) (s s' : ChainState) :
    Prop extends Frame s s' where
  linked : Linked params s'
  chainActive : s'.chainActive <:+ s.chainActive
  recorded : s'.recorded = s.recorded
  failed_mono : ∀ q, (s.entry q).failed = true → (s'.entry q).failed = true
  failed_off : r = .ok → ∀ q, (s'.entry q).failed = true →
    (s.entry q).failed = true ∨ ¬ q <:+ s'.chainActive
  inserted : r = .ok → ∀ q ∈ s.mapBlockIndex,
    (s'.entry q).isValid BLOCK_VALID_TRANSACTIONS = true → s.Complete q →
      s.valueComp params q s'.chainActive = false → q ∈ s'.setBlockIndexCandidates
  off_chain : ¬ p <:+ s.chainActive → r = .ok ∧ s'.chainActive = s.chainActive

theorem invalidateBlock_spec (disk : Disk) (h : Linked params s) (hne : p ≠ []) :
    ∃ r s', s.invalidateBlock params disk p = (r, s') ∧ Invalidates params p r s s' := by
  have hmark : Falls p s ((s.modify p fun e => { e with failedValid := true }).erase p) :=
    Falls.mark (fun _ => rfl) (fun _ => rfl) suffix_rfl
  rw [invalidateBlock]
  set s₁ := (s.modify p fun e => { e with failedValid := true }).erase p
  obtain ⟨r, s₂, heq, hfalls, hok⟩ :=
    invalidateLoop_spec disk (s := s₁) hne (le_refl s₁.chainActive.length)
  have hdown := hmark.trans hfalls
  have hlinked := hdown.linked h
  have hout : ¬ p <:+ s.chainActive → r = .ok ∧ s₂ = s₁ := fun hout => by
    rw [invalidateLoop_of_notMem (s := s₁) hout] at heq
    exact ⟨(Prod.mk.inj heq).1.symm, (Prod.mk.inj heq).2.symm⟩
  rw [heq]
  cases r with
  | ok =>
    obtain ⟨c, hins, hc⟩ := foldl_insert (s₂.mapBlockIndex.filter fun p =>
      (s₂.entry p).isValid BLOCK_VALID_TRANSACTIONS && (s₂.entry p).nChainTx ≠ 0 &&
        !s₂.valueComp params p s₂.chainActive) s₂
    have hframe : Frame s₂ { s₂ with setBlockIndexCandidates := c } := ⟨rfl, rfl, fun _ => rfl⟩
    have hvalid : s₂.insertValid params = { s₂ with setBlockIndexCandidates := c } := hins
    refine ⟨.ok, { s₂ with setBlockIndexCandidates := c }, congrArg (Prod.mk _) hvalid,
      hdown.toFrame.trans hframe, ?_, hdown.chainActive, hdown.recorded, hdown.failed_mono,
      fun _ q hq => ?_, fun _ q hq hv hcomplete hworse => ?_, fun hoff => ⟨rfl, ?_⟩⟩
    · refine hlinked.frame hframe (fun q hq => ?_) (fun q hq hin => ?_) hlinked.active
      · rcases (hc q).1 hq with hq | hq
        · have hq := (mem_filter.1 hq).2
          simp only [Bool.and_eq_true, decide_eq_true_eq] at hq
          exact hq.1.2
        · exact hlinked.candidates q hq
      · rcases (hc q).1 hq with hq | hq
        · have hq := (mem_filter.1 hq).2
          simp only [Bool.and_eq_true, Bool.not_eq_true'] at hq
          by_contra hne'
          rw [valueComp_of_suffix hin hne'] at hq
          cases hq.2
        · exact hlinked.no_ancestor q hq hin
    · refine (hdown.failed_on q hq).imp_right fun hpq hin => hok rfl (hpq.trans hin)
    · refine (hc q).2 (Or.inl (mem_filter.2 ⟨hdown.mapBlockIndex ▸ hq, ?_⟩))
      have hcomplete' := hdown.toFrame.complete.2 hcomplete
      have hworse' := (hdown.toFrame.valueComp q s₂.chainActive).trans hworse
      have hv' : (s₂.entry q).isValid BLOCK_VALID_TRANSACTIONS = true := hv
      rw [hv', hworse']
      simpa [Complete] using hcomplete'
    · rw [(hout hoff).2]
      rfl
  | pastNotarized =>
    exact ⟨_, s₂, rfl, hdown.toFrame, hlinked, hdown.chainActive, hdown.recorded,
      hdown.failed_mono, by rintro ⟨⟩, by rintro ⟨⟩, fun hoff => by cases (hout hoff).1⟩
  | failed =>
    exact ⟨_, s₂, rfl, hdown.toFrame, hlinked, hdown.chainActive, hdown.recorded,
      hdown.failed_mono, by rintro ⟨⟩, by rintro ⟨⟩, fun hoff => by cases (hout hoff).1⟩

/-! ### `ReconsiderBlock` -/

/-- Flags are taken back, and blocks that are better than the tip become candidates. -/
structure Clears (params : Params) (s s' : ChainState) : Prop extends Frame s s' where
  chainActive : s'.chainActive = s.chainActive
  recorded : s'.recorded = s.recorded
  last : s'.last = s.last
  failed_anti : ∀ p, (s'.entry p).failed = true → (s.entry p).failed = true
  subset : s.setBlockIndexCandidates ⊆ s'.setBlockIndexCandidates
  new : ∀ p ∈ s'.setBlockIndexCandidates, p ∈ s.setBlockIndexCandidates ∨
    (s.Complete p ∧ s.valueComp params s.chainActive p = true)

namespace Clears

theorem refl (s : ChainState) : Clears params s s :=
  ⟨Frame.refl s, rfl, rfl, rfl, fun _ => id, List.Subset.refl _, fun _ => Or.inl⟩

theorem trans {s₁ s₂ s₃ : ChainState} (h : Clears params s₁ s₂) (h' : Clears params s₂ s₃) :
    Clears params s₁ s₃ where
  toFrame := h.toFrame.trans h'.toFrame
  chainActive := h'.chainActive.trans h.chainActive
  recorded := h'.recorded.trans h.recorded
  last := h'.last.trans h.last
  failed_anti p hp := h.failed_anti p (h'.failed_anti p hp)
  subset := List.Subset.trans h.subset h'.subset
  new p hp := by
    rcases h'.new p hp with hp | ⟨hcomplete, hbetter⟩
    · exact h.new p hp
    · rw [h.toFrame.valueComp, h.chainActive] at hbetter
      exact Or.inr ⟨h.toFrame.complete.1 hcomplete, hbetter⟩

theorem clear (p : BlockPtr) : Clears params s (s.modify p CBlockIndex.clearFailed) where
  toFrame := Frame.modify (f := CBlockIndex.clearFailed) (fun _ => rfl) p
  chainActive := rfl
  recorded := rfl
  last := rfl
  failed_anti q hq := by
    rw [entry_modify] at hq
    split at hq
    · cases hq
    · exact hq
  subset := List.Subset.refl _
  new _ := Or.inl

theorem insert (hp : s.Complete p) (hbetter : s.valueComp params s.chainActive p = true) :
    Clears params s (s.insert p) where
  toFrame := Frame.insert p
  chainActive := rfl
  recorded := rfl
  last := rfl
  failed_anti _ := id
  subset q hq := by
    by_cases heq : q = p
    · exact mem_cons.2 (Or.inl heq)
    · exact mem_cons_of_mem _ (mem_filter.2 ⟨hq, by simpa using heq⟩)
  new q hq := by
    rcases mem_cons.1 hq with rfl | hq
    · exact Or.inr ⟨hp, hbetter⟩
    · exact Or.inl (mem_filter.1 hq).1

theorem linked (h : Clears params s s') (hs : Linked params s) : Linked params s' := by
  refine hs.frame h.toFrame (fun p hp => ?_) (fun p hp hin => ?_) (h.chainActive ▸ hs.active)
  · exact (h.new p hp).elim (hs.candidates p) And.left
  · rw [h.chainActive] at hin ⊢
    rcases h.new p hp with hp | ⟨-, hbetter⟩
    · exact hs.no_ancestor p hp hin
    · by_contra hne
      exact lt_asymm (valueComp_iff.1 hbetter) (valueComp_iff.1 (valueComp_of_suffix hin hne))

end Clears

/-- One turn of the first loop. -/
theorem reconsider_spec (params : Params) (p : BlockPtr) (s : ChainState) (q : BlockPtr) :
    Clears params s (reconsider params p s q) ∧
      (∀ r, r ≠ q ∨ ¬ p <:+ r → (reconsider params p s q).entry r = s.entry r) ∧
      (p <:+ q → ((reconsider params p s q).entry q).failed = false ∧
        ((s.entry q).failed = true → s.Complete q →
          BLOCK_VALID_TRANSACTIONS ≤ (s.entry q).validity →
          s.valueComp params s.chainActive q = true →
          q ∈ (reconsider params p s q).setBlockIndexCandidates)) := by
  rw [reconsider]
  split
  · next hdo =>
    have hpq := isSuffixOf_iff_suffix.1 hdo.2
    have hclear : Clears params s (s.modify q CBlockIndex.clearFailed) := Clears.clear q
    have hother : ∀ r, r ≠ q ∨ ¬ p <:+ r →
        (s.modify q CBlockIndex.clearFailed).entry r = s.entry r := by
      refine fun r hr => (entry_modify _).trans (if_neg fun heq => ?_)
      exact hr.elim (fun hne => hne heq) fun hout => hout (heq ▸ hpq)
    have hself : ((s.modify q CBlockIndex.clearFailed).entry q).failed = false := by
      rw [entry_modify, if_pos rfl]
      rfl
    simp only
    split
    · next hins =>
      refine ⟨hclear.trans (Clears.insert hins.2.1 hins.2.2), hother, fun _ => ⟨hself, ?_⟩⟩
      exact fun _ _ _ _ => mem_cons_self
    · next hno =>
      refine ⟨hclear, hother, fun _ => ⟨hself, fun _ hcomplete hvalid hbetter => ?_⟩⟩
      refine absurd ⟨?_, hclear.toFrame.complete.2 hcomplete, ?_⟩ hno
      · rw [CBlockIndex.isValid, hself, hclear.toFrame.validity]
        simpa using hvalid
      · rw [hclear.toFrame.valueComp]
        exact hbetter
  · next hno =>
    refine ⟨Clears.refl s, fun _ _ => rfl, fun hpq => ?_⟩
    have hvalid : (s.entry q).isValid BLOCK_VALID_TRANSACTIONS = true := by
      by_contra hinvalid
      exact hno ⟨Bool.not_eq_true _ ▸ hinvalid, isSuffixOf_iff_suffix.2 hpq⟩
    have hfine : (s.entry q).failed = false := by
      simp only [CBlockIndex.isValid, Bool.and_eq_true, Bool.not_eq_true'] at hvalid
      exact hvalid.1
    exact ⟨hfine, fun hfailed => absurd hfailed (by rw [hfine]; exact Bool.false_ne_true)⟩

/-- The first loop: the blocks of the list on top of the block are cleared, and inserted where they
were marked. -/
theorem foldl_reconsider (params : Params) (p : BlockPtr) (l : List BlockPtr) (s : ChainState) :
    Clears params s (l.foldl (reconsider params p) s) ∧
      (∀ r, r ∉ l ∨ ¬ p <:+ r → (l.foldl (reconsider params p) s).entry r = s.entry r) ∧
      ∀ q ∈ l, p <:+ q → ((l.foldl (reconsider params p) s).entry q).failed = false ∧
        ((s.entry q).failed = true → s.Complete q →
          BLOCK_VALID_TRANSACTIONS ≤ (s.entry q).validity →
          s.valueComp params s.chainActive q = true →
          q ∈ (l.foldl (reconsider params p) s).setBlockIndexCandidates) := by
  induction l generalizing s with
  | nil => exact ⟨Clears.refl s, fun _ _ => rfl, fun _ h => nomatch h⟩
  | cons a l ih =>
    obtain ⟨hfirst, hother, hself⟩ := reconsider_spec params p s a
    obtain ⟨hrest, hother', hself'⟩ := ih (reconsider params p s a)
    rw [foldl_cons]
    refine ⟨hfirst.trans hrest, fun r hr => ?_, fun q hq hpq => ?_⟩
    · rw [mem_cons, not_or] at hr
      rw [hother' r (hr.imp_left And.right), hother r (hr.imp_left And.left)]
    · by_cases hqa : q = a
      · subst hqa
        refine ⟨?_, fun hfailed hcomplete hvalid hbetter =>
          hrest.subset ((hself hpq).2 hfailed hcomplete hvalid hbetter)⟩
        cases hfailed : ((l.foldl (reconsider params p) (reconsider params p s q)).entry q).failed with
        | false => rfl
        | true =>
          have hfailed' := hrest.failed_anti q hfailed
          rw [(hself hpq).1] at hfailed'
          cases hfailed'
      · obtain ⟨hclear, hins⟩ := hself' q ((mem_cons.1 hq).resolve_left hqa) hpq
        refine ⟨hclear, fun hfailed hcomplete hvalid hbetter => ?_⟩
        rw [hother q (Or.inl hqa), hfirst.toFrame.complete, hfirst.toFrame.valueComp,
          hfirst.chainActive] at hins
        exact hins hfailed hcomplete hvalid hbetter

theorem clearAncestors_spec (params : Params) (p : BlockPtr) (s : ChainState) :
    Clears params s (clearAncestors p s) ∧
      ∀ q, ¬ q <:+ p → (clearAncestors p s).entry q = s.entry q := by
  induction p generalizing s with
  | nil => exact ⟨Clears.refl s, fun _ _ => rfl⟩
  | cons hash prev ih =>
    obtain ⟨hrest, hother⟩ := ih (s.modify (hash :: prev) CBlockIndex.clearFailed)
    refine ⟨(Clears.clear (hash :: prev)).trans hrest, fun q hq => ?_⟩
    rw [clearAncestors, hother q fun hin => hq (hin.trans (suffix_cons _ _)), entry_modify, if_neg]
    exact fun heq => hq (heq ▸ suffix_rfl)

/-- `ReconsiderBlock`: what it clears is on top of the block or below it, and what it clears on top
of it becomes a candidate where it is better than the tip. -/
theorem reconsiderBlock_spec (params : Params) (hp : p ∈ s.mapBlockIndex) :
    Clears params s (s.reconsiderBlock params p) ∧
      ∀ q, (s.entry q).failed = true → ((s.reconsiderBlock params p).entry q).failed = false →
        q <:+ p ∧ q ≠ p ∨ q ∈ s.mapBlockIndex ∧ p <:+ q ∧ (s.Complete q →
          BLOCK_VALID_TRANSACTIONS ≤ (s.entry q).validity →
          s.valueComp params s.chainActive q = true →
          q ∈ (s.reconsiderBlock params p).setBlockIndexCandidates) := by
  obtain ⟨hfirst, hother, hself⟩ := foldl_reconsider params p s.mapBlockIndex s
  obtain ⟨hsecond, hother'⟩ := clearAncestors_spec params p
    (s.mapBlockIndex.foldl (reconsider params p) s)
  refine ⟨hfirst.trans hsecond, fun q hfailed hfine => ?_⟩
  by_cases htop : q ∈ s.mapBlockIndex ∧ p <:+ q
  · refine Or.inr ⟨htop.1, htop.2, fun hcomplete hvalid hbetter => ?_⟩
    exact hsecond.subset ((hself q htop.1 htop.2).2 hfailed hcomplete hvalid hbetter)
  · by_cases hqp : q <:+ p
    · exact Or.inl ⟨hqp, fun heq => htop ⟨heq ▸ hp, heq ▸ suffix_rfl⟩⟩
    · rw [reconsiderBlock, hother' q hqp, hother q (not_and_or.1 htop), hfailed] at hfine
      cases hfine

end ChainState
end BlockTree
end Komodo
