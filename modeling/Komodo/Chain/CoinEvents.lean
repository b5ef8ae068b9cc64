/-
# The writes of a block to the coins map, and undoing them

`ConnectBlock` changes the coins map by single writes to single records: an
input spends an output, a transaction puts its own record, a coin import puts a
tombstone into the record of its burn transaction. `DisconnectBlock` takes them
back one by one. The last two are blind: they do not look at the record they
change, and their undo (`Clear`) forgets it.

`undoAll_of_undoable` and `undoAll_of_not_undoable` say exactly when undoing a
list of writes gives the map back: every blind write must find a pruned record,
or one whose last write was a tombstone, which the undo of that tombstone
clears anyway (`Undoable`).
-/

import Komodo.Chain.Undo

namespace Komodo

open List Function

/-- One record for every txid. -/
abbrev CoinsMap := Uint256 → CCoins

/-- One write of a block to one record. -/
inductive CoinEvent
  | spend (o : COutPoint)
  | create (tx : CTransaction) (nHeight : ℤ)
  | tombstone (burnTxid : Uint256) (nHeight : ℤ)

namespace CoinEvent

/-- The record that is written. -/
def txid : CoinEvent → Uint256
  | .spend o => o.hash
  | .create tx _ => tx.hash
  | .tombstone burnTxid _ => burnTxid

/-- The write does not look at the record. -/
def isBlind : CoinEvent → Bool
  | .spend _ => false
  | _ => true

/-- The write is an import tombstone. -/
def isTombstone : CoinEvent → Bool
  | .tombstone _ _ => true
  | _ => false

/-- The write as `UpdateCoins` makes it, with the undo record of a spend. -/
def apply : CoinEvent → CCoins → Option (CCoins × CTxInUndo)
  | .spend o, c =>
    match c.spendUndo o.n with
    | some (c', undo) => some (c'.cleanup, undo)
    | none => none
  | .create tx nHeight, _ => some ((CCoins.fromTx tx nHeight).cleanup, {})
  | .tombstone _ nHeight, c => some ((c.addTombstone nHeight).cleanup, {})

/-- The write taken back as `DisconnectBlock` does it, with `fClean`. -/
def undo : CoinEvent → CTxInUndo → CCoins → CCoins × Bool
  | .spend o, u, c => ((c.applyTxInUndo u o.n).1.cleanup, (c.applyTxInUndo u o.n).2)
  | .create tx nHeight, _, c => (c.clear.cleanup, c.matchesTx tx nHeight)
  | .tombstone _ _, _, c => (c.clear.cleanup, true)

/-- What the checks on a block promise about its writes: a positive height and
outputs that are not null. -/
def Ok : CoinEvent → Prop
  | .spend _ => True
  | .create tx nHeight => 0 < nHeight ∧ ∀ o ∈ tx.vout, ¬ o.isNull
  | .tombstone _ nHeight => 0 < nHeight

/-- Remember for every record whether its last write was a tombstone. -/
def mark (g : Uint256 → Bool) (e : CoinEvent) : Uint256 → Bool :=
  Function.update g e.txid e.isTombstone

/-- Make writes in order, collecting the undo records. -/
def applyAll : List CoinEvent → CoinsMap → Option (CoinsMap × List CTxInUndo)
  | [], m => some (m, [])
  | e :: es, m =>
    match e.apply (m e.txid) with
    | none => none
    | some (c, undo) =>
      match applyAll es (Function.update m e.txid c) with
      | none => none
      | some (m', undos) => some (m', undo :: undos)

/-- Take writes back, the last one first; the flag is `fClean`. -/
def undoAll : List (CoinEvent × CTxInUndo) → CoinsMap → CoinsMap × Bool
  | [], b => (b, true)
  | (e, u) :: rest, b =>
    let later := undoAll rest b
    let r := e.undo u (later.1 e.txid)
    (Function.update later.1 e.txid r.1, later.2 && r.2)

/-- Every blind write finds a pruned record, or one whose last write was a
tombstone (`g` for the writes before these). -/
def Undoable (g : Uint256 → Bool) (m : CoinsMap) : List CoinEvent → Prop
  | [] => True
  | e :: es =>
    (e.isBlind → (m e.txid).isPruned ∨ g e.txid) ∧
      match e.apply (m e.txid) with
      | none => True
      | some (c, _) => Undoable (mark g e) (Function.update m e.txid c) es

instance decidableUndoable :
    ∀ (g : Uint256 → Bool) (m : CoinsMap) (es : List CoinEvent), Decidable (Undoable g m es)
  | _, _, [] => inferInstanceAs (Decidable True)
  | g, m, e :: es =>
    have : Decidable (match e.apply (m e.txid) with
        | none => True
        | some (c, _) => Undoable (mark g e) (Function.update m e.txid c) es) :=
      match e.apply (m e.txid) with
      | none => inferInstanceAs (Decidable True)
      | some (c, _) => decidableUndoable (mark g e) (Function.update m e.txid c) es
    inferInstanceAs (Decidable (_ ∧ _))

/-! ### Records stay in order -/

end CoinEvent

namespace CCoins

/-- The outputs left by `ClearUnspendable` are not touched by it again. -/
theorem clearUnspendable_clearUnspendable (c : CCoins) :
    c.clearUnspendable.clearUnspendable = c.clearUnspendable := by
  have hmap : ∀ o ∈ c.clearUnspendable.vout,
      (if isUnspendable o.scriptPubKey then CTxOut.null else o) = o := by
    intro o ho
    have hmem := (List.rdropWhile_prefix _ _).subset ho
    obtain ⟨o', -, rfl⟩ := mem_map.1 hmem
    split_ifs with h h' <;> rfl
  have hfix : c.clearUnspendable.vout.map
      (fun o => if isUnspendable o.scriptPubKey then CTxOut.null else o) =
        c.clearUnspendable.vout := by
    conv_rhs => rw [← map_id c.clearUnspendable.vout]
    exact map_congr_left hmap
  have hcl : c.clearUnspendable.cleanup = c.clearUnspendable := cleanup_cleanup _
  conv_lhs => rw [clearUnspendable, hfix]
  exact hcl

theorem isPruned_clearUnspendable {c : CCoins} (hc : c.isPruned) : c.clearUnspendable.isPruned := by
  rw [clearUnspendable, isPruned_cleanup, isPruned, all_map, all_eq_true]
  intro o ho
  rw [isPruned, all_eq_true] at hc
  simp only [comp]
  split_ifs
  · rfl
  · exact hc o ho

/-- The record of a transaction passes the check of `DisconnectBlock` on it. -/
theorem matchesTx_fromTx {tx : CTransaction} {nHeight : ℤ} {c : CCoins}
    (h : c ≈ fromTx tx nHeight) : c.matchesTx tx nHeight = true := by
  unfold matchesTx
  rcases h with ⟨hc, htx⟩ | rfl
  · have hcl := isPruned_clearUnspendable hc
    refine decide_eq_true (eqv_of_isPruned ?_ htx)
    split_ifs <;> exact hcl
  · have hidem : (fromTx tx nHeight).clearUnspendable = fromTx tx nHeight :=
      clearUnspendable_clearUnspendable _
    simp only [hidem]
    refine decide_eq_true ?_
    split_ifs <;> exact Setoid.refl _

theorem matchesTx_of_lost {tx : CTransaction} {nHeight : ℤ} {c : CCoins} (hc : c.isPruned)
    (htx : ¬ (fromTx tx nHeight).isPruned) : c.matchesTx tx nHeight = false := by
  unfold matchesTx
  have hcl := isPruned_clearUnspendable hc
  refine decide_eq_false fun h => htx ?_
  rw [← isPruned_congr h]
  split_ifs <;> exact hcl

end CCoins

theorem RecordOk.cleanup {c : CCoins} (hn : ∀ o ∈ c.vout, o.isNull → o = CTxOut.null)
    (hh : ¬ c.isPruned → c.nHeight ≠ 0) : RecordOk c.cleanup where
  cleaned := CCoins.cleanup_cleanup c
  nulls o ho := hn o ((List.rdropWhile_prefix _ _).subset ho)
  height hp := hh (by rwa [CCoins.isPruned_cleanup] at hp)

namespace CoinEvent

/-- A write to a record in order leaves a record in order. -/
theorem recordOk_apply {e : CoinEvent} (he : e.Ok) {c c' : CCoins} {u : CTxInUndo}
    (hc : RecordOk c) (h : e.apply c = some (c', u)) : RecordOk c' := by
  cases e with
  | spend o =>
    simp only [apply] at h
    split at h
    · rename_i c₁ u₁ hs
      cases h
      obtain ⟨out, hout, hnull, rfl, -⟩ := CCoins.spendUndo_eq_some hs
      rw [CCoins.cleanup_cleanup]
      refine RecordOk.cleanup (fun o' ho' hn' => ?_) fun _ => hc.height fun hp => ?_
      · rcases mem_or_eq_of_mem_set ho' with hmem | rfl
        · exact hc.nulls o' hmem hn'
        · rfl
      · rw [CCoins.isPruned, all_eq_true] at hp
        exact hnull (hp out (mem_of_getElem? hout))
    · cases h
  | create tx nHeight =>
    cases h
    have hcl : (CCoins.fromTx tx nHeight).cleanup = CCoins.fromTx tx nHeight :=
      CCoins.cleanup_cleanup _
    rw [hcl]
    refine RecordOk.cleanup (fun o ho hn => ?_) fun _ => by have := he.1; simp only; omega
    obtain ⟨o', ho', rfl⟩ := mem_map.1 ho
    split_ifs at hn ⊢
    · rfl
    · exact absurd hn (he.2 o' ho')
  | tombstone burn nHeight =>
    cases h
    refine RecordOk.cleanup (fun o ho hn => ?_) fun _ => by
      have : 0 < nHeight := he
      simp only [CCoins.addTombstone]
      omega
    rcases mem_append.1 ho with ho | ho
    · exact hc.nulls o ho hn
    · rw [mem_singleton.1 ho] at hn
      cases hn

/-! ### One write -/

/-- `b` holds the records of `m`, up to `CCoins` equality; a record whose last
write was a tombstone may have been cleared instead. -/
def Tracks (g : Uint256 → Bool) (m b : CoinsMap) : Prop :=
  ∀ txid, b txid ≈ m txid ∨ (g txid ∧ (b txid).isPruned)

/-- `b` has lost a record of `m` whose last write was no tombstone. -/
def Lost (g : Uint256 → Bool) (m b : CoinsMap) : Prop :=
  ∃ txid, ¬ g txid ∧ (b txid).isPruned ∧ ¬ (m txid).isPruned

variable {g : Uint256 → Bool} {m b : CoinsMap} {e : CoinEvent} {c : CCoins} {u : CTxInUndo}

theorem Tracks.at_txid (ht : Tracks (mark g e) (Function.update m e.txid c) b)
    (hne : e.isTombstone = false) : b e.txid ≈ c := by
  rcases ht e.txid with h | ⟨h, -⟩
  · rwa [update_self] at h
  · rw [mark, update_self, hne] at h
    cases h

theorem Tracks.of_txid (ht : Tracks (mark g e) (Function.update m e.txid c) b) {r : CCoins}
    (hr : r ≈ m e.txid ∨ (g e.txid ∧ r.isPruned)) : Tracks g m (Function.update b e.txid r) := by
  intro txid
  by_cases h : txid = e.txid
  · subst h
    rwa [update_self]
  · have hold := ht txid
    rw [mark, update_of_ne h, update_of_ne h] at hold
    rwa [update_of_ne h]

/-- **Taking back a write that `Undoable` allows** is clean and tracks the map
before it. -/
theorem undo_tracks (hm : RecordOk (m e.txid)) (ha : e.apply (m e.txid) = some (c, u))
    (hblind : e.isBlind → (m e.txid).isPruned ∨ g e.txid)
    (ht : Tracks (mark g e) (Function.update m e.txid c) b) :
    (e.undo u (b e.txid)).2 = true ∧
      Tracks g m (Function.update b e.txid (e.undo u (b e.txid)).1) := by
  cases e with
  | spend o =>
    simp only [apply] at ha
    split at ha
    · rename_i c₁ u₁ hs
      cases ha
      have hcl : c₁.cleanup = c₁ := by
        obtain ⟨-, -, -, rfl, -⟩ := CCoins.spendUndo_eq_some hs
        exact CCoins.cleanup_cleanup _
      have hb : b o.hash ≈ c₁ := by
        have := ht.at_txid rfl
        rwa [hcl] at this
      have hundo := CCoins.applyTxInUndo_spendUndo hm hs hb
      simp only [undo, txid, hundo] at hm ⊢
      exact ⟨trivial, ht.of_txid (Or.inl (by rw [hm.cleaned]; exact Setoid.refl _))⟩
    · cases ha
  | create tx nHeight =>
    cases ha
    have hcl : (CCoins.fromTx tx nHeight).cleanup = CCoins.fromTx tx nHeight :=
      CCoins.cleanup_cleanup _
    have hb := ht.at_txid rfl
    rw [hcl] at hb
    refine ⟨CCoins.matchesTx_fromTx hb, ht.of_txid ?_⟩
    rcases hblind rfl with hp | hg
    · exact Or.inl (CCoins.eqv_of_isPruned rfl hp)
    · exact Or.inr ⟨hg, rfl⟩
  | tombstone burn nHeight =>
    refine ⟨rfl, ht.of_txid ?_⟩
    rcases hblind rfl with hp | hg
    · exact Or.inl (CCoins.eqv_of_isPruned rfl hp)
    · exact Or.inr ⟨hg, rfl⟩

theorem undo_blind_lost (hblind : ¬ (e.isBlind → (m e.txid).isPruned ∨ g e.txid)) :
    Lost g m (Function.update b e.txid (e.undo u (b e.txid)).1) := by
  rw [Classical.not_imp, not_or] at hblind
  obtain ⟨hblind, hp, hg⟩ := hblind
  refine ⟨e.txid, hg, ?_, hp⟩
  rw [update_self]
  cases e with
  | spend o => cases hblind
  | create tx nHeight => rfl
  | tombstone burn nHeight => rfl

/-- A lost record stays lost, or a write to it cannot be taken back cleanly. -/
theorem undo_lost (ha : e.apply (m e.txid) = some (c, u))
    (hl : Lost (mark g e) (Function.update m e.txid c) b) :
    (e.undo u (b e.txid)).2 = false ∨
      Lost g m (Function.update b e.txid (e.undo u (b e.txid)).1) := by
  obtain ⟨txid, hg, hb, hm⟩ := hl
  by_cases h : txid = e.txid
  · left
    subst h
    rw [mark, update_self] at hg
    rw [update_self] at hm
    cases e with
    | spend o =>
      simp only [apply] at ha
      split at ha
      · rename_i c₁ u₁ hs
        cases ha
        rw [CCoins.isPruned_cleanup] at hm
        exact CCoins.applyTxInUndo_of_lost hs hm hb
      · cases ha
    | create tx nHeight =>
      cases ha
      rw [CCoins.isPruned_cleanup] at hm
      exact CCoins.matchesTx_of_lost hb hm
    | tombstone burn nHeight => exact absurd rfl hg
  · right
    rw [mark, update_of_ne h] at hg
    rw [update_of_ne h] at hm
    exact ⟨txid, hg, by rwa [update_of_ne h], hm⟩

/-! ### All writes of a block -/

/-- The marks after a list of writes. -/
def markAll (g : Uint256 → Bool) (es : List CoinEvent) : Uint256 → Bool := es.foldl mark g

variable {es : List CoinEvent} {us : List CTxInUndo} {m' : CoinsMap}

theorem applyAll_cons (h : applyAll (e :: es) m = some (m', us)) :
    ∃ c u us', e.apply (m e.txid) = some (c, u) ∧
      applyAll es (Function.update m e.txid c) = some (m', us') ∧ us = u :: us' := by
  simp only [applyAll] at h
  split at h
  · cases h
  · rename_i c u ha
    split at h
    · cases h
    · rename_i m₁ us' hr
      cases h
      exact ⟨c, u, us', ha, hr, rfl⟩

theorem recordOk_update (he : e.Ok) (hm : ∀ txid, RecordOk (m txid))
    (ha : e.apply (m e.txid) = some (c, u)) (txid : Uint256) :
    RecordOk (Function.update m e.txid c txid) := by
  by_cases h : txid = e.txid
  · subst h
    rw [update_self]
    exact recordOk_apply he (hm _) ha
  · rw [update_of_ne h]
    exact hm txid

theorem recordOk_applyAll
    (hes : ∀ e ∈ es, e.Ok) (hm : ∀ txid, RecordOk (m txid)) (h : applyAll es m = some (m', us)) :
    ∀ txid, RecordOk (m' txid) := by
  induction es generalizing m us with
  | nil =>
    cases h
    exact hm
  | cons e es ih =>
    obtain ⟨c, u, us', ha, hr, rfl⟩ := applyAll_cons h
    exact ih (fun e' he' => hes e' (mem_cons_of_mem e he'))
      (recordOk_update (hes e mem_cons_self) hm ha) hr

/-- **Undoing allowed writes restores the map.** -/
theorem undoAll_of_undoable
    (hes : ∀ e ∈ es, e.Ok) (hm : ∀ txid, RecordOk (m txid)) (h : applyAll es m = some (m', us))
    (hu : Undoable g m es) (ht : Tracks (markAll g es) m' b) :
    (undoAll (es.zip us) b).2 = true ∧ Tracks g m (undoAll (es.zip us) b).1 := by
  induction es generalizing g m us with
  | nil =>
    cases h
    exact ⟨rfl, ht⟩
  | cons e es ih =>
    obtain ⟨c, u, us', ha, hr, rfl⟩ := applyAll_cons h
    simp only [Undoable, ha] at hu
    obtain ⟨hclean, htr⟩ := ih (fun e' he' => hes e' (mem_cons_of_mem e he'))
      (recordOk_update (hes e mem_cons_self) hm ha) hr hu.2 ht
    obtain ⟨hclean', htr'⟩ := undo_tracks (hm e.txid) ha hu.1 htr
    simp only [zip_cons_cons, undoAll]
    exact ⟨by rw [hclean, hclean']; rfl, htr'⟩

/-- **Undoing writes that are not allowed loses a record**, or is not clean. -/
theorem undoAll_of_not_undoable
    (hes : ∀ e ∈ es, e.Ok) (hm : ∀ txid, RecordOk (m txid)) (h : applyAll es m = some (m', us))
    (hu : ¬ Undoable g m es) (ht : Tracks (markAll g es) m' b) :
    (undoAll (es.zip us) b).2 = false ∨ Lost g m (undoAll (es.zip us) b).1 := by
  induction es generalizing g m us with
  | nil => exact absurd trivial hu
  | cons e es ih =>
    obtain ⟨c, u, us', ha, hr, rfl⟩ := applyAll_cons h
    simp only [Undoable, ha] at hu
    simp only [zip_cons_cons, undoAll]
    have hok : ∀ e' ∈ es, e'.Ok := fun e' he' => hes e' (mem_cons_of_mem e he')
    have hm₁ := recordOk_update (hes e mem_cons_self) hm ha
    by_cases htail : Undoable (mark g e) (update m e.txid c) es
    · -- the first write is the one that is not allowed
      exact Or.inr (undo_blind_lost fun hblind => hu ⟨hblind, htail⟩)
    · rcases ih hok hm₁ hr htail ht with hclean | hlost
      · exact Or.inl (by rw [hclean]; rfl)
      · rcases undo_lost ha hlost with hclean | hlost'
        · exact Or.inl (by rw [hclean, Bool.and_false])
        · exact Or.inr hlost'

end CoinEvent

end Komodo
