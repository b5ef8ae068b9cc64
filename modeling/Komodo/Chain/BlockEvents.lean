/-
# Connecting and disconnecting as lists of writes

`UpdateCoins` and the transaction loops of `ConnectBlock` and `DisconnectBlock`
written as the lists of their writes to the coins map (`txEvents`,
`blockEvents`): `updateCoins_spec` and `connectTxs_spec` for the way forward,
`disconnectTx_spec` and `disconnectTxs_spec` for the way back. The nullifiers
of the block are set and removed beside them, and those of an accepted block
are new.
-/

import Komodo.Chain.CoinEvents
import Komodo.Chain.ConnectBlock

namespace Komodo

open CoinEvent List Bool

variable {T : ShieldedType → Type}

/-- The outputs a transaction spends. -/
def spendEvents (tx : CTransaction) : List CoinEvent :=
  if tx.isMint then [] else tx.vin.map fun i => .spend i.prevout

/-- The records a transaction puts: its own, and the tombstone of an import. -/
def putEvents (nHeight : ℤ) (tx : CTransaction) : List CoinEvent :=
  .create tx nHeight :: if tx.isCoinImport then [.tombstone tx.burnTxid nHeight] else []

/-- The writes of a transaction to the coins map, in the order of `UpdateCoins`. -/
def txEvents (nHeight : ℤ) (tx : CTransaction) : List CoinEvent :=
  spendEvents tx ++ putEvents nHeight tx

/-- A coin import does not burn itself: its txid is a hash over the burn txid. -/
def NoSelfBurn (tx : CTransaction) : Prop := tx.isCoinImport → tx.burnTxid ≠ tx.hash

/-! ### Lists of writes -/

namespace CoinEvent

theorem applyAll_append {es₁ es₂ : List CoinEvent} {m m₁ m₂ : CoinsMap} {us₁ us₂ : List CTxInUndo}
    (h₁ : applyAll es₁ m = some (m₁, us₁)) (h₂ : applyAll es₂ m₁ = some (m₂, us₂)) :
    applyAll (es₁ ++ es₂) m = some (m₂, us₁ ++ us₂) := by
  induction es₁ generalizing m us₁ with
  | nil =>
    cases h₁
    exact h₂
  | cons e es ih =>
    obtain ⟨c, u, us', ha, hr, rfl⟩ := applyAll_cons h₁
    simp only [cons_append, applyAll, ha, ih hr]

theorem length_of_applyAll {es : List CoinEvent} {m m' : CoinsMap} {us : List CTxInUndo}
    (h : applyAll es m = some (m', us)) : us.length = es.length := by
  induction es generalizing m us with
  | nil =>
    cases h
    rfl
  | cons e es ih =>
    obtain ⟨c, u, us', ha, hr, rfl⟩ := applyAll_cons h
    rw [length_cons, length_cons, ih hr]

theorem undoAll_append (l₁ l₂ : List (CoinEvent × CTxInUndo)) (b : CoinsMap) :
    undoAll (l₁ ++ l₂) b =
      ((undoAll l₁ (undoAll l₂ b).1).1, (undoAll l₂ b).2 && (undoAll l₁ (undoAll l₂ b).1).2) := by
  induction l₁ with
  | nil => simp [undoAll]
  | cons p l₁ ih =>
    obtain ⟨e, u⟩ := p
    simp only [cons_append, undoAll, ih, Bool.and_assoc]

end CoinEvent

/-! ### One transaction -/

/-- The input loop of `UpdateCoins` spends its inputs. -/
theorem spendInputs_spec {is : List CTxIn} {m m' : FlatView} {undos : CTxUndo}
    (h : FlatView.spendInputs is m = some (m', undos)) :
    applyAll (is.map fun i => .spend i.prevout) m.coins = some (m'.coins, undos) ∧
      m'.nullifiers = m.nullifiers := by
  induction is generalizing m undos with
  | nil =>
    cases h
    exact ⟨rfl, rfl⟩
  | cons i is ih =>
    simp only [FlatView.spendInputs] at h
    split at h
    · cases h
    · rename_i m₁ u hs
      split at h
      · cases h
      · rename_i m₂ us hr
        obtain ⟨rfl, rfl⟩ := Prod.mk.inj (Option.some.inj h)
        simp only [FlatView.spendInput] at hs
        split at hs
        · rename_i c u' hc
          obtain ⟨rfl, rfl⟩ := Prod.mk.inj (Option.some.inj hs)
          obtain ⟨hall, hnull⟩ := ih hr
          refine ⟨?_, hnull⟩
          simp only [map_cons, applyAll, apply, txid, hc]
          have hall' : applyAll (is.map fun i => .spend i.prevout)
              (Function.update m.coins i.prevout.hash c.cleanup) = some (m₂.coins, us) := hall
          rw [hall']
        · cases hs

/-- The nullifiers of a map after those of a transaction were set to `spent`. -/
def setTxNullifiers (tx : CTransaction) (spent : Bool) (n : ShieldedType → Uint256 → Bool) :
    ShieldedType → Uint256 → Bool :=
  fun s nf => if nf ∈ tx.nullifiers s then spent else n s nf

/-- The undo records of the puts, which are not used. -/
def putUndos (tx : CTransaction) : List CTxInUndo := {} :: if tx.isCoinImport then [{}] else []

/-- The puts of `UpdateCoins`, as one change of the map. -/
theorem applyAll_putEvents (tx : CTransaction) (nHeight : ℤ) (m : FlatView) :
    applyAll (putEvents nHeight tx) m.coins =
      some ((if tx.isCoinImport then
          (m.step (.modifyCoins tx.hash fun _ => CCoins.fromTx tx nHeight)).step
            (.modifyCoins tx.burnTxid (CCoins.addTombstone nHeight))
        else m.step (.modifyCoins tx.hash fun _ => CCoins.fromTx tx nHeight)).coins,
        putUndos tx) := by
  unfold putEvents putUndos
  split_ifs <;> rfl

variable {tx : CTransaction}

/-- **`UpdateCoins` makes the writes of its transaction** and sets its
nullifiers; the undo data is that of the spends. -/
theorem updateCoins_spec {nHeight : ℤ} {m m' : FlatView} {undo : CTxUndo}
    (h : m.updateCoins tx nHeight = some (m', undo)) :
    applyAll (txEvents nHeight tx) m.coins = some (m'.coins, undo ++ putUndos tx) ∧
      undo.length = (spendEvents tx).length ∧
      m'.nullifiers = setTxNullifiers tx true m.nullifiers := by
  unfold FlatView.updateCoins at h
  split at h
  · cases h
  · rename_i m₁ undo₁ hs
    obtain ⟨rfl, rfl⟩ := Prod.mk.inj (Option.some.inj h)
    obtain ⟨hall, hnull⟩ : applyAll (spendEvents tx) m.coins = some (m₁.coins, undo₁) ∧
        m₁.nullifiers = m.nullifiers := by
      unfold spendEvents
      split_ifs at hs ⊢ with hmint
      · cases hs
        exact ⟨rfl, rfl⟩
      · exact spendInputs_spec hs
    refine ⟨?_, length_of_applyAll hall, ?_⟩
    · exact applyAll_append hall (applyAll_putEvents tx nHeight (m₁.step (.setNullifiers tx true)))
    · rw [← hnull]
      split_ifs <;> rfl

/-- The input loop of `DisconnectBlock` takes the spends back. -/
theorem restoreInputs_spec (l : List (CTxIn × CTxInUndo)) (m : FlatView) :
    undoAll (l.map fun p => (.spend p.1.prevout, p.2)) m.coins =
        ((FlatView.restoreInputs l m).1.coins, (FlatView.restoreInputs l m).2) ∧
      (FlatView.restoreInputs l m).1.nullifiers = m.nullifiers := by
  induction l with
  | nil => exact ⟨rfl, rfl⟩
  | cons p l ih =>
    obtain ⟨i, u⟩ := p
    simp only [map_cons, undoAll, ih.1]
    exact ⟨rfl, ih.2⟩

/-- The puts taken back in the order of `DisconnectBlock`: the own record of
the transaction first, then the tombstone. -/
theorem undoAll_putEvents (hself : NoSelfBurn tx) (nHeight : ℤ)
    (m : FlatView) :
    undoAll ((putEvents nHeight tx).zip (putUndos tx)) m.coins =
      ((if tx.isCoinImport then
          (m.step (.modifyCoins tx.hash CCoins.clear)).step
            (.modifyCoins tx.burnTxid CCoins.clear)
        else m.step (.modifyCoins tx.hash CCoins.clear)).coins,
        (m.coins tx.hash).matchesTx tx nHeight) := by
  unfold putEvents putUndos
  split_ifs with himp
  · have hne := hself himp
    simp only [zip_cons_cons, zip_nil_right, undoAll, undo, txid, Bool.true_and,
      FlatView.step, FlatView.setCoins, Function.update_of_ne hne.symm, CCoins.clear]
    rw [Function.update_comm hne]
  · simp [undoAll, undo, txid, FlatView.step, FlatView.setCoins]

/-- **The body of `DisconnectBlock` takes the writes of its transaction back**
and its nullifiers. -/
theorem disconnectTx_spec (hself : NoSelfBurn tx) (nHeight : ℤ)
    {undo : CTxUndo} (hlen : undo.length = (spendEvents tx).length) (m : FlatView) :
    ∃ m', m.disconnectTx tx undo nHeight =
        some (m', (undoAll ((txEvents nHeight tx).zip (undo ++ putUndos tx)) m.coins).2) ∧
      m'.coins = (undoAll ((txEvents nHeight tx).zip (undo ++ putUndos tx)) m.coins).1 ∧
      m'.nullifiers = setTxNullifiers tx false m.nullifiers := by
  have hput := undoAll_putEvents hself nHeight m
  rw [txEvents, zip_append hlen.symm, undoAll_append, hput]
  unfold FlatView.disconnectTx
  unfold spendEvents at hlen ⊢
  cases hmint : tx.isMint with
  | true =>
    simp only [Bool.not_true, Bool.false_eq_true, if_false, if_true, zip_nil_left, undoAll,
      Bool.and_true]
    split_ifs <;> exact ⟨_, rfl, rfl, rfl⟩
  | false =>
    -- not a mint, so no import: the inputs are restored
    have himp : tx.isCoinImport = false := by
      rw [CTransaction.isMint, or_eq_false_iff] at hmint
      exact hmint.1
    simp only [hmint, himp, Bool.not_false, Bool.false_eq_true, if_false, if_true,
      length_map] at hlen ⊢
    have hres := restoreInputs_spec (tx.vin.zip undo)
      ((m.step (.modifyCoins tx.hash CCoins.clear)).step (.setNullifiers tx false))
    have hzip : (tx.vin.map fun i => CoinEvent.spend i.prevout).zip undo =
        (tx.vin.zip undo).map fun p => (.spend p.1.prevout, p.2) := by
      rw [zip_map_left]
      rfl
    have hcoins : ((m.step (.modifyCoins tx.hash CCoins.clear)).step (.setNullifiers tx false)).coins
        = (m.step (.modifyCoins tx.hash CCoins.clear)).coins := rfl
    rw [hcoins] at hres
    rw [if_neg (not_not.2 hlen), hzip, hres.1]
    exact ⟨_, rfl, rfl, hres.2⟩

/-! ### The transactions of a block -/

/-- The writes of a list of transactions to the coins map. -/
def blockEvents (nHeight : ℤ) (txs : List CTransaction) : List CoinEvent :=
  txs.flatMap (txEvents nHeight)

/-- The undo records of the writes of a list of transactions. -/
def blockUndos : List CTransaction → List CTxUndo → List CTxInUndo
  | tx :: txs, undo :: undos => (undo ++ putUndos tx) ++ blockUndos txs undos
  | _, _ => []

/-- The nullifiers that a list of transactions reveals. -/
def revealed (txs : List CTransaction) (s : ShieldedType) (nf : Uint256) : Bool :=
  txs.any fun tx => decide (nf ∈ tx.nullifiers s)

/-- The undo data of a list of transactions has the right shape. -/
def UndosFit : List CTransaction → List CTxUndo → Prop
  | [], [] => True
  | tx :: txs, undo :: undos => undo.length = (spendEvents tx).length ∧ UndosFit txs undos
  | _, _ => False

theorem UndosFit.length_eq {txs : List CTransaction} {undos : List CTxUndo}
    (h : UndosFit txs undos) : undos.length = txs.length := by
  induction txs generalizing undos with
  | nil =>
    cases undos with
    | nil => rfl
    | cons => exact h.elim
  | cons tx txs ih =>
    cases undos with
    | nil => exact h.elim
    | cons u us => rw [length_cons, length_cons, ih h.2]

theorem length_txEvents (nHeight : ℤ) {undo : CTxUndo}
    (h : undo.length = (spendEvents tx).length) :
    (txEvents nHeight tx).length = (undo ++ putUndos tx).length := by
  rw [txEvents, length_append, length_append, h, putEvents, putUndos]
  split_ifs <;> rfl

section Connect

variable [∀ s, MerkleTree (T s)] {params : ConnectParams} {fScriptChecks : Bool}
  {v : ChainView T} {nHeight : ℤ}

/-- The nullifiers of a joinsplit that meets the requirements are new. -/
theorem haveJoinSplits_nullifiers {m : FlatView} {jss : List JSDescription}
    {im : Dict Uint256 (T .sprout)} (h : v.haveJoinSplits m jss im = true) {nf : Uint256}
    (hnf : nf ∈ jss.flatMap JSDescription.nullifiers) : m.nullifiers .sprout nf = false := by
  induction jss generalizing im with
  | nil => simp at hnf
  | cons js jss ih =>
    simp only [ChainView.haveJoinSplits] at h
    split_ifs at h with hany
    rw [flatMap_cons, mem_append] at hnf
    rcases hnf with hnf | hnf
    · rw [any_eq_true, not_exists] at hany
      exact eq_false_iff.2 fun ht => hany nf ⟨hnf, ht⟩
    · split at h
      · cases h
      · split at h
        · cases h
        · exact ih h hnf

variable {st st' : ConnectState T} {tx : CTransaction}

/-- A transaction that `ConnectBlock` accepts reveals only new nullifiers. -/
theorem connectTx_nullifiers (htx : checkTransaction params tx)
    {undo : CTxUndo}
    (h : connectTx params fScriptChecks v nHeight tx st = some (st', undo)) {s : ShieldedType}
    {nf : Uint256} (hnf : nf ∈ tx.nullifiers s) : st.map.nullifiers s nf = false := by
  unfold connectTx at h
  split_ifs at h with hreq
  by_cases hmint : tx.isMint
  · -- a mint has no joinsplits and no shielded spends
    simp only [checkTransaction, hmint, if_true, and_eq_true, List.isEmpty_iff] at htx
    obtain ⟨⟨-, ⟨⟨hjs, hsp⟩, -⟩, -⟩, -⟩ := htx
    cases s <;> simp [CTransaction.nullifiers, hjs, hsp] at hnf
  · simp only [hmint, Bool.not_false, Bool.true_and, Bool.not_eq_true', Bool.not_eq_false,
      and_eq_true] at hreq
    simp only [ChainView.haveJoinSplitRequirements, and_eq_true] at hreq
    obtain ⟨-, hjs, hsp⟩ := hreq
    cases s with
    | sprout => exact haveJoinSplits_nullifiers hjs hnf
    | sapling =>
      obtain ⟨sd, hsd, rfl⟩ := mem_map.1 hnf
      have := all_eq_true.1 hsp sd hsd
      rw [and_eq_true, not_eq_true'] at this
      exact this.1

/-- An accepted transaction went through `UpdateCoins`. -/
theorem connectTx_updateCoins {undo : CTxUndo}
    (h : connectTx params fScriptChecks v nHeight tx st = some (st', undo)) :
    st.map.updateCoins tx nHeight = some (st'.map, undo) := by
  unfold connectTx at h
  split_ifs at h
  split at h
  · cases h
  · rename_i m u hup
    split at h
    · cases h
      exact hup
    · cases h

theorem connectTxs_cons {txs : List CTransaction}
    {undos : List CTxUndo}
    (h : connectTxs params fScriptChecks v nHeight (tx :: txs) st = some (st', undos)) :
    ∃ st₁ u us, connectTx params fScriptChecks v nHeight tx st = some (st₁, u) ∧
      connectTxs params fScriptChecks v nHeight txs st₁ = some (st', us) ∧ undos = u :: us := by
  simp only [connectTxs] at h
  split at h
  · cases h
  · rename_i st₁ u h₁
    split at h
    · cases h
    · rename_i st₂ us h₂
      cases h
      exact ⟨st₁, u, us, h₁, h₂, rfl⟩

/-- **The transaction loop of `ConnectBlock`** makes the writes of the block and
sets its nullifiers, all of them new. -/
theorem connectTxs_spec {txs : List CTransaction} (htxs : ∀ tx ∈ txs, checkTransaction params tx)
    {undos : List CTxUndo}
    (h : connectTxs params fScriptChecks v nHeight txs st = some (st', undos)) :
    applyAll (blockEvents nHeight txs) st.map.coins = some (st'.map.coins, blockUndos txs undos) ∧
      UndosFit txs undos ∧
      (∀ s nf, st'.map.nullifiers s nf = (revealed txs s nf || st.map.nullifiers s nf)) ∧
      ∀ s nf, revealed txs s nf = true → st.map.nullifiers s nf = false := by
  induction txs generalizing st undos with
  | nil =>
    cases h
    exact ⟨rfl, trivial, fun _ _ => rfl, fun _ _ hr => by cases hr⟩
  | cons tx txs ih =>
    obtain ⟨st₁, u, us, h₁, h₂, rfl⟩ := connectTxs_cons h
    obtain ⟨hall, hlen, hnull⟩ := updateCoins_spec (connectTx_updateCoins h₁)
    obtain ⟨hall', hfit, hnull', hnew⟩ :=
      ih (fun tx' htx' => htxs tx' (mem_cons_of_mem tx htx')) h₂
    refine ⟨applyAll_append hall hall', ⟨hlen, hfit⟩, fun s nf => ?_, fun s nf hr => ?_⟩
    · rw [hnull' s nf, hnull, setTxNullifiers]
      by_cases hmem : nf ∈ tx.nullifiers s <;> simp [revealed, hmem]
    · by_cases hmem : nf ∈ tx.nullifiers s
      · exact connectTx_nullifiers (htxs tx mem_cons_self) h₁ hmem
      · have hr' : revealed txs s nf = true := by
          simpa [revealed, hmem] using hr
        have := hnew s nf hr'
        rwa [hnull, setTxNullifiers, if_neg hmem] at this

end Connect

/-- **The transaction loop of `DisconnectBlock`** takes the writes of the block
back and removes its nullifiers. -/
theorem disconnectTxs_spec {txs : List CTransaction} (hself : ∀ tx ∈ txs, NoSelfBurn tx)
    (nHeight : ℤ) {undos : List CTxUndo} (hfit : UndosFit txs undos) (m : FlatView) :
    ∃ m', disconnectTxs nHeight (txs.zip undos) m =
        some (m', (undoAll ((blockEvents nHeight txs).zip (blockUndos txs undos)) m.coins).2) ∧
      m'.coins = (undoAll ((blockEvents nHeight txs).zip (blockUndos txs undos)) m.coins).1 ∧
      ∀ s nf, m'.nullifiers s nf = (!revealed txs s nf && m.nullifiers s nf) := by
  induction txs generalizing undos with
  | nil =>
    cases undos with
    | nil => exact ⟨m, rfl, rfl, fun s nf => by simp [revealed]⟩
    | cons => exact hfit.elim
  | cons tx txs ih =>
    cases undos with
    | nil => exact hfit.elim
    | cons u us =>
      obtain ⟨m₁, hdis, hcoins, hnull⟩ :=
        ih (fun tx' h' => hself tx' (mem_cons_of_mem tx h')) hfit.2
      obtain ⟨m₂, hdis', hcoins', hnull'⟩ :=
        disconnectTx_spec (hself tx mem_cons_self) nHeight hfit.1 m₁
      have hzip : (blockEvents nHeight (tx :: txs)).zip (blockUndos (tx :: txs) (u :: us)) =
          (txEvents nHeight tx).zip (u ++ putUndos tx) ++
            (blockEvents nHeight txs).zip (blockUndos txs us) := by
        rw [blockEvents, flatMap_cons, blockUndos, zip_append (length_txEvents nHeight hfit.1)]
        rfl
      rw [hzip, undoAll_append, ← hcoins]
      refine ⟨m₂, ?_, hcoins', fun s nf => ?_⟩
      · simp only [zip_cons_cons, disconnectTxs, hdis, hdis']
      · rw [hnull', setTxNullifiers, hnull]
        by_cases hmem : nf ∈ tx.nullifiers s <;> simp [revealed, hmem]

end Komodo
