/-
# How often a burn transaction is imported

A coin import has no input to spend, and only the tombstone that
`AddImportTombstone` puts into the record of its burn transaction tells that it
happened. `AcceptToMemoryPool` refuses an import whose tombstone exists
(`ExistsImportTombstone`); `ConnectBlock` and `Eval::ImportCoin` do not ask, so
a chain may hold two imports of one burn transaction (`burn_imported_twice`).

`burn_imported_once` is what the tombstone would give: on every chain on which
each import finds no record of its burn transaction, and nothing spends or
overwrites a tombstone, each burn transaction is imported at most once.
-/

import Komodo.Chain.Reorg

namespace Komodo

open List Function

variable {T : ShieldedType → Type} [∀ s, MerkleTree (T s)]

/-- The output that `AddImportTombstone` appends. -/
def tombstoneOut : CTxOut := ⟨0, [OP_0]⟩

/-- The record holds a tombstone. -/
def CCoins.HasTombstone (c : CCoins) : Prop := ∃ n : ℕ, c.vout[n]? = some tombstoneOut

theorem CCoins.not_hasTombstone_of_nil {c : CCoins} (h : c.vout = []) : ¬ c.HasTombstone := by
  rintro ⟨n, hn⟩
  rw [h] at hn
  cases hn

/-- `CCoinsViewCache::HaveCoins`, and so `ExistsImportTombstone`. -/
def FlatView.haveCoins (m : FlatView) (txid : Uint256) : Bool := !(m.coins txid).vout.isEmpty

/-- Connect blocks one after the other. -/
def connectChain (params : ConnectParams) :
    List CBlock → ChainView T × CBlockIndex → Option (ChainView T × CBlockIndex)
  | [], s => some s
  | block :: blocks, (v, pprev) =>
    match connectBlock params v pprev block with
    | none => none
    | some (v', _) =>
      connectChain params blocks
        (v', ⟨block.hash, pprev.nHeight + 1, block.hashFinalSaplingRoot⟩)

/-- The burn transactions that the transactions import, in order. -/
def txBurns (txs : List CTransaction) : List Uint256 :=
  (txs.filter CTransaction.isCoinImport).map CTransaction.burnTxid

/-- The burn transactions imported by the blocks of a chain, in order. -/
def importedBurns (blocks : List CBlock) : List Uint256 :=
  blocks.flatMap fun block => txBurns block.vtx

/-! ### The condition on a step -/

/-- What a transaction should find at its turn: an import no coins of its burn
transaction, an input no tombstone to spend (unless its script is checked), and
a new record no tombstone to overwrite. -/
structure TxGuarded (fScriptChecks : Bool) (m : FlatView) (tx : CTransaction) : Prop where
  noImport : tx.isCoinImport → m.haveCoins tx.burnTxid = false
  noSpend : fScriptChecks = false → ¬ tx.isMint →
    ∀ i ∈ tx.vin, (m.coins i.prevout.hash).vout[i.prevout.n]? ≠ some tombstoneOut
  noOverwrite : ¬ (m.coins tx.hash).HasTombstone

/-- Every transaction of a list finds what it should, one after the other. -/
def TxsGuarded (fScriptChecks : Bool) (nHeight : ℤ) : List CTransaction → FlatView → Prop
  | [], _ => True
  | tx :: txs, m =>
    TxGuarded fScriptChecks m tx ∧
      ∀ m' undo, m.updateCoins tx nHeight = some (m', undo) →
        TxsGuarded fScriptChecks nHeight txs m'

/-- Every transaction of a chain finds what it should. -/
def ChainGuarded (params : ConnectParams) : List CBlock → ChainView T × CBlockIndex → Prop
  | [], _ => True
  | block :: blocks, (v, pprev) =>
    TxsGuarded (params.fExpensiveChecks block) (pprev.nHeight + 1 : ℕ) block.vtx v.toFlatView ∧
      ∀ v' undo, connectBlock params v pprev block = some (v', undo) →
        ChainGuarded params blocks
          (v', ⟨block.hash, pprev.nHeight + 1, block.hashFinalSaplingRoot⟩)

/-! ### Tombstones stay -/

/-- `Cleanup` keeps every output that is not spent, in its place. -/
theorem CCoins.cleanup_getElem? {c : CCoins} {n : ℕ} {o : CTxOut} (ho : o.isNull = false) :
    c.cleanup.vout[n]? = some o ↔ c.vout[n]? = some o := by
  have happ := rdropWhile_append_rtakeWhile (p := CTxOut.isNull) (l := c.vout)
  have hv : c.cleanup.vout = c.vout.rdropWhile CTxOut.isNull := rfl
  rw [hv]
  constructor
  · intro h
    rw [← happ]
    exact List.getElem?_append_left (List.getElem?_eq_some_iff.1 h).1 ▸ h
  · intro h
    rw [← happ, getElem?_append] at h
    split_ifs at h with hlt
    · exact h
    · have hnull := mem_rtakeWhile_imp (mem_of_getElem? h)
      rw [ho] at hnull
      cases hnull

theorem tombstoneOut_not_isNull : tombstoneOut.isNull = false := rfl

/-- A spend takes only the output it names. -/
theorem CCoins.spendUndo_keeps {c c' : CCoins} {n k : ℕ} {u : CTxInUndo}
    (h : c.spendUndo n = some (c', u)) :
    (k ≠ n → c.vout[k]? = some tombstoneOut → c'.cleanup.vout[k]? = some tombstoneOut) ∧
      (c'.cleanup.vout[k]? = some tombstoneOut → c.vout[k]? = some tombstoneOut) := by
  obtain ⟨out, -, -, rfl, -⟩ := CCoins.spendUndo_eq_some h
  rw [CCoins.cleanup_cleanup, CCoins.cleanup_getElem? tombstoneOut_not_isNull]
  constructor
  · intro hk hc
    simp only [getElem?_set_ne (Ne.symm hk)]
    exact hc
  · intro hc
    by_cases hk : n = k
    · subst hk
      rw [getElem?_set_self'] at hc
      cases hn : c.vout[n]? with
      | none => simp [hn] at hc
      | some o =>
        rw [hn] at hc
        cases hc
    · simpa only [getElem?_set_ne hk] using hc

variable {undo : CTxUndo}

/-- Inputs that spend no tombstone leave every tombstone in place. -/
theorem spendInputs_tombstone {is : List CTxIn} {m m' : FlatView}
    (hno : ∀ i ∈ is, (m.coins i.prevout.hash).vout[i.prevout.n]? ≠ some tombstoneOut)
    (h : FlatView.spendInputs is m = some (m', undo)) {b : Uint256}
    (hb : (m.coins b).HasTombstone) : (m'.coins b).HasTombstone := by
  induction is generalizing m undo with
  | nil =>
    cases h
    exact hb
  | cons i is ih =>
    simp only [FlatView.spendInputs] at h
    split at h
    · cases h
    rename_i m₁ u hs
    split at h
    · cases h
    rename_i m₂ us hr
    cases h
    simp only [FlatView.spendInput] at hs
    split at hs
    · rename_i c u' hc
      cases hs
      refine ih (fun j hj => ?_) hr ?_
      · -- the outputs of the later inputs were there before
        have hj' := hno j (mem_cons_of_mem i hj)
        simp only [FlatView.setCoins]
        by_cases hh : j.prevout.hash = i.prevout.hash
        · rw [hh, update_self]
          exact fun ht => hj' (by rw [hh]; exact (CCoins.spendUndo_keeps hc).2 ht)
        · rw [update_of_ne hh]
          exact hj'
      · simp only [FlatView.setCoins]
        by_cases hh : b = i.prevout.hash
        · subst hh
          obtain ⟨k, hk⟩ := hb
          rw [update_self]
          refine ⟨k, (CCoins.spendUndo_keeps hc).1 ?_ hk⟩
          rintro rfl
          exact hno i mem_cons_self hk
        · rw [update_of_ne hh]
          exact hb
    · cases hs

variable {fScriptChecks : Bool} {tx : CTransaction} {nHeight : ℤ}

/-- `UpdateCoins` of a guarded transaction keeps every tombstone, and an import
adds its own. -/
theorem updateCoins_tombstone {m m' : FlatView}
    (hg : TxGuarded fScriptChecks m tx)
    (hno : ¬ tx.isMint →
      ∀ i ∈ tx.vin, (m.coins i.prevout.hash).vout[i.prevout.n]? ≠ some tombstoneOut)
    (h : m.updateCoins tx nHeight = some (m', undo)) :
    (∀ b, (m.coins b).HasTombstone → (m'.coins b).HasTombstone) ∧
      (tx.isCoinImport → (m'.coins tx.burnTxid).HasTombstone) := by
  have hput : ∀ c : CCoins, (c.addTombstone nHeight).cleanup.HasTombstone := fun c =>
    ⟨c.vout.length, (CCoins.cleanup_getElem? tombstoneOut_not_isNull).2 (by
      simp [CCoins.addTombstone, tombstoneOut])⟩
  unfold FlatView.updateCoins at h
  split at h
  · cases h
  rename_i m₁ undo₁ hs
  cases h
  have hspent : ∀ b, (m.coins b).HasTombstone → (m₁.coins b).HasTombstone := by
    intro b hb
    split_ifs at hs with hmint
    · cases hs
      exact hb
    · exact spendInputs_tombstone (hno hmint) hs hb
  -- the own record of the transaction held no tombstone, the others are kept
  have hown : ∀ b, (m.coins b).HasTombstone →
      (((m₁.step (.setNullifiers tx true)).step
        (.modifyCoins tx.hash fun _ => CCoins.fromTx tx nHeight)).coins b).HasTombstone := by
    intro b hb
    have hne : b ≠ tx.hash := by
      rintro rfl
      exact hg.noOverwrite hb
    simp only [FlatView.step, FlatView.setCoins, update_of_ne hne]
    exact hspent b hb
  split_ifs with himp
  · refine ⟨fun b hb => ?_, fun _ => ?_⟩
    · have hb' := hown b hb
      simp only [FlatView.step, FlatView.setCoins] at hb' ⊢
      by_cases hbb : b = tx.burnTxid
      · subst hbb
        rw [update_self]
        exact hput _
      · rw [update_of_ne hbb]
        exact hb'
    · simp only [FlatView.step, FlatView.setCoins, update_self]
      exact hput _
  · exact ⟨hown, fun hi => absurd hi himp⟩

/-! ### Whole chains -/

/-- `VerifyScript` fails on a tombstone: `OP_0` leaves a false value on top of
the stack, whatever the input pushed. -/
def TombstoneUnspendable (params : ConnectParams) : Prop :=
  ∀ tx i, params.verifyScript tx i tombstoneOut = false

/-- A map holds a tombstone for each burn transaction of a list without
repetitions: what a chain that imported them has left. -/
structure Imported (m : FlatView) (burns : List Uint256) : Prop where
  nodup : burns.Nodup
  tombstone : ∀ b ∈ burns, (m.coins b).HasTombstone

variable {params : ConnectParams}

variable {v : ChainView T} {st st' : ConnectState T}

/-- An accepted, guarded transaction spends no tombstone. -/
theorem connectTx_noSpend (hscript : TombstoneUnspendable params)
    (hg : TxGuarded fScriptChecks st.map tx)
    (h : connectTx params fScriptChecks v nHeight tx st = some (st', undo)) (hmint : ¬ tx.isMint) :
    ∀ i ∈ tx.vin, (st.map.coins i.prevout.hash).vout[i.prevout.n]? ≠ some tombstoneOut := by
  intro i hi hout
  cases hfs : fScriptChecks with
  | false => exact hg.noSpend hfs hmint i hi hout
  | true =>
    unfold connectTx at h
    split_ifs at h with hreq hctx
    simp only [contextualCheckInputs, hmint, hfs, Bool.false_or, Bool.not_true, Bool.not_eq_true',
      Bool.not_eq_false, Bool.and_eq_true, all_eq_true] at hctx
    have hver := hctx.1.2 i hi
    simp only [hout] at hver
    rw [hscript tx i] at hver
    cases hver

variable {burns : List Uint256}

/-- One accepted, guarded transaction. -/
theorem connectTx_imported (hscript : TombstoneUnspendable params)
    (hg : TxGuarded fScriptChecks st.map tx)
    (h : connectTx params fScriptChecks v nHeight tx st = some (st', undo))
    (hb : Imported st.map burns) : Imported st'.map (burns ++ txBurns [tx]) := by
  obtain ⟨hkeep, hown⟩ :=
    updateCoins_tombstone hg (connectTx_noSpend hscript hg h) (connectTx_updateCoins h)
  cases himp : tx.isCoinImport with
  | false =>
    have hnil : txBurns [tx] = [] := by simp [txBurns, himp]
    rw [hnil, append_nil]
    exact ⟨hb.nodup, fun b hmem => hkeep b (hb.tombstone b hmem)⟩
  | true =>
    have hone : txBurns [tx] = [tx.burnTxid] := by simp [txBurns, himp]
    -- a burn transaction that was imported has coins, and this one has none
    have hfresh : tx.burnTxid ∉ burns := by
      intro hmem
      have hno := hg.noImport himp
      rw [FlatView.haveCoins, Bool.not_eq_false', List.isEmpty_iff] at hno
      exact CCoins.not_hasTombstone_of_nil hno (hb.tombstone _ hmem)
    rw [hone]
    refine ⟨nodup_append.2 ⟨hb.nodup, nodup_singleton _, ?_⟩, fun b hmem => ?_⟩
    · intro a ha c hc hac
      rw [mem_singleton.1 hc] at hac
      exact hfresh (hac ▸ ha)
    · rcases mem_append.1 hmem with hmem | hmem
      · exact hkeep b (hb.tombstone b hmem)
      · rw [mem_singleton.1 hmem]
        exact hown himp

/-- The transaction loop of an accepted, guarded block. -/
theorem connectTxs_imported (hscript : TombstoneUnspendable params)
    {txs : List CTransaction}
    {undos : List CTxUndo} (hg : TxsGuarded fScriptChecks nHeight txs st.map)
    (h : connectTxs params fScriptChecks v nHeight txs st = some (st', undos))
    (hb : Imported st.map burns) :
    Imported st'.map (burns ++ txBurns txs) := by
  induction txs generalizing st undos burns with
  | nil =>
    cases h
    simpa [txBurns] using hb
  | cons tx txs ih =>
    obtain ⟨st₁, u, us, h₁, h₂, rfl⟩ := connectTxs_cons h
    have hb₁ := connectTx_imported hscript hg.1 h₁ hb
    have hb₂ := ih (hg.2 _ _ (connectTx_updateCoins h₁)) h₂ hb₁
    have happ : burns ++ txBurns (tx :: txs) = burns ++ txBurns [tx] ++ txBurns txs := by
      rw [append_assoc]
      unfold txBurns
      rw [← map_append, ← filter_append]
      rfl
    rwa [happ]

/-- The blocks of an accepted, guarded chain. -/
theorem connectChain_imported (hscript : TombstoneUnspendable params) {blocks : List CBlock}
    {pprev : CBlockIndex} {s : ChainView T × CBlockIndex}
    (hg : ChainGuarded params blocks (v, pprev))
    (h : connectChain params blocks (v, pprev) = some s)
    (hb : Imported v.toFlatView burns) :
    Imported s.1.toFlatView (burns ++ importedBurns blocks) := by
  induction blocks generalizing v pprev burns with
  | nil =>
    cases h
    simpa [importedBurns] using hb
  | cons block blocks ih =>
    simp only [connectChain] at h
    split at h
    · cases h
    rename_i v' undo hconn
    obtain ⟨-, -, -, sprout, sapling, st, undos, -, htxs, hv', -⟩ := connectBlock_spec hconn
    have hmap : v'.toFlatView = st.map := by
      rw [hv']
      exact v.pushAnchors_toFlatView st.map st.sproutTree st.saplingTree
    have hb₁ : Imported v'.toFlatView (burns ++ txBurns block.vtx) := by
      rw [hmap]
      exact connectTxs_imported hscript hg.1 htxs hb
    have hb₂ := ih (hg.2 v' undo hconn) h hb₁
    rwa [append_assoc] at hb₂

/-- **Each burn transaction is imported at most once** on every chain built by
`ConnectBlock` on which every import finds no coins of its burn transaction, as
`AcceptToMemoryPool` asks, and no tombstone is spent without a script check or
overwritten by a transaction of the same txid. -/
theorem burn_imported_once (hscript : TombstoneUnspendable params) {blocks : List CBlock}
    {pprev : CBlockIndex} {s : ChainView T × CBlockIndex}
    (hg : ChainGuarded params blocks (v, pprev))
    (h : connectChain params blocks (v, pprev) = some s) : (importedBurns blocks).Nodup :=
  (connectChain_imported hscript hg h ⟨nodup_nil, by simp⟩).nodup

theorem tombstoneUnspendable_openParams : TombstoneUnspendable openParams := by
  intro tx i
  rfl

/-- The hypotheses of `burn_imported_once` are satisfiable: on a chain without
records, a block with one import. -/
theorem burn_imported_once_single :
    ChainGuarded openParams [importBlock] (viewWith {}, index9) ∧
      (∃ s, connectChain openParams [importBlock] (viewWith {}, index9) = some s) ∧
      (importedBurns [importBlock]).Nodup := by
  have hg : ChainGuarded openParams [importBlock] (viewWith {}, index9) := by
    refine ⟨⟨⟨fun h => absurd h (by decide), fun h => absurd h (by decide), ?_⟩,
      fun m undo hm => ⟨⟨fun _ => ?_, fun h => absurd h (by decide), ?_⟩, fun _ _ _ => trivial⟩⟩,
      fun _ _ _ => trivial⟩
    · exact CCoins.not_hasTombstone_of_nil rfl
    · obtain rfl : _ = m := congrArg Prod.fst (Option.some.inj hm)
      rfl
    · obtain rfl : _ = m := congrArg Prod.fst (Option.some.inj hm)
      exact CCoins.not_hasTombstone_of_nil rfl
  exact ⟨hg, ⟨_, rfl⟩, burn_imported_once tombstoneUnspendable_openParams hg rfl⟩

/-- Block 11: another import of the burn transaction 100, with another expiry
height and so another txid. -/
def importBlock' : CBlock := ⟨11, [{ coinbaseTx with hash := 60 }, importTx 61 21], 0⟩

/-- **A burn transaction can be imported twice.**  Both blocks are accepted one
after the other, and both import the burn transaction 100. -/
theorem burn_imported_twice :
    (∃ s, connectChain openParams [importBlock, importBlock'] (viewWith {}, index9) = some s) ∧
      ¬ (importedBurns [importBlock, importBlock']).Nodup :=
  ⟨⟨_, rfl⟩, by decide⟩

end Komodo
