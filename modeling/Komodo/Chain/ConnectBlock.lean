/-
# Connecting and disconnecting a block

`ConnectBlock` (with `fJustCheck` false and `fCheckPOW` true, as `ConnectTip`
and `VerifyDB` call it), `DisconnectBlock`, the parts of `CheckBlock`,
`CheckTransaction` and `ContextualCheckInputs` that the coins code relies on in
`src/src/main.cpp`, and `HaveJoinSplitRequirements`, `PushAnchor` and
`PopAnchor` of `src/src/coins.cpp`, for a block that has a previous block.

The checks that neither change nor read the coins, the nullifiers or the anchors (proof of work,
scripts, amounts, notarisation payments, the proof of a coin import) are parameters
(`ConnectParams`).
-/

import Komodo.Chain.Undo

namespace Komodo

variable {T : ShieldedType → Type}

/-- `CBlock`: what `ConnectBlock` reads of it. -/
structure CBlock where
  hash : Uint256
  vtx : List CTransaction
  hashFinalSaplingRoot : Uint256
deriving DecidableEq, Repr

/-- `CBlockIndex`: what is read of the index entry of the previous block. -/
structure CBlockIndex where
  hash : Uint256
  nHeight : ℕ
  hashFinalSaplingRoot : Uint256
deriving DecidableEq, Repr

/-- The state a coins view answers for: coins and nullifiers, the anchors of
the two pools, the best anchors and the best block. -/
structure ChainView (T : ShieldedType → Type) extends FlatView where
  anchors (s : ShieldedType) : Uint256 → Option (T s)
  bestAnchor : ShieldedType → Uint256
  bestBlock : Uint256

/-- The checks of `ConnectBlock` that do not touch the chain state. -/
structure ConnectParams where
  /-- `NetworkUpgradeActive(nHeight, consensus, UPGRADE_SAPLING)`. -/
  saplingActive : ℕ → Bool
  /-- `fExpensiveChecks`: the block is not an ancestor of a checkpoint. -/
  fExpensiveChecks : CBlock → Bool
  /-- The rest of `CheckTransaction`. -/
  checkTransactionRest : CTransaction → Bool
  /-- The rest of `CheckBlock` and the notarisation checks before the loop. -/
  checkBlockRest : CBlock → Bool
  /-- Signature operations, amounts and `Consensus::CheckTxInputs`. -/
  checkTxInputs : FlatView → CTransaction → Bool
  /-- `CScriptCheck` of an input against the output it spends. -/
  verifyScript : CTransaction → CTxIn → CTxOut → Bool
  /-- `VerifyCoinImport`: `Eval::ImportCoin` on the import transaction. -/
  verifyCoinImport : CTransaction → Bool
  /-- The checks on the coinbase amount after the loop. -/
  checkReward : CBlock → Bool

/-! ### Checks -/

def checkTransaction (params : ConnectParams) (tx : CTransaction) : Bool :=
  (tx.vout.all fun o => decide (0 ≤ o.nValue)) &&
  decide (tx.vin.map CTxIn.prevout).Nodup &&
  (if tx.isMint then
    tx.vjoinsplit.isEmpty && tx.vShieldedSpend.isEmpty && tx.vShieldedOutput.isEmpty &&
      (tx.vin.all fun i => decide (2 ≤ i.scriptSig.length ∧ i.scriptSig.length ≤ 100))
  else tx.vin.all fun i => !i.prevout.isNull) &&
  params.checkTransactionRest tx

/-- `CheckBlock`: the first transaction is a coinbase and no other one is. -/
def checkBlock (params : ConnectParams) (block : CBlock) : Bool :=
  (match block.vtx with
    | [] => false
    | tx :: txs => tx.isCoinBase && txs.all fun tx' => !tx'.isCoinBase) &&
  block.vtx.all (checkTransaction params) && params.checkBlockRest block

def FlatView.haveInputs (m : FlatView) (tx : CTransaction) : Bool :=
  tx.vin.all fun i => (m.coins i.prevout.hash).isAvailable i.prevout.n

/-- Append note commitments to a tree, `none` when it is full. -/
def appendAll {T : Type} [MerkleTree T] (tree : T) (cms : List Uint256) : Option T :=
  cms.foldlM MerkleTree.append tree

/-- `ContextualCheckInputs` and the checks on values around it. -/
def contextualCheckInputs (params : ConnectParams) (fScriptChecks : Bool) (m : FlatView)
    (tx : CTransaction) : Bool :=
  (tx.isMint || (params.checkTxInputs m tx &&
    (!fScriptChecks || tx.vin.all fun i =>
      match (m.coins i.prevout.hash).vout[i.prevout.n]? with
      | some out => params.verifyScript tx i out
      | none => false))) &&
  (!tx.isCoinImport || params.verifyCoinImport tx)

variable [∀ s, MerkleTree (T s)]

namespace ChainView

/-- The joinsplit loop of `HaveJoinSplitRequirements`; `intermediates` maps the
roots made inside the transaction to their trees. -/
def haveJoinSplits (v : ChainView T) (m : FlatView) :
    List JSDescription → Dict Uint256 (T .sprout) → Bool
  | [], _ => true
  | js :: rest, intermediates =>
    if js.nullifiers.any (m.nullifiers .sprout) then false
    else
      match (intermediates.lookup js.anchor).or (v.anchors .sprout js.anchor) with
      | none => false
      | some tree =>
        match appendAll tree js.commitments with
        | none => false
        | some tree' =>
          let rt := MerkleTree.root tree'
          -- `insert` keeps the tree a root already has
          haveJoinSplits v m rest
            (if (intermediates.lookup rt).isSome then intermediates
             else intermediates.insert rt tree')

/-- `CCoinsViewCache::HaveJoinSplitRequirements`; the nullifiers are those of
the map at that point of the block. -/
def haveJoinSplitRequirements (v : ChainView T) (m : FlatView) (tx : CTransaction) : Bool :=
  v.haveJoinSplits m tx.vjoinsplit ∅ &&
    tx.vShieldedSpend.all fun sd =>
      !m.nullifiers .sapling sd.nullifier && (v.anchors .sapling sd.anchor).isSome

def pushAnchor (v : ChainView T) (s : ShieldedType) (tree : T s) : ChainView T :=
  let newrt := MerkleTree.root tree
  if v.bestAnchor s = newrt then v
  else
    { v with
      anchors := Function.update v.anchors s (Function.update (v.anchors s) newrt (some tree))
      bestAnchor := Function.update v.bestAnchor s newrt }

/-- `CCoinsViewCache::PopAnchor`; `none` is the failed assertion of
`BringBestAnchorIntoCache`. -/
def popAnchor (v : ChainView T) (s : ShieldedType) (newrt : Uint256) : Option (ChainView T) :=
  if v.bestAnchor s = newrt then some v
  else if (v.anchors s (v.bestAnchor s)).isNone then none
  else
    some { v with
      anchors := Function.update v.anchors s
        (Function.update (v.anchors s) (v.bestAnchor s) none)
      bestAnchor := Function.update v.bestAnchor s newrt }

end ChainView

/-! ### `ConnectBlock` -/

/-- What the transaction loop of `ConnectBlock` carries along. -/
structure ConnectState (T : ShieldedType → Type) where
  map : FlatView
  sproutTree : T .sprout
  saplingTree : T .sapling

/-- The body of the transaction loop of `ConnectBlock`. -/
def connectTx (params : ConnectParams) (fScriptChecks : Bool) (v : ChainView T) (nHeight : ℤ)
    (tx : CTransaction) (st : ConnectState T) : Option (ConnectState T × CTxUndo) :=
  if !tx.isMint && !(st.map.haveInputs tx && v.haveJoinSplitRequirements st.map tx) then none
  else if !contextualCheckInputs params fScriptChecks st.map tx then none
  else
    match st.map.updateCoins tx nHeight with
    | none => none
    | some (m, undo) =>
      match appendAll st.sproutTree (tx.vjoinsplit.flatMap JSDescription.commitments),
          appendAll st.saplingTree (tx.vShieldedOutput.map OutputDescription.cm) with
      | some sprout, some sapling => some (⟨m, sprout, sapling⟩, undo)
      | _, _ => none

/-- The transaction loop of `ConnectBlock`. -/
def connectTxs (params : ConnectParams) (fScriptChecks : Bool) (v : ChainView T) (nHeight : ℤ) :
    List CTransaction → ConnectState T → Option (ConnectState T × List CTxUndo)
  | [], st => some (st, [])
  | tx :: txs, st =>
    match connectTx params fScriptChecks v nHeight tx st with
    | none => none
    | some (st₁, undo) =>
      match connectTxs params fScriptChecks v nHeight txs st₁ with
      | none => none
      | some (st₂, undos) => some (st₂, undo :: undos)

/-- `ConnectBlock` on the view `v` for a block after `pprev`: the new view and
the undo data, `none` when the block is rejected. -/
def connectBlock (params : ConnectParams) (v : ChainView T) (pprev : CBlockIndex)
    (block : CBlock) : Option (ChainView T × CBlockUndo) :=
  let nHeight := pprev.nHeight + 1
  if !checkBlock params block then none
  else if pprev.hash ≠ v.bestBlock then none
  -- BIP30: no transaction may overwrite one that still has outputs
  else if !block.vtx.all (fun tx => (v.coins tx.hash).isPruned) then none
  else
    match v.anchors .sprout (v.bestAnchor .sprout), v.anchors .sapling (v.bestAnchor .sapling) with
    | some sprout, some sapling =>
      if MerkleTree.root sprout ≠ v.bestAnchor .sprout then none
      else
        match connectTxs params (params.fExpensiveChecks block) v nHeight block.vtx
            ⟨v.toFlatView, sprout, sapling⟩ with
        | none => none
        | some (st, undos) =>
          let v₁ := { v with toFlatView := st.map }
          let v₂ := (v₁.pushAnchor .sprout st.sproutTree).pushAnchor .sapling st.saplingTree
          if params.saplingActive nHeight &&
              block.hashFinalSaplingRoot != MerkleTree.root st.saplingTree then none
          else if !params.checkReward block then none
          else some ({ v₂ with bestBlock := block.hash }, ⟨undos.tail, v.bestAnchor .sprout⟩)
    | _, _ => none

/-! ### `DisconnectBlock` -/

/-- The transaction loop of `DisconnectBlock`, from the last to the first. -/
def disconnectTxs (nHeight : ℤ) :
    List (CTransaction × CTxUndo) → FlatView → Option (FlatView × Bool)
  | [], m => some (m, true)
  | (tx, undo) :: rest, m =>
    match disconnectTxs nHeight rest m with
    | none => none
    | some (m₁, clean) =>
      match m₁.disconnectTx tx undo nHeight with
      | none => none
      | some (m₂, clean') => some (m₂, clean && clean')

/-- The Sapling root that `DisconnectBlock` sets back. -/
def oldSaplingRoot (T : ShieldedType → Type) [∀ s, MerkleTree (T s)] (params : ConnectParams)
    (pprev : CBlockIndex) : Uint256 :=
  if params.saplingActive pprev.nHeight then pprev.hashFinalSaplingRoot else emptyRoot (T .sapling)

/-- `DisconnectBlock`: the view before the block and `fClean`, `none` when it
returns false or an assertion fails. The coinbase has no undo record. -/
def disconnectBlock (params : ConnectParams) (v : ChainView T) (pprev : CBlockIndex)
    (block : CBlock) (undo : CBlockUndo) : Option (ChainView T × Bool) :=
  if block.hash ≠ v.bestBlock then none
  else if undo.vtxundo.length + 1 ≠ block.vtx.length then none
  else
    match disconnectTxs (pprev.nHeight + 1 : ℕ) (block.vtx.zip ([] :: undo.vtxundo))
        v.toFlatView with
    | none => none
    | some (m, clean) =>
      match ({ v with toFlatView := m } : ChainView T).popAnchor .sprout undo.oldSproutTreeRoot with
      | none => none
      | some v₁ =>
        match v₁.popAnchor .sapling (oldSaplingRoot T params pprev) with
        | none => none
        | some v₂ => some ({ v₂ with bestBlock := pprev.hash }, clean)

end Komodo
