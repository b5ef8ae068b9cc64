/-
# Coin imports

`Eval::ImportCoin`, `CheckMigration`, `CheckPUBKEYimport` and `CheckVinPubKey` of
`src/src/cc/import.cpp`, with `UnmarshalImportTx`, `UnmarshalBurnTx`,
`MakeImportCoinTransaction` and `GetCoinImportValue` of `src/src/importcoin.cpp` and
`ImportProof` of `src/src/importcoin.h`.

Coins or tokens are burned on one chain and paid out on another. The import carries the
burn transaction, with a proof that it happened, in its last output; the burn commits to
the payouts by their hash. An import has no input whose value could be compared with its
outputs, so `Eval::ImportCoin` compares the payouts with the burn itself.

The checks that ask a daemon of the other chain or an import gateway are parameters.
-/

import Komodo.CC.Tokens
import Komodo.CC.TokenEncode
import Komodo.CC.Checks
import Komodo.CrossChain.MerkleBranch

namespace Komodo

open Unserialize

def OPRETID_BURNDATA : UInt8 := 0x80
def OPRETID_IMPORTDATA : UInt8 := 0x81

def KOMODO_FIRSTFUNGIBLEID : ℕ := 100

/-- `txfee` of `Eval::ImportCoin`. -/
def importTxfee : ℤ := 10000

/-- The bytes of a `std::string` written as a literal. -/
def stringBytes (s : String) : Bytes := s.toList.map fid

/-- `ImportProof`, by its kind. -/
inductive ImportProof
  | none
  | merkleBranch (proof : TxProof)
  | notaryTxids (txids : List Uint256)
  | merkleBlock (proofBlock : Bytes)
deriving DecidableEq, Repr

/-! ### The burn -/

/-- The loop of `ReadVarInt` for an unsigned integer of `w` bits; `n` is the value so far. -/
def readVarIntLoop (w : ℕ) : (n : ℕ) → Bytes → Option (ℕ × Bytes)
  | _, [] => none
  | n, chData :: s =>
    let n := (n * 128 + chData.toNat % 128) % 2 ^ w
    if 128 ≤ chData.toNat then readVarIntLoop w ((n + 1) % 2 ^ w) s else some (n, s)

/-- `ss >> VARINT(x)` for a `uint32_t`. -/
def Unserialize.varInt32 : Unserialize ℕ := readVarIntLoop 32 0

/-- What `UnmarshalBurnTx` returns: the terms of a burn. -/
structure BurnTerms where
  targetCCid : ℕ
  targetSymbol : Bytes
  payoutsHash : Uint256
  rawproof : Bytes
deriving DecidableEq, Repr

/-- The terms of a burn, as they are read. -/
def burnTermsReader : Unserialize BurnTerms := do
  let _ ← uint8
  let targetCCid ← varInt32
  let targetSymbol ← vector
  let payoutsHash ← uint256
  let rawproof ← vector
  pure ⟨targetCCid, targetSymbol, payoutsHash, rawproof⟩

/-- The data of a transaction's last output; empty when there is none. -/
def lastOpReturn (tx : CTransaction) : Bytes := getOpReturnData (opretOf tx)

/-- Whether the opreturn of a transaction is a token opreturn. -/
def isTokenTx (tx : CTransaction) : Bool := (lastOpReturn tx).head? = some EVAL_TOKENS

/-- Where the terms of a burn stand: in the opreturn, or in a blob of a token transfer. -/
def burnData (burnTx : CTransaction) : Option Bytes :=
  if isTokenTx burnTx then
    match decodeTokenOpRet (opretOf burnTx) with
    | some d => if d.funcid = fid 't' then some (getOpretBlob d.oprets OPRETID_BURNDATA) else none
    | none => none
  else some (lastOpReturn burnTx)

/-- `UnmarshalBurnTx`. More data may follow the terms. -/
def unmarshalBurnTx (burnTx : CTransaction) : Option BurnTerms :=
  (burnData burnTx).bind fun vburnOpret =>
    if vburnOpret.head? = some EVAL_IMPORTCOIN then (burnTermsReader vburnOpret).map Prod.fst
    else none

/-- `UnmarshalBurnTx` for an import from a CODA daemon: `srcaddr` and `receipt`. -/
def unmarshalCodaBurnTx (burnTx : CTransaction) : Option (Bytes × Bytes) :=
  unmarshal (lastOpReturn burnTx) do
    let _ ← burnTermsReader
    let srcaddr ← vector
    let receipt ← vector
    pure (srcaddr, receipt)

/-- What `UnmarshalBurnTx` returns for an import through a gateway. -/
structure GatewayBurn where
  bindtxid : Uint256
  publishers : List CPubKey
  txids : List Uint256
  burntxid : Uint256
  height : ℤ
  burnvout : ℤ
  rawburntx : Bytes
  destpub : CPubKey
  amount : ℤ
deriving DecidableEq, Repr

/-- `UnmarshalBurnTx` for an import through a gateway. -/
def unmarshalGatewayBurnTx (burnTx : CTransaction) : Option GatewayBurn :=
  unmarshal (lastOpReturn burnTx) do
    let _ ← burnTermsReader
    let bindtxid ← uint256
    let publishers ← vectorOf CPubKey.unserialize
    let txids ← vectorOf uint256
    let burntxid ← uint256
    let height ← int 4
    let burnvout ← int 4
    let rawburntx ← vector
    let destpub ← CPubKey.unserialize
    let amount ← int 8
    pure ⟨bindtxid, publishers, txids, burntxid, height, burnvout, rawburntx, destpub, amount⟩

/-! ### The node -/

/-- What the validation of an import asks of the node. -/
structure ImportEnv extends ContractEnv where
  /-- `GetAssetchainsSymbol`, the symbol of this chain. -/
  assetchainsSymbol : Bytes
  /-- `GetAssetchainsCC`. -/
  assetchainsCC : ℕ
  /-- `ASSETCHAINS_SELFIMPORT`. -/
  selfImport : Bytes
  /-- `ASSETCHAINS_BEAMPORT`. -/
  beamPort : ℕ
  /-- `ASSETCHAINS_CODAPORT`. -/
  codaPort : ℕ
  /-- `ASSETCHAINS_OVERRIDE_PUBKEY33`. -/
  overridePubkey33 : CPubKey
  /-- `E_MARSHAL(ss << EVAL_IMPORTCOIN; ss << proof; ss << burnTx)`. -/
  marshalImportData : ImportProof → CTransaction → Bytes
  /-- `E_UNMARSHAL(…, ss >> evalCode; ss >> proof; ss >> burnTx)`. -/
  unmarshalImportData : Bytes → Option (ImportProof × CTransaction)
  /-- `E_UNMARSHAL(rawproof, ss >> sourceSymbol; ss >> tokenbaseTx)`. -/
  unmarshalTokenProof : Bytes → Option (Bytes × CTransaction)
  /-- `SerializeHash(payouts)`. -/
  serializeHash : List CTxOut → Uint256
  /-- `CreateNewContextualCMutableTransaction`, its expiry height zero when overwintered. -/
  newTransaction : CTransaction
  /-- `CTransaction(mtx).GetHash()`, the hash of the fields. -/
  getHash : CTransaction → Uint256
  /-- The hash of two hashes, one behind the other. -/
  hash2 : Uint256 → Uint256 → Uint256
  checkMoMoM : Uint256 → Uint256 → Bool
  checkNotariesApproval : Uint256 → List Uint256 → Bool
  /-- `CheckCODAimport`, which asks the CODA daemon. -/
  checkCODAimport : CTransaction → CTransaction → List CTxOut → Bytes × Bytes → Bool
  /-- `CheckGATEWAYimport`, which asks the oracles of an import gateway. -/
  checkGATEWAYimport : CTransaction → CTransaction → Bytes → Bytes → GatewayBurn → Bool

/-! ### The import and its parts -/

/-- `CScript() << E_MARSHAL(ss << EVAL_IMPORTCOIN)`, the script of the one input. -/
def importScriptSig : CScript := pushData [EVAL_IMPORTCOIN]

/-- The position that the input of an import names, `10e8`. -/
def importPrevoutN : ℕ := 1000000000

namespace ImportEnv

variable (env : ImportEnv)

/-- `UnmarshalImportTx`: the proof, the burn and the payouts. In a token import the import data
is a blob of the creation opreturn, which is a payout without it. -/
def unmarshalImportTx (importTx : CTransaction) :
    Option (ImportProof × CTransaction × List CTxOut) :=
  match importTx.vin with
  | [i] =>
    if i.scriptSig = importScriptSig then do
      let (vImportData, payouts) ←
        if isTokenTx importTx then
          (decodeTokenCreateOpRet (opretOf importTx)).map fun c =>
            (getOpretBlob c.oprets OPRETID_IMPORTDATA, importTx.vout.dropLast ++
              [⟨0, encodeTokenCreateOpRet c.origpubkey c.name c.description
                (c.oprets.eraseP fun p => p.1 = OPRETID_IMPORTDATA)⟩])
        else if lastOpReturn importTx = [] then none
        else some (lastOpReturn importTx, importTx.vout.dropLast)
      let (proof, burnTx) ← env.unmarshalImportData vImportData
      pure (proof, burnTx, payouts)
    else none
  | _ => none

/-- The outputs that `MakeImportCoinTransaction` makes of the payouts. -/
def importVouts (proof : ImportProof) (burnTx : CTransaction) (payouts : List CTxOut) :
    List CTxOut :=
  let importData := env.marshalImportData proof burnTx
  let opret := (payouts.getLast?).elim [] CTxOut.scriptPubKey
  if getOpReturnData opret ≠ [] then
    match decodeTokenCreateOpRet opret with
    | some c => payouts.dropLast ++ [⟨0, encodeTokenCreateOpRet c.origpubkey c.name c.description
        (c.oprets ++ [(OPRETID_IMPORTDATA, importData)])⟩]
    | none => payouts
  else payouts ++ [⟨0, opReturnScript importData⟩]

/-- `MakeImportCoinTransaction`, with the expiry height of the import unless it is zero. -/
def makeImportCoinTransaction (proof : ImportProof) (burnTx : CTransaction)
    (payouts : List CTxOut) (nExpiryHeightOverride : ℕ) : CTransaction :=
  if payouts = [] then { env.newTransaction with vout := [] }
  else
    { env.newTransaction with
      vin := env.newTransaction.vin ++ [⟨⟨burnTx.hash, importPrevoutN⟩, importScriptSig, 0xffffffff⟩]
      vout := env.importVouts proof burnTx payouts
      nExpiryHeight := if nExpiryHeightOverride ≠ 0 then nExpiryHeightOverride
        else env.newTransaction.nExpiryHeight }

/-! ### Amounts -/

/-- The outputs of the normal kind together. -/
def normalOutputs (tx : CTransaction) : ℤ :=
  ((tx.vout.filter fun out => !isPayToCryptoCondition out.scriptPubKey).map CTxOut.nValue).sum

/-- The crypto-condition outputs together. -/
def ccOutputs (tx : CTransaction) : ℤ :=
  ((tx.vout.filter fun out => isPayToCryptoCondition out.scriptPubKey).map CTxOut.nValue).sum

/-- `nonfungibleEvalCode`: `EVAL_TOKENS` for fungible tokens. -/
def nonfungibleEvalCode (oprets : Oprets) : UInt8 :=
  (getOpretBlob oprets OPRETID_NONFUNGIBLEDATA).headD EVAL_TOKENS

/-- `ccBurnOutputs`: what is paid to the key nobody has. -/
def ccBurnOutputs (evalcode : UInt8) (burnTx : CTransaction) : ℤ :=
  ((burnTx.vout.filter fun out => isPayToCryptoCondition out.scriptPubKey &&
    out = env.makeTokensCC1vout evalcode 0 out.nValue ccBurnPubkey).map CTxOut.nValue).sum

/-- `GetCoinImportValue`. Whether tokens count depends on the opreturn of the burn, which
tokens on that of the import. -/
def getCoinImportValue (tx : CTransaction) : ℤ :=
  match env.unmarshalImportTx tx with
  | none => 0
  | some (_, burnTx, _) =>
    match burnTx.vout.getLast? with
    | none => 0
    | some last =>
      if lastOpReturn burnTx = [] then 0
      else if isTokenTx burnTx then
        match decodeTokenOpRet (opretOf tx) with
        | none => 0
        | some d =>
          toInt64 (toInt64 (env.ccBurnOutputs (nonfungibleEvalCode d.oprets) burnTx) + last.nValue)
      else last.nValue

/-! ### A migration -/

/-- `is_STAKED(chainName.symbol()) == 1`. -/
def isStaked : Bool := env.assetchainsSymbol = stringBytes "LABS"

/-- The token part of `CheckMigration`: the tokens that come in are those that were burned,
markers aside. The token id is the one in the opreturn of the import. -/
def checkTokenAmounts (importTx burnTx : CTransaction) : Checked Uint256 := do
  require (!env.isStaked) "no-tokens-migrate-on-LABS"
  let d ← expect (decodeTokenOpRet (opretOf importTx)) "cannot-decode-import-tx-token-opret"
  require (burnTx.vin.any fun i => env.isMyVin EVAL_TOKENS i.scriptSig) "burn-tx-has-no-token-vins"
  require (toInt64 (env.ccBurnOutputs (nonfungibleEvalCode d.oprets) burnTx)
      = toInt64 (createCCOutputs env.toCCEnv importTx))
    "token-cc-burned-output-not-equal-cc-imported-output"
  pure d.tokenid

/-- `sourceTokenId`, the token id in the opreturn of the burn. -/
def sourceTokenId (burnTx : CTransaction) : Checked Uint256 :=
  if burnTx.vout = [] then pure 0
  else do
    let d ← expect (decodeTokenOpRet (opretOf burnTx)) "cannot-decode-burn-tx-token-opret"
    pure d.tokenid

/-- The part of `CheckMigration` about the parameters of a token. Both decoders write to the
variables of the source, so that those of the import are compared as they were made, empty. -/
def checkTokenParams (importTx burnTx : CTransaction) (rawproof : Bytes) : Checked Unit := do
  let (_, tokenbaseTx) ← expect (env.unmarshalTokenProof rawproof)
    "cannot-unmarshal-rawproof-for-tokens"
  let sourceTokenId ← sourceTokenId burnTx
  require (sourceTokenId = tokenbaseTx.hash) "incorrect-token-creation-tx-passed"
  let last ← defined tokenbaseTx.vout.getLast?
  let _ ← expect (decodeTokenCreateOpRet last.scriptPubKey) "cannot-decode-token-creation-tx"
  let src ← expect (decodeTokenCreateOpRet (opretOf importTx)) "cannot-decode-token-import-tx"
  require (src.origpubkey = [] ∧ src.name = [] ∧ src.description = [])
    "import-tx-token-params-incorrect"

/-- The last part of `CheckMigration`: the burn has happened. -/
def checkProof (burnTx : CTransaction) : ImportProof → Checked Unit
  | .merkleBranch proof =>
    require (env.checkMoMoM proof.1 (proof.2.exec env.hash2 burnTx.hash)) "momom-check-fail"
  | .notaryTxids notaryTxids =>
    require (env.checkNotariesApproval burnTx.hash notaryTxids) "notaries-approval-check-fail"
  | _ => require false "invalid-import-proof"

/-- `tokenid` of `CheckMigration`, null for coins, once the amounts have been checked. -/
def checkImportKind (importTx burnTx : CTransaction) (evalcode : UInt8) : Checked Uint256 :=
  if evalcode = EVAL_TOKENS then env.checkTokenAmounts importTx burnTx
  else do
    require (evalcode = EVAL_IMPORTCOIN) "import-tx-incorrect-opret-eval"
    pure 0

def checkMigration (importTx burnTx : CTransaction) (proof : ImportProof) (rawproof : Bytes) :
    Checked Unit := do
  let _ ← defined importTx.vout.getLast?
  let evalcode ← expect (lastOpReturn importTx).head? "invalid-import-tx-no-opret"
  let tokenid ← env.checkImportKind importTx burnTx evalcode
  if tokenid ≠ 0 then do
    env.checkTokenParams importTx burnTx rawproof
    env.checkProof burnTx proof
  else env.checkProof burnTx proof

/-! ### Imports from elsewhere -/

/-- `CheckVinPubKey` of the first input. -/
def checkVinPubKey (sourcetx : CTransaction) (pubkey33 : CPubKey) : Bool :=
  match sourcetx.vin with
  | [] => false
  | i :: _ =>
    match env.spent i with
    | none => false
    | some (_, out) => env.getscriptaddress out.scriptPubKey = some (env.normalAddress pubkey33)

def checkPUBKEYimport (proof : TxProof) (burnTx : CTransaction) (payouts : List CTxOut) : Bool :=
  match env.lookup proof.1 with
  | none => false
  | some sourcetx =>
    sourcetx.vout ≠ [] ∧ burnTx.nExpiryHeight = sourcetx.nExpiryHeight
      ∧ env.checkVinPubKey sourcetx env.overridePubkey33
      ∧ (unmarshal (lastOpReturn sourcetx) (do
          let evalCode ← uint8
          let funcId ← uint8
          let amount ← int 8
          pure (evalCode, funcId, amount))).any fun (evalCode, funcId, amount) =>
            evalCode = EVAL_IMPORTCOIN ∧ funcId = fid 'A'
              ∧ (payouts.head?).map CTxOut.nValue = some amount

/-- The branches for the target `0xffffffff`. -/
def checkSelfImport (importTx burnTx : CTransaction) (payouts : List CTxOut) (proof : ImportProof)
    (terms : BurnTerms) : Checked Unit :=
  match proof with
  | .merkleBranch merkleBranchProof =>
    if terms.targetSymbol = stringBytes "BEAM" then do
      require (env.beamPort ≠ 0) "BEAM-import-without-port"
      -- `CheckBEAMimport` refuses everything
      require false "BEAM-import-failure"
    else if terms.targetSymbol = stringBytes "CODA" then do
      require (env.codaPort ≠ 0) "CODA-import-without-port"
      require ((unmarshalCodaBurnTx burnTx).any (env.checkCODAimport importTx burnTx payouts))
        "CODA-import-failure"
    else if terms.targetSymbol = stringBytes "PUBKEY" then do
      require (env.selfImport = stringBytes "PUBKEY") "PUBKEY-import-when-not PUBKEY"
      require (env.checkPUBKEYimport merkleBranchProof burnTx payouts) "PUBKEY-import-failure"
    else do
      require (terms.targetSymbol = env.selfImport) "invalid-gateway-import-coin"
      require ((unmarshalGatewayBurnTx burnTx).any
          (env.checkGATEWAYimport importTx burnTx terms.targetSymbol terms.rawproof))
        "GATEWAY-import-failure"
  | _ => require false "invalid-import-proof-for-0xFFFFFFFF"

/-! ### The validator -/

def importCoin (importTx : CTransaction) : Checked Unit := do
  require (2 ≤ importTx.vout.length) "too-few-vouts"
  let (proof, burnTx, payouts) ← expect (env.unmarshalImportTx importTx) "invalid-params"
  require (env.getHash (env.makeImportCoinTransaction proof burnTx payouts importTx.nExpiryHeight)
    = importTx.hash) "non-canonical"
  let terms ← expect (unmarshalBurnTx burnTx) "invalid-burn-tx"
  let last ← expect burnTx.vout.getLast? "invalid-burn-tx-no-vouts"
  require (last.nValue ≠ 0) "invalid-burn-amount"
  let totalOut := toInt64 (normalOutputs importTx)
  require (totalOut ≤ last.nValue ∧ toInt64 (last.nValue - importTxfee) ≤ totalOut)
    "payout-too-high-or-too-low"
  require (terms.payoutsHash = env.serializeHash payouts) "wrong-payouts"
  require (KOMODO_FIRSTFUNGIBLEID ≤ terms.targetCCid) "chain-not-fungible"
  require (terms.targetSymbol ≠ []) "target-chain-not-specified"
  if terms.targetCCid ≠ 0xffffffff then do
    require (terms.targetCCid = env.assetchainsCC ∧ terms.targetSymbol = env.assetchainsSymbol)
      "importcoin-wrong-chain"
    env.checkMigration importTx burnTx proof terms.rawproof
  else env.checkSelfImport importTx burnTx payouts proof terms

end ImportEnv

end Komodo
