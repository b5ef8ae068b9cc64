/-
# The tokens validator

`src/src/cc/CCtokens.cpp`: `TokensValidate`, `ExtractTokensCCVinPubkeys`,
`IsTokensvout`, `IsTokenMarkerVout`, `TokensExactAmounts`, `GetNonfungibleData`,
`HasBurnedTokensvouts`, with `TotalPubkeyNormalInputs` of
`src/src/cc/CCutils.cpp`.

`IsTokensvout` and `TokensExactAmounts` call each other, the flag `goDeeper`
saying how far: with `goDeeper` an output counts only if the token amounts of
its transaction balance, where the inputs are then recognised without
`goDeeper`. So the recursion ends after one step and is unrolled here:
`isTokensvoutFlat` is `IsTokensvout(false, …)`, and `exactAmounts` is the body
of `TokensExactAmounts` over the recognition of inputs it is given.

The calls are those of a validator (`eval` not null), where the lookups
`eval->GetTxUnconfirmed` and `myGetTransaction` are the same function. Amounts
are exact integers: a transaction's outputs sum to at most `MAX_MONEY`.
-/

import Komodo.CC.TokenOpRet

namespace Komodo

/-- What `TokensValidate` reads of the active chain. -/
structure ChainContext where
  /-- `chainName`. -/
  symbol : String
  /-- `chainActive.Height()`. -/
  height : ℤ
  /-- `myGetTransaction`. -/
  lookup : TxLookup

section tokens
variable (env : CCEnv)

/-- The visitor of `ExtractTokensCCVinPubkeys`: stops at a secp256k1 node. -/
def CCEnv.findPubKey : CC → Option CPubKey
  | .secp256k1 publicKey _ => some (buf2pk publicKey)
  | .anon .secp256k1 fingerprint _ _ => some (buf2pk (env.anonPublicKey fingerprint))
  | _ => none

/-- The loop of `ExtractTokensCCVinPubkeys`. The variable `pubkey` outlives a
round, so an input without a secp256k1 node repeats the key before it. -/
def extractVinPubkeysLoop : (pubkey : CPubKey) → List CTxIn → List CPubKey
  | _, [] => []
  | pubkey, i :: vin =>
    if env.isMyVin EVAL_TOKENS i.scriptSig then
      match env.getCryptoCondition i.scriptSig with
      | some cond =>
        let pubkey := (CC.visit env.findPubKey cond).getD pubkey
        if CPubKey.isValid pubkey then pubkey :: extractVinPubkeysLoop pubkey vin
        else extractVinPubkeysLoop pubkey vin
      | none => extractVinPubkeysLoop pubkey vin
    else extractVinPubkeysLoop pubkey vin

/-- `ExtractTokensCCVinPubkeys`; it returns true iff a key was found. -/
def extractTokensCCVinPubkeys (tx : CTransaction) : List CPubKey :=
  extractVinPubkeysLoop env [] tx.vin

def isTokenMarkerVout (vout : CTxOut) : Bool :=
  vout = env.makeCC1vout EVAL_TOKENS vout.nValue tokensUnspendablePk

/-- `GetNonfungibleData`: the non-fungible blob of the creation transaction. -/
def getNonfungibleData (lookup : TxLookup) (tokenid : Uint256) : Bytes :=
  match (lookup tokenid).bind fun tokenbasetx => tokenbasetx.vout.getLast? with
  | some out =>
    match decodeTokenCreateOpRet out.scriptPubKey with
    | some c => getOpretBlob c.oprets OPRETID_NONFUNGIBLEDATA
    | none => []
  | none => []

/-- Whether `TotalPubkeyNormalInputs` takes an output to be paid to the key. -/
def paysPubkey (scriptPubKey : CScript) (pubkey : CPubKey) : Bool :=
  match env.solver scriptPubKey with
  | some (.pubkey, key :: _) => pubkey = pubkey2pk key
  | some (.pubkeyhash, id :: _) => env.hash160 pubkey = id
  | _ => false

/-- What one input adds to `TotalPubkeyNormalInputs`. -/
def pubkeyNormalInput (lookup : TxLookup) (pubkey : CPubKey) (i : CTxIn) : ℤ :=
  if env.isCCInput i.scriptSig then 0
  else match (lookup i.prevout.hash).bind fun vintx => vintx.vout[i.prevout.n]? with
    | some out => if paysPubkey env out.scriptPubKey pubkey then out.nValue else 0
    | none => 0

def totalPubkeyNormalInputs (lookup : TxLookup) (tx : CTransaction) (pubkey : CPubKey) : ℤ :=
  (tx.vin.map (pubkeyNormalInput env lookup pubkey)).sum

/-- `evalCode1` and `evalCode2` from the non-fungible and the contract blob. -/
def tokenEvalCodes (vopretNonfungible vopretExtra : Bytes) : UInt8 × UInt8 :=
  let evalCode1 := vopretNonfungible.headD EVAL_TOKENS
  let evalCode2 := vopretExtra.headD 0
  if evalCode1 = EVAL_TOKENS ∧ evalCode2 ≠ 0 then (evalCode2, 0) else (evalCode1, evalCode2)

/-! ### `IsTokensvout` without `goDeeper` -/

section testVouts
variable (nValue : ℤ) (evalCodeNonfungible evalCode1 evalCode2 : UInt8)

/-- The outputs of the shape "token output with evalcodes, to one key". -/
def threeEval (pk : CPubKey) : List CTxOut :=
  [env.makeTokensCC1vout evalCode1 evalCode2 nValue pk]
    ++ (if evalCode2 ≠ 0 then [env.makeTokensCC1vout evalCode2 evalCode1 nValue pk] else [])

/-- The outputs of the shape "token output to one of two keys". -/
def threeEval1of2 (pk1 pk2 : CPubKey) : List CTxOut :=
  [env.makeTokensCC1of2vout evalCode1 evalCode2 nValue pk1 pk2]
    ++ (if evalCode2 ≠ 0 then [env.makeTokensCC1of2vout evalCode2 evalCode1 nValue pk1 pk2]
      else [])

/-- The single-eval output, unless that would make a fungible token of a
non-fungible one. -/
def singleEval (pk : CPubKey) : List CTxOut :=
  if evalCodeNonfungible = 0 then [env.makeCC1vout EVAL_TOKENS nValue pk] else []

/-- The single-eval and the dual-eval outputs to one key. -/
def dualEval (pk : CPubKey) : List CTxOut :=
  singleEval env nValue evalCodeNonfungible pk
    ++ (if evalCode1 ≠ 0 then [env.makeTokensCC1vout evalCode1 0 nValue pk] else [])
    ++ (if evalCode2 ≠ 0 then [env.makeTokensCC1vout evalCode2 0 nValue pk] else [])

/-- The outputs tested for the keys in the opreturn; the tests for one or two
keys only. -/
def opretTestVouts : (voutPubkeys : List CPubKey) → List CTxOut
  | [pk0] => threeEval env nValue evalCode1 evalCode2 pk0
      ++ dualEval env nValue evalCodeNonfungible evalCode1 evalCode2 pk0
  | [pk0, pk1] => threeEval env nValue evalCode1 evalCode2 pk0
      ++ threeEval1of2 env nValue evalCode1 evalCode2 pk0 pk1
      ++ threeEval env nValue evalCode1 evalCode2 pk1
      ++ dualEval env nValue evalCodeNonfungible evalCode1 evalCode2 pk0
      ++ dualEval env nValue evalCodeNonfungible evalCode1 evalCode2 pk1
  | _ => []

/-- The outputs tested for the keys of the token inputs: token change. -/
def changeTestVouts (vinPubkeys : List CPubKey) : List CTxOut :=
  vinPubkeys.flatMap fun pk => singleEval env nValue evalCodeNonfungible pk
    ++ threeEval env nValue evalCode1 evalCode2 pk

end testVouts

/-- The branch of `IsTokensvout` for a transfer: the output equals one of the
test outputs. -/
def transferTokensvout (lookup : TxLookup) (tx : CTransaction) (out : CTxOut)
    (reftokenid : Uint256) (d : TokenOpRet) : ℤ :=
  let vopretNonfungible := getNonfungibleData lookup reftokenid
  let evalCodes := tokenEvalCodes vopretNonfungible (filterOutNonCCOprets d.oprets)
  let evalCodeNonfungible := vopretNonfungible.headD 0
  let voutPubkeys := filterOutTokensUnspendablePk d.voutPubkeys
  let vinPubkeys := filterOutTokensUnspendablePk (extractTokensCCVinPubkeys env tx)
  if out ∈ opretTestVouts env out.nValue evalCodeNonfungible evalCodes.1 evalCodes.2 voutPubkeys
      ++ changeTestVouts env out.nValue evalCodeNonfungible evalCodes.1 evalCodes.2 vinPubkeys
  then out.nValue
  else 0

/-- The crypto-condition outputs of a transaction, markers aside. -/
def createCCOutputs (tx : CTransaction) : ℤ :=
  ((tx.vout.filter fun out =>
    isPayToCryptoCondition out.scriptPubKey && !isTokenMarkerVout env out).map CTxOut.nValue).sum

/-- The branch of `IsTokensvout` for a creation: every crypto-condition output
but the marker, if the creator's own inputs pay for them. -/
def createTokensvout (lookup : TxLookup) (tx : CTransaction) (out : CTxOut) : ℤ :=
  if tx.isCoinImport then
    if isTokenMarkerVout env out then 0 else out.nValue
  else match tx.vout.getLast?.bind fun opret => decodeTokenCreateOpRet opret.scriptPubKey with
    | none => 0
    | some c =>
      if createCCOutputs env tx
          ≤ totalPubkeyNormalInputs env lookup tx (pubkey2pk c.origpubkey) then
        if isTokenMarkerVout env out then 0 else out.nValue
      else 0

/-- `tx.vout[v]`, with the bounds of `IsTokensvout`: the last output is the
opreturn. -/
def tokenVoutAt (tx : CTransaction) (v : ℤ) : Option CTxOut :=
  if v < 0 ∨ (tx.vout.length : ℤ) - 1 ≤ v then none else tx.vout[v.toNat]?

/-- `IsTokensvout` from `ValidateTokenOpret` on. -/
def opretTokensvout (lookup : TxLookup) (tx : CTransaction) (out : CTxOut)
    (reftokenid : Uint256) : ℤ :=
  match validateTokenOpret tx reftokenid, tokenOpRet tx with
  | some funcId, some d =>
    if funcId ≠ fid 'c' then transferTokensvout env lookup tx out reftokenid d
    else createTokensvout env lookup tx out
  | _, _ => 0

/-- `IsTokensvout(false, …)`. -/
def isTokensvoutFlat (lookup : TxLookup) (tx : CTransaction) (v : ℤ) (reftokenid : Uint256) : ℤ :=
  match tokenVoutAt tx v with
  | some out =>
    if isPayToCryptoCondition out.scriptPubKey then opretTokensvout env lookup tx out reftokenid
    else 0
  | none => 0

/-! ### The amounts of a transaction, and `goDeeper` -/

/-- What `TokensExactAmounts` returns. -/
structure ExactAmounts where
  isEqual : Bool
  inputs : ℤ
  outputs : ℤ

/-- The input loop of `TokensExactAmounts`; `none` when a lookup failed. -/
def tokenInputs (lookup : TxLookup) (recognise : CTransaction → ℤ → EvalM ℤ) :
    List CTxIn → EvalM (Option ℤ)
  | [] => pure (some 0)
  | i :: vin =>
    if env.isMyVin EVAL_TOKENS i.scriptSig then
      match lookup i.prevout.hash with
      | none => do
        let _ ← EvalM.invalid "always should find vin tx, but didnt"
        pure none
      | some vinTx => do
        let tokenoshis ← recognise vinTx (toInt32 i.prevout.n)
        let inputs ← tokenInputs lookup recognise vin
        pure (inputs.map (tokenoshis + ·))
    else tokenInputs lookup recognise vin

/-- The output loop of `TokensExactAmounts`. -/
def tokenOutputs (lookup : TxLookup) (tx : CTransaction) (reftokenid : Uint256) : ℤ :=
  ((List.range (tx.vout.length - 1)).map fun i =>
    isTokensvoutFlat env lookup tx (i : ℕ) reftokenid).sum

/-- The body of `TokensExactAmounts`. -/
def exactAmounts (lookup : TxLookup) (recognise : CTransaction → ℤ → EvalM ℤ)
    (tx : CTransaction) (reftokenid : Uint256) : EvalM ExactAmounts := do
  match ← tokenInputs env lookup recognise tx.vin with
  | none => pure ⟨false, 0, 0⟩
  | some inputs =>
    let outputs := tokenOutputs env lookup tx reftokenid
    pure ⟨inputs = outputs, inputs, outputs⟩

/-- `IsTokensvout(goDeeper, …)`. -/
def isTokensvout (goDeeper : Bool) (lookup : TxLookup) (reftokenid : Uint256)
    (tx : CTransaction) (v : ℤ) : EvalM ℤ :=
  match tokenVoutAt tx v with
  | none => pure 0
  | some out =>
    if isPayToCryptoCondition out.scriptPubKey then
      if goDeeper then do
        let amounts ← exactAmounts env lookup
          (fun vinTx n => pure (isTokensvoutFlat env lookup vinTx n reftokenid)) tx reftokenid
        if amounts.isEqual = false ∧ reftokenid ≠ tx.hash then pure 0
        else pure (opretTokensvout env lookup tx out reftokenid)
      else pure (opretTokensvout env lookup tx out reftokenid)
    else pure 0

/-- `TokensExactAmounts(goDeeper, …)`. -/
def tokensExactAmounts (goDeeper : Bool) (lookup : TxLookup) (tx : CTransaction)
    (reftokenid : Uint256) : EvalM ExactAmounts :=
  exactAmounts env lookup (isTokensvout env goDeeper lookup reftokenid) tx reftokenid

/-! ### `TokensValidate` -/

/-- The loop of `HasBurnedTokensvouts`. The test outputs of earlier rounds
stay in the list, and an output is counted once for each test it equals. -/
def burnedLoop (evalCode evalCode2 : UInt8) : (testVouts : List CTxOut) → List CTxOut → ℤ
  | _, [] => 0
  | testVouts, out :: vout =>
    if isPayToCryptoCondition out.scriptPubKey then
      let testVouts := testVouts ++ env.makeCC1vout EVAL_TOKENS out.nValue ccBurnPubkey
        :: threeEval env out.nValue evalCode evalCode2 ccBurnPubkey
      out.nValue * testVouts.count out + burnedLoop evalCode evalCode2 testVouts vout
    else burnedLoop evalCode evalCode2 testVouts vout

def hasBurnedTokensvouts (lookup : TxLookup) (tx : CTransaction) (reftokenid : Uint256) : ℤ :=
  match tokenOpRet tx with
  | none => 0
  | some d =>
    let evalCodes := tokenEvalCodes (getNonfungibleData lookup reftokenid)
      (filterOutNonCCOprets d.oprets)
    burnedLoop env evalCodes.1 evalCodes.2 [] tx.vout

/-- The chain and heights for which `TokensValidate` returns true at once. -/
def ChainContext.exempt (chain : ChainContext) : Bool :=
  chain.symbol = "ROGUE" ∧ chain.height ≤ 12500

/-- `TokensValidate` from the marker check on. -/
def validateTransfer (chain : ChainContext) (tx : CTransaction) (d : TokenOpRet) (inputs : ℤ) :
    EvalM Bool :=
  if tokensUnspendablePk ∈ extractTokensCCVinPubkeys env tx
      ∧ 0 < hasBurnedTokensvouts env chain.lookup tx d.tokenid
      ∧ getNonfungibleData chain.lookup d.tokenid = [] then
    EvalM.invalid "spending cc marker not supported for fungible tokens"
  else if d.funcid = fid 'c' then EvalM.invalid "incorrect token funcid"
  else if d.funcid = fid 't' then
    if inputs = 0 then EvalM.invalid "no token inputs for transfer" else pure true
  else EvalM.invalid "unexpected token funcid"

def tokensValidate (chain : ChainContext) (tx : CTransaction) : EvalM Bool :=
  if chain.exempt then pure true
  else match tx.vout.getLast? with
  | none => EvalM.invalid "no vouts"
  | some opret =>
    match decodeTokenOpRet opret.scriptPubKey with
    | none => EvalM.invalid "TokenValidate: invalid opreturn payload"
    | some d =>
      if chain.lookup d.tokenid = none then EvalM.invalid "cant find token create txid"
      else if d.funcid = fid 'c' then validateTransfer env chain tx d 0
      else if d.tokenid = 0 then EvalM.invalid "illegal tokenid"
      else do
        let amounts ← tokensExactAmounts env true chain.lookup tx d.tokenid
        if amounts.isEqual then validateTransfer env chain tx d amounts.inputs
        -- `TokensExactAmounts` may have recorded a failed lookup; `eval->Valid()` does not see it
        else if ← EvalM.valid then EvalM.invalid "tokens cc inputs != cc outputs"
        else pure false

end tokens

end Komodo
