/-
# The oracles contract

`src/src/cc/oracles.cpp`: the opreturns, `OracleDatafee`, `OraclesDataValidate` and
`OraclesValidate`.

An oracle is created by a `'C'`. A publisher funds itself with an `'F'`, registers with an
`'R'` that spends the `'F'` and says what a datum costs, and publishes with a `'D'` that spends
the baton of the one before and what subscribers (`'S'`) have paid. Only an `'R'` and a `'D'`
have inputs of the contract.

`DecodeOraclesOpRet` hands back the function id even when it could not read the rest, and the
variables it reads into keep what they held before. `OraclesVars` are these variables.
-/

import Komodo.CC.Checks
import Komodo.CC.Gateways

namespace Komodo

/-! ### Opreturns -/

/-- The variables that `DecodeOraclesOpRet` reads into. -/
structure OraclesVars where
  oracletxid : Uint256
  pk : CPubKey
  /-- `none` where it was never set. -/
  num : Option ℤ
deriving DecidableEq, Repr

/-- The variables at the beginning of a function. -/
def OraclesVars.fresh : OraclesVars := ⟨0, [], none⟩

/-- The reads of `DecodeOraclesOpRet` behind the function id, as far as they go. -/
def readOraclesVars (vars : OraclesVars) (s : Bytes) : OraclesVars :=
  match Unserialize.uint256 s with
  | none => vars
  | some (oracletxid, s) =>
    match CPubKey.unserialize s with
    | none => { vars with oracletxid := oracletxid }
    | some (pk, s) =>
      match Unserialize.int 8 s with
      | none => { vars with oracletxid := oracletxid, pk := pk }
      | some (num, _) => ⟨oracletxid, pk, some num⟩

def decodeOraclesOpRet (scriptPubKey : CScript) (vars : OraclesVars) : UInt8 × OraclesVars :=
  match getOpReturnData scriptPubKey with
  | e :: f :: b :: rest =>
    if e = EVAL_ORACLES then
      (f, if f ∈ "RSF".toList.map fid then readOraclesVars vars (b :: rest) else vars)
    else (0, vars)
  | _ => (0, vars)

/-- What `DecodeOraclesData` returns. -/
structure OraclesData where
  oracletxid : Uint256
  batontxid : Uint256
  pk : CPubKey
  data : Bytes
deriving DecidableEq, Repr

/-- `DecodeOraclesData(…) == 'D'`. -/
def decodeOraclesData (scriptPubKey : CScript) : Option OraclesData :=
  let vopret := getOpReturnData scriptPubKey
  if vopret[0]? = some EVAL_ORACLES then
    decodePayload 'D' vopret do
      let oracletxid ← Unserialize.uint256
      let batontxid ← Unserialize.uint256
      let pk ← CPubKey.unserialize
      let data ← Unserialize.vector
      pure ⟨oracletxid, batontxid, pk, data⟩
  else none

/-! ### The price of a datum -/

/-- The public key of the oracles contract, `OraclesCChexstr`. -/
def oraclespk : CPubKey :=
  [0x03, 0x8c, 0x1d, 0x42, 0xdb, 0x6a, 0x45, 0xa5, 0x7e, 0xcc, 0xb8, 0x98, 0x1b, 0x07, 0x8f,
   0xb7, 0x85, 0x7b, 0x9b, 0x49, 0x62, 0x93, 0xfe, 0x29, 0x9d, 0x2b, 0x8d, 0x12, 0x0a, 0xc5,
   0xb5, 0x69, 0x1a]

def PUBKEY_SPOOFING_FIX_ACTIVATION : ℤ := 1563148800

/-- The fee of the contract's transactions. -/
def oraclesTxfee : ℤ := 10000

/-- What `OraclesValidate` asks of the node. -/
structure OraclesEnv extends ContractEnv where
  /-- `SetCCunspents(…, coinaddr, false)`: for each unspent output at a normal address its
  transaction and the height of its block. -/
  normalUnspents : String → List (Uint256 × ℤ)
  /-- `GetLatestTimestamp(eval->GetCurrentHeight())`. -/
  latestTimestamp : ℤ

/-- The variables of the loop of `OracleCurrentDatafee`. -/
structure DatafeeVars where
  vars : OraclesVars
  dheight : ℤ
  datafee : ℤ

namespace OraclesEnv

variable (env : OraclesEnv)

/-- `CCtxidaddr`: the address of the key made of a transaction id. -/
def txidAddress (txid : Uint256) : String := env.normalAddress (0x02 :: uint256Bytes txid)

/-- The registration of a publisher, `vars` being what was read: the newest one counts, and of
one block the cheapest. -/
def registration (vars : OraclesVars) (height : ℤ) (st : DatafeeVars) : Checked DatafeeVars :=
  if st.dheight ≤ height then do
    let dfee ← defined vars.num
    pure (if st.dheight < height ∨ dfee < st.datafee then ⟨vars, height, dfee⟩
      else { st with vars := vars })
  else pure { st with vars := vars }

/-- One round of the loop of `OracleCurrentDatafee`. -/
def datafeeStep (reforacletxid : Uint256) (publisher : CPubKey) (st : DatafeeVars)
    (unspent : Uint256 × ℤ) : Checked DatafeeVars :=
  match (env.lookup unspent.1).filter (·.vout ≠ []) with
  | none => pure st
  | some tx =>
    let (f, vars) := decodeOraclesOpRet (opretOf tx) st.vars
    if f = fid 'R' ∧ vars.oracletxid = reforacletxid ∧ vars.pk = publisher then
      registration vars unspent.2 st
    else pure { st with vars := vars }

def oracleCurrentDatafee (reforacletxid : Uint256) (markeraddr : String) (publisher : CPubKey) :
    Checked ℤ := do
  let st ← (env.normalUnspents markeraddr).foldlM (env.datafeeStep reforacletxid publisher)
    ⟨.fresh, 0, 0⟩
  pure st.datafee

def oracleDatafee (oracletxid : Uint256) (publisher : CPubKey) : Checked ℤ :=
  match (env.lookup oracletxid).filter fun tx => (decodeOraclesCreateOpRet (opretOf tx)).isSome with
  | some _ => env.oracleCurrentDatafee oracletxid (env.txidAddress oracletxid) publisher
  | none => pure 0

/-! ### A datum -/

/-- `IsOraclesvout` of an output. -/
def isOraclesvout (out : CTxOut) : ℤ :=
  if isPayToCryptoCondition out.scriptPubKey then out.nValue else 0

/-- What `OraclesDataValidate` counts of the output that input `i` spends: nothing of the baton,
which has to be handed on, and of the others what was paid to the publisher. -/
def dataInput (tx vinTx : CTransaction) (i : ℕ) (out : CTxOut) (scriptPubKey : CScript) :
    Checked ℤ :=
  if isOraclesvout out = 0 then pure 0
  else if i = 1 then do
    let old ← defined vinTx.vout[1]?
    let new ← defined tx.vout[1]?
    require (old.scriptPubKey = new.scriptPubKey) "baton violation"
    pure 0
  else pure (if scriptPubKey = out.scriptPubKey then isOraclesvout out else 0)

/-- The input loop of `OraclesDataValidate`, from input `i` on. -/
def dataInputs (tx : CTransaction) (scriptPubKey : CScript) : (i : ℕ) → List CTxIn → Checked ℤ
  | _, [] => pure 0
  | i, vin :: vins =>
    if env.isMyVin EVAL_ORACLES vin.scriptSig then do
      require (i ≠ 0) "unexpected vin.0 is CC"
      let vinTx ← expect (env.lookup vin.prevout.hash) "cant find vinTx"
      let out ← defined vinTx.vout[vin.prevout.n]?
      let assetoshis ← dataInput tx vinTx i out scriptPubKey
      let inputs ← dataInputs tx scriptPubKey (i + 1) vins
      pure (assetoshis + inputs)
    else dataInputs tx scriptPubKey (i + 1) vins

/-- The output loop of `OraclesDataValidate`, in which only output 0 counts. -/
def dataOutput (tx : CTransaction) (scriptPubKey : CScript) : Checked ℤ := do
  let out ← defined tx.vout[0]?
  require (isOraclesvout out = 0 ∨ out.scriptPubKey = scriptPubKey)
    "invalid CC vout CC destination"
  pure (isOraclesvout out)

def oraclesDataValidate (tx : CTransaction) (oracletxid : Uint256) (publisher : CPubKey)
    (datafee : ℤ) : Checked Unit := do
  let fee ← env.oracleDatafee oracletxid publisher
  require (fee = datafee) "mismatched datafee"
  let scriptPubKey := env.ccPubKey (makeCCcond1 EVAL_ORACLES publisher)
  let inputs ← env.dataInputs tx scriptPubKey 0 tx.vin
  let outputs ← dataOutput tx scriptPubKey
  require (toInt64 inputs = toInt64 (outputs + datafee)) "mismatched inputs != outputs + datafee"

/-- `case 'D'`. -/
def oraclesData (tx : CTransaction) : Checked Unit := do
  let d ← expect ((decodeOraclesData (opretOf tx)).filter fun _ =>
    2 ≤ tx.vin.length ∧ 3 ≤ tx.vout.length) "unexpected OraclesValidate 'D' tx invalid"
  let out2 ← defined tx.vout[2]?
  env.oraclesDataValidate tx d.oracletxid d.pk out2.nValue

/-! ### A registration -/

/-- The oracle that a registration names. -/
def registeredOracle (oracletxid : Uint256) : Checked Unit := do
  let createtx ← expect (env.lookup oracletxid) "invalid oraclescreate txid!"
  let _ ← expect (decodeOraclesCreateOpRet (opretOf createtx))
    "invalid oraclescreate OP_RETURN data!"
  let vin0 ← defined createtx.vin[0]?
  require (!env.isCCInput vin0.scriptSig) "vin.0 is normal for oraclescreate!"
  let out0 ← defined createtx.vout[0]?
  require (env.constrainVout out0 false (some (env.normalAddress oraclespk)) oraclesTxfee)
    "invalid marker for oraclescreate!"

/-- The `'F'` that an input of a registration spends: an output of the contract of the key that
the `'F'` names. The variables are those of before, where the `'F'` cannot be read. -/
def fundInput (vin : CTxIn) (message : String) (vars : OraclesVars) : Checked OraclesVars := do
  let fundtx ← expect (env.lookup vin.prevout.hash) message
  let opret ← defined fundtx.vout.getLast?
  let (f, vars) := decodeOraclesOpRet opret.scriptPubKey vars
  require (f = fid 'F') message
  let out ← defined fundtx.vout[vin.prevout.n]?
  require (out.nValue = CC_MARKER_VALUE) message
  let vinaddress ← expect (env.getscriptaddress out.scriptPubKey) message
  let pk := if vars.pk = [] then oraclespk else vars.pk
  require (env.getscriptaddress (env.ccPubKey (makeCCcond1 EVAL_ORACLES pk)) = some vinaddress)
    message
  pure vars

/-- The check of `vin.1` or of the last input. The transaction id of the `'F'` is compared
whether the input is one of the contract or not. -/
def registerInput (vin : CTxIn) (message : String) (oracletxid : Uint256) (vars : OraclesVars) :
    Checked OraclesVars := do
  let vars ← if env.isMyVin EVAL_ORACLES vin.scriptSig then env.fundInput vin message vars
    else pure vars
  require (oracletxid = vars.oracletxid) message
  pure vars

/-- What is said about an input of a registration that does not fit. -/
def registerMessage (i : ℕ) : String :=
  "invalid vin." ++ toString i ++ " for oraclesregister, it must be CC vin or pubkey not same as "
    ++ "vin pubkey, register and fund tx must be done from owner of pubkey that registers to "
    ++ "oracle!!"

/-- What is said about a key without its output. -/
def pubkeyMessage : String :=
  "pubkey in OP_RETURN and in vout.2 not matching, register must be done from owner of pubkey "
    ++ "that registers to oracle!"

/-- `case 'R'`. The id and the key of the `'F'` are read into a variable that was null and into
the one that held the key of the registration. -/
def oraclesRegister (tx : CTransaction) : Checked Unit := do
  require (PUBKEY_SPOOFING_FIX_ACTIVATION < env.latestTimestamp)
    "unexpected OraclesValidate for register"
  let (f, registered) := decodeOraclesOpRet (opretOf tx) .fresh
  require (f = fid 'R') "invalid oraclesregister OP_RETURN data!"
  env.registeredOracle registered.oracletxid
  let vin0 ← defined tx.vin[0]?
  require (!env.isCCInput vin0.scriptSig) "vin.0 is normal for oraclesregister!"
  let vin1 ← defined tx.vin[1]?
  let vinLast ← defined tx.vin.getLast?
  require (env.isMyVin EVAL_ORACLES vin1.scriptSig ∨ env.isMyVin EVAL_ORACLES vinLast.scriptSig)
    "there is no CC vin from oraclesfund tx"
  let vars ← env.registerInput vin1 (registerMessage 1) registered.oracletxid
    { registered with oracletxid := 0 }
  let vars ← env.registerInput vinLast (registerMessage (tx.vin.length - 1))
    registered.oracletxid vars
  let out0 ← defined tx.vout[0]?
  require (env.constrainVout out0 false (some (env.txidAddress registered.oracletxid))
    oraclesTxfee) "invalid marker for oraclesregister!"
  let pkaddress ← expect (env.getscriptaddress (payToPubkey vars.pk)) pubkeyMessage
  let out2 ← defined tx.vout[2]?
  require (env.constrainVout out2 false (some pkaddress) CC_MARKER_VALUE) pubkeyMessage

/-! ### The validator -/

/-- The branches of `OraclesValidate`, for the second byte of the opreturn. -/
def oraclesChecks (tx : CTransaction) (funcid : UInt8) : Checked Unit :=
  if funcid = fid 'C' ∨ funcid = fid 'F' then
    .error (.invalid "unexpected OraclesValidate for create")
  else if funcid = fid 'R' then env.oraclesRegister tx
  else if funcid = fid 'S' then .error (.invalid "unexpected OraclesValidate for subscribe")
  else if funcid = fid 'D' then env.oraclesData tx
  else .error (.invalid "unexpected OraclesValidate funcid")

def oraclesValidate (tx : CTransaction) : Checked Unit := do
  require (tx.vout ≠ []) "no vouts"
  let vopret := getOpReturnData (opretOf tx)
  require (2 < vopret.length) "unexpected oracles missing funcid"
  env.oraclesChecks tx (vopret.getD 1 0)

end OraclesEnv

end Komodo
