/-
# The gateways validator

`src/src/cc/gateways.cpp`: the opreturn decoders and `GatewaysValidate`, with
`ConstrainVout`, `GetCCaddress`, `GetTokensCCaddress`, `CCtxidaddr` and
`PreventCC` of `src/src/cc/CCutils.cpp`, `CCfullsupply` of `src/src/cc/CCtx.cpp`
and `DecodeOraclesCreateOpRet` of `src/src/cc/oracles.cpp`.

The validator is a chain of checks for each function id, each with its message, so it is written
over `Except String`; `gatewaysValidate` records the message.

The checks of a function id fall into two parts: those of the opreturn and of
the transactions it names (`claimNamed`, `partialNamed`, …), and those of the
transaction's own inputs and outputs. Of a claim's own inputs and outputs one
check is ever made: `else if (tx.vin.size()>0) { … }` ends the chain, so the
checks after it (the marker input, the destination, the change, the amount, the
deposit proof) are not reached, a validated transaction having an input.
-/

import Komodo.CC.TokenOpRet

namespace Komodo

open Unserialize

/-- What `GatewaysValidate` calls outside this development. -/
structure GatewaysEnv extends CCEnv where
  /-- `Getscriptaddress`: the address of a script; `none` when it has none. -/
  getscriptaddress : CScript → Option String
  /-- `komodo_txnotarizedconfirmed`. -/
  txNotarizedConfirmed : Uint256 → Bool
  /-- `myGetTransaction`. -/
  lookup : TxLookup
  /-- `cp->additionalTokensEvalcode2`, zero as `CCinit` leaves it. -/
  additionalTokensEvalcode2 : UInt8 := 0

def EVAL_ORACLES : UInt8 := 0xec

/-- The public key of the gateways contract, `GatewaysCChexstr`. -/
def gatewayspk : CPubKey :=
  [0x03, 0xea, 0x9c, 0x06, 0x2b, 0x96, 0x52, 0xd8, 0xef, 0xf3, 0x48, 0x79, 0xb5, 0x04, 0xed,
   0xa0, 0x71, 0x78, 0x95, 0xd2, 0x75, 0x97, 0xaa, 0xeb, 0x60, 0x34, 0x7d, 0x65, 0xee, 0xd9,
   0x6c, 0xcb, 0x40]

/-- `cp->unspendableCCaddr` of the gateways contract. -/
def gatewaysCCaddr : String := "RKWpoK6vTRtq5b9qrRBodLkCzeURHeEk33"

/-! ### Opreturns -/

/-- The payload of a gateways opreturn: the gateways blob of a token opreturn,
or the whole opreturn. -/
def gatewaysPayload (scriptPubKey : CScript) : Bytes :=
  let blob := getOpretBlob ((decodeTokenOpRet scriptPubKey).elim [] TokenOpRet.oprets)
    OPRETID_GATEWAYSDATA
  if blob ≠ [] then blob else getOpReturnData scriptPubKey

/-- The token id that the decoders of token opreturns hand back. -/
def gatewaysTokenid (scriptPubKey : CScript) : Uint256 :=
  (decodeTokenOpRet scriptPubKey).elim 0 TokenOpRet.tokenid

/-- `DecodeGatewaysOpRet`: the function id, `none` for an unknown one. -/
def decodeGatewaysOpRet (scriptPubKey : CScript) : Option UInt8 :=
  match gatewaysPayload scriptPubKey with
  | e :: f :: _ :: _ =>
    if e = EVAL_GATEWAYS ∧ f ∈ "BDCWPSM".toList.map fid then some f else none
  | _ => none

/-- A decoder of a payload of more than two bytes that starts with two bytes of
which the second is the function id; the first is not looked at. -/
def decodePayload {α : Type} (funcid : Char) (vopret : Bytes) (fields : Unserialize α) :
    Option α :=
  if 2 < vopret.length then
    match unmarshal vopret do
      let _ ← uint8
      let f ← uint8
      let a ← fields
      pure (f, a) with
    | some (f, a) => if f = fid funcid then some a else none
    | none => none
  else none

/-- The fields of a bind that `GatewaysValidate` and `GatewaysVerify` read. -/
structure GatewaysBind where
  tokenid : Uint256
  coin : Bytes
  totalsupply : ℤ
  oracletxid : Uint256
  M : UInt8
  N : UInt8
  pubkeys : List CPubKey
  taddr : UInt8
  prefix1 : UInt8
  prefix2 : UInt8
deriving DecidableEq, Repr

/-- `DecodeGatewaysBindOpRet(…) == 'B'`, without the deposit address it also builds
for `GatewaysVerify`. -/
def decodeGatewaysBindOpRet (scriptPubKey : CScript) : Option GatewaysBind :=
  decodePayload 'B' (gatewaysPayload scriptPubKey) do
    let coin ← vector
    let totalsupply ← int 8
    let oracletxid ← uint256
    let M ← uint8
    let N ← uint8
    let pubkeys ← vectorOf CPubKey.unserialize
    let taddr ← uint8
    let prefix1 ← uint8
    let prefix2 ← uint8
    let _wiftype ← uint8
    pure ⟨gatewaysTokenid scriptPubKey, coin, totalsupply, oracletxid, M, N, pubkeys, taddr,
      prefix1, prefix2⟩

/-- The fields of a deposit that `GatewaysValidate` and `GatewaysVerify` read. -/
structure GatewaysDeposit where
  bindtxid : Uint256
  refcoin : Bytes
  height : ℤ
  cointxid : Uint256
  claimvout : ℤ
  deposithex : Bytes
  proof : Bytes
  destpub : CPubKey
  amount : ℤ
deriving DecidableEq, Repr

/-- `DecodeGatewaysDepositOpRet(…) == 'D'`. -/
def decodeGatewaysDepositOpRet (scriptPubKey : CScript) : Option GatewaysDeposit :=
  decodePayload 'D' (getOpReturnData scriptPubKey) do
    let refcoin ← vector
    let bindtxid ← uint256
    let _publishers ← vectorOf CPubKey.unserialize
    let _txids ← vectorOf uint256
    let height ← int 4
    let cointxid ← uint256
    let claimvout ← int 4
    let deposithex ← vector
    let proof ← vector
    let destpub ← CPubKey.unserialize
    let amount ← int 8
    pure ⟨bindtxid, refcoin, height, cointxid, claimvout, deposithex, proof, destpub, amount⟩

/-- The fields of a claim. -/
structure GatewaysClaim where
  tokenid : Uint256
  bindtxid : Uint256
  refcoin : Bytes
  deposittxid : Uint256
  destpub : CPubKey
  amount : ℤ
deriving DecidableEq, Repr

/-- `DecodeGatewaysClaimOpRet(…) == 'C'`. -/
def decodeGatewaysClaimOpRet (scriptPubKey : CScript) : Option GatewaysClaim :=
  decodePayload 'C' (gatewaysPayload scriptPubKey) do
    let bindtxid ← uint256
    let refcoin ← vector
    let deposittxid ← uint256
    let destpub ← CPubKey.unserialize
    let amount ← int 8
    pure ⟨gatewaysTokenid scriptPubKey, bindtxid, refcoin, deposittxid, destpub, amount⟩

/-- The fields of a withdrawal. -/
structure GatewaysWithdraw where
  tokenid : Uint256
  bindtxid : Uint256
  refcoin : Bytes
  withdrawpub : CPubKey
  amount : ℤ
deriving DecidableEq, Repr, Inhabited

/-- `DecodeGatewaysWithdrawOpRet(…) == 'W'`. -/
def decodeGatewaysWithdrawOpRet (scriptPubKey : CScript) : Option GatewaysWithdraw :=
  decodePayload 'W' (gatewaysPayload scriptPubKey) do
    let bindtxid ← uint256
    let refcoin ← vector
    let withdrawpub ← CPubKey.unserialize
    let amount ← int 8
    pure ⟨gatewaysTokenid scriptPubKey, bindtxid, refcoin, withdrawpub, amount⟩

/-- The fields of a partial or of a complete signing that `GatewaysValidate` reads. -/
structure GatewaysSigning where
  withdrawtxid : Uint256
  refcoin : Bytes
  K : UInt8
deriving DecidableEq, Repr, Inhabited

/-- `DecodeGatewaysPartialOpRet(…) == 'P'`. -/
def decodeGatewaysPartialOpRet (scriptPubKey : CScript) : Option GatewaysSigning :=
  decodePayload 'P' (getOpReturnData scriptPubKey) do
    let withdrawtxid ← uint256
    let refcoin ← vector
    let K ← uint8
    let _signerpk ← CPubKey.unserialize
    let _hex ← vector
    pure ⟨withdrawtxid, refcoin, K⟩

/-- `DecodeGatewaysCompleteSigningOpRet(…) == 'S'`. -/
def decodeGatewaysCompleteSigningOpRet (scriptPubKey : CScript) : Option GatewaysSigning :=
  decodePayload 'S' (getOpReturnData scriptPubKey) do
    let withdrawtxid ← uint256
    let refcoin ← vector
    let K ← uint8
    let _hex ← vector
    pure ⟨withdrawtxid, refcoin, K⟩

/-- The fields of a done mark. -/
structure GatewaysMarkDone where
  withdrawtxid : Uint256
  refcoin : Bytes
  completetxid : Uint256
deriving DecidableEq, Repr

/-- `DecodeGatewaysMarkDoneOpRet(…) == 'M'`. -/
def decodeGatewaysMarkDoneOpRet (scriptPubKey : CScript) : Option GatewaysMarkDone :=
  decodePayload 'M' (getOpReturnData scriptPubKey) do
    let withdrawtxid ← uint256
    let refcoin ← vector
    let completetxid ← uint256
    pure ⟨withdrawtxid, refcoin, completetxid⟩

/-- The fields of an oracle creation that `GatewaysValidate` reads. -/
structure OraclesCreate where
  name : Bytes
  format : Bytes
deriving DecidableEq, Repr

/-- `DecodeOraclesCreateOpRet(…) == 'C'`. -/
def decodeOraclesCreateOpRet (scriptPubKey : CScript) : Option OraclesCreate :=
  let vopret := getOpReturnData scriptPubKey
  if vopret[0]? = some EVAL_ORACLES then
    decodePayload 'C' vopret do
      let name ← vector
      let format ← vector
      let _description ← vector
      pure ⟨name, format⟩
  else none

/-! ### Addresses and amounts -/

namespace GatewaysEnv

variable (g : GatewaysEnv)

/-- `_GetCCaddress`; empty when the script has no address. -/
def ccAddress (evalcode : UInt8) (pk : CPubKey) : String :=
  (g.getscriptaddress (g.ccPubKey (makeCCcond1 evalcode pk))).getD ""

/-- `GetTokensCCaddress(cp, gatewaystokensaddr, gatewayspk)`: where the gateways
contract keeps tokens. -/
def gatewaystokensaddr : String :=
  (g.getscriptaddress (g.ccPubKey
    (makeTokensCCcond1 EVAL_GATEWAYS g.additionalTokensEvalcode2 gatewayspk))).getD ""

/-- `CCtxidaddr`: the address of the key made of a transaction id. -/
def txidAddress (txid : Uint256) : String :=
  (g.getscriptaddress (pushData (0x02 :: uint256Bytes txid) ++ [0xac])).getD ""

def constrainVout (out : CTxOut) (ccFlag : Bool) (cmpaddr : String) (nValue : ℤ) : Bool :=
  isPayToCryptoCondition out.scriptPubKey = ccFlag
    ∧ g.getscriptaddress out.scriptPubKey = some cmpaddr ∧ (nValue = 0 ∨ nValue = out.nValue)

/-- `CCfullsupply`. -/
def fullsupply (tokenid : Uint256) : ℤ :=
  match g.lookup tokenid with
  | some tx =>
    match tx.vout.getLast?.bind fun out => decodeTokenCreateOpRet out.scriptPubKey with
    | some _ => (tx.vout.getD 1 CTxOut.null).nValue
    | none => 0
  | none => 0

end GatewaysEnv

/-- The input script at a position; none past the end. -/
def scriptSigAt (tx : CTransaction) (i : ℕ) : CScript := (tx.vin[i]?).elim [] CTxIn.scriptSig

/-- The output at a position; the null output past the end. -/
def voutAt (tx : CTransaction) (i : ℕ) : CTxOut := tx.vout.getD i CTxOut.null

/-- One check of the chain. -/
def check (b : Bool) (message : String) : Except String Unit :=
  if b then .ok () else .error message

/-- One check of the chain that yields a value. -/
def need {α : Type} (a : Option α) (message : String) : Except String α :=
  match a with
  | some a => .ok a
  | none => .error message

/-! ### The checks of each function id -/

section validate
variable (g : GatewaysEnv)

/-- The opreturn of a found transaction; the `'W'` and `'S'` decoders are not
asked when there is no output, and their results stay at their defaults. -/
def decodeLast {α : Type} [Inhabited α] (decode : CScript → Option α) (tx : CTransaction) :
    Option α :=
  match tx.vout.getLast? with
  | some out => decode out.scriptPubKey
  | none => some default

/-- A claim: the opreturn, the bind, the oracle and the deposit it names. -/
def claimNamed (opret : CScript) : Except String Unit := do
  let c ← need (decodeGatewaysClaimOpRet opret) "invalid gatewaysclaim OP_RETURN data!"
  let bindtx ← need (g.lookup c.bindtxid) "invalid gatewaysbind txid!"
  let b ← need (bindtx.vout.getLast?.bind fun out => decodeGatewaysBindOpRet out.scriptPubKey)
    "invalid gatewaysbind OP_RETURN data!"
  check (!g.isCCInput (scriptSigAt bindtx 0)) "vin.0 is normal for gatewaysbind!"
  check (g.constrainVout (voutAt bindtx 0) true g.gatewaystokensaddr b.totalsupply)
    "invalid tokens to gateways vout for gatewaysbind!"
  check (g.constrainVout (voutAt bindtx 1) true gatewaysCCaddr CC_MARKER_VALUE)
    "invalid marker vout for gatewaysbind!"
  check (b.coin = c.refcoin) "refcoin different than in bind tx"
  check (c.tokenid = b.tokenid) "tokenid does not match tokenid from gatewaysbind"
  check (!(b.N = 0 ∨ 15 < b.N ∨ b.N < b.M)) "invalid MofN in gatewaysbind"
  check (b.pubkeys.length = b.N.toNat) "not enough pubkeys(%zu) for N.%u gatewaysbind "
  check (g.fullsupply b.tokenid = b.totalsupply)
    "Gateway bind.%s (%s) globaladdr.%s totalsupply %.8f != fullsupply %.8f\n"
  let oracletx ← need (g.lookup b.oracletxid) "cant find oracletxid %s\n"
  let oracleOut ← need oracletx.vout.getLast? "cant find oracletxid %s\n"
  let o ← need (decodeOraclesCreateOpRet oracleOut.scriptPubKey)
    "invalid oraclescreate OP_RETURN data"
  check (c.refcoin = o.name) "mismatched oracle name %s != %s\n"
  check (o.format = "Ihh".toList.map fid) "illegal format %s != Ihh\n"
  check (g.txNotarizedConfirmed c.bindtxid) "gatewaysbind tx is not yet confirmed(notarised)!"
  let deposittx ← need (g.lookup c.deposittxid) "invalid gatewaysdeposittxid!"
  let d ← need (deposittx.vout.getLast?.bind fun out =>
    decodeGatewaysDepositOpRet out.scriptPubKey) "invalid gatewaysdeposit OP_RETURN data!"
  check (!g.isCCInput (scriptSigAt deposittx 0)) "vin.0 is normal for gatewaysdeposit!"
  let destpub := if d.destpub = [] then gatewayspk else d.destpub
  check (g.ccAddress EVAL_GATEWAYS destpub ≠ ""
      ∧ g.constrainVout (voutAt deposittx 0) true (g.ccAddress EVAL_GATEWAYS destpub)
        CC_MARKER_VALUE) "invalid CC marker vout for gatewaysdeposit!"
  check (g.constrainVout (voutAt deposittx 1) false (g.txidAddress d.cointxid) CC_MARKER_VALUE)
    "invalid normal marker vout for gatewaysdeposit!"
  check (d.refcoin = c.refcoin) "refcoin different than in deposit tx"
  check (c.bindtxid = d.bindtxid) "bindtxid does not match to bindtxid from gatewaysdeposit"
  check (d.amount ≤ b.totalsupply) "deposit amount greater then bind total supply"
  check (g.txNotarizedConfirmed c.deposittxid)
    "gatewaysdeposit tx is not yet confirmed(notarised)!"

/-- A claim's own inputs: all but the last are crypto-condition inputs. A
transaction under validation has an input; without one the source reads
`tx.vin[-1]`. -/
def claimOwn (tx : CTransaction) : Except String Unit :=
  if tx.vin ≠ [] then
    check (tx.vin.dropLast.all fun i => g.isCCInput i.scriptSig) "vin.%d is CC for gatewaysclaim!"
  else .error "vin.%d is CC marker for gatewaysclaim or invalid marker amount!"

/-- The withdrawal named by a partial or complete signing or by a done mark. -/
def withdrawOutputs (withdrawtx : CTransaction) (w : GatewaysWithdraw) : Except String Unit := do
  check (!g.isCCInput (scriptSigAt withdrawtx 0)) "vin.0 is normal for gatewaysWithdraw!"
  check (g.constrainVout (voutAt withdrawtx 0) true gatewaysCCaddr CC_MARKER_VALUE)
    "invalid marker vout for gatewaysWithdraw!"
  check (g.constrainVout (voutAt withdrawtx 1) true g.gatewaystokensaddr w.amount)
    "invalid tokens to gateways vout for gatewaysWithdraw!"

/-- The bind named by a withdrawal. -/
def bindOfWithdraw (w : GatewaysWithdraw) (refcoin : Bytes) : Except String GatewaysBind := do
  let bindtx ← need (g.lookup w.bindtxid) "invalid gatewaysbind txid!"
  let b ← need (bindtx.vout.getLast?.bind fun out => decodeGatewaysBindOpRet out.scriptPubKey)
    "invalid gatewaysbind OP_RETURN data!"
  check (b.coin = refcoin) "refcoin different than in bind tx"
  check (w.tokenid = b.tokenid) "tokenid does not match tokenid from gatewaysbind"
  check (g.txNotarizedConfirmed w.bindtxid) "gatewaysbind tx is not yet confirmed(notarised)!"
  pure b

/-- A partial signing: what it names. Returns `K` and `M`. -/
def partialNamed (opret : CScript) : Except String (UInt8 × UInt8) := do
  let p ← need (decodeGatewaysPartialOpRet opret) "invalid gatewaysPartialSign OP_RETURN data!"
  let withdrawtx ← need (g.lookup p.withdrawtxid) "invalid withdraw txid!"
  let w ← need (decodeLast decodeGatewaysWithdrawOpRet withdrawtx)
    "invalid gatewayswithdraw OP_RETURN data!"
  check (w.refcoin = p.refcoin) "refcoin different than in bind tx"
  withdrawOutputs g withdrawtx w
  check (g.txNotarizedConfirmed p.withdrawtxid)
    "gatewayswithdraw tx is not yet confirmed(notarised)!"
  let b ← bindOfWithdraw g w p.refcoin
  pure (p.K, b.M)

/-- A complete signing: what it names. Returns `K` and `M`. -/
def completeNamed (opret : CScript) : Except String (UInt8 × UInt8) := do
  let s ← need (decodeGatewaysCompleteSigningOpRet opret)
    "invalid gatewayscompletesigning OP_RETURN data!"
  let withdrawtx ← need (g.lookup s.withdrawtxid) "invalid withdraw txid!"
  let w ← need (decodeLast decodeGatewaysWithdrawOpRet withdrawtx)
    "invalid gatewayswithdraw OP_RETURN data!"
  check (w.refcoin = s.refcoin) "refcoin different than in bind tx"
  withdrawOutputs g withdrawtx w
  check ((voutAt withdrawtx 1).nValue = w.amount) "amount in opret not matching tx tokens amount!"
  check (g.txNotarizedConfirmed s.withdrawtxid)
    "gatewayswithdraw tx is not yet confirmed(notarised)!"
  let b ← bindOfWithdraw g w s.refcoin
  pure (s.K, b.M)

/-- A done mark: what it names. Returns `K` and `M`. The withdrawal is the one
of the complete signing. -/
def markDoneNamed (opret : CScript) : Except String (UInt8 × UInt8) := do
  let m ← need (decodeGatewaysMarkDoneOpRet opret) "invalid gatewaysmarkdone OP_RETURN data!"
  let completetx ← need (g.lookup m.completetxid) "invalid gatewayscompletesigning txid!"
  let s ← need (decodeLast decodeGatewaysCompleteSigningOpRet completetx)
    "invalid gatewayscompletesigning OP_RETURN data!"
  check (g.txNotarizedConfirmed m.completetxid)
    "gatewayscompletesigning tx is not yet confirmed(notarised)!"
  let withdrawtx ← need (g.lookup s.withdrawtxid) "invalid withdraw txid!"
  let w ← need (decodeLast decodeGatewaysWithdrawOpRet withdrawtx)
    "invalid gatewayswithdraw OP_RETURN data!"
  check (w.refcoin = m.refcoin) "refcoin different than in bind tx"
  check (g.txNotarizedConfirmed s.withdrawtxid)
    "gatewayswithdraw tx is not yet confirmed(notarised)!"
  let b ← bindOfWithdraw g w m.refcoin
  pure (s.K, b.M)

/-- The own inputs of the three: the first is normal, the last one spends a
marker of the contract. -/
def markerVins (tx : CTransaction) (name : String) : Except String Unit := do
  check (!g.isCCInput (scriptSigAt tx 0)) ("vin.0 is normal for " ++ name ++ "!")
  let spent := tx.vin.getLast?.bind fun i =>
    (g.lookup i.prevout.hash).map fun vintx => voutAt vintx i.prevout.n
  check (g.isMyVin EVAL_GATEWAYS (tx.vin.getLast?.elim [] CTxIn.scriptSig)
      ∧ spent.elim false fun out => out.nValue = CC_MARKER_VALUE)
    ("vin.%d is CC marker for " ++ name ++ " or invalid marker amount!")

/-- The marker output of a partial or a complete signing. -/
def markerVout (tx : CTransaction) (name : String) : Except String Unit :=
  check (g.constrainVout (voutAt tx 0) true gatewaysCCaddr CC_MARKER_VALUE)
    ("vout.0 invalid marker for " ++ name ++ "!")

/-- The branches of `GatewaysValidate`; a function id without a branch passes.
The call of `PreventCC` at the end prevents nothing: both its bounds are `-1`. -/
def gatewaysChecks (tx : CTransaction) (opret : CScript) : Except String Unit :=
  match decodeGatewaysOpRet opret with
  | none => .ok ()
  | some f =>
    if f = fid 'B' then .error "unexpected GatewaysValidate for gatewaysbind!"
    else if f = fid 'D' then .error "unexpected GatewaysValidate for gatewaysdeposit!"
    else if f = fid 'C' then do
      claimNamed g opret
      claimOwn g tx
    else if f = fid 'W' then .error "unexpected GatewaysValidate for gatewaysWithdraw!"
    else if f = fid 'P' then do
      let (K, M) ← partialNamed g opret
      markerVins g tx "gatewayspartialsign"
      markerVout g tx "gatewayspartialsign"
      check (K ≤ M) "invalid number of signs!"
    else if f = fid 'S' then do
      let (K, M) ← completeNamed g opret
      markerVins g tx "gatewayscompletesigning"
      markerVout g tx "gatewayscompletesigning"
      check (M ≤ K) "invalid number of signs!"
    else if f = fid 'M' then do
      let (K, M) ← markDoneNamed g opret
      markerVins g tx "gatewaysmarkdone"
      check (M ≤ K) "invalid number of signs!"
    else .ok ()

def gatewaysValidate (tx : CTransaction) : EvalM Bool :=
  match tx.vout.getLast? with
  | none => EvalM.invalid "no vouts"
  | some opret =>
    match gatewaysChecks g tx opret.scriptPubKey with
    | .ok () => pure true
    | .error message => EvalM.invalid message

end validate

end Komodo
