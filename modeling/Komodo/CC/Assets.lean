/-
# The assets contract

`src/src/cc/assets.cpp`: `AssetsValidate`, and of `src/src/cc/CCassetsCore.cpp`:
`DecodeAssetTokenOpRet`, `ValidateBidRemainder`, `ValidateAskRemainder`,
`GetAssetorigaddrs`, `AssetValidateCCvin`, `AssetValidateBuyvin`,
`AssetValidateSellvin`, `ValidateAssetOpret`, `IsAssetvout`, `AssetCalcAmounts`.

A bid (`'b'`) locks coins at the address of the contract and asks for tokens, an ask
(`'s'`) locks tokens and asks for coins. A fill (`'B'`, `'S'`) spends output 0 of the bid
or ask, or of the fill before it, with `vin.1`, leaves the rest in its own output 0 and
writes what is still asked for to its opreturn. A cancel (`'o'`, `'x'`) returns what is
left.

The contract's record of eval code `EVAL_ASSETS` lives as long as the process. Its field
`additionalTokensEvalcode2` takes part in the token addresses, and `AssetsValidate`
writes it for a non-fungible token and never clears it: it is a parameter here, the value
that earlier calls have left.
-/

import Komodo.CC.Checks
import Komodo.CC.Tokens

namespace Komodo

/-! ### The opreturn -/

/-- What `DecodeAssetTokenOpRet` returns; `price` is what is asked for. -/
structure AssetOpRet where
  funcid : UInt8
  assetid : Uint256
  assetid2 : Uint256
  price : ℤ
  origpubkey : Bytes
deriving DecidableEq, Repr

/-- The reads of a bid, an ask or a fill. -/
def readAssetOrder (assetid : Uint256) : Unserialize AssetOpRet := do
  let _ ← Unserialize.uint8
  let funcid ← Unserialize.uint8
  let price ← Unserialize.int 8
  let origpubkey ← Unserialize.vector
  pure ⟨funcid, assetid, 0, price, origpubkey⟩

/-- The reads of an exchange. -/
def readAssetExchange (assetid : Uint256) : Unserialize AssetOpRet := do
  let _ ← Unserialize.uint8
  let funcid ← Unserialize.uint8
  let assetid2 ← Unserialize.uint256
  let price ← Unserialize.int 8
  let origpubkey ← Unserialize.vector
  pure ⟨funcid, assetid, revuint256 assetid2, price, origpubkey⟩

/-- The assets blob of a token opreturn. -/
def decodeAssetBlob (assetid : Uint256) (vopretAssets : Bytes) : Option AssetOpRet :=
  match vopretAssets with
  | evalcode :: funcid :: rest =>
    if evalcode ≠ EVAL_ASSETS then none
    else if funcid ∈ "xo".toList.map fid then
      if rest = [] then some ⟨funcid, assetid, 0, 0, []⟩ else none
    else if funcid ∈ "sbSB".toList.map fid then
      Unserialize.unmarshal vopretAssets (readAssetOrder assetid)
    else if funcid ∈ "Ee".toList.map fid then
      Unserialize.unmarshal vopretAssets (readAssetExchange assetid)
    else none
  | _ => none

def decodeAssetTokenOpRet (scriptPubKey : CScript) : Option AssetOpRet :=
  (decodeTokenOpRet scriptPubKey).bind fun t =>
    decodeAssetBlob t.tokenid (getOpretBlob t.oprets OPRETID_ASSETSDATA)

/-! ### Remainders -/

/-- `ValidateBidRemainder`. The price of what is left is only logged. -/
def validateBidRemainder (remaining_units remaining_nValue orig_nValue received_nValue paidunits
    totalunits : ℤ) : Bool :=
  if orig_nValue = 0 ∨ received_nValue = 0 ∨ paidunits = 0 ∨ totalunits = 0 then false
  else if totalunits ≠ toInt64 (remaining_units + paidunits) then false
  else if orig_nValue ≠ toInt64 (remaining_nValue + received_nValue) then false
  else
    let unitprice := orig_nValue.tdiv totalunits
    let recvunitprice := received_nValue.tdiv paidunits
    unitprice ≤ recvunitprice

/-- `ValidateAskRemainder`; `none` where the price of what is left, which is only logged,
divides by zero. -/
def validateAskRemainder (remaining_nValue remaining_assetoshis orig_assetoshis
    received_assetoshis paid_nValue total_nValue : ℤ) : Option Bool :=
  if orig_assetoshis = 0 ∨ received_assetoshis = 0 ∨ paid_nValue = 0 ∨ total_nValue = 0 then
    some false
  else if total_nValue ≠ toInt64 (remaining_nValue + paid_nValue) then some false
  else if orig_assetoshis ≠ toInt64 (remaining_assetoshis + received_assetoshis) then some false
  else
    let unitprice := total_nValue.tdiv orig_assetoshis
    let recvunitprice := paid_nValue.tdiv received_assetoshis
    if remaining_nValue ≠ 0 ∧ remaining_assetoshis = 0 then none
    else some (unitprice ≤ recvunitprice)

/-! ### The inputs of a fill or a cancel -/

/-- The public key of the assets contract, `AssetsCChexstr`. -/
def assetsUnspendablePk : CPubKey :=
  [0x02, 0xad, 0xf8, 0x4e, 0x0e, 0x07, 0x5c, 0xf9, 0x08, 0x68, 0xbd, 0x4e, 0x3d, 0x34, 0xa0,
   0x34, 0x20, 0xe0, 0x34, 0x71, 0x96, 0x49, 0xc4, 0x1f, 0x37, 0x1f, 0xc7, 0x0d, 0x8e, 0x33,
   0xaa, 0x27, 0x02]

/-- `cpAssets->unspendableCCaddr`, `AssetsCCaddr`. -/
def assetsUnspendableCCaddr : String := "RGKRjeTBw4LYFotSDLT6RWzMHbhXri6BG6"

namespace ContractEnv

variable (env : ContractEnv) (additionalTokensEvalcode2 : UInt8)

/-- `GetCCaddress(cpAssets, …)`: the key of the contract stands in for an empty one. -/
def assetsCCaddress (pk : CPubKey) : Option String :=
  env.getscriptaddress (env.ccPubKey
    (makeCCcond1 EVAL_ASSETS (if pk = [] then assetsUnspendablePk else pk)))

/-- `GetTokensCCaddress(cpAssets, …, GetUnspendable(cpAssets, NULL))`: where the tokens of
an ask are locked. -/
def tokensDualEvalUnspendable : Option String :=
  env.getscriptaddress (env.ccPubKey
    (makeTokensCCcond1 EVAL_ASSETS additionalTokensEvalcode2 assetsUnspendablePk))

/-- `GetTokensCCaddress(cpTokens, …)` with the non-fungible eval code of the record. -/
def origTokensAddress (pk : CPubKey) : Option String :=
  env.getscriptaddress (env.ccPubKey (makeTokensCCcond1 EVAL_TOKENS additionalTokensEvalcode2
    (if pk = [] then tokensUnspendablePk else pk)))

/-- `GetAssetorigaddrs`: the token address and the normal address of who made the offer. -/
def getAssetorigaddrs (vintx : CTransaction) : Option (String × String) := do
  let d ← decodeAssetTokenOpRet (opretOf vintx)
  if d.funcid ∈ "sSbB".toList.map fid then
    let origCCaddr ← env.origTokensAddress additionalTokensEvalcode2 (pubkey2pk d.origpubkey)
    let origNormalAddr ← env.getscriptaddress (payToPubkey d.origpubkey)
    pure (origCCaddr, origNormalAddr)
  else none

/-- What `AssetValidateCCvin` finds out about the output that `vin.1` spends. -/
structure AssetVin where
  vinTx : CTransaction
  out0 : CTxOut
  origCCaddr : String
  origaddr : String

/-- Whether the spent output stands where offers of this kind lock their funds. -/
def isAssetSource (funcid : UInt8) (out : CTxOut) : Bool :=
  let destaddr := env.getscriptaddress out.scriptPubKey
  if funcid ∈ "Sx".toList.map fid then
    destaddr.isSome ∧ destaddr = env.tokensDualEvalUnspendable additionalTokensEvalcode2
  else if funcid ∈ "Bo".toList.map fid then
    destaddr.isSome ∧ destaddr = env.assetsCCaddress assetsUnspendablePk
  else true

/-- `AssetValidateCCvin(cp, eval, origCCaddr, origaddr, tx, 1, vinTx)`, where `funcid` is
that of the transaction. -/
def assetValidateCCvin (funcid : UInt8) (tx : CTransaction) : Checked AssetVin := do
  require (2 ≤ tx.vin.length) "not enough for CC vins"
  let vin1 ← defined tx.vin[1]?
  require (vin1.prevout.n = 0) "vin1 needs to be buyvin.vout[0]"
  let vinTx ← expect (env.lookup vin1.prevout.hash) "always should find CCvin, but didnt"
  let out0 ← defined vinTx.vout[0]?
  require (env.isAssetSource additionalTokensEvalcode2 funcid out0) "invalid vin assets CCaddr"
  let addrs ← expect (env.getAssetorigaddrs additionalTokensEvalcode2 vinTx)
    "couldnt get origaddr for buyvin"
  require (out0.nValue ≠ 0) "null value CCvin"
  pure ⟨vinTx, out0, addrs.1, addrs.2⟩

/-- The marker that a bid keeps in its output 1; a fill has none there. -/
def bidMarker (vinTx : CTransaction) (funcid : UInt8) : Checked Unit :=
  if funcid = fid 'b' then do
    let out1 ← defined vinTx.vout[1]?
    require (isPayToCryptoCondition out1.scriptPubKey) "invalid normal vout1 for buyvin"
  else pure ()

/-- `AssetValidateBuyvin`: the spent output and the offer in its transaction. -/
def assetValidateBuyvin (funcid : UInt8) (tx : CTransaction) (refassetid : Uint256) :
    Checked (AssetVin × AssetOpRet) := do
  let vin ← env.assetValidateCCvin additionalTokensEvalcode2 funcid tx
  require (isPayToCryptoCondition vin.out0.scriptPubKey) "invalid normal vout0 for buyvin"
  let bid ← expect (decodeAssetTokenOpRet (opretOf vin.vinTx)) "invalid opreturn for buyvin"
  bidMarker vin.vinTx bid.funcid
  require (bid.funcid = fid 'b' ∨ bid.funcid = fid 'B') "invalid opreturn for buyvin"
  require (refassetid = bid.assetid) "invalid assetid for buyvin"
  pure (vin, bid)

def validateAssetOpret (tx : CTransaction) (v : ℕ) (assetid : Uint256) : Option AssetOpRet := do
  let d ← decodeAssetTokenOpRet (opretOf tx)
  if d.funcid ≠ fid 'E' then
    if assetid ≠ 0 ∧ d.assetid = assetid then some d else none
  else if v < 2 ∧ assetid ≠ 0 ∧ d.assetid = assetid then some d
  else if v = 2 ∧ assetid ≠ 0 ∧ d.assetid2 = assetid then some d
  else none

/-- `IsAssetvout`: the amount and the offer in the opreturn; the last output is that one. -/
def isAssetvout (tx : CTransaction) (v : ℕ) (refassetid : Uint256) : Option (ℤ × AssetOpRet) :=
  match tx.vout.dropLast[v]? with
  | none => none
  | some out =>
    if isPayToCryptoCondition out.scriptPubKey then
      (validateAssetOpret tx v refassetid).map fun d => (out.nValue, d)
    else none

def assetValidateSellvin (funcid : UInt8) (tx : CTransaction) (assetid : Uint256) :
    Checked (AssetVin × AssetOpRet) := do
  let vin ← env.assetValidateCCvin additionalTokensEvalcode2 funcid tx
  let ask ← expect ((isAssetvout vin.vinTx 0 assetid).filter (·.1 ≠ 0))
    "invalid missing CC vout0 for sellvin"
  pure (vin, ask.2)

/-! ### The branches of the validator -/

/-- The address with the marker of an order, for the key in its opreturn. -/
def isAssetMarker (out : CTxOut) (origpubkey : Bytes) : Bool :=
  env.constrainVout out true (some ((env.assetsCCaddress (pubkey2pk origpubkey)).getD ""))
    CC_MARKER_VALUE

/-- `case 'o'`, cancelbuy. -/
def validateCancelbuy (tx : CTransaction) (d : AssetOpRet) : Checked Unit := do
  let (vin, _) ← env.assetValidateBuyvin additionalTokensEvalcode2 d.funcid tx d.assetid
  let out0 ← defined tx.vout[0]?
  require (env.constrainVout out0 false (some vin.origaddr) vin.out0.nValue)
    "invalid refund for cancelbuy"
  env.preventCC tx (some 3) (some 0)

/-- The part of `case 'B'` for a change output of tokens, which the code looks for at
`vout.4`. -/
def fillbuyWithChange (inputs : ℤ) (origTokensCCaddr : String) (out2 out4 : CTxOut) :
    Checked Unit := do
  require (env.constrainVout out2 true (some origTokensCCaddr) 0)
    "vout2 doesnt go to origpubkey fillbuy"
  require (inputs = toInt64 (out2.nValue + out4.nValue)) "asset inputs doesnt match vout2+3 fillbuy"

/-- Where the coins of a bid that is not used up stay. -/
def keepsBid (remaining_price : ℤ) (out0 : CTxOut) : Bool :=
  remaining_price = 0 ∨ env.constrainVout out0 true (some assetsUnspendableCCaddr) 0

/-- The other part of `case 'B'`. -/
def fillbuyWithoutChange (inputs : ℤ) (origTokensCCaddr : String) (d bid : AssetOpRet)
    (nValue : ℤ) (out0 out1 out2 out3 : CTxOut) : Checked Unit := do
  require (env.constrainVout out2 true (some origTokensCCaddr) inputs)
    "vout2 doesnt match inputs fillbuy"
  require (env.constrainVout out1 false none 0) "vout1 is CC for fillbuy"
  require (env.isAssetMarker out3 d.origpubkey) "invalid marker for original pubkey"
  require (validateBidRemainder d.price out0.nValue nValue out1.nValue out2.nValue bid.price)
    "mismatched remainder for fillbuy"
  require (env.keepsBid d.price out0) "mismatched vout0 AssetsCCaddr for fillbuy"

/-- `case 'B'`, fillbuy. -/
def validateFillbuy (tx : CTransaction) (d : AssetOpRet) (inputs : ℤ) : Checked Unit := do
  let (vin, bid) ← env.assetValidateBuyvin additionalTokensEvalcode2 d.funcid tx d.assetid
  require (4 ≤ tx.vout.length) "not enough vouts for fillbuy"
  require (bid.origpubkey = d.origpubkey) "mismatched origpubkeys for fillbuy"
  let out0 ← defined tx.vout[0]?
  let out1 ← defined tx.vout[1]?
  let out2 ← defined tx.vout[2]?
  let out3 ← defined tx.vout[3]?
  require (vin.out0.nValue = toInt64 (out0.nValue + out1.nValue))
    "locked value doesnt match vout0+1 fillbuy"
  -- there may be only four outputs
  let out4 ← defined tx.vout[4]?
  if isPayToCryptoCondition out4.scriptPubKey then do
    env.fillbuyWithChange inputs vin.origCCaddr out2 out4
    env.preventCC tx none (some 5)
  else do
    env.fillbuyWithoutChange inputs vin.origCCaddr d bid vin.out0.nValue out0 out1 out2 out3
    env.preventCC tx none (some 4)

/-- `case 'x'`, cancel sell. -/
def validateCancelsell (tx : CTransaction) (d : AssetOpRet) : Checked Unit := do
  let (vin, _) ← env.assetValidateSellvin additionalTokensEvalcode2 d.funcid tx d.assetid
  let out0 ← defined tx.vout[0]?
  require (env.constrainVout out0 true (some vin.origCCaddr) vin.out0.nValue)
    "invalid vout for cancel"
  env.preventCC tx (some 3) (some 1)

/-- Where the tokens of an ask that is not used up stay. -/
def keepsAsk (remaining_price : ℤ) (out0 : CTxOut) : Bool :=
  remaining_price = 0 ∨ env.constrainVout out0 true
    (some ((env.tokensDualEvalUnspendable additionalTokensEvalcode2).getD "")) 0

/-- `case 'S'`, fillsell. -/
def validateFillsell (tx : CTransaction) (d : AssetOpRet) : Checked Unit := do
  let (vin, ask) ← env.assetValidateSellvin additionalTokensEvalcode2 d.funcid tx d.assetid
  require (4 ≤ tx.vout.length) "not enough vouts for fillask"
  require (ask.origpubkey = d.origpubkey) "mismatched origpubkeys for fillask"
  let out0 ← defined tx.vout[0]?
  let out1 ← defined tx.vout[1]?
  let out2 ← defined tx.vout[2]?
  let out3 ← defined tx.vout[3]?
  require (vin.out0.nValue = toInt64 (out0.nValue + out1.nValue))
    "locked value doesnt match vout0+1 fillask"
  let remainder ← defined (validateAskRemainder d.price out0.nValue vin.out0.nValue out1.nValue
    out2.nValue ask.price)
  require remainder "mismatched remainder for fillask"
  require (env.constrainVout out1 true none 0) "normal vout1 for fillask"
  require (env.constrainVout out2 false (some vin.origaddr) 0) "normal vout1 for fillask"
  require (env.isAssetMarker out3 d.origpubkey) "invalid marker for original pubkey"
  require (env.keepsAsk additionalTokensEvalcode2 d.price out0)
    "mismatched vout0 assets dual unspendable CCaddr for fill sell"

/-- `AssetCalcAmounts`: what the token inputs bring; its sum of the outputs is not used.
`CheckTxInputs` has bounded the sum of the inputs before. -/
def assetCalcAmounts (assetid : Uint256) : List CTxIn → Checked ℤ
  | [] => pure 0
  | i :: vin =>
    if env.isMyVin EVAL_TOKENS i.scriptSig then do
      let vinTx ← expect (env.lookup i.prevout.hash) "always should find vin tx, but didnt"
      let inputs ← assetCalcAmounts assetid vin
      pure (isTokensvoutFlat env.toCCEnv env.lookup vinTx (toInt32 i.prevout.n) assetid + inputs)
    else assetCalcAmounts assetid vin

/-- The field `additionalTokensEvalcode2` once `AssetsValidate` knows the token. -/
def assetsEvalcode2 (assetid : Uint256) : UInt8 :=
  (getNonfungibleData env.lookup assetid).headD additionalTokensEvalcode2

/-- The `switch` on the function id. -/
def validateAssetFuncid (tx : CTransaction) (d : AssetOpRet) (inputs : ℤ) : Checked Unit :=
  if d.funcid = fid 'c' then .error (.invalid "invalid asset funcid 'c'")
  else if d.funcid = fid 't' then .error (.invalid "invalid asset funcid 't'")
  else if d.funcid = fid 'b' then .error (.invalid "invalid asset funcid (b)")
  else if d.funcid = fid 'o' then env.validateCancelbuy additionalTokensEvalcode2 tx d
  else if d.funcid = fid 'B' then env.validateFillbuy additionalTokensEvalcode2 tx d inputs
  else if d.funcid = fid 's' then .error (.invalid "invalid asset funcid (s)")
  else if d.funcid = fid 'x' then env.validateCancelsell additionalTokensEvalcode2 tx d
  else if d.funcid = fid 'S' then env.validateFillsell additionalTokensEvalcode2 tx d
  else if d.funcid = fid 'E' then .error (.invalid "unexpected assets fillexchange funcid")
  else .error (.invalid "unexpected assets funcid")

/-- Whether a cancel, or a creation that is found, stands behind an id. -/
def assetKnown (funcid : UInt8) (txid : Uint256) : Bool :=
  funcid = fid 'o' ∨ funcid = fid 'x' ∨ (env.lookup txid).isSome

/-- `AssetsValidate` from the decoded opreturn on. -/
def validateAsset (tx : CTransaction) (d : AssetOpRet) : Checked Unit := do
  require (env.assetKnown d.funcid d.assetid) "cant find asset create txid"
  require (d.assetid2 = 0 ∨ env.assetKnown d.funcid d.assetid2) "cant find asset2 create txid"
  let vin0 ← defined tx.vin[0]?
  require (!env.isCCInput vin0.scriptSig) "illegal asset vin0"
  require (2 ≤ tx.vout.length) "too few vouts"
  require (d.assetid ≠ 0) "illegal assetid"
  let inputs ← env.assetCalcAmounts d.assetid tx.vin
  env.validateAssetFuncid (env.assetsEvalcode2 additionalTokensEvalcode2 d.assetid) tx d inputs

/-- The chains and heights for which `AssetsValidate` returns true at once. -/
def assetsExempt (symbol : String) : Bool :=
  (symbol = "SEC" ∧ env.tip.nHeight ≤ 144073) ∨ (symbol = "MGNX" ∧ env.tip.nHeight ≤ 210190)

/-- `AssetsValidate` on the chain with this `chainName`. -/
def assetsValidate (symbol : String) (tx : CTransaction) : Checked Unit :=
  if env.assetsExempt symbol then pure ()
  else do
    require (tx.vout ≠ []) "AssetValidate: no vouts"
    let d ← expect (decodeAssetTokenOpRet (opretOf tx)) "AssetValidate: invalid opreturn payload"
    env.validateAsset additionalTokensEvalcode2 tx d

/-! ### What the steps check -/

section checks
variable {env : ContractEnv} {additionalTokensEvalcode2 : UInt8} {tx : CTransaction}

theorem assetsValidate_eq_ok {symbol : String} {d : AssetOpRet}
    (h : env.assetsValidate additionalTokensEvalcode2 symbol tx = .ok ())
    (hexempt : env.assetsExempt symbol = false)
    (hd : decodeAssetTokenOpRet (opretOf tx) = some d) :
    ∃ inputs, env.assetCalcAmounts d.assetid tx.vin = .ok inputs
      ∧ env.validateAssetFuncid (env.assetsEvalcode2 additionalTokensEvalcode2 d.assetid) tx d
        inputs = .ok () := by
  simp only [assetsValidate, hexempt, Bool.false_eq_true, if_false, Checked.bind_eq_ok,
    expect_eq_ok, hd, Option.some.injEq, exists_eq_left'] at h
  obtain ⟨⟨⟩, -, h⟩ := h
  simp only [validateAsset, Checked.bind_eq_ok] at h
  obtain ⟨⟨⟩, -, ⟨⟩, -, _, -, ⟨⟩, -, ⟨⟩, -, ⟨⟩, -, inputs, hinputs, hswitch⟩ := h
  exact ⟨inputs, hinputs, hswitch⟩

/-- The output that `vin.1` spends is output 0 of a transaction that is found. -/
theorem assetValidateCCvin_eq_ok {funcid : UInt8} {vin : AssetVin}
    (h : env.assetValidateCCvin additionalTokensEvalcode2 funcid tx = .ok vin) :
    ∃ vin1, tx.vin[1]? = some vin1 ∧ vin1.prevout.n = 0
      ∧ env.lookup vin1.prevout.hash = some vin.vinTx ∧ vin.vinTx.vout[0]? = some vin.out0
      ∧ env.isAssetSource additionalTokensEvalcode2 funcid vin.out0 = true
      ∧ env.getAssetorigaddrs additionalTokensEvalcode2 vin.vinTx
        = some (vin.origCCaddr, vin.origaddr) := by
  simp only [assetValidateCCvin, Checked.bind_eq_ok, require_eq_ok, expect_eq_ok, defined_eq_ok,
    Checked.pure_eq_ok, decide_eq_true_eq, exists_const] at h
  obtain ⟨-, vin1, hvin1, hn, vinTx, hvinTx, out0, hout0, hsource, addrs, haddrs, -, rfl⟩ := h
  exact ⟨vin1, hvin1, hn, hvinTx, hout0, hsource, haddrs⟩

theorem getAssetorigaddrs_eq_some {vintx : CTransaction} {offer : AssetOpRet}
    {origCCaddr origNormalAddr : String} (hoffer : decodeAssetTokenOpRet (opretOf vintx) = some offer)
    (h : env.getAssetorigaddrs additionalTokensEvalcode2 vintx
      = some (origCCaddr, origNormalAddr)) :
    env.origTokensAddress additionalTokensEvalcode2 (pubkey2pk offer.origpubkey) = some origCCaddr
      ∧ env.getscriptaddress (payToPubkey offer.origpubkey) = some origNormalAddr := by
  simp only [getAssetorigaddrs, hoffer, Option.bind_eq_bind, Option.bind_some] at h
  split_ifs at h
  simp only [Option.bind_eq_some_iff, Option.pure_def, Option.some.injEq, Prod.mk.injEq] at h
  obtain ⟨cc, hcc, normal, hnormal, rfl, rfl⟩ := h
  exact ⟨hcc, hnormal⟩

/-- `ConstrainVout` with an address. -/
theorem constrainVout_some {out : CTxOut} {ccFlag : Bool} {cmpaddr : String} {nValue : ℤ}
    (h : env.constrainVout out ccFlag (some cmpaddr) nValue = true) :
    isPayToCryptoCondition out.scriptPubKey = ccFlag
      ∧ env.getscriptaddress out.scriptPubKey = some cmpaddr
      ∧ (nValue = 0 ∨ nValue = out.nValue) := by
  simpa [constrainVout] using h

end checks

end ContractEnv

end Komodo
