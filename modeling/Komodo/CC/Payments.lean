/-
# The payments contract

`src/src/cc/payments.cpp`: the opreturns, `IsPaymentsvout`, `payments_game`,
`payments_lockedblocks`, `payments_getallocations` and `PaymentsValidate`, with
`getCCopret` of `src/src/cc/CCutils.cpp`.

A plan is a transaction whose opreturn lists the payees: a `'C'` names transactions with
a script and an allocation each, an `'S'` takes a range of the addresses of the last
snapshot with their balances as allocations. Funds of the plan stand at the address of
the contract and at the 1of2 address made of the contract's key and the plan's txid. A
release (`'R'`) pays the payees out of them, a merge (`'M'`) collects them in one output.
Which of the two a transaction is, and the amount released, stands in the data attached
to its output 0, the change.

An `'S'` is first read as a `'C'`; the attempt fails and leaves eight bytes of the `'S'`
in `totalallocations`. A `'C'` leaves `top` unset.
-/

import Komodo.CC.Checks
import Komodo.CC.TokenOpRet

namespace Komodo

open Unserialize

/-! ### The opreturns -/

def EVAL_PAYMENTS : UInt8 := 0xf0

def PAYMENTS_TXFEE : ℤ := 10000

def PAYMENTS_MERGEOFSET : ℤ := 60

/-- The shape of the decoders: an eval code, a function id and what `body` reads. -/
def decodePayments {α : Type} (funcid : Char) (body : Unserialize α) (scriptPubKey : CScript) :
    Option α :=
  let vopret := getOpReturnData scriptPubKey
  if 2 < vopret.length then
    (unmarshal vopret do
      let e ← uint8
      let f ← uint8
      let a ← body
      pure (e, f, a)).bind fun (e, f, a) =>
        if e = EVAL_PAYMENTS ∧ f = fid funcid then some a else none
  else none

/-- What `DecodePaymentsTxidOpRet` returns: a payee. -/
structure PaymentsTxidOpRet where
  allocation : ℤ
  scriptPubKey : Bytes
  opret : Bytes
deriving DecidableEq, Repr

def decodePaymentsTxidOpRet : CScript → Option PaymentsTxidOpRet :=
  decodePayments 'T' do
    let allocation ← int 8
    let scriptPubKey ← vector
    let opret ← vector
    pure ⟨allocation, scriptPubKey, opret⟩

def decodePaymentsFundOpRet : CScript → Option Uint256 := decodePayments 'F' uint256

def decodePaymentsMergeOpRet : CScript → Option Uint256 := decodePayments 'M' uint256

/-- `DecodePaymentsReleaseOpRet`: the plan and `amountReleased`. -/
def decodePaymentsReleaseOpRet : CScript → Option (Uint256 × ℤ) :=
  decodePayments 'R' do
    let checktxid ← uint256
    let amountReleased ← int 8
    pure (checktxid, amountReleased)

/-- A plan as `PaymentsValidate` holds it after its attempts to decode one. -/
structure PaymentsPlan where
  funcid : UInt8
  lockedblocks : ℤ
  minrelease : ℤ
  minimum : ℤ
  /-- `none` where it was never set. -/
  top : Option ℤ
  bottom : ℤ
  fixedAmount : ℤ
  excludeScriptPubKeys : List Bytes
  totalallocations : ℤ
  txidoprets : List Uint256
deriving DecidableEq, Repr

def decodePaymentsOpRet (scriptPubKey : CScript) : Option PaymentsPlan :=
  (decodePayments 'C' (do
    let lockedblocks ← int 4
    let minrelease ← int 4
    let totalallocations ← int 8
    let txidoprets ← vectorOf uint256
    pure (⟨fid 'C', lockedblocks, minrelease, 10000, none, 0, 0, [], totalallocations, txidoprets⟩ :
      PaymentsPlan)) scriptPubKey).filter fun plan => 1 < plan.txidoprets.length

/-- What the attempt at a `'C'` has left in `totalallocations`. -/
def staleTotal (scriptPubKey : CScript) : ℤ :=
  ((int 8 ((getOpReturnData scriptPubKey).drop 10)).map Prod.fst).getD 0

def decodePaymentsSnapsShotOpRet (scriptPubKey : CScript) : Option PaymentsPlan :=
  decodePayments 'S' (do
    let lockedblocks ← int 4
    let minrelease ← int 4
    let minimum ← int 4
    let top ← int 4
    let bottom ← int 4
    let fixedAmount ← int 1
    let excludeScriptPubKeys ← vectorOf vector
    pure ⟨fid 'S', lockedblocks, minrelease, minimum, some top, bottom, fixedAmount,
      excludeScriptPubKeys, staleTotal scriptPubKey, []⟩) scriptPubKey

/-- `DecodePaymentsTokensOpRet`. It does not read `minrelease`, where the attempt at an
`'S'` has left what is the minimum here. -/
def decodePaymentsTokensOpRet (scriptPubKey : CScript) : Option PaymentsPlan :=
  decodePayments 'O' (do
    let lockedblocks ← int 4
    let minimum ← int 4
    let top ← int 4
    let bottom ← int 4
    let fixedAmount ← int 1
    let excludeScriptPubKeys ← vectorOf vector
    let _ ← uint256
    pure ⟨fid 'O', lockedblocks, minimum, minimum, some top, bottom, fixedAmount,
      excludeScriptPubKeys, staleTotal scriptPubKey, []⟩) scriptPubKey

/-- The three attempts, in order. -/
def decodePaymentsPlan (scriptPubKey : CScript) : Option PaymentsPlan :=
  ((decodePaymentsOpRet scriptPubKey).or (decodePaymentsSnapsShotOpRet scriptPubKey)).or
    (decodePaymentsTokensOpRet scriptPubKey)

/-- `getCCopret`: the data attached to a crypto-condition output, less its six leading
bytes. With no such data, or several, `opret` stays as it was. -/
def getCCopret (scriptPubKey opret : CScript) : Checked (Option CScript) :=
  match payToCryptoCondition scriptPubKey with
  | none => pure none
  | some [param] => if param.length < 6 then .error .undefined else pure (some (param.drop 6))
  | some _ => pure (some opret)

/-! ### Payees -/

/-- What the payments validator reads besides the chain. -/
structure PaymentsEnv extends ChainEnv where
  /-- `KOMODO_SNAPSHOT_INTERVAL`. -/
  snapshotInterval : ℤ
  /-- `vAddressSnapshot`, with the script of each address. -/
  vAddressSnapshot : List (ℤ × CScript)
  /-- The low 64 bits of the hash of the block at `lastSnapShotHeight`; `none` when the chain has
  no block there. -/
  snapshotHash : Option ℕ
  /-- Balances are not negative, and all of them together are coins of the chain. -/
  snapshot_nonneg : ∀ a ∈ vAddressSnapshot, 0 ≤ a.1
  snapshot_sum : (vAddressSnapshot.map Prod.fst).sum ≤ maxMoney

/-- The payees of a release. -/
structure Payees where
  /-- `scriptPubKeys` with `allocations`. -/
  list : List (CScript × ℤ)
  /-- `amtTotalAllocations`. -/
  total : ℤ
  /-- `top - bottom` when the plan pays a fixed amount. -/
  range : Option ℤ
deriving DecidableEq, Repr

/-- The loop of `payments_getallocations`, `i` payees after its start. -/
def allocationsLoop (top bottom : ℤ) (excludeScriptPubKeys : List Bytes) :
    (i : ℤ) → List (ℤ × CScript) → List (CScript × ℤ)
  | _, [] => []
  | i, (nValue, scriptPubKey) :: rest =>
    if scriptPubKey ∈ excludeScriptPubKeys then
      if i + bottom = top then [] else allocationsLoop top bottom excludeScriptPubKeys i rest
    else (scriptPubKey, nValue) ::
      (if i + 1 + bottom = top then []
        else allocationsLoop top bottom excludeScriptPubKeys (i + 1) rest)

/-- `payments_getallocations`. A negative `bottom` becomes a large `size_t`. -/
def getAllocations (top bottom : ℤ) (excludeScriptPubKeys : List Bytes)
    (snapshot : List (ℤ × CScript)) : List (CScript × ℤ) :=
  if bottom < 0 then []
  else allocationsLoop top bottom excludeScriptPubKeys 0 (snapshot.drop bottom.toNat)

/-- `payments_game`: `top` and `bottom` from a hash and the size of the snapshot. -/
def paymentsGame (x size : ℕ) : ℤ × ℤ :=
  let bottom := if (x % 256) % 50 = 0 then 1 else (x % 256) % 50
  let top := if (x / 256 % 256) % 100 < 50 then (x / 256 % 256) % 100 + 50
    else (x / 256 % 256) % 100
  (size * top / 100, size * bottom / 100)

/-- The output that a release has to repeat for a payee, if there is one. -/
def destOpret (tx : CTransaction) (opret : Bytes) : Checked Unit :=
  if opret = [] then pure ()
  else do
    require ((opretOf tx).head? = some OP_RETURN) "missing opret in payments release"
    require (opret = opretOf tx) "pays incorrect opret"

namespace PaymentsEnv

variable (env : PaymentsEnv)

/-- The payees that a `'C'` names; a transaction that is not one is passed over. -/
def listedPayees (tx : CTransaction) : List Uint256 → Checked (List (CScript × ℤ))
  | [] => pure []
  | txidopret :: txidoprets =>
    match (env.lookup txidopret).bind fun tx0 =>
        if 1 < tx0.vout.length then decodePaymentsTxidOpRet (opretOf tx0) else none with
    | none => listedPayees tx txidoprets
    | some d => do
      destOpret tx d.opret
      let rest ← listedPayees tx txidoprets
      pure ((d.scriptPubKey, d.allocation) :: rest)

/-- The range of a snapshot plan, and whether it pays a fixed amount. -/
def snapshotRange (plan : PaymentsPlan) (top : ℤ) : Checked ((ℤ × ℤ) × Bool) :=
  if plan.fixedAmount = 7 then do
    -- a block that is not there is dereferenced
    let x ← defined env.snapshotHash
    pure (paymentsGame x env.vAddressSnapshot.length, true)
  else pure ((top, plan.bottom), plan.fixedAmount ≠ 0)

/-- The payees of a snapshot plan. -/
def snapshotPayees (plan : PaymentsPlan) : Checked Payees := do
  require (env.snapshotInterval ≠ 0) "snapshots not activated on this chain"
  require (env.vAddressSnapshot ≠ []) "need first snapshot"
  let top ← defined plan.top
  require (top ≤ 3999) "transaction too big"
  let ((top, bottom), fFixedAmount) ← env.snapshotRange plan top
  require (plan.funcid = fid 'S') "tokens not yet implemented"
  let list := getAllocations top bottom plan.excludeScriptPubKeys env.vAddressSnapshot
  pure ⟨list, toInt64 (list.map Prod.snd).sum, if fFixedAmount then some (top - bottom) else none⟩

/-- The payees of a plan. -/
def planPayees (plan : PaymentsPlan) (tx : CTransaction) : Checked Payees :=
  if plan.funcid = fid 'C' then do
    let list ← env.listedPayees tx plan.txidoprets
    require (plan.totalallocations = toInt64 (list.map Prod.snd).sum) "allocation missmatch"
    pure ⟨list, plan.totalallocations, none⟩
  else env.snapshotPayees plan

/-! ### A release -/

/-- The share of an allocation; `none` where the code divides by zero. -/
def share (amountReleased total allocation : ℤ) : Option ℤ :=
  if total = 0 then none else some ((toInt64 (allocation * amountReleased)).tdiv total)

/-- `test`: what a payee has to receive. -/
def expected (payees : Payees) (amountReleased allocation : ℤ) : Checked ℤ :=
  match payees.range with
  | some range => do
    require (0 < range) "top/bottom range is illegal"
    pure (amountReleased.tdiv range)
  | none => defined (share amountReleased payees.total allocation)

/-- The loop over the outputs that pay; the payees that are left over. -/
def payLoop (payees : Payees) (minimum amountReleased : ℤ) :
    List (CScript × ℤ) → List CTxOut → Checked (List (CScript × ℤ))
  | rest, [] => pure rest
  -- more outputs than payees
  | [], _ :: _ => .error .undefined
  | (scriptPubKey, allocation) :: rest, out :: outs => do
    require (scriptPubKey = out.scriptPubKey) "pays wrong address"
    let test ← expected payees amountReleased allocation
    require (test = out.nValue) "amounts do not match"
    require (minimum ≤ test) "under minimum size"
    payLoop payees minimum amountReleased rest outs

/-- The test that nobody was left out. It looks at the second payee that was. -/
def lookAhead (payees : Payees) (minimum amountReleased : ℤ) :
    List (CScript × ℤ) → Checked Unit
  | [] => pure ()
  | _ :: rest => do
    let next ← defined rest.head?
    let test ← defined (share amountReleased payees.total next.2)
    require (test ≤ minimum) "next allocation was not under minimum"

/-- The outputs that pay: all but the change and a last opreturn. -/
def paidOutputs (tx : CTransaction) : List CTxOut :=
  if (opretOf tx).head? = some OP_RETURN then tx.vout.dropLast.tail else tx.vout.tail

/-- What `PaymentsValidate` checks of a release only. -/
def validateRelease (plan : PaymentsPlan) (tx : CTransaction) (amountReleased : ℤ) :
    Checked Unit := do
  require (plan.minrelease * COIN ≤ amountReleased) "amount is too small"
  let payees ← env.planPayees plan tx
  require (payees.list ≠ []) "missing data cannot validate"
  let rest ← payLoop payees plan.minimum amountReleased payees.list (paidOutputs tx)
  lookAhead payees plan.minimum amountReleased rest

/-! ### The validator -/

/-- The key of the contract, `PaymentsCChexstr`. -/
def paymentsPk : CPubKey :=
  [0x03, 0x58, 0xf1, 0x76, 0x4f, 0x82, 0xc6, 0x3a, 0xbc, 0x7c, 0x74, 0x55, 0x55, 0x5f, 0xd1,
   0xd3, 0x18, 0x49, 0x05, 0xe3, 0x0e, 0x81, 0x9e, 0x97, 0x66, 0x7e, 0x24, 0x7e, 0x57, 0x92,
   0xb4, 0x68, 0x56]

/-- `cp->unspendableCCaddr`, `PaymentsCCaddr`. -/
def paymentsCCaddr : String := "REpyKi7avsVduqZ3eimncK4uKqSArLTGGK"

/-- The key that `CCtxidaddr` makes of a transaction id. -/
def txidPk (txid : Uint256) : CPubKey := 0x02 :: uint256Bytes txid

/-- `txidaddr`: where the funds of a plan are collected. -/
def planAddress (createtxid : Uint256) : String :=
  env.ccAddress1of2 EVAL_PAYMENTS paymentsPk (txidPk createtxid)

/-- `IsPaymentsvout`: the amount, and the attached data; an empty `cmpaddr` is any address. -/
def isPaymentsvout (tx : CTransaction) (v : ℕ) (cmpaddr : String) (ccopret : CScript) :
    Checked (ℤ × CScript) := do
  let out ← defined tx.vout[v]?
  match ← getCCopret out.scriptPubKey ccopret with
  | none => pure (0, ccopret)
  | some ccopret =>
    match env.getscriptaddress out.scriptPubKey with
    | none => pure (0, ccopret)
    | some destaddr => pure (if cmpaddr = "" ∨ destaddr = cmpaddr then out.nValue else 0, ccopret)

/-- What output 0 says the transaction is: the plan, and the amount of a release. -/
def paymentsKind (tx : CTransaction) : Checked (Uint256 × Option ℤ) := do
  let (change, ccopret) ← env.isPaymentsvout tx 0 "" []
  require (change ≠ 0 ∧ 2 < ccopret.length) "could not decode ccopret"
  match decodePaymentsMergeOpRet ccopret with
  | some createtxid => pure (createtxid, none)
  | none => do
    let (createtxid, amountReleased) ← expect (decodePaymentsReleaseOpRet ccopret)
      "could not decode ccopret"
    pure (createtxid, some amountReleased)

/-- The checks on the values of a plan. `top` is read only if `totalallocations` is not
positive. -/
def planChecks (plan : PaymentsPlan) : Checked Unit := do
  require (0 ≤ plan.lockedblocks ∧ 0 ≤ plan.minrelease) "negative values"
  let top ← defined (if plan.totalallocations ≤ 0 then plan.top else some 1)
  require (0 < top) "negative values"
  require (10000 ≤ plan.minimum) "minimum must be over 10000"

/-- `payments_lockedblocks`: the block of the spent output is deep enough. The sum is one
of 32-bit integers. -/
def lockedBlocks (blockhash : Uint256) (lockedblocks : ℤ) : Checked Unit := do
  -- a block that is not found is dereferenced
  let b ← defined (env.blockIndex blockhash)
  require ((b.nHeight + lockedblocks).bmod (2 ^ 32) ≤ env.tip.nHeight) "vin not elegible"

/-- The part of the input loop that finds out where an input comes from: how many more
blocks it has to wait. -/
def vinOffset (createtxid : Uint256) (fIsMerge : Bool) (txin : CTransaction) (n : ℕ) :
    Checked ℤ := do
  let (fromGlobal, vinccopret) ← env.isPaymentsvout txin n paymentsCCaddr []
  if fromGlobal ≠ 0 then do
    require (2 ≤ vinccopret.length ∧ decodePaymentsFundOpRet vinccopret = some createtxid)
      "vin is not paymentsCC type"
    pure 0
  else do
    let (fromPlan, vinccopret) ← env.isPaymentsvout txin n (env.planAddress createtxid) vinccopret
    require (fromPlan ≠ 0) "utxo comes from incorrect address"
    pure (if fIsMerge ∧ 2 < vinccopret.length ∧ (decodePaymentsMergeOpRet vinccopret).isSome
      then PAYMENTS_MERGEOFSET else 0)

/-- The loop over the inputs; the number of small ones in a merge. -/
def checkVins (plan : PaymentsPlan) (createtxid : Uint256) (fIsMerge : Bool) :
    List CTxIn → Checked ℕ
  | [] => pure 0
  | i :: vin => do
    let (txin, blockhash) ← expect (env.getTransaction i.prevout.hash) "cant get vin transaction"
    let out ← defined txin.vout[i.prevout.n]?
    let mergeoffset ← env.vinOffset createtxid fIsMerge txin i.prevout.n
    env.lockedBlocks blockhash (plan.lockedblocks + mergeoffset)
    let dust ← checkVins plan createtxid fIsMerge vin
    pure (if fIsMerge ∧ out.nValue < COIN then dust + 1 else dust)

/-- What `PaymentsValidate` checks of a release, or at the end of a merge. -/
def mergeChecks (tx : CTransaction) (fIsMerge : Bool) (dust : ℕ) : Checked Unit :=
  if fIsMerge then do
    require (2 ≤ tx.vin.length) "must have at least 2 vins to carry out merge"
    require (tx.vin.length ≠ dust + 1) "cannot merge only dust"
  else pure ()

/-- The outputs of a release; a merge has none to check. -/
def releaseChecks (plan : PaymentsPlan) (tx : CTransaction) : Option ℤ → Checked Unit
  | some amountReleased => env.validateRelease plan tx amountReleased
  | none => pure ()

def paymentsValidate (tx : CTransaction) : Checked Unit := do
  let (createtxid, kind) ← env.paymentsKind tx
  let plantx ← expect ((env.lookup createtxid).filter (·.vout ≠ []))
    "could not get contract transaction"
  let plan ← expect (decodePaymentsPlan (opretOf plantx)) "cannot decode create transaction"
  planChecks plan
  env.checkTxFee tx (PAYMENTS_TXFEE + 1) "txfee is too high"
  let (change, _) ← env.isPaymentsvout tx 0 (env.planAddress createtxid) []
  require (change ≠ 0) "change pays wrong address"
  env.releaseChecks plan tx kind
  let dust ← env.checkVins plan createtxid kind.isNone tx.vin
  mergeChecks tx kind.isNone dust

end PaymentsEnv

end Komodo
