/-
# The rewards contract

`src/src/cc/rewards.cpp`: `RewardsCalc`, `DecodeRewardsFundingOpRet`,
`DecodeRewardsOpRet`, `IsRewardsvout`, `RewardsExactAmounts` and `RewardsValidate`.

A plan is created by an `'F'` transaction and is named by its hash. Its funding
(`'F'`, `'A'`, the change of `'U'`) and the deposits locked under it (`'L'`) all sit
at one address; only the opreturns tell them apart. An unlock (`'U'`) is to spend
one deposit and some funding, and to pay the depositor the deposit with its reward.
The comment above the branch says so, the code looks at the opreturn behind `vin.0`
alone. `rewardsValidate_unlockKept` says when that is enough; `stolen_deposit` is an
unlock that takes the deposit of somebody else.
-/

import Komodo.CC.Checks
import Komodo.CC.TokenOpRet
import Komodo.Script.Serialize

namespace Komodo

open Streams Unserialize

/-! ### The opreturns -/

def EVAL_REWARDS : UInt8 := 0xe5

/-- `RewardsCCaddr`, where `cp->unspendableCCaddr` points. -/
def RewardsCCaddr : String := "RTsRBYL1HSvMoE3qtBJkyiswdVaWkm8YTK"

def REWARDSCC_MAXAPR : ℤ := COIN * 25

/-- The terms of a plan, as its `'F'` opreturn holds them. -/
structure RewardsPlan where
  sbits : ℕ
  APR : ℕ
  minseconds : ℕ
  maxseconds : ℕ
  mindeposit : ℕ
deriving DecidableEq, Repr

/-- What `DecodeRewardsOpRet` returns. -/
structure RewardsOpRet where
  funcid : UInt8
  sbits : ℕ
  fundingtxid : Uint256
deriving DecidableEq, Repr

/-- The reads of an `'F'` opreturn. -/
def readRewardsFunding : Unserialize (UInt8 × UInt8 × RewardsPlan) := do
  let e ← uint8
  let f ← uint8
  let sbits ← uint 8
  let APR ← uint 8
  let minseconds ← uint 8
  let maxseconds ← uint 8
  let mindeposit ← uint 8
  pure (e, f, ⟨sbits, APR, minseconds, maxseconds, mindeposit⟩)

/-- `DecodeRewardsFundingOpRet`: the plan when `'F'` is returned. -/
def decodeRewardsFundingOpRet (s : CScript) : Option RewardsPlan :=
  let vopret := getOpReturnData s
  if vopret.length ≤ 2 then none
  else match unmarshal vopret readRewardsFunding with
    | some (e, f, plan) => if e = EVAL_REWARDS ∧ f = fid 'F' then some plan else none
    | none => none

/-- The reads of the other opreturns. -/
def readRewards : Unserialize (UInt8 × RewardsOpRet) := do
  let e ← uint8
  let f ← uint8
  let sbits ← uint 8
  let fundingtxid ← uint256
  pure (e, ⟨f, sbits, fundingtxid⟩)

/-- `DecodeRewardsOpRet`. A plan's own transaction is known by its hash. -/
def decodeRewardsOpRet (txid : Uint256) (s : CScript) : Option RewardsOpRet :=
  match getOpReturnData s with
  | e :: f :: b :: rest =>
    let vopret := e :: f :: b :: rest
    if e ≠ EVAL_REWARDS then none
    else if f = fid 'F' then
      (unmarshal vopret readRewardsFunding).map fun r => ⟨fid 'F', r.2.2.sbits, txid⟩
    else match unmarshal vopret readRewards with
      | some (e, r) =>
        if e = EVAL_REWARDS ∧ (r.funcid = fid 'L' ∨ r.funcid = fid 'U' ∨ r.funcid = fid 'A')
        then some r else none
      | none => none
  | _ => none

/-! ### The validator -/

/-- What `RewardsValidate` asks of the node. -/
structure RewardsEnv extends ChainEnv where
  /-- `komodo_hardfork_active(GetLatestTimestamp(eval->GetCurrentHeight()))`. -/
  hardforkActive : Bool

namespace RewardsEnv

variable (env : RewardsEnv)

/-- `RewardsCalc`, with the amount capped by the deposit itself. -/
def rewardsCalc (amount : ℤ) (txid : Uint256) (APR minseconds maxseconds : ℤ) : ℤ :=
  let duration := (env.ccDuration txid).1
  if duration < minseconds then 0
  else
    let duration := if maxseconds < duration then maxseconds else duration
    let reward :=
      if env.hardforkActive then
        -- `arith_uint256`, of which the low 64 bits are kept
        toUint64 (toUint64 amount * toUint64 APR * toUint64 duration % 2 ^ 256
          / (COIN * 100 * 365 * 24 * 3600))
      else
        toUint64 ((toInt64 ((toInt64 (amount * duration)).tdiv (365 * 24 * 3600)
          * APR.tdiv 1000000)).tdiv 10000)
    if toUint64 amount < reward then toUint64 amount else reward

/-- Whether an output of `tx` is one that `IsRewardsvout` counts for a plan. -/
def isRewardsOutput (tx : CTransaction) (out : CTxOut) (refsbits : ℕ)
    (reffundingtxid : Uint256) : Bool :=
  isPayToCryptoCondition out.scriptPubKey &&
    match decodeRewardsOpRet tx.hash (opretOf tx) with
    | some r => r.sbits = refsbits
        ∧ (r.fundingtxid = reffundingtxid ∨ tx.hash = reffundingtxid)
        ∧ env.getscriptaddress out.scriptPubKey = some RewardsCCaddr
    | none => false

def isRewardsvout (tx : CTransaction) (v : ℕ) (refsbits : ℕ) (reffundingtxid : Uint256) :
    Checked ℤ := do
  let out ← defined tx.vout[v]?
  pure (if env.isRewardsOutput tx out refsbits reffundingtxid then out.nValue else 0)

/-- What one input adds in `RewardsExactAmounts`. -/
def rewardsInput (refsbits : ℕ) (reffundingtxid : Uint256) (inputs : ℤ) (vin : CTxIn) :
    Checked ℤ :=
  if env.isMyVin EVAL_REWARDS vin.scriptSig then do
    let (vinTx, hashBlock) ← expect (env.getTransaction vin.prevout.hash)
      "always should find vin, but didnt"
    require (hashBlock ≠ 0) "cant rewards from mempool"
    let assetoshis ← env.isRewardsvout vinTx vin.prevout.n refsbits reffundingtxid
    pure (toInt64 (inputs + assetoshis))
  else pure inputs

def rewardsExactAmounts (tx : CTransaction) (txfee : ℤ) (refsbits : ℕ)
    (reffundingtxid : Uint256) : Checked Unit := do
  let inputs ← tx.vin.foldlM (env.rewardsInput refsbits reffundingtxid) 0
  let outputs ← (List.range tx.vout.length).foldlM
    (fun outputs i => do
      let assetoshis ← env.isRewardsvout tx i refsbits reffundingtxid
      pure (toInt64 (outputs + assetoshis))) 0
  require (toUint64 inputs = toUint64 (outputs + txfee)) "mismatched inputs != outputs + txfee"

/-- The opreturn of a transaction and the plan it names, as `RewardsValidate` reads
them first. The `sbits` of the plan take the place of those of the opreturn. -/
def namedPlan (tx : CTransaction) : Checked (RewardsOpRet × RewardsPlan) := do
  require (tx.vout ≠ []) "no vouts"
  let r ← expect (decodeRewardsOpRet tx.hash (opretOf tx)) "unexpected rewards missing funcid"
  let fundingTx ← expect (env.lookup r.fundingtxid) "cant find fundingtxid"
  -- without outputs nothing is decoded, and `APR` was never set
  let opret ← defined fundingTx.vout.getLast?
  let plan ← expect (decodeRewardsFundingOpRet opret.scriptPubKey) "fundingTx not valid"
  require ((plan.APR : ℤ) ≤ REWARDSCC_MAXAPR) "excessive APR"
  pure (r, plan)

/-- The checks on `vin.0` of an unlock: the input and the lock transaction behind it. -/
def unlockedLock (tx : CTransaction) (r : RewardsOpRet) : Checked (CTxIn × CTransaction) := do
  let vin0 ← defined tx.vin.head?
  require (r.fundingtxid ≠ vin0.prevout.hash) "cant unlock fundingtxid"
  let vinTx ← expect (env.lookup vin0.prevout.hash) "always should find vin.0, but didnt"
  let opret ← defined vinTx.vout.getLast?
  let vinRet := decodeRewardsOpRet vin0.prevout.hash opret.scriptPubKey
  let l ← expect (vinRet.filter (·.funcid = fid 'L')) "can only unlock locktxid"
  require (r.fundingtxid = l.fundingtxid) "mismatched vinfundingtxid"
  pure (vin0, vinTx)

/-- The fee of the contract's transactions. -/
def rewardsTxfee : ℤ := 10000

/-- The deposit of a lock transaction and the reward it has earned. -/
def depositAndReward (vin0 : CTxIn) (vinTx : CTransaction) (plan : RewardsPlan) :
    Checked (CTxOut × ℤ) := do
  let deposit ← defined vinTx.vout[0]?
  let reward := env.rewardsCalc deposit.nValue vin0.prevout.hash (toInt64 plan.APR)
    (toInt64 plan.minseconds) (toInt64 plan.maxseconds)
  require (reward ≠ 0) "no eligible rewards"
  pure (deposit, reward)

/-- An unlock that recovers a deposit from a plan without funding. -/
def recover (tx vinTx : CTransaction) (out0 deposit : CTxOut) : Checked Unit := do
  let out1 ← defined tx.vout[1]?
  require (out1.nValue = 10000) "wrong marker vout value"
  require (out1.scriptPubKey = out0.scriptPubKey)
    "unlock recover tx vout.1 mismatched scriptPubKey"
  let recorded ← defined vinTx.vout[1]?
  require (out0.scriptPubKey = recorded.scriptPubKey)
    "unlock recover tx vout.0 mismatched scriptPubKey"
  require (out0.nValue ≤ deposit.nValue) "unlock recover tx vout.0 mismatched amounts"
  let out2 ← defined tx.vout[2]?
  require (out2.nValue ≤ 0) "unlock recover tx vout.1 nonz amount"

/-- An unlock that pays a reward out of the funding. -/
def payReward (tx vinTx : CTransaction) (out0 deposit : CTxOut) (reward : ℤ) (r : RewardsOpRet)
    (plan : RewardsPlan) : Checked Unit := do
  require (isPayToCryptoCondition deposit.scriptPubKey) "unlock tx vout.0 is normal output"
  require (tx.vout.length = 3) "unlock tx wrong number of vouts"
  require (isPayToCryptoCondition out0.scriptPubKey) "unlock tx vout.0 is normal output"
  let out1 ← defined tx.vout[1]?
  require (!isPayToCryptoCondition out1.scriptPubKey) "unlock tx vout.1 is CC output"
  let recorded ← defined vinTx.vout[1]?
  require (out1.scriptPubKey = recorded.scriptPubKey) "unlock tx vout.1 mismatched scriptPubKey"
  env.rewardsExactAmounts tx (rewardsTxfee + out1.nValue) plan.sbits r.fundingtxid
  require (toUint64 out1.nValue ≤ toUint64 (toUint64 deposit.nValue + reward))
    "unlock tx vout.1 isnt amount+reward"
  let out2 ← defined tx.vout[2]?
  require (out2.nValue ≤ 0) "unlock tx vout.2 isnt 0"
  env.preventCC tx none (some 1)

/-- `case 'U'`. -/
def unlock (tx : CTransaction) (r : RewardsOpRet) (plan : RewardsPlan) : Checked Unit := do
  let (vin0, vinTx) ← env.unlockedLock tx r
  require (tx.vin.all fun i => env.isMyVin EVAL_REWARDS i.scriptSig)
    "unexpected normal vin for unlock"
  env.checkTxFee tx rewardsTxfee "txfee is too high"
  let (deposit, reward) ← env.depositAndReward vin0 vinTx plan
  let out0 ← defined tx.vout[0]?
  if tx.vin.length = 1 ∧ isPayToCryptoCondition out0.scriptPubKey = false then
    recover tx vinTx out0 deposit
  else env.payReward tx vinTx out0 deposit reward r plan

def rewardsValidate (tx : CTransaction) : Checked Unit := do
  let (r, plan) ← env.namedPlan tx
  if r.funcid = fid 'F' then
    .error (.invalid "unexpected RewardsValidate for createfunding")
  else if r.funcid = fid 'A' then
    .error (.invalid "unexpected RewardsValidate for addfunding")
  else if r.funcid = fid 'L' then
    .error (.invalid "unexpected RewardsValidate for lock")
  else if r.funcid = fid 'U' then env.unlock tx r plan
  else .error (.invalid "unexpected rewards funcid")

/-! ### What an unlock promises -/

/-- An output that holds funding of a plan: one at the shared address of an `'F'`,
`'A'` or `'U'` transaction of the plan. -/
def IsFunding (tx : CTransaction) (out : CTxOut) (plan : RewardsPlan) (fundingtxid : Uint256) :
    Prop :=
  isPayToCryptoCondition out.scriptPubKey = true
    ∧ env.getscriptaddress out.scriptPubKey = some RewardsCCaddr
    ∧ ∃ r, decodeRewardsOpRet tx.hash (opretOf tx) = some r
      ∧ (r.funcid = fid 'F' ∨ r.funcid = fid 'A' ∨ r.funcid = fid 'U')
      ∧ r.sbits = plan.sbits ∧ r.fundingtxid = fundingtxid

/-- The output that pays the unlocker: `vout.0` when the deposit is recovered without
a reward, `vout.1` otherwise. -/
def payout (tx : CTransaction) : Option CTxOut :=
  match tx.vout[0]? with
  | some out0 =>
    if tx.vin.length = 1 ∧ isPayToCryptoCondition out0.scriptPubKey = false then some out0
    else tx.vout[1]?
  | none => none

/-- An unlock that does what it is for. Of the plan it names, `vin.0` spends the
deposit of a lock transaction, every other input spends funding, and the unlocker's
output pays the recorded script at most the deposit with its reward. -/
def UnlockKept (tx : CTransaction) : Prop :=
  ∃ r plan, env.namedPlan tx = .ok (r, plan) ∧ r.funcid = fid 'U'
    ∧ ∃ vin0 lockTx deposit recorded out,
      tx.vin.head? = some vin0 ∧ env.lookup vin0.prevout.hash = some lockTx
      ∧ (∃ l, decodeRewardsOpRet lockTx.hash (opretOf lockTx) = some l ∧ l.funcid = fid 'L'
        ∧ l.fundingtxid = r.fundingtxid)
      ∧ vin0.prevout.n = 0 ∧ lockTx.vout[0]? = some deposit
      ∧ (∀ i ∈ tx.vin.tail, ∃ t o, env.lookup i.prevout.hash = some t
        ∧ t.vout[i.prevout.n]? = some o ∧ env.IsFunding t o plan r.fundingtxid)
      ∧ payout tx = some out ∧ isPayToCryptoCondition out.scriptPubKey = false
      ∧ lockTx.vout[1]? = some recorded ∧ out.scriptPubKey = recorded.scriptPubKey
      ∧ out.nValue ≤ deposit.nValue + env.rewardsCalc deposit.nValue vin0.prevout.hash
        (toInt64 plan.APR) (toInt64 plan.minseconds) (toInt64 plan.maxseconds)

/-- What the code leaves unchecked: that `vin.0` spends output 0, and that the
outputs behind the other inputs count for the plan and are no deposits. -/
def InputsTied (tx : CTransaction) : Prop :=
  (∀ vin0 ∈ tx.vin.head?, vin0.prevout.n = 0)
    ∧ ∀ r plan, env.namedPlan tx = .ok (r, plan) →
      ∀ i ∈ tx.vin.tail, ∃ t o, env.lookup i.prevout.hash = some t
        ∧ t.vout[i.prevout.n]? = some o
        ∧ env.isRewardsOutput t o plan.sbits r.fundingtxid = true
        ∧ (decodeRewardsOpRet t.hash (opretOf t)).map RewardsOpRet.funcid ≠ some (fid 'L')

/-! ### The decoders agree -/

variable {plan : RewardsPlan}

theorem readRewardsFunding_head {b c e f : UInt8} {bs s : Bytes}
    (h : readRewardsFunding (b :: c :: bs) = some ((e, f, plan), s)) : e = b ∧ f = c := by
  simp only [readRewardsFunding, bind_apply, uint8_cons, Option.bind_some,
    Option.bind_eq_some_iff] at h
  obtain ⟨_, _, _, _, _, _, _, _, _, _, h⟩ := h
  simp only [pure_apply, Option.some.injEq, Prod.mk.injEq] at h
  exact ⟨h.1.1.symm, h.1.2.1.symm⟩

/-- Where one decoder finds a plan, the other finds it too, under the hash given. -/
theorem decodeRewardsOpRet_of_funding {s : CScript}
    (h : decodeRewardsFundingOpRet s = some plan) (txid : Uint256) :
    decodeRewardsOpRet txid s = some ⟨fid 'F', plan.sbits, txid⟩ := by
  unfold decodeRewardsFundingOpRet at h
  unfold decodeRewardsOpRet
  match hdata : getOpReturnData s, h with
  | b :: c :: d :: bs, h =>
    simp only [List.length_cons] at h
    split at h
    · cases h
    · split at h
      case h_1 e f plan' hread =>
        split at h
        case isTrue hef =>
          obtain ⟨rfl, rfl⟩ := readRewardsFunding_head (unmarshal_eq_some.1 hread)
          cases h
          simp [hef.1, hef.2] at hread ⊢
          simp [hread]
        case isFalse => cases h
      case h_2 => cases h

variable {r : RewardsOpRet}

/-- The kinds that are decoded. -/
theorem decodeRewardsOpRet_funcid {txid : Uint256} {s : CScript}
    (h : decodeRewardsOpRet txid s = some r) :
    r.funcid = fid 'L' ∨ r.funcid = fid 'F' ∨ r.funcid = fid 'A' ∨ r.funcid = fid 'U' := by
  unfold decodeRewardsOpRet at h
  split at h
  case h_1 =>
    split_ifs at h
    · obtain ⟨_, -, rfl⟩ := Option.map_eq_some_iff.1 h
      exact .inr (.inl rfl)
    · dsimp only at h
      split at h
      case h_1 =>
        split_ifs at h with hkind
        cases h
        rcases hkind.2 with hk | hk | hk <;> simp [hk]
      case h_2 => cases h
  case h_2 => cases h

variable {env : RewardsEnv} {tx : CTransaction}

theorem namedPlan_eq_ok (h : env.namedPlan tx = .ok (r, plan)) :
    decodeRewardsOpRet tx.hash (opretOf tx) = some r ∧
      ∃ fundingTx, env.lookup r.fundingtxid = some fundingTx
        ∧ decodeRewardsFundingOpRet (opretOf fundingTx) = some plan := by
  simp only [namedPlan, Checked.bind_eq_ok, expect_eq_ok, defined_eq_ok, require_eq_ok,
    Checked.pure_eq_ok, Prod.mk.injEq, exists_const] at h
  obtain ⟨-, r', hr, fundingTx, hfunding, opret, hopret, plan', hplan, -, rfl, rfl⟩ := h
  refine ⟨hr, fundingTx, hfunding, ?_⟩
  simp only [opretOf, hopret, Option.elim_some]
  exact hplan

theorem unlockedLock_eq_ok {vin0 : CTxIn} {vinTx : CTransaction}
    (h : env.unlockedLock tx r = .ok (vin0, vinTx)) :
    tx.vin.head? = some vin0 ∧ env.lookup vin0.prevout.hash = some vinTx
      ∧ ∃ l, decodeRewardsOpRet vinTx.hash (opretOf vinTx) = some l ∧ l.funcid = fid 'L'
        ∧ l.fundingtxid = r.fundingtxid := by
  simp only [unlockedLock, Checked.bind_eq_ok, expect_eq_ok, defined_eq_ok, require_eq_ok,
    Checked.pure_eq_ok, Prod.mk.injEq, decide_eq_true_eq, Option.filter_eq_some_iff,
    exists_const] at h
  obtain ⟨i, hi, -, t, ht, opret, hopret, l, ⟨hl, hL⟩, hplan, rfl, rfl⟩ := h
  refine ⟨hi, ht, l, ?_, hL, hplan.symm⟩
  simp only [opretOf, hopret, Option.elim_some, env.hash_of_lookup ht]
  exact hl

/-- The reward is a `uint64_t` of at most the deposit. -/
theorem rewardsCalc_bounds (amount : ℤ) (txid : Uint256) (APR minseconds maxseconds : ℤ) :
    0 ≤ env.rewardsCalc amount txid APR minseconds maxseconds
      ∧ env.rewardsCalc amount txid APR minseconds maxseconds ≤ toUint64 amount := by
  have hpos : ∀ n, 0 ≤ toUint64 n := fun n => Int.emod_nonneg n (by decide)
  simp only [rewardsCalc]
  split_ifs <;> constructor <;> first | exact hpos _ | exact le_rfl | omega

/-- The input behind `vin.0` and the outputs of an accepted unlock, read off the
checks of either payout branch. -/
theorem unlock_eq_ok (h : env.unlock tx r plan = .ok ()) :
    ∃ vin0 lockTx deposit recorded out,
      tx.vin.head? = some vin0 ∧ env.lookup vin0.prevout.hash = some lockTx
      ∧ (∃ l, decodeRewardsOpRet lockTx.hash (opretOf lockTx) = some l ∧ l.funcid = fid 'L'
        ∧ l.fundingtxid = r.fundingtxid)
      ∧ lockTx.vout[0]? = some deposit
      ∧ payout tx = some out ∧ isPayToCryptoCondition out.scriptPubKey = false
      ∧ lockTx.vout[1]? = some recorded ∧ out.scriptPubKey = recorded.scriptPubKey
      ∧ out.nValue ≤ deposit.nValue + env.rewardsCalc deposit.nValue vin0.prevout.hash
        (toInt64 plan.APR) (toInt64 plan.minseconds) (toInt64 plan.maxseconds) := by
  simp only [unlock, Checked.bind_eq_ok, require_eq_ok, defined_eq_ok, exists_const] at h
  obtain ⟨⟨vin0, lockTx⟩, hlock, -, ⟨⟩, hfee, ⟨deposit, reward⟩, hreward, out0, hout0, h⟩ := h
  obtain ⟨hhead, hlookup, hl⟩ := unlockedLock_eq_ok hlock
  simp only [depositAndReward, Checked.bind_eq_ok, require_eq_ok, defined_eq_ok,
    Checked.pure_eq_ok, Prod.mk.injEq, exists_const] at hreward
  obtain ⟨d, hdeposit, -, rfl, rfl⟩ := hreward
  have hbounds := env.rewardsCalc_bounds d.nValue vin0.prevout.hash (toInt64 plan.APR)
    (toInt64 plan.minseconds) (toInt64 plan.maxseconds)
  split at h
  case isTrue hrecover =>
    simp only [recover, Checked.bind_eq_ok, require_eq_ok, defined_eq_ok, decide_eq_true_eq,
      exists_const] at h
    obtain ⟨out1, -, -, -, recorded, hrecorded, hscript, hvalue, -⟩ := h
    exact ⟨vin0, lockTx, d, recorded, out0, hhead, hlookup, hl, hdeposit,
      by simp only [payout, hout0, if_pos hrecover], hrecover.2, hrecorded, hscript, by omega⟩
  case isFalse hrecover =>
    simp only [payReward, Checked.bind_eq_ok, require_eq_ok, defined_eq_ok, decide_eq_true_eq,
      exists_const] at h
    obtain ⟨-, -, -, out1, hout1, hnormal, recorded, hrecorded, hscript, -, -, hvalue, -⟩ := h
    refine ⟨vin0, lockTx, d, recorded, out1, hhead, hlookup, hl, hdeposit, ?_,
      by simpa using hnormal, hrecorded, hscript, ?_⟩
    · simp only [payout, hout0, if_neg hrecover, hout1]
    · have hd := env.nValue_of_lookup hlookup d (List.mem_of_getElem? hdeposit)
      have ho := env.nValue_of_checkTxFee hfee (List.mem_of_getElem? hout1)
      have hmax := env.maxMoney_lt
      simp only [toUint64] at hvalue hbounds
      omega

theorem rewardsValidate_eq_ok (h : env.rewardsValidate tx = .ok ()) :
    ∃ r plan, env.namedPlan tx = .ok (r, plan) ∧ r.funcid = fid 'U'
      ∧ env.unlock tx r plan = .ok () := by
  simp only [rewardsValidate, Checked.bind_eq_ok] at h
  obtain ⟨⟨r, plan⟩, hplan, h⟩ := h
  refine ⟨r, plan, hplan, ?_⟩
  split_ifs at h with hF hA hL hU
  exact ⟨hU, h⟩

/-- An output at the shared address is funding of a plan when it counts for the plan
and its transaction locks nothing. A transaction counts by its own hash too, but then
it is the one that created the plan. -/
theorem isFunding_iff (hplan : env.namedPlan tx = .ok (r, plan)) {txid : Uint256} {t : CTransaction}
    (ht : env.lookup txid = some t) (out : CTxOut) :
    env.IsFunding t out plan r.fundingtxid ↔
      env.isRewardsOutput t out plan.sbits r.fundingtxid = true
        ∧ (decodeRewardsOpRet t.hash (opretOf t)).map RewardsOpRet.funcid ≠ some (fid 'L') := by
  obtain ⟨-, fundingTx, hfunding, hdecode⟩ := namedPlan_eq_ok hplan
  constructor
  · rintro ⟨hCC, haddr, l, hl, hkind, hsbits, hid⟩
    refine ⟨by simp [isRewardsOutput, hCC, haddr, hl, hsbits, hid], ?_⟩
    rw [hl]
    rcases hkind with hk | hk | hk <;> simp [hk] <;> decide
  · rintro ⟨hout, hnotL⟩
    simp only [isRewardsOutput, Bool.and_eq_true] at hout
    obtain ⟨hCC, hmatch⟩ := hout
    match hl : decodeRewardsOpRet t.hash (opretOf t), hmatch with
    | some l, hmatch =>
      simp only [decide_eq_true_eq] at hmatch
      obtain ⟨hsbits, hid, haddr⟩ := hmatch
      rw [hl] at hnotL
      have hid' : l.fundingtxid = r.fundingtxid := by
        rcases hid with hid | hid
        · exact hid
        · have hsame : some t = some fundingTx := by
            rw [← ht, ← env.hash_of_lookup ht, hid, hfunding]
          cases hsame
          rw [decodeRewardsOpRet_of_funding hdecode] at hl
          cases hl
          exact hid
      have hkind : l.funcid = fid 'F' ∨ l.funcid = fid 'A' ∨ l.funcid = fid 'U' :=
        (decodeRewardsOpRet_funcid hl).resolve_left fun hL => hnotL (congrArg some hL)
      exact ⟨hCC, haddr, l, hl, hkind, hsbits, hid'⟩

/-- **When an accepted unlock keeps its promise.** `RewardsValidate` ties the payout to
the deposit, but of the inputs it looks only at the transaction behind `vin.0`. An
accepted unlock does what it is for exactly when `vin.0` spends output 0 of it and the
outputs behind the other inputs count for the plan and come from no lock transaction. -/
theorem rewardsValidate_unlockKept (h : env.rewardsValidate tx = .ok ()) :
    env.UnlockKept tx ↔ env.InputsTied tx := by
  obtain ⟨r, plan, hplan, hU, hunlock⟩ := rewardsValidate_eq_ok h
  constructor
  · rintro ⟨r', plan', hplan', -, vin0, lockTx, deposit, recorded, out, hhead, -, -, hn, -, hfund, -⟩
    refine ⟨fun i hi => ?_, fun r'' plan'' hplan'' i hi => ?_⟩
    · rw [hhead] at hi
      cases hi
      exact hn
    · rw [hplan'] at hplan''
      cases hplan''
      obtain ⟨t, o, ht, ho, hfunding⟩ := hfund i hi
      exact ⟨t, o, ht, ho, (isFunding_iff hplan' ht o).1 hfunding⟩
  · rintro ⟨hn, hinputs⟩
    obtain ⟨vin0, lockTx, deposit, recorded, out, hhead, hlock, hl, hdeposit, hpay⟩ :=
      unlock_eq_ok hunlock
    refine ⟨r, plan, hplan, hU, vin0, lockTx, deposit, recorded, out, hhead, hlock, hl,
      hn vin0 hhead, hdeposit, fun i hi => ?_, hpay⟩
    obtain ⟨t, o, ht, ho, hcount⟩ := hinputs r plan hplan i hi
    exact ⟨t, o, ht, ho, (isFunding_iff hplan ht o).2 hcount⟩

end RewardsEnv

/-! ### Another user's deposit -/

namespace RewardsSample

/-- `RewardsCChexstr`. -/
def rewardspk : CPubKey :=
  [0x03, 0xda, 0x60, 0x37, 0x9d, 0x92, 0x4c, 0x2c, 0x30, 0xac, 0x29, 0x0d, 0x2a, 0x86, 0xc2,
   0xea, 0xd1, 0x28, 0xcb, 0x7b, 0xd5, 0x71, 0xf6, 0x92, 0x11, 0xcb, 0x95, 0x35, 0x6e, 0x2d,
   0xcc, 0x5e, 0xb9]

/-- `cc_conditionBinary(MakeCCcond1(EVAL_REWARDS, rewardspk))`. -/
def rewardsCondition : Bytes :=
  [0xa2, 0x2c, 0x80, 0x20, 0x65, 0x68, 0x6d, 0x47, 0xa4, 0x04, 0x9c, 0x2c, 0x84, 0x5a, 0x71,
   0x89, 0x5a, 0x91, 0x5e, 0xb8, 0x4c, 0x04, 0x44, 0x58, 0x96, 0xee, 0xc5, 0xdc, 0x0b, 0xe4,
   0x0d, 0xf0, 0xb3, 0x13, 0x72, 0xda, 0x81, 0x03, 0x12, 0x0c, 0x00, 0x82, 0x03, 0x00, 0x04,
   0x01]

/-- The script at the shared address. -/
def rewardsScript : CScript := pushData rewardsCondition ++ [OP_CHECKCRYPTOCONDITION]

/-- The scripts that two depositors recorded. -/
def mine : CScript := payToPubkey (0x02 :: List.replicate 32 0x11)
@[inherit_doc mine] def yours : CScript := payToPubkey (0x02 :: List.replicate 32 0x22)

/-- The opreturn of a transaction of the plan. -/
def opret (f : Char) : CScript :=
  opReturnScript ([EVAL_REWARDS, fid f] ++ leBytes 8 7 ++ uint256Bytes 1)

/-- A plan of 10% a year with 1000 coins of funding. -/
def plan : CTransaction where
  hash := 1
  vin := []
  vout := [⟨100000000000, rewardsScript⟩, ⟨10000, payToPubkey rewardspk⟩,
    ⟨0, opReturnScript ([EVAL_REWARDS, fid 'F'] ++ leBytes 8 7 ++ leBytes 8 1000000000
      ++ leBytes 8 0 ++ leBytes 8 100000000 ++ leBytes 8 0)⟩]

/-- A deposit of 100 coins. -/
def lock (hash : Uint256) (recorded : CScript) : CTransaction where
  hash := hash
  vin := []
  vout := [⟨10000000000, rewardsScript⟩, ⟨10000, recorded⟩, ⟨0, opret 'L'⟩]

/-- The chain: the plan and two deposits. -/
def txs : List CTransaction := [plan, lock 2 mine, lock 3 yours]

/-- A node one year after the deposits. -/
def env : RewardsEnv where
  conditionBinary _ := rewardsCondition
  readFulfillmentBinary b :=
    if b = fulfillment1 EVAL_REWARDS rewardspk then some (signedCond1 EVAL_REWARDS rewardspk)
    else none
  anonPublicKey _ := []
  anonHasCode _ _ := false
  solver _ := none
  hash160 _ := []
  getscriptaddress s := if s = rewardsScript then some RewardsCCaddr else none
  getTransaction := findTx txs 100
  blockIndex h := if h = 100 then some ⟨10, 1600000000⟩ else none
  tip := ⟨1000, 1631536000⟩
  lastNotarizedHeight := 0
  sha256 b := b
  maxMoney := 20000000000000000
  maxMoney_lt := by decide
  getValueIn := valueIn txs
  hash_of_lookup h := (findTx_eq_some h).2
  nValue_of_lookup h := nValue_of_findTx (by decide) h
  hardforkActive := true

/-- The unlock of my deposit with one other input: 110 coins for me, what is left
for the plan. -/
def unlock (other : Uint256) (change : ℤ) : CTransaction where
  hash := 4
  vin := [⟨⟨2, 0⟩, scriptSig1 EVAL_REWARDS rewardspk, 0⟩,
    ⟨⟨other, 0⟩, scriptSig1 EVAL_REWARDS rewardspk, 0⟩]
  vout := [⟨change, rewardsScript⟩, ⟨11000000000, mine⟩, ⟨0, opret 'U'⟩]

end RewardsSample

open RewardsSample in
/-- The hypothesis of `rewardsValidate_unlockKept` is satisfiable: an unlock that takes
its reward from the funding is accepted, and keeps its promise. -/
theorem rewardsValidate_unlockKept_funding :
    env.rewardsValidate (unlock 1 98999990000) = .ok () ∧
      env.UnlockKept (unlock 1 98999990000) := by
  have hok : env.rewardsValidate (unlock 1 98999990000) = .ok () := by decide +kernel
  have hplan : env.namedPlan (unlock 1 98999990000)
      = .ok (⟨fid 'U', 7, 1⟩, ⟨7, 1000000000, 0, 100000000, 0⟩) := by decide
  refine ⟨hok, (RewardsEnv.rewardsValidate_unlockKept hok).2 ⟨by decide, fun r p h i hi => ?_⟩⟩
  rw [hplan] at h
  cases h
  rw [List.mem_singleton.1 hi]
  exact ⟨plan, ⟨100000000000, rewardsScript⟩, by decide, by decide, by decide,
    by decide⟩

open RewardsSample in
/-- An accepted unlock that spends the deposit of another user: his 100 coins pay my
reward, and what is left of them becomes funding of the plan. -/
theorem stolen_deposit :
    env.rewardsValidate (unlock 3 8999990000) = .ok () ∧ ¬ env.UnlockKept (unlock 3 8999990000) := by
  refine ⟨by decide +kernel, ?_⟩
  rintro ⟨r, p, -, -, vin0, lockTx, deposit, recorded, out, -, -, -, -, -, hfund, -⟩
  obtain ⟨t, o, ht, -, -, -, l, hl, hkind, -⟩ := hfund _ (List.mem_singleton.2 rfl)
  have hlookup : env.lookup 3 = some (lock 3 yours) := by decide
  have hL : decodeRewardsOpRet (lock 3 yours).hash (opretOf (lock 3 yours))
      = some ⟨fid 'L', 7, 1⟩ := by decide
  obtain rfl := Option.some.inj (hlookup.symm.trans ht)
  obtain rfl := Option.some.inj (hL.symm.trans hl)
  revert hkind
  decide

end Komodo
