/-
# What leaves the faucet

The purpose of `FaucetValidate` in `src/src/cc/faucet.cpp`: only outputs of the faucet go
in, a tenth of a coin and the fee go out, to one place.

The loop that wants every input to be one of a crypto-condition looks at `tx.vin[0]` each
time, so that inputs of any kind may follow it, and the coins they bring are paid out
beside the faucet's. The payout is looked for behind the change without a test that
anything stands there. `faucet_closed_iff` says when a transaction that is not rejected
has the intended form. What leaves the faucet's address is always right
(`faucetValidate_leaving`).
-/

import Komodo.CC.Faucet

namespace Komodo
namespace FaucetEnv

open List

variable (env : FaucetEnv)

/-! ### The intended form -/

/-- An output at the faucet's address. -/
def atFaucetAddress (out : CTxOut) : Bool :=
  isPayToCryptoCondition out.scriptPubKey ∧ env.getscriptaddress out.scriptPubKey = some FaucetCCaddr

/-- What an input takes from the faucet's address. -/
def takes (i : CTxIn) : ℤ := (env.spent i).elim 0 fun p => env.isFaucetvout p.2

/-- What leaves the faucet's address. -/
def leaving (tx : CTransaction) : ℤ :=
  (tx.vin.map env.takes).sum - (tx.vout.map env.isFaucetvout).sum

/-- Whether an output other than an opreturn carries value away from the faucet. -/
def carriesOutside (out : CTxOut) : Bool :=
  !env.atFaucetAddress out ∧ out.scriptPubKey.head? ≠ some OP_RETURN ∧ out.nValue ≠ 0

/-- An input that spends a faucet output of a confirmed transaction. -/
def FromFaucet (i : CTxIn) : Prop :=
  ∃ t hashBlock out, env.getTransaction i.prevout.hash = some (t, hashBlock) ∧ hashBlock ≠ 0 ∧
    t.vout[i.prevout.n]? = some out ∧ env.atFaucetAddress out = true

/-- The intended form: all inputs are the faucet's, exactly its share leaves its address, to
one output, and no output is read that is not there. -/
structure Closed (tx : CTransaction) : Prop where
  inputs : ∀ i ∈ tx.vin, env.FromFaucet i
  share : env.leaving tx = FAUCETSIZE + faucetTxfee
  payout : tx.vout.countP env.carriesOutside = 1
  inside : env.faucetValidate tx ≠ .error .undefined

/-- What has been checked before a contract is called: the outputs that are spent exist, no
amount is negative and neither side sums to more than there is (`CheckTransaction`,
`CheckTxInputs`); and a script that spends from the faucet's address carries its condition,
which the address is a hash of. -/
structure InputsChecked (maxMoney : ℤ) (tx : CTransaction) : Prop where
  maxMoney_lt : maxMoney < 2 ^ 63
  exist : ∀ i ∈ tx.vin, ∀ t hashBlock, env.getTransaction i.prevout.hash = some (t, hashBlock) →
    i.prevout.n < t.vout.length
  spent_nonneg : ∀ i ∈ tx.vin, ∀ t out, env.spent i = some (t, out) → 0 ≤ out.nValue
  spent_sum : (tx.vin.map fun i => (env.spent i).elim 0 fun p => p.2.nValue).sum ≤ maxMoney
  out_nonneg : ∀ out ∈ tx.vout, 0 ≤ out.nValue
  out_sum : (tx.vout.map CTxOut.nValue).sum ≤ maxMoney
  carries : ∀ i ∈ tx.vin, ∀ t out, env.spent i = some (t, out) → env.atFaucetAddress out = true →
    env.isMyVin EVAL_FAUCET i.scriptSig = true

/-- The outputs behind the change of the faucet. -/
def behindChange : List CTxOut → List CTxOut
  | [] => []
  | out :: vout => if env.isFaucetvout out ≠ 0 then vout else out :: vout

variable {env} {tx : CTransaction} {maxMoney : ℤ}

theorem isFaucetvout_eq (out : CTxOut) :
    env.isFaucetvout out = if env.atFaucetAddress out then out.nValue else 0 := by
  simp [isFaucetvout, atFaucetAddress]

theorem behindChange_eq_drop (tx : CTransaction) :
    env.behindChange tx.vout = tx.vout.drop (env.payoutIndex tx) := by
  rcases h : tx.vout with _ | ⟨out, vout⟩
  · simp [behindChange]
  · simp only [behindChange, payoutIndex, h, head?_cons, Option.elim_some]
    split_ifs <;> rfl

theorem countP_behindChange (vout : List CTxOut) :
    (env.behindChange vout).countP env.carriesOutside = vout.countP env.carriesOutside := by
  cases vout with
  | nil => rfl
  | cons out vout =>
    rw [behindChange]
    split_ifs with hfaucet
    · rw [countP_cons_of_neg]
      rw [isFaucetvout_eq] at hfaucet
      have hat : env.atFaucetAddress out = true := by
        by_contra hnot
        exact hfaucet (if_neg hnot)
      simp [carriesOutside, hat]
    · rfl

theorem spent_iff {i : CTxIn} {out : CTxOut} :
    (∃ t, env.spent i = some (t, out)) ↔
      ∃ t hashBlock, env.getTransaction i.prevout.hash = some (t, hashBlock) ∧
        t.vout[i.prevout.n]? = some out := by
  simp only [ContractEnv.spent, ContractEnv.lookup, Option.bind_eq_bind, Option.pure_def,
    Option.bind_eq_some_iff, Option.map_eq_some_iff, Prod.exists, Option.some.injEq, Prod.mk.injEq]
  grind

/-! ### What is checked -/

/-- The input loop: the faucet's own inputs are confirmed, and their sum. -/
theorem faucetInputs_eq_ok {vin : List CTxIn} {inputs : ℤ} (h : env.faucetInputs vin = .ok inputs) :
    inputs = (vin.map fun i =>
        if env.isMyVin EVAL_FAUCET i.scriptSig then env.takes i else 0).sum ∧
      ∀ i ∈ vin, env.isMyVin EVAL_FAUCET i.scriptSig = true →
        ∃ t hashBlock, env.getTransaction i.prevout.hash = some (t, hashBlock) ∧ hashBlock ≠ 0 := by
  induction vin generalizing inputs with
  | nil =>
    obtain rfl := Checked.pure_eq_ok.1 h
    simp
  | cons i vin ih =>
    by_cases hmine : env.isMyVin EVAL_FAUCET i.scriptSig = true
    · simp only [faucetInputs, hmine, if_true, Checked.bind_eq_ok, expect_eq_ok, require_eq_ok,
        defined_eq_ok, Checked.pure_eq_ok, decide_eq_true_eq, exists_const, Prod.exists] at h
      obtain ⟨t, hashBlock, hfound, hconfirmed, out, hout, rest, hrest, rfl⟩ := h
      obtain ⟨hsum, hall⟩ := ih hrest
      have htakes : env.takes i = env.isFaucetvout out := by
        simp [takes, ContractEnv.spent, ContractEnv.lookup, hfound, hout]
      constructor
      · rw [map_cons, sum_cons, if_pos hmine, htakes, hsum]
      · rintro j hj hjmine
        rcases mem_cons.1 hj with rfl | hj
        · exact ⟨t, hashBlock, hfound, hconfirmed⟩
        · exact hall j hj hjmine
    · rw [faucetInputs, if_neg hmine] at h
      obtain ⟨hsum, hall⟩ := ih h
      constructor
      · rw [map_cons, sum_cons, if_neg hmine, zero_add, hsum]
      · rintro j hj hjmine
        rcases mem_cons.1 hj with rfl | hj
        · exact absurd hjmine hmine
        · exact hall j hj hjmine

theorem InputsChecked.takes_eq (hcalled : env.InputsChecked maxMoney tx) {i : CTxIn}
    (hi : i ∈ tx.vin) :
    (if env.isMyVin EVAL_FAUCET i.scriptSig then env.takes i else 0) = env.takes i := by
  split_ifs with hmine
  · rfl
  · unfold takes
    rcases hspent : env.spent i with _ | ⟨t, out⟩
    · rfl
    · have hat : ¬ env.atFaucetAddress out = true :=
        fun hat => hmine (hcalled.carries i hi t out hspent hat)
      simp [isFaucetvout_eq, hat]

/-- The sums at the faucet's address are amounts of money. -/
theorem InputsChecked.bounds (hcalled : env.InputsChecked maxMoney tx) :
    (0 ≤ (tx.vin.map env.takes).sum ∧ (tx.vin.map env.takes).sum < 2 ^ 63) ∧
      0 ≤ (tx.vout.map env.isFaucetvout).sum ∧ (tx.vout.map env.isFaucetvout).sum < 2 ^ 63 := by
  have hmax := hcalled.maxMoney_lt
  have htakes : ∀ i ∈ tx.vin,
      0 ≤ env.takes i ∧ env.takes i ≤ (env.spent i).elim 0 fun p => p.2.nValue := by
    intro i hi
    unfold takes
    rcases hspent : env.spent i with _ | ⟨t, out⟩
    · exact ⟨le_rfl, le_rfl⟩
    · have hnonneg := hcalled.spent_nonneg i hi t out hspent
      simp only [Option.elim_some, isFaucetvout_eq]
      split_ifs <;> omega
  have hout : ∀ out ∈ tx.vout, 0 ≤ env.isFaucetvout out ∧ env.isFaucetvout out ≤ out.nValue := by
    intro out hout
    have hnonneg := hcalled.out_nonneg out hout
    rw [isFaucetvout_eq]
    split_ifs <;> omega
  have hin := sum_le_sum fun i hi => (htakes i hi).2
  have hvout := sum_le_sum fun out h => (hout out h).2
  refine ⟨⟨sum_nonneg ?_, ?_⟩, sum_nonneg ?_, ?_⟩
  · simpa using fun i hi => (htakes i hi).1
  · exact (hin.trans hcalled.spent_sum).trans_lt hmax
  · simpa using fun out h => (hout out h).1
  · exact (hvout.trans hcalled.out_sum).trans_lt hmax

/-- **What leaves the faucet is right.** Whenever the amounts pass, exactly the share and the
fee leave its address. -/
theorem faucetValidate_leaving (hcalled : env.InputsChecked maxMoney tx)
    (h : env.faucetExactAmounts tx = .ok ()) : env.leaving tx = FAUCETSIZE + faucetTxfee := by
  simp only [faucetExactAmounts, Checked.bind_eq_ok, require_eq_ok, decide_eq_true_eq] at h
  obtain ⟨inputs, hinputs, heq⟩ := h
  have hsum := (faucetInputs_eq_ok hinputs).1
  rw [map_congr_left fun i hi => hcalled.takes_eq hi] at hsum
  obtain ⟨⟨hin, hin'⟩, hout, hout'⟩ := hcalled.bounds
  have hsize : FAUCETSIZE + faucetTxfee = 10010000 := rfl
  rw [leaving]
  unfold toUint64 at heq
  rw [← hsum] at *
  rw [add_assoc, hsize] at heq
  omega

theorem faucetValidate_eq_ok (h : env.faucetValidate tx = .ok ()) :
    env.faucetExactAmounts tx = .ok () ∧
      ∃ out rest, env.behindChange tx.vout = out :: rest ∧ out.nValue = FAUCETSIZE ∧
        ∀ o ∈ rest, isPayToCryptoCondition o.scriptPubKey = false := by
  simp only [faucetValidate, Checked.bind_eq_ok, require_eq_ok, defined_eq_ok, decide_eq_true_eq,
    ContractEnv.preventCC, Option.elim_some, all_eq_true, Bool.not_eq_true'] at h
  obtain ⟨⟨⟩, -, ⟨⟩, -, ⟨⟩, hamounts, out, hout, ⟨⟩, hvalue, ⟨⟩, -, ⟨⟩, -, ⟨⟩, -, hcc⟩ := h
  refine ⟨hamounts, out, tx.vout.drop (env.payoutIndex tx + 1), ?_, hvalue, hcc⟩
  obtain ⟨hlt, rfl⟩ := List.getElem?_eq_some_iff.1 hout
  rw [behindChange_eq_drop, drop_eq_getElem_cons hlt]

/-- The input loop reads only outputs that exist. -/
theorem InputsChecked.faucetInputs_ne_undefined (hcalled : env.InputsChecked maxMoney tx) :
    env.faucetInputs tx.vin ≠ .error .undefined := by
  have hexist := hcalled.exist
  generalize tx.vin = vin at hexist
  induction vin with
  | nil => rintro ⟨⟩
  | cons i vin ih =>
    have ih := ih fun j hj => hexist j (mem_cons_of_mem _ hj)
    intro h
    rw [faucetInputs] at h
    split_ifs at h with hmine
    · simp only [Checked.bind_eq_error, expect_ne_undefined, require_ne_undefined,
        defined_eq_undefined, expect_eq_ok, require_eq_ok, false_or, Prod.exists] at h
      obtain ⟨t, hashBlock, hfound, ⟨⟩, -, hnone | ⟨out, -, hrest | ⟨inputs, -, hpure⟩⟩⟩ := h
      · have hlt := hexist i mem_cons_self t hashBlock hfound
        rw [getElem?_eq_none_iff] at hnone
        omega
      · exact ih hrest
      · cases hpure
    · exact ih h

theorem InputsChecked.inside (hcalled : env.InputsChecked maxMoney tx)
    (hne : env.behindChange tx.vout ≠ []) : env.faucetValidate tx ≠ .error .undefined := by
  intro h
  simp only [faucetValidate, faucetExactAmounts, ContractEnv.preventCC, Checked.bind_eq_error,
    require_ne_undefined, defined_eq_undefined, false_or, or_false, and_false, exists_false] at h
  obtain ⟨_, -, _, -, hinputs | ⟨_, -, hnone⟩⟩ := h
  · exact hcalled.faucetInputs_ne_undefined hinputs
  · rw [getElem?_eq_none_iff] at hnone
    rw [behindChange_eq_drop] at hne
    exact hne (drop_eq_nil_of_le hnone)

/-! ### When the form is kept -/

/-- An input that spends an output at the faucet's address. -/
def SpendsFaucet (env : FaucetEnv) (i : CTxIn) : Prop :=
  ∃ t out, env.spent i = some (t, out) ∧ env.atFaucetAddress out = true

theorem InputsChecked.fromFaucet (hcalled : env.InputsChecked maxMoney tx)
    (h : env.faucetExactAmounts tx = .ok ()) {i : CTxIn} (hi : i ∈ tx.vin)
    (hspends : env.SpendsFaucet i) : env.FromFaucet i := by
  obtain ⟨t, out, hspent, hat⟩ := hspends
  simp only [faucetExactAmounts, Checked.bind_eq_ok] at h
  obtain ⟨inputs, hinputs, -⟩ := h
  have hmine := hcalled.carries i hi t out hspent hat
  obtain ⟨t', hashBlock, hfound, hconfirmed⟩ := (faucetInputs_eq_ok hinputs).2 i hi hmine
  obtain ⟨t₂, hashBlock₂, hfound₂, hout⟩ := spent_iff.1 ⟨t, hspent⟩
  obtain ⟨rfl, rfl⟩ := Prod.mk.inj (Option.some.inj (hfound.symm.trans hfound₂))
  exact ⟨t', hashBlock, out, hfound, hconfirmed, hout, hat⟩

/-- **A faucet transaction has the intended form exactly when nothing is mixed in.** One that
is not rejected has it if and only if every input spends an output at the faucet's address,
and of the outputs behind the change exactly one carries value to something other than an
opreturn or the faucet. -/
theorem faucet_closed_iff (hcalled : env.InputsChecked maxMoney tx)
    (hnot : ∀ message, env.faucetValidate tx ≠ .error (.invalid message)) :
    env.Closed tx ↔ (∀ i ∈ tx.vin, env.SpendsFaucet i) ∧
      (env.behindChange tx.vout).countP env.carriesOutside = 1 := by
  rw [countP_behindChange]
  constructor
  · intro h
    refine ⟨fun i hi => ?_, h.payout⟩
    obtain ⟨t, hashBlock, out, hfound, -, hout, hat⟩ := h.inputs i hi
    obtain ⟨t, hspent⟩ := spent_iff.2 ⟨t, hashBlock, hfound, hout⟩
    exact ⟨t, out, hspent, hat⟩
  · rintro ⟨hspends, hcount⟩
    have hne : env.behindChange tx.vout ≠ [] := by
      intro hnil
      rw [← countP_behindChange, hnil] at hcount
      cases hcount
    have hinside := hcalled.inside hne
    have hok : env.faucetValidate tx = .ok () := by
      cases h : env.faucetValidate tx with
      | ok u => rfl
      | error e =>
        cases e with
        | invalid message => exact absurd h (hnot message)
        | undefined => exact absurd h hinside
    have hamounts := (faucetValidate_eq_ok hok).1
    exact ⟨fun i hi => hcalled.fromFaucet hamounts hi (hspends i hi),
      faucetValidate_leaving hcalled hamounts, hcount, hinside⟩

end FaucetEnv

/-! ### Coins mixed in -/

namespace FaucetSample

/-- `FaucetCChexstr`. -/
def faucetpk : CPubKey :=
  [0x03, 0x68, 0x2b, 0x25, 0x5c, 0x40, 0xd0, 0xcd, 0xe8, 0xfa, 0xee, 0x38, 0x1a, 0x1a, 0x50,
   0xbb, 0xb8, 0x99, 0x80, 0xff, 0x24, 0x53, 0x9c, 0xb8, 0x51, 0x8e, 0x29, 0x4d, 0x3a, 0x63,
   0xce, 0xfe, 0x12]

/-- `cc_conditionBinary(MakeCCcond1(EVAL_FAUCET, faucetpk))`. -/
def faucetCondition : Bytes :=
  [0xa2, 0x2c, 0x80, 0x20, 0xe0, 0x29, 0xc5, 0x11, 0xda, 0x55, 0x52, 0x35, 0x65, 0x83, 0x58,
   0x87, 0xe4, 0x12, 0xe5, 0xa0, 0xc9, 0xb9, 0x20, 0x80, 0x1b, 0x00, 0x70, 0x00, 0xdf, 0x45,
   0xe5, 0x45, 0xf2, 0x50, 0x28, 0x24, 0x81, 0x03, 0x12, 0x0c, 0x00, 0x82, 0x03, 0x00, 0x04,
   0x01]

/-- The script at the faucet's address. -/
def faucetScript : CScript := pushData faucetCondition ++ [OP_CHECKCRYPTOCONDITION]

/-- The script that spends from there. -/
def spend : CScript := scriptSig1 EVAL_FAUCET faucetpk

/-- The script of a newcomer. -/
def newcomer : CScript := payToPubkey (0x02 :: List.replicate 32 0x33)

/-- One coin in the faucet. -/
def funding : CTransaction where
  hash := 1
  vin := []
  vout := [⟨100000000, faucetScript⟩]

/-- A coin of the newcomer. -/
def coin : CTransaction where
  hash := 2
  vin := []
  vout := [⟨50000, newcomer⟩]

/-- The newcomer takes a tenth of a coin. -/
def get : CTransaction where
  hash := 256
  vin := [⟨⟨1, 0⟩, spend, 0⟩]
  vout := [⟨89990000, faucetScript⟩, ⟨10000000, newcomer⟩]

/-- The same with the newcomer's own coin passing through. -/
def mixed : CTransaction where
  hash := 512
  vin := [⟨⟨1, 0⟩, spend, 0⟩, ⟨⟨2, 0⟩, [], 0⟩]
  vout := [⟨89990000, faucetScript⟩, ⟨10000000, newcomer⟩, ⟨50000, newcomer⟩]

/-- The change alone, the rest left to the miner. -/
def changeOnly : CTransaction where
  hash := 768
  vin := [⟨⟨1, 0⟩, spend, 0⟩]
  vout := [⟨89990000, faucetScript⟩]

/-- A node that knows the faucet's address and the two coins. -/
def env : FaucetEnv where
  conditionBinary _ := faucetCondition
  readFulfillmentBinary b :=
    if b = fulfillment1 EVAL_FAUCET faucetpk then some (signedCond1 EVAL_FAUCET faucetpk) else none
  anonPublicKey _ := []
  anonHasCode _ _ := false
  solver _ := none
  hash160 b := b
  getscriptaddress s := if s = faucetScript then some FaucetCCaddr else none
  getTransaction := findTx [funding, coin] 100
  blockIndex _ := none
  tip := ⟨1000, 1700000000⟩
  lastNotarizedHeight := 0
  sha256 b := b
  txids _ _ := []

/-- The checks before the call, evaluated. -/
theorem inputsChecked_of {tx : CTransaction}
    (hexist : ∀ i ∈ tx.vin, (env.getTransaction i.prevout.hash).all
      (fun p => i.prevout.n < p.1.vout.length) = true)
    (hspent : ∀ i ∈ tx.vin, (env.spent i).all (fun p => 0 ≤ p.2.nValue ∧
      (env.atFaucetAddress p.2 = true → env.isMyVin EVAL_FAUCET i.scriptSig = true)) = true)
    (hspentSum : (tx.vin.map fun i => (env.spent i).elim 0 fun p => p.2.nValue).sum ≤ 200000000)
    (hout : ∀ out ∈ tx.vout, 0 ≤ out.nValue)
    (houtSum : (tx.vout.map CTxOut.nValue).sum ≤ 200000000) :
    env.InputsChecked 200000000 tx where
  maxMoney_lt := by omega
  exist i hi t hashBlock h := by simpa [h] using hexist i hi
  spent_nonneg i hi t out h := by
    have hboth := hspent i hi
    rw [h, Option.all_some, decide_eq_true_eq] at hboth
    exact hboth.1
  spent_sum := hspentSum
  out_nonneg := hout
  out_sum := houtSum
  carries i hi t out h := by
    have hboth := hspent i hi
    rw [h, Option.all_some, decide_eq_true_eq] at hboth
    exact hboth.2

end FaucetSample

open FaucetSample in
/-- The hypotheses of `faucet_closed_iff` are satisfiable: the plain transaction is accepted
and has the intended form. -/
theorem faucet_closed_get : env.faucetValidate get = .ok () ∧ env.Closed get := by
  have hcalled : env.InputsChecked 200000000 get :=
    inputsChecked_of (by decide +kernel) (by decide +kernel) (by decide +kernel) (by decide)
      (by decide)
  have hok : env.faucetValidate get = .ok () := by decide +kernel
  refine ⟨hok, (FaucetEnv.faucet_closed_iff hcalled fun message h => ?_).2 ⟨?_, by decide⟩⟩
  · rw [hok] at h
    cases h
  · intro i hi
    obtain rfl := List.mem_singleton.1 hi
    exact ⟨funding, ⟨100000000, faucetScript⟩, rfl, by decide⟩

open FaucetSample in
/-- **Coins may be mixed in.** An input that is not the faucet's is accepted behind the first,
and its coins leave by an output of their own; with nothing behind the change an output that
does not exist is read. -/
theorem faucet_mixed :
    (env.InputsChecked 200000000 mixed ∧ env.faucetValidate mixed = .ok () ∧ ¬ env.Closed mixed) ∧
      env.InputsChecked 200000000 changeOnly ∧
        env.faucetValidate changeOnly = .error .undefined := by
  refine ⟨⟨?_, by decide +kernel, fun h => ?_⟩, ?_, by decide +kernel⟩
  · exact inputsChecked_of (by decide +kernel) (by decide +kernel) (by decide +kernel) (by decide)
      (by decide)
  · exact absurd h.payout (by decide)
  · exact inputsChecked_of (by decide +kernel) (by decide +kernel) (by decide +kernel) (by decide)
      (by decide)

end Komodo
