/-
# Plans that share an address

The outputs of all dice plans sit at one address under one known key, and
`DiceValidate` (`src/src/cc/dice.cpp`) tells them apart by the opreturns of their
transactions. "make sure all funding txid are from matching sbits and fundingtxid!!"
stands above the settlements; what follows is a sum in which an input of another plan
counts as zero, and in a refund there is no sum at all.

A run is a chain to which transactions are added, each of them accepted by `DiceValidate` if it
spends from the address. `diceRun_plansKept` says what keeps the plans of a run apart: that the
inputs at the positions which no branch looks at belong to the plan that their transaction names.
-/

import Komodo.CC.DiceFairness

namespace Komodo

open List

namespace ContractEnv

/-! ### A step of a run -/

/-- An input that spends an output at the shared address. -/
def SpendsDice (env : ContractEnv) (i : CTxIn) : Prop :=
  ∃ t out, env.spent i = some (t, out) ∧ env.atDiceAddress out = true

instance (env : ContractEnv) (i : CTxIn) : Decidable (env.SpendsDice i) :=
  decidable_of_iff ((env.spent i).any fun p => env.atDiceAddress p.2) <| by
    simp [SpendsDice, Option.any_eq_true]

/-- What consensus asks of a transaction with an input from the shared address: its inputs
exist, those inputs fulfil the condition there, and `DiceValidate` accepts it. -/
def DiceStep (env : ContractEnv) (tx : CTransaction) : Prop :=
  (∃ i ∈ tx.vin, env.SpendsDice i) →
    (∀ i ∈ tx.vin, ∃ p, env.spent i = some p)
    ∧ (∀ i ∈ tx.vin, env.SpendsDice i → env.isMyVin EVAL_DICE i.scriptSig = true)
    ∧ env.diceValidate tx = .ok ()

/-- What the inputs of a transaction hold at the shared address. -/
def diceTotal (env : ContractEnv) (vin : List CTxIn) : ℤ :=
  (vin.map fun i => match env.spent i with
    | some (_, out) => if env.atDiceAddress out then out.nValue else 0
    | none => 0).sum

/-- What a transaction that spends from the shared address owes the plans: it spends only
outputs of the plan it names, and in a settlement all of them are in the sum of the inputs. -/
structure PlanKept (env : ContractEnv) (tx : CTransaction) : Prop where
  isolated : ∀ i ∈ tx.vin, ∀ t out, env.spent i = some (t, out) → env.atDiceAddress out = true →
    ∀ sbits fundingtxid, ofDicePlan t sbits fundingtxid = true →
      ∃ r, decodeDiceOpRet tx.hash (opretOf tx) = some r
        ∧ r.funcid ∈ "BWLTR".toList.map fid ∧ r.fundingtxid = fundingtxid
  counted : (∃ i ∈ tx.vin, env.SpendsDice i) →
    ∀ r plan fundingPubKey, env.dicePlanOf tx = .ok (r, plan, fundingPubKey) →
      r.funcid ∈ "WLT".toList.map fid →
      ∃ outputs, env.diceAmounts tx plan.sbits r.fundingtxid
        = .ok (toUint64 (env.diceTotal tx.vin), outputs)

/-- The positions of the inputs that the branch of a kind does not look at. A bet has no
other input of a condition than `vin.0`; a settlement has a bet of its plan behind
`vin.1` and `vin.2`. -/
def unchecked (funcid : UInt8) (k : ℕ) : Bool :=
  if funcid = fid 'R' then true else if funcid = fid 'B' then k = 0 else k = 0 ∨ 3 ≤ k

/-- At those positions, what is spent from the shared address belongs to the plan named. -/
def InputsNamed (env : ContractEnv) (tx : CTransaction) : Prop :=
  ∀ r plan fundingPubKey, env.dicePlanOf tx = .ok (r, plan, fundingPubKey) →
    ∀ k i, tx.vin[k]? = some i → unchecked r.funcid k = true →
      ∀ t out, env.spent i = some (t, out) → env.atDiceAddress out = true →
        ofDicePlan t plan.sbits r.fundingtxid = true

variable {env : ContractEnv} {tx : CTransaction} {r : DiceOpRet} {plan : DicePlan}
  {fundingPubKey : CScript}

/-! ### Plans -/

/-- The plan's own transaction names itself. -/
theorem fundingtxid_of_funding {txid : Uint256} {s : CScript}
    (h : decodeDiceOpRet txid s = some r) (hF : r.funcid = fid 'F') : r.fundingtxid = txid := by
  unfold decodeDiceOpRet at h
  split at h
  case h_1 =>
    split_ifs at h
    · obtain ⟨_, -, rfl⟩ := Option.map_eq_some_iff.1 h
      rfl
    · dsimp only at h
      split at h
      case h_1 =>
        split_ifs at h with hkind
        cases h
        rw [hF] at hkind
        exact absurd hkind.2 (by decide)
      case h_2 => cases h
  case h_2 => cases h

theorem ofDicePlan_unique {t : CTransaction} {sbits sbits' : ℕ} {id id' : Uint256}
    (h : ofDicePlan t sbits id = true) (h' : ofDicePlan t sbits' id' = true) : id = id' := by
  unfold ofDicePlan at h h'
  cases hr : decodeDiceOpRet t.hash (opretOf t) with
  | none => simp [hr] at h
  | some r =>
    simp only [hr, decide_eq_true_eq] at h h'
    have hid : ∀ id, (r.funcid = fid 'F' ∧ t.hash = id ∨ r.fundingtxid = id) →
        r.fundingtxid = id := by
      rintro id (⟨hF, hhash⟩ | hid)
      · rw [fundingtxid_of_funding hr hF, hhash]
      · exact hid
    rw [← hid id h.2, hid id' h'.2]

/-- A bet has no input of a condition besides `vin.0`. -/
theorem diceBet_preventCC (h : env.diceBet tx r plan fundingPubKey = .ok ()) {k : ℕ} {i : CTxIn}
    (hi : tx.vin[k]? = some i) (hk : k ≠ 0) : env.isCCInput i.scriptSig = false := by
  simp only [diceBet, Checked.bind_eq_ok, preventCC, require_eq_ok] at h
  obtain ⟨⟨⟩, -, ⟨⟩, hvins, -⟩ := h
  simp only [Option.elim_some, all_eq_true, Bool.not_eq_true'] at hvins
  refine hvins i (mem_of_getElem? (i := k - 1) ?_)
  rw [getElem?_drop, show 1 + (k - 1) = k by omega]
  exact hi

/-- The bet behind `vin.1` and `vin.2` of a settlement is of the plan it names. -/
theorem ofDicePlan_of_settledBet (hhash : ∀ {txid t}, env.lookup txid = some t → t.hash = txid)
    {betTx : CTransaction} (h : env.settledBet tx r plan = .ok betTx) {k : ℕ} (hk : k = 1 ∨ k = 2)
    {i : CTxIn} (hi : tx.vin[k]? = some i) {t : CTransaction}
    (ht : env.lookup i.prevout.hash = some t) :
    ofDicePlan t plan.sbits r.fundingtxid = true := by
  obtain ⟨vin1, vin2, b, h1, h2, hsame, hbet, hb, -, hsbits, hid⟩ := settledBet_eq_ok h
  have hprev : i.prevout.hash = vin1.prevout.hash := by
    rcases hk with rfl | rfl
    · rw [Option.some.inj (hi.symm.trans h1)]
    · rw [Option.some.inj (hi.symm.trans h2), hsame]
  rw [hprev, hbet] at ht
  cases ht
  simp only [ofDicePlan, hhash hbet, hb, hsbits, hid, true_and, or_true, decide_true]

/-- With the unchecked inputs named, every input from the shared address is of the plan
that the transaction names. -/
theorem ofDicePlan_of_spent (hhash : ∀ {txid t}, env.lookup txid = some t → t.hash = txid)
    (hstep : env.DiceStep tx) (hnamed : env.InputsNamed tx)
    (hplan : env.dicePlanOf tx = .ok (r, plan, fundingPubKey)) {i : CTxIn} (hi : i ∈ tx.vin)
    {t : CTransaction} {out : CTxOut} (hspent : env.spent i = some (t, out))
    (hout : env.atDiceAddress out = true) : ofDicePlan t plan.sbits r.fundingtxid = true := by
  obtain ⟨-, hmine, haccepted⟩ := hstep ⟨i, hi, t, out, hspent, hout⟩
  obtain ⟨k, hk⟩ := mem_iff_getElem?.1 hi
  by_cases hun : unchecked r.funcid k = true
  · exact hnamed r plan fundingPubKey hplan k i hk hun t out hspent hout
  · obtain ⟨r', plan', key', hplan', hbranch⟩ := diceValidate_eq_ok haccepted
    rw [hplan] at hplan'
    obtain ⟨rfl, rfl, rfl⟩ : r = r' ∧ plan = plan' ∧ fundingPubKey = key' := by
      simpa using hplan'
    rcases hbranch with ⟨hB, hbet⟩ | ⟨hS, hsettle⟩ | ⟨hR, -⟩
    · -- a bet: a condition spent at another position than 0 is prevented
      have hk0 : k ≠ 0 := fun h0 => hun (by rw [hB, h0]; decide)
      have hcc := CCEnv.isCCInput_of_isMyVin (hmine i hi ⟨t, out, hspent, hout⟩)
      rw [diceBet_preventCC hbet hk hk0] at hcc
      cases hcc
    · obtain ⟨_, _, betTx, -, hbet, -⟩ := diceSettle_eq_ok hsettle
      have hk12 : k = 1 ∨ k = 2 := by
        have hfalse : ¬ (k = 0 ∨ 3 ≤ k) := by
          rcases hS with hf | hf | hf <;> simpa [unchecked, hf, fid] using hun
        omega
      exact ofDicePlan_of_settledBet hhash hbet hk12 hk (spent_eq_some.1 hspent).1
    · exact absurd (by simp [unchecked, hR]) hun

/-- The loop of `DiceAmounts` sums everything at the shared address when all of it is of
the plan. -/
theorem diceInputs_eq {sbits : ℕ} {id : Uint256} {vin : List CTxIn}
    (hfound : ∀ i ∈ vin, ∃ p, env.spent i = some p)
    (hmine : ∀ i ∈ vin, env.SpendsDice i → env.isMyVin EVAL_DICE i.scriptSig = true)
    (hplan : ∀ i ∈ vin, ∀ t out, env.spent i = some (t, out) → env.atDiceAddress out = true →
      ofDicePlan t sbits id = true) (start : ℤ) :
    env.diceInputs sbits id vin (toUint64 start)
      = .ok (toUint64 (start + env.diceTotal vin), true) := by
  induction vin generalizing start with
  | nil => simp only [diceInputs, diceTotal, map_nil, sum_nil, add_zero]; rfl
  | cons i rest ih =>
    obtain ⟨⟨t, out⟩, hspent⟩ := hfound i mem_cons_self
    obtain ⟨ht, hout⟩ := spent_eq_some.1 hspent
    have ih := ih (fun j hj => hfound j (mem_cons_of_mem _ hj))
      (fun j hj => hmine j (mem_cons_of_mem _ hj))
      (fun j hj => hplan j (mem_cons_of_mem _ hj))
    have htotal : env.diceTotal (i :: rest)
        = (if env.atDiceAddress out then out.nValue else 0) + env.diceTotal rest := by
      simp only [diceTotal, map_cons, sum_cons, hspent]
    have hvout : env.isDicevout t out sbits id
        = if env.atDiceAddress out then out.nValue else 0 := by
      cases hat : env.atDiceAddress out with
      | false => simp [isDicevout, hat]
      | true => simp [isDicevout, hat, hplan i mem_cons_self t out hspent hat]
    by_cases hmy : env.isMyVin EVAL_DICE i.scriptSig = true
    · rw [diceInputs, if_pos hmy, htotal, ← add_assoc, ← ih, ← hvout]
      simp only [ht, hout, defined, toUint64_add_toUint64]
      rfl
    · have hnot : env.atDiceAddress out = false := by
        cases hat : env.atDiceAddress out with
        | false => rfl
        | true => exact absurd (hmine i mem_cons_self ⟨t, out, hspent, hat⟩) hmy
      rw [diceInputs, if_neg hmy, htotal, hnot, ih]
      simp only [Bool.false_eq_true, if_false, zero_add]

/-- **A step.** A transaction whose unchecked inputs are of the plan it names spends from
no other plan, and a settlement counts all that it spends. -/
theorem DiceStep.planKept (hhash : ∀ {txid t}, env.lookup txid = some t → t.hash = txid)
    (hstep : env.DiceStep tx) (hnamed : env.InputsNamed tx) : env.PlanKept tx where
  isolated := by
    intro i hi t out hspent hout sbits fundingtxid hof
    obtain ⟨-, -, haccepted⟩ := hstep ⟨i, hi, t, out, hspent, hout⟩
    obtain ⟨r, plan, key, hplan, hbranch⟩ := diceValidate_eq_ok haccepted
    refine ⟨r, (dicePlanOf_eq_ok hplan).1, ?_, ?_⟩
    · rcases hbranch with ⟨hf, -⟩ | ⟨hf | hf | hf, -⟩ | ⟨hf, -⟩ <;> rw [hf] <;> decide
    · exact ofDicePlan_unique (ofDicePlan_of_spent hhash hstep hnamed hplan hi hspent hout) hof
  counted := by
    intro hspends r plan key hplan _
    obtain ⟨hfound, hmine, -⟩ := hstep hspends
    have hinputs := diceInputs_eq hfound hmine
      (fun i hi t out => ofDicePlan_of_spent hhash hstep hnamed hplan hi) 0
    rw [zero_add] at hinputs
    simp only [diceAmounts, Checked.bind_eq_ok]
    exact ⟨_, _, hinputs, rfl⟩

end ContractEnv

/-! ### Runs -/

/-- A chain built by steps of the dice contract, the newest transaction first. -/
inductive DiceRun (node : Node) : List CTransaction → Prop
  | nil : DiceRun node []
  | step {chain : List CTransaction} {tx : CTransaction} (hrun : DiceRun node chain)
      (hstep : (node.view chain).DiceStep tx) : DiceRun node (tx :: chain)

/-- **Plans are kept apart.** In a run whose transactions spend, at the positions which
`DiceValidate` does not look at, only outputs of the plan they name, every output of a
plan is spent by a transaction of that plan, and every settlement counts all its inputs. -/
theorem diceRun_plansKept {node : Node} {chain : List CTransaction} (hrun : DiceRun node chain)
    (hnamed : ∀ tx older, tx :: older <:+ chain → (node.view older).InputsNamed tx) :
    ∀ tx older, tx :: older <:+ chain → (node.view older).PlanKept tx := by
  induction hrun with
  | nil => exact fun tx older h => absurd (suffix_nil.1 h) (cons_ne_nil _ _)
  | @step chain new hrun hstep ih =>
    intro tx older hsuffix
    rcases suffix_cons_iff.1 hsuffix with heq | hold
    · obtain ⟨rfl, rfl⟩ := cons.inj heq
      exact hstep.planKept (node.hash_of_lookup) (hnamed _ _ hsuffix)
    · exact ih (fun t o h => hnamed t o (h.trans (suffix_cons _ _))) tx older hold

/-! ### A refund with the funding of another plan -/

namespace DiceSample

/-- A plan of another house, with 500 coins of funding. -/
def otherPlan : CTransaction where
  hash := 10
  vin := []
  vout := [⟨50000000000, diceScript⟩, ⟨10000, bettor⟩,
    ⟨0, opReturnScript ([EVAL_DICE, fid 'F'] ++ leBytes 8 8 ++ leBytes 8 1 ++ leBytes 8 1000000000
      ++ leBytes 8 99 ++ leBytes 8 10)⟩]

/-- A coin of the house. -/
def coin : CTransaction where
  hash := 11
  vin := []
  vout := [⟨20000, house⟩]

/-- A refund of the house that spends output 0 of some transaction to itself. -/
def refund (txid : Uint256) (nValue : ℤ) : CTransaction where
  hash := 12
  vin := [⟨⟨11, 0⟩, [], 0⟩, ⟨⟨txid, 0⟩, spend, 0⟩]
  vout := [⟨nValue, house⟩, ⟨0, opret 'R' 0 0⟩]

theorem lookup_findTx (chain : List CTransaction) (txid : Uint256) :
    ({ env with getTransaction := findTx chain 100 } : ContractEnv).lookup txid
      = chain.find? fun tx => tx.hash = txid :=
  findTx_map_fst chain 100 txid

/-- The node of the sample over time. -/
def node : Node where
  view chain := { env with getTransaction := findTx chain 100 }
  lookup_view := lookup_findTx

theorem diceStep_of_no_vin (env : ContractEnv) {tx : CTransaction} (h : tx.vin = []) :
    env.DiceStep tx := by
  rintro ⟨i, hi, -⟩
  rw [h] at hi
  cases hi

theorem diceStep_of_found {env : ContractEnv} {tx : CTransaction}
    (hfound : ∀ i ∈ tx.vin, (env.spent i).isSome = true)
    (hmine : ∀ i ∈ tx.vin, env.SpendsDice i → env.isMyVin EVAL_DICE i.scriptSig = true)
    (haccepted : env.diceValidate tx = .ok ()) : env.DiceStep tx :=
  fun _ => ⟨fun i hi => Option.isSome_iff_exists.1 (hfound i hi), hmine, haccepted⟩

end DiceSample

open DiceSample in
/-- The hypotheses of `diceRun_plansKept` are satisfiable: a house may refund itself. -/
theorem diceRun_plansKept_refund :
    DiceRun node [refund 1 100000010000, coin, plan] ∧
      ∀ tx older, tx :: older <:+ [refund 1 100000010000, coin, plan] →
        (node.view older).PlanKept tx := by
  have hrun : DiceRun node [refund 1 100000010000, coin, plan] := by
    refine ((DiceRun.nil.step ?_).step ?_).step ?_
    · exact diceStep_of_no_vin _ rfl
    · exact diceStep_of_no_vin _ rfl
    · exact diceStep_of_found (by decide +kernel) (by decide +kernel) (by decide +kernel)
  refine ⟨hrun, diceRun_plansKept hrun fun tx older h => ?_⟩
  intro r p key hplan k i hi _ t out hspent hout
  -- only the refund has inputs
  rcases suffix_cons_iff.1 h with heq | h
  · obtain ⟨rfl, rfl⟩ := cons.inj heq
    have hterms : (node.view [coin, plan]).dicePlanOf (refund 1 100000010000)
        = .ok (⟨fid 'R', 7, 1, 0, 0⟩, ⟨7, 1, 1000000000, 99, 10⟩, house) := by decide
    rw [hterms] at hplan
    cases hplan
    have hof : ∀ j ∈ (refund 1 100000010000).vin, ((node.view [coin, plan]).spent j).all
        (fun p => !(node.view [coin, plan]).atDiceAddress p.2
          || ContractEnv.ofDicePlan p.1 7 1) = true := by
      decide
    simpa [hspent, hout] using hof i (mem_of_getElem? hi)
  · have hvin : ∀ c ∈ [coin, plan], c.vin = [] := by decide
    rw [hvin tx (h.subset mem_cons_self)] at hi
    cases hi

open DiceSample in
/-- A run in which a refund that names one plan spends the funding of another. -/
theorem foreign_refund :
    DiceRun node [refund 10 50000010000, coin, otherPlan, plan] ∧
      ¬ ∀ tx older, tx :: older <:+ [refund 10 50000010000, coin, otherPlan, plan] →
        (node.view older).PlanKept tx := by
  constructor
  · refine (((DiceRun.nil.step ?_).step ?_).step ?_).step ?_
    · exact diceStep_of_no_vin _ rfl
    · exact diceStep_of_no_vin _ rfl
    · exact diceStep_of_no_vin _ rfl
    · exact diceStep_of_found (by decide +kernel) (by decide +kernel) (by decide +kernel)
  · intro h
    have hkept := h _ _ suffix_rfl
    obtain ⟨r, hr, -, hid⟩ := hkept.isolated ⟨⟨10, 0⟩, spend, 0⟩ (by simp [refund]) otherPlan
      ⟨50000000000, diceScript⟩ (by decide) (by decide) 8 10 (by decide)
    have hdecode : decodeDiceOpRet (refund 10 50000010000).hash (opretOf (refund 10 50000010000))
        = some ⟨fid 'R', 7, 1, 0, 0⟩ := by decide
    rw [← Option.some.inj (hdecode.symm.trans hr)] at hid
    exact absurd hid (by decide)

end Komodo
