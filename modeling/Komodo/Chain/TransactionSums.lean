/-
# The sums of a transaction, added up three times

What `CheckTransactionWithoutProofVerification` ensures of a transaction that it accepts, and where
`GetValueOut` and `GetShieldedValueIn` have the sums that it has added up.

The check never overflows, and the sums of a transaction that it accepts are in range, in whatever
order they are added up (`ensures_check`).  So the two others return them.  They overflow where an
amount takes a sum in range out of `int64_t` (`valueSums_exact_iff`), for instance on the lowest value
balance, whose negation is out of range.
-/

import Komodo.Chain.CheckTransaction

namespace Komodo
namespace Wire
namespace CheckTransaction

open Overflow List

/-! ### The steps of the check -/

theorem ensures_dosIf (test : Prop) [Decidable test] (nDoS : ℕ) (error reason : String) :
    Ensures .overflow (dosIf test nDoS error reason) fun _ => ¬ test := by
  unfold dosIf
  split_ifs with h
  · exact nofun
  · exact h

theorem ensures_add {a b : ℤ} (hlow : -2 ^ 63 ≤ a + b) (hhigh : a + b < 2 ^ 63) :
    Ensures .overflow (add a b) fun sum => sum = a + b := by
  unfold add
  rw [int64_of_range hlow hhigh]
  exact rfl

theorem ensures_neg {a : ℤ} (hlow : -2 ^ 63 < a) (hhigh : a < 2 ^ 63) :
    Ensures .overflow (neg a) fun n => n = -a := by
  unfold neg
  rw [int64_of_range (by omega) (by omega)]
  exact rfl

theorem ensures_checkVersion (tx : CTransaction) :
    Ensures .overflow (checkVersion tx) fun _ => True := by
  unfold checkVersion
  split_ifs
  · refine (ensures_dosIf _ _ _ _).bind fun _ _ => (ensures_dosIf _ _ _ _).bind fun _ _ => ?_
    exact (ensures_dosIf _ _ _ _).mono fun _ _ => trivial
  · exact (ensures_dosIf _ _ _ _).mono fun _ _ => trivial

theorem ensures_checkSize (tx : CTransaction) :
    Ensures .overflow (checkSize tx) fun _ => True := by
  refine (ensures_dosIf _ _ _ _).bind fun _ _ => (ensures_dosIf _ _ _ _).bind fun _ _ => ?_
  split
  · exact nofun
  · exact (ensures_dosIf _ _ _ _).mono fun _ _ => trivial

theorem ensures_checkDuplicates (tx : CTransaction) :
    Ensures .overflow (checkDuplicates tx) fun _ => True := by
  refine (ensures_dosIf _ _ _ _).bind fun _ _ => (ensures_dosIf _ _ _ _).bind fun _ _ => ?_
  exact (ensures_dosIf _ _ _ _).mono fun _ _ => trivial

theorem ensures_checkMint (tx : CTransaction) :
    Ensures .overflow (checkMint tx) fun _ => True := by
  unfold checkMint
  split_ifs
  · refine (ensures_dosIf _ _ _ _).bind fun _ _ => (ensures_dosIf _ _ _ _).bind fun _ _ => ?_
    refine (ensures_dosIf _ _ _ _).bind fun _ _ => ?_
    exact (ensures_dosIf _ _ _ _).mono fun _ _ => trivial
  · exact (ensures_dosIf _ _ _ _).mono fun _ _ => trivial

/-- 10000100000 coins. -/
def MAX_MONEY_CAP : ℤ := 10000100000 * 100000000

namespace Env

variable {env : Env} {tiptime : ℕ} {tx : CTransaction}

theorem ensures_checkSapling (invalidPrivateTaddr : Bool) :
    Ensures .overflow (env.checkSapling tiptime tx invalidPrivateTaddr) fun _ => True := by
  refine (ensures_dosIf _ _ _ _).bind fun _ _ => (ensures_dosIf _ _ _ _).bind fun _ _ => ?_
  split_ifs
  · exact (ensures_dosIf _ _ _ _).bind fun _ _ => trivial
  · exact trivial

theorem ensures_checkChain (invalidPrivateTaddr : Bool) (flows : Flows) :
    Ensures .overflow (env.checkChain tx invalidPrivateTaddr flows) fun _ => True :=
  (ensures_dosIf _ _ _ _).bind fun _ _ => (ensures_dosIf _ _ _ _).mono fun _ _ => trivial

/-- What the amounts of a transaction take out of the transparent pool, as they are added up. -/
def outs (tx : CTransaction) : List ℤ :=
  tx.vout.map CTxOut.nValue ++ (if tx.valueBalance ≤ 0 then [-tx.valueBalance] else [])
    ++ tx.vjoinsplit.map JSDescription.vpub_old

/-- What they add to it, as `GetShieldedValueIn` adds it up. -/
def ins (tx : CTransaction) : List ℤ :=
  (if 0 ≤ tx.valueBalance then [tx.valueBalance] else [])
    ++ tx.vjoinsplit.map JSDescription.vpub_new

theorem ensures_addInRange (hcap : env.maxMoney ≤ MAX_MONEY_CAP) {ns : List ℤ} {sum n : ℤ}
    (h : Added env.maxMoney ns sum) (hn : env.MoneyRange n) :
    Ensures .overflow (add sum n) fun total =>
      env.MoneyRange total → Added env.maxMoney (ns ++ [n]) total := by
  have hbounds := h.inRange.sum_bounds hcap (by decide)
  rw [← h.sum_eq] at hbounds
  have hn' : 0 ≤ n ∧ n ≤ env.maxMoney := hn
  unfold MAX_MONEY_CAP at hcap hbounds
  refine (ensures_add (by omega) (by omega)).mono ?_
  rintro total rfl
  exact h.snoc hn

theorem ensures_checkOutput (hcap : env.maxMoney ≤ MAX_MONEY_CAP) (front : List CTxOut)
    (out : CTxOut) (state : ℤ × Bool) (h : Added env.maxMoney (front.map CTxOut.nValue) state.1) :
    Ensures .overflow (env.checkOutput tiptime tx state out) fun next =>
      Added env.maxMoney ((front ++ [out]).map CTxOut.nValue) next.1 := by
  refine (ensures_dosIf _ _ _ _).bind fun _ hlow => (ensures_dosIf _ _ _ _).bind fun _ hhigh => ?_
  refine (ensures_dosIf _ _ _ _).bind fun _ _ => ?_
  have hn : env.MoneyRange out.nValue := ⟨Int.not_lt.1 hlow, Int.not_lt.1 hhigh⟩
  refine (ensures_addInRange hcap h hn).bind fun total htotal => ?_
  refine (ensures_dosIf _ _ _ _).bind fun _ hrange => ?_
  rw [map_append]
  exact htotal (Decidable.not_not.1 hrange)

theorem ensures_checkValueBalance (hlow : -2 ^ 63 < env.maxMoney)
    (hcap : env.maxMoney ≤ MAX_MONEY_CAP) {ns : List ℤ} {sum : ℤ} (h : Added env.maxMoney ns sum) :
    Ensures .overflow (env.checkValueBalance tx sum) fun total =>
      Added env.maxMoney (ns ++ if tx.valueBalance ≤ 0 then [-tx.valueBalance] else []) total
        ∧ tx.valueBalance ≤ env.maxMoney := by
  have hcap' := hcap
  unfold MAX_MONEY_CAP at hcap'
  refine (ensures_neg hlow (by omega)).bind ?_
  rintro lowest rfl
  refine (ensures_dosIf _ _ _ _).bind fun _ hrange => ?_
  rw [not_or, Int.not_lt, Int.not_lt] at hrange
  split_ifs with hnegative
  · refine (ensures_neg (by omega) (by omega)).bind ?_
    rintro taken rfl
    have hn : env.MoneyRange (-tx.valueBalance) := ⟨by omega, by omega⟩
    refine (ensures_addInRange hcap h hn).bind fun total htotal => ?_
    refine (ensures_dosIf _ _ _ _).bind fun _ hsum => ?_
    exact ⟨htotal (Decidable.not_not.1 hsum), hrange.1⟩
  · rw [append_nil]
    exact ⟨h, hrange.1⟩

/-- The loop over the JoinSplits adds up what they take, and looks at what they give. -/
def Joined (limit : ℤ) (ns : List ℤ) (front : List JSDescription) (flows : Flows) : Prop :=
  Added limit (ns ++ front.map JSDescription.vpub_old) flows.nValueOut
    ∧ ∀ js ∈ front, Within limit js.vpub_new

theorem ensures_checkJoinsplit (hcap : env.maxMoney ≤ MAX_MONEY_CAP) {ns : List ℤ}
    (front : List JSDescription) (js : JSDescription) (flows : Flows)
    (h : Joined env.maxMoney ns front flows) :
    Ensures .overflow (env.checkJoinsplit tiptime flows js)
      (Joined env.maxMoney ns (front ++ [js])) := by
  refine (ensures_dosIf _ _ _ _).bind fun _ _ => (ensures_dosIf _ _ _ _).bind fun _ _ => ?_
  refine (ensures_dosIf _ _ _ _).bind fun _ hold => (ensures_dosIf _ _ _ _).bind fun _ hnew => ?_
  refine (ensures_dosIf _ _ _ _).bind fun _ hold' => (ensures_dosIf _ _ _ _).bind fun _ hnew' => ?_
  refine (ensures_dosIf _ _ _ _).bind fun _ _ => ?_
  have hn : env.MoneyRange js.vpub_old := ⟨Int.not_lt.1 hold, Int.not_lt.1 hold'⟩
  refine (ensures_addInRange hcap h.1 hn).bind fun total htotal => ?_
  refine (ensures_dosIf _ _ _ _).bind fun _ hrange => ?_
  have hjoined : Joined env.maxMoney ns (front ++ [js]) { flows with nValueOut := total } := by
    refine ⟨?_, fun d hd => ?_⟩
    · rw [map_append, ← append_assoc]
      exact htotal (Decidable.not_not.1 hrange)
    · rcases mem_append.1 hd with hfront | hlast
      · exact h.2 d hfront
      · rw [mem_singleton.1 hlast]
        exact ⟨Int.not_lt.1 hnew, Int.not_lt.1 hnew'⟩
  -- the counters of the flows do not matter
  split_ifs <;> exact hjoined

theorem ensures_checkValueIn (hcap : env.maxMoney ≤ MAX_MONEY_CAP)
    (hnew : ∀ js ∈ tx.vjoinsplit, env.MoneyRange js.vpub_new)
    (hbalance : tx.valueBalance ≤ env.maxMoney) :
    Ensures .overflow (env.checkValueIn tx) fun _ => InRange env.maxMoney 0 (ins tx) := by
  have hloop : Ensures .overflow (tx.vjoinsplit.foldlM env.checkVpubNew 0) fun sum =>
      Added env.maxMoney (tx.vjoinsplit.map JSDescription.vpub_new) sum := by
    refine ensures_foldlM (fun front sum =>
      Added env.maxMoney (front.map JSDescription.vpub_new) sum) (fun front js hjs sum h => ?_)
      Added.nil
    refine (ensures_addInRange hcap h (hnew js hjs)).bind fun total htotal => ?_
    refine (ensures_dosIf _ _ _ _).bind fun _ hrange => ?_
    rw [map_append]
    exact htotal (Decidable.not_not.1 (not_or.1 hrange).2)
  refine hloop.bind fun sum hsum => ?_
  have hperm : (tx.vjoinsplit.map JSDescription.vpub_new
      ++ if 0 ≤ tx.valueBalance then [tx.valueBalance] else []).Perm (ins tx) :=
    perm_append_comm
  split_ifs at hperm ⊢ with hpositive
  · refine (ensures_addInRange hcap hsum ⟨hpositive, hbalance⟩).bind fun total htotal => ?_
    refine (ensures_dosIf _ _ _ _).mono fun _ hrange => ?_
    exact (inRange_perm hperm).1 (htotal (Decidable.not_not.1 hrange)).inRange
  · rw [append_nil] at hperm
    exact (inRange_perm hperm).1 hsum.inRange

/-- **The check does not overflow, and the sums of what it accepts are in range.** -/
theorem ensures_check (hlow : -2 ^ 63 < env.maxMoney) (hcap : env.maxMoney ≤ MAX_MONEY_CAP) :
    Ensures .overflow (env.checkTransactionWithoutProofVerification tiptime tx) fun _ =>
      InRange env.maxMoney 0 (outs tx) ∧ InRange env.maxMoney 0 (ins tx) := by
  refine (ensures_checkVersion tx).bind fun _ _ => (ensures_checkSize tx).bind fun _ _ => ?_
  have hvout : Ensures .overflow (tx.vout.foldlM (env.checkOutput tiptime tx) (0, false))
      fun state => Added env.maxMoney (tx.vout.map CTxOut.nValue) state.1 :=
    ensures_foldlM (fun front state => Added env.maxMoney (front.map CTxOut.nValue) state.1)
      (fun front out _ state => ensures_checkOutput hcap front out state) Added.nil
  refine hvout.bind fun state hstate => (ensures_checkSapling _).bind fun taddr _ => ?_
  refine (ensures_checkValueBalance hlow hcap hstate).bind fun sum hsum => ?_
  have hjoined : Ensures .overflow
      (tx.vjoinsplit.foldlM (env.checkJoinsplit tiptime) { nValueOut := sum })
      (Joined env.maxMoney _ tx.vjoinsplit) :=
    ensures_foldlM (Joined env.maxMoney _)
      (fun front js _ flows => ensures_checkJoinsplit hcap front js flows)
      ⟨by simpa using hsum.1, by simp⟩
  refine hjoined.bind fun flows hflows => (ensures_checkChain taddr flows).bind fun _ _ => ?_
  refine (ensures_checkValueIn hcap hflows.2 hsum.2).bind fun _ hins => ?_
  refine (ensures_checkDuplicates tx).bind fun _ _ => (ensures_checkMint tx).mono fun _ _ => ?_
  exact ⟨hflows.1.inRange, hins⟩

/-! ### The sums of the transaction -/

/-- The amounts of a transaction are numbers of 64 bits. -/
structure Int64s (tx : CTransaction) : Prop where
  vout : ∀ out ∈ tx.vout, IntRange 8 out.nValue
  valueBalance : IntRange 8 tx.valueBalance
  vpub_old : ∀ js ∈ tx.vjoinsplit, IntRange 8 js.vpub_old
  vpub_new : ∀ js ∈ tx.vjoinsplit, IntRange 8 js.vpub_new

/-- What a transaction takes out of the transparent pool. -/
def valueOut (tx : CTransaction) : ℤ :=
  (tx.vout.map CTxOut.nValue).sum + max 0 (-tx.valueBalance)
    + (tx.vjoinsplit.map JSDescription.vpub_old).sum

/-- What a transaction adds to it by itself. -/
def shieldedValueIn (tx : CTransaction) : ℤ :=
  max 0 tx.valueBalance + (tx.vjoinsplit.map JSDescription.vpub_new).sum

theorem sum_outs : (outs tx).sum = valueOut tx := by
  unfold outs valueOut
  rw [sum_append, sum_append]
  split_ifs with h
  · rw [sum_singleton, max_eq_right (by omega)]
  · rw [sum_nil, max_eq_left (by omega)]

theorem sum_ins : (ins tx).sum = shieldedValueIn tx := by
  unfold ins shieldedValueIn
  rw [sum_append]
  split_ifs with h
  · rw [sum_singleton, max_eq_right h]
  · rw [sum_nil, max_eq_left (by omega)]

theorem neg_bind_addFirst {sum : ℤ} (hsum : 0 ≤ sum) (hbalance : IntRange 8 tx.valueBalance)
    {outOfRange : Failure} {limit : ℤ} :
    (do
      let taken ← neg tx.valueBalance
      addFirst .overflow outOfRange limit sum taken)
      = addFirst .overflow outOfRange limit sum (-tx.valueBalance) := by
  unfold IntRange at hbalance
  rcases Int.lt_or_le (-tx.valueBalance) (2 ^ 63) with hlt | hover
  · unfold neg
    rw [int64_of_range (by omega) hlt]
    rfl
  · unfold neg
    rw [int64_eq_none hover, addFirst_of_over (by omega)]
    rfl

theorem getValueOut_eq (htx : Int64s tx) :
    env.getValueOut tx = (outs tx).foldlM (addFirst .overflow
      (.exception "CTransaction::GetValueOut(): value out of range") env.maxMoney) 0 := by
  unfold getValueOut outs
  rw [foldlM_append, foldlM_append, bind_assoc]
  refine bind_congr_ok fun sum hsum => ?_
  split_ifs
  · simp only [foldlM_cons, foldlM_nil, bind_pure]
    rw [← neg_bind_addFirst (foldlM_addFirst_nonneg le_rfl hsum) htx.valueBalance, bind_assoc]
  · rfl

theorem getShieldedValueIn_eq :
    env.getShieldedValueIn tx = (ins tx).foldlM (addFirst .overflow
      (.exception "CTransaction::GetShieldedValueIn(): value out of range") env.maxMoney) 0 := by
  unfold getShieldedValueIn ins
  rw [foldlM_append]
  split_ifs
  · simp only [foldlM_cons, foldlM_nil, bind_pure]
  · rfl

/-- What the three functions do with a transaction is exact: nothing overflows, and of a transaction
that is accepted the sums are those of its amounts. -/
structure Exact (env : Env) (tiptime : ℕ) (tx : CTransaction) : Prop where
  accepted : env.checkTransactionWithoutProofVerification tiptime tx = .ok () →
    env.getValueOut tx = .ok (valueOut tx) ∧ env.getShieldedValueIn tx = .ok (shieldedValueIn tx)
  check : env.checkTransactionWithoutProofVerification tiptime tx ≠ .error .overflow
  getValueOut : env.getValueOut tx ≠ .error .overflow
  getShieldedValueIn : env.getShieldedValueIn tx ≠ .error .overflow

theorem low_of_mem_outs (htx : Int64s tx) : ∀ n ∈ outs tx, -2 ^ 63 ≤ n := by
  intro n hn
  unfold outs at hn
  rcases mem_append.1 hn with hn | hn
  · rcases mem_append.1 hn with hn | hn
    · obtain ⟨out, hout, rfl⟩ := mem_map.1 hn
      exact (htx.vout out hout).1
    · split_ifs at hn
      · have hbalance := htx.valueBalance.2
        rw [mem_singleton.1 hn]
        omega
      · cases hn
  · obtain ⟨js, hjs, rfl⟩ := mem_map.1 hn
    exact (htx.vpub_old js hjs).1

theorem low_of_mem_ins (htx : Int64s tx) : ∀ n ∈ ins tx, -2 ^ 63 ≤ n := by
  intro n hn
  unfold ins at hn
  rcases mem_append.1 hn with hn | hn
  · split_ifs at hn
    · rw [mem_singleton.1 hn]
      exact htx.valueBalance.1
    · cases hn
  · obtain ⟨js, hjs, rfl⟩ := mem_map.1 hn
    exact (htx.vpub_new js hjs).1

/-- **The sums are exact if and only if no amount takes a sum in range out of `int64_t`.** -/
theorem valueSums_exact_iff (hlow : -2 ^ 63 < env.maxMoney) (hcap : env.maxMoney ≤ 10000100000 * 100000000)
    (htx : Int64s tx) :
    Exact env tiptime tx ↔ Safe env.maxMoney 0 (outs tx) ∧ Safe env.maxMoney 0 (ins tx) := by
  have hlimit : env.maxMoney < 2 ^ 63 := by omega
  have hne : ∀ what, Failure.exception what ≠ .overflow := fun _ => nofun
  have hcheck : Ensures .overflow (env.checkTransactionWithoutProofVerification tiptime tx) fun _ =>
      InRange env.maxMoney 0 (outs tx) ∧ InRange env.maxMoney 0 (ins tx) := ensures_check hlow hcap
  have hout : env.getValueOut tx ≠ .error .overflow ↔ Safe env.maxMoney 0 (outs tx) := by
    rw [getValueOut_eq htx]
    exact foldlM_addFirst_ne_over (hne _) hlimit le_rfl (low_of_mem_outs htx)
  have hin : env.getShieldedValueIn tx ≠ .error .overflow ↔ Safe env.maxMoney 0 (ins tx) := by
    rw [getShieldedValueIn_eq]
    exact foldlM_addFirst_ne_over (hne _) hlimit le_rfl (low_of_mem_ins htx)
  refine ⟨fun h => ⟨hout.1 h.getValueOut, hin.1 h.getShieldedValueIn⟩, fun h => ?_⟩
  refine ⟨fun haccepted => ?_, hcheck.ne, hout.2 h.1, hin.2 h.2⟩
  obtain ⟨houts, hins⟩ := hcheck.of_eq_ok haccepted
  constructor
  · rw [getValueOut_eq htx, foldlM_addFirst hlimit houts, sum_outs, zero_add]
  · rw [getShieldedValueIn_eq, foldlM_addFirst hlimit hins, sum_ins, zero_add]

end Env

/-- A chain that is neither public nor private, with all the money there may be. -/
def plainEnv : Env where
  maxMoney := 10000100000 * 100000000
  assetchainsPrivate := 0
  assetchainsTxpow := 0
  acpublic _ := false
  getacseason _ := 0
  isnotaryvout _ _ := false
  getscriptaddress _ := []
  hash160 _ := []

/-- One input and outputs of these amounts. -/
def payment (valueBalance : ℤ) (amounts : List ℤ) : CTransaction where
  fOverwintered := true
  nVersion := 4
  nVersionGroupId := SAPLING_VERSION_GROUP_ID
  vin := [{ prevout := ⟨1, 0⟩ }]
  vout := amounts.map fun nValue => { nValue, scriptPubKey := [] }
  valueBalance

theorem int64s_payment {valueBalance : ℤ} {amounts : List ℤ} (hbalance : IntRange 8 valueBalance)
    (hamounts : ∀ n ∈ amounts, IntRange 8 n) : Env.Int64s (payment valueBalance amounts) where
  vout out hout := by
    obtain ⟨n, hn, rfl⟩ := mem_map.1 hout
    exact hamounts n hn
  valueBalance := hbalance
  vpub_old _ hjs := absurd hjs not_mem_nil
  vpub_new _ hjs := absurd hjs not_mem_nil

/-- Two amounts that add up. -/
theorem exact_payment :
    plainEnv.checkTransactionWithoutProofVerification 0 (payment 0 [5, 7]) = .ok ()
      ∧ Env.Exact plainEnv 0 (payment 0 [5, 7]) := by
  refine ⟨by decide +kernel, (Env.valueSums_exact_iff (by decide) (by decide) ?_).2 ⟨?_, ?_⟩⟩
  · exact int64s_payment ⟨by decide, by decide⟩ (by simp [IntRange])
  · simp [Env.outs, payment, safe_cons, safe_nil]
  · simp [Env.ins, payment, safe_cons, safe_nil]

/-- The lowest value balance cannot be negated. -/
theorem not_exact_lowest : ¬ ∀ env tiptime tx, -2 ^ 63 < Env.maxMoney env →
    env.maxMoney ≤ 10000100000 * 100000000 → Env.Int64s tx → Env.Exact env tiptime tx := by
  intro hall
  have hexact := hall plainEnv 0 (payment (-2 ^ 63) []) (by decide) (by decide)
    (int64s_payment ⟨by decide, by decide⟩ (by simp))
  exact hexact.getValueOut (by decide +kernel)

end CheckTransaction
end Wire
end Komodo
