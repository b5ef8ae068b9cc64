/-
# What the assets contract reads and divides by

The outputs that `AssetsValidate` of `src/src/cc/assets.cpp` reads, and the divisions of
`ValidateBidRemainder`, `ValidateAskRemainder` and `ValidateSwapRemainder` of
`src/src/cc/CCassetsCore.cpp`.

A fill of a bid is read up to `vout.4` although it may have four outputs.  The price of what is left
of an ask is divided by the tokens that are left where coins are still asked for.  And `vin.1` may
name a transaction without outputs.  `reads_inside_iff` says that there is nothing else.
-/

import Komodo.CC.AssetsBids

namespace Komodo

open Checked List

/-! ### The divisions -/

/-- `a / b`; `none` for a division by zero. -/
def divide (a b : ℤ) : Option ℤ := if b = 0 then none else some (a.tdiv b)

theorem divide_of_ne_zero {a b : ℤ} (hb : b ≠ 0) : divide a b = some (a.tdiv b) := if_neg hb

section
variable (remaining remaining_nValue orig_nValue received_nValue paidunits totalunits : ℤ)

/-- `ValidateBidRemainder` with the price of what is left. -/
def bidRemainder : Option Bool :=
  if orig_nValue = 0 ∨ received_nValue = 0 ∨ paidunits = 0 ∨ totalunits = 0 then some false
  else if totalunits ≠ toInt64 (remaining + paidunits) then some false
  else if orig_nValue ≠ toInt64 (remaining_nValue + received_nValue) then some false
  else do
    let unitprice ← divide orig_nValue totalunits
    let recvunitprice ← divide received_nValue paidunits
    let _newunitprice ← if remaining ≠ 0 then divide remaining_nValue remaining else some 0
    pure (decide (unitprice ≤ recvunitprice))

/-- `ValidateSwapRemainder` with the price of what is left. -/
def swapRemainder : Option Bool :=
  if orig_nValue = 0 ∨ received_nValue = 0 ∨ paidunits = 0 ∨ totalunits = 0 then some false
  else if totalunits ≠ toInt64 (remaining + paidunits) then some false
  else if orig_nValue ≠ toInt64 (remaining_nValue + received_nValue) then some false
  else do
    let unitprice ← divide (toInt64 (orig_nValue * COIN)) totalunits
    let recvunitprice ← divide (toInt64 (received_nValue * COIN)) paidunits
    let _newunitprice ←
      if remaining ≠ 0 then divide (toInt64 (remaining_nValue * COIN)) remaining else some 0
    pure (decide (unitprice ≤ recvunitprice))

/-- A bid is divided by what the tests before have found not to be zero. -/
theorem bidRemainder_eq :
    bidRemainder remaining remaining_nValue orig_nValue received_nValue paidunits totalunits =
      some (validateBidRemainder remaining remaining_nValue orig_nValue received_nValue paidunits
        totalunits) := by
  unfold bidRemainder validateBidRemainder
  split_ifs with hzero htotal horig hremaining
  · rfl
  · rfl
  · rfl
  · rw [not_or, not_or, not_or] at hzero
    rw [divide_of_ne_zero hzero.2.2.2, divide_of_ne_zero hzero.2.2.1, divide_of_ne_zero hremaining]
    rfl
  · rw [not_or, not_or, not_or] at hzero
    rw [divide_of_ne_zero hzero.2.2.2, divide_of_ne_zero hzero.2.2.1]
    rfl

theorem swapRemainder_ne_none :
    swapRemainder remaining remaining_nValue orig_nValue received_nValue paidunits totalunits
      ≠ none := by
  unfold swapRemainder
  split_ifs with hzero htotal horig hremaining
  · nofun
  · nofun
  · nofun
  · rw [not_or, not_or, not_or] at hzero
    rw [divide_of_ne_zero hzero.2.2.2, divide_of_ne_zero hzero.2.2.1, divide_of_ne_zero hremaining]
    nofun
  · rw [not_or, not_or, not_or] at hzero
    rw [divide_of_ne_zero hzero.2.2.2, divide_of_ne_zero hzero.2.2.1]
    nofun

end

/-- An ask divides by zero where coins are asked for and no tokens are left. -/
theorem validateAskRemainder_eq_none {remaining_nValue remaining_assetoshis orig_assetoshis
    received_assetoshis paid_nValue total_nValue : ℤ} :
    validateAskRemainder remaining_nValue remaining_assetoshis orig_assetoshis received_assetoshis
        paid_nValue total_nValue = none
      ↔ remaining_nValue ≠ 0 ∧ remaining_assetoshis = 0 ∧ orig_assetoshis ≠ 0
        ∧ received_assetoshis ≠ 0 ∧ paid_nValue ≠ 0 ∧ total_nValue ≠ 0
        ∧ total_nValue = toInt64 (remaining_nValue + paid_nValue)
        ∧ orig_assetoshis = toInt64 (remaining_assetoshis + received_assetoshis) := by
  unfold validateAskRemainder
  split_ifs with hzero htotal horig hleft
  · exact ⟨nofun, fun h => (hzero.elim h.2.2.1 fun hzero => hzero.elim h.2.2.2.1 fun hzero =>
      hzero.elim h.2.2.2.2.1 h.2.2.2.2.2.1).elim⟩
  · exact ⟨nofun, fun h => absurd h.2.2.2.2.2.2.1 htotal⟩
  · exact ⟨nofun, fun h => absurd h.2.2.2.2.2.2.2 horig⟩
  · rw [not_or, not_or, not_or] at hzero
    exact ⟨fun _ => ⟨hleft.1, hleft.2, hzero.1, hzero.2.1, hzero.2.2.1, hzero.2.2.2,
      not_not.1 htotal, not_not.1 horig⟩, fun _ => rfl⟩
  · exact ⟨nofun, fun h => absurd ⟨h.1, h.2.1⟩ hleft⟩

namespace ContractEnv

section
variable (env : ContractEnv) (additionalTokensEvalcode2 : UInt8) (tx : CTransaction)

/-! ### The reads -/

/-- `AssetsValidate` reads no output that is not there, and no remainder divides by zero.  Without
inputs it ends at `vin.0`, which is no output. -/
structure ReadsInside (symbol : String) : Prop where
  outputs : env.assetsValidate additionalTokensEvalcode2 symbol tx = .error .undefined → tx.vin = []
  bids : ∀ remaining_units remaining_nValue orig_nValue received_nValue paidunits totalunits,
    bidRemainder remaining_units remaining_nValue orig_nValue received_nValue paidunits totalunits
      ≠ none
  swaps : ∀ remaining_price remaining_nValue orig_nValue received_nValue paidunits totalunits,
    swapRemainder remaining_price remaining_nValue orig_nValue received_nValue paidunits totalunits
      ≠ none

/-- The checks before the switch are passed. -/
structure Admitted (symbol : String) (d : AssetOpRet) : Prop where
  exempt : env.assetsExempt symbol = false
  decode : decodeAssetTokenOpRet (opretOf tx) = some d
  known : env.assetKnown d.funcid d.assetid = true
  known2 : d.assetid2 = 0 ∨ env.assetKnown d.funcid d.assetid2 = true
  vin0 : ∃ vin0, tx.vin[0]? = some vin0 ∧ env.isCCInput vin0.scriptSig = false
  vouts : 2 ≤ tx.vout.length
  assetid : d.assetid ≠ 0
  found : ∀ i ∈ tx.vin, env.isMyVin EVAL_TOKENS i.scriptSig = true →
    env.lookup i.prevout.hash ≠ none

/-- `vin.1` names output 0 of a transaction without outputs. -/
def SpendsNothing : Prop :=
  ∃ vin1 vinTx, tx.vin[1]? = some vin1 ∧ vin1.prevout.n = 0
    ∧ env.lookup vin1.prevout.hash = some vinTx ∧ vinTx.vout = []

/-- A fill of a bid with four outputs that is valid up to the look at `vout.4`. -/
def FillsShort (d : AssetOpRet) : Prop :=
  ∃ vin bid out0 out1, env.assetValidateBuyvin additionalTokensEvalcode2 d.funcid tx d.assetid
      = .ok (vin, bid)
    ∧ tx.vout.length = 4 ∧ bid.origpubkey = d.origpubkey
    ∧ tx.vout[0]? = some out0 ∧ tx.vout[1]? = some out1
    ∧ vin.out0.nValue = toInt64 (out0.nValue + out1.nValue)

/-- A fill of an ask that takes all tokens and leaves coins to be asked for. -/
def FillsAll (d : AssetOpRet) : Prop :=
  ∃ vin ask out0 out1 out2, env.assetValidateSellvin additionalTokensEvalcode2 d.funcid tx d.assetid
      = .ok (vin, ask)
    ∧ 4 ≤ tx.vout.length ∧ ask.origpubkey = d.origpubkey
    ∧ tx.vout[0]? = some out0 ∧ tx.vout[1]? = some out1 ∧ tx.vout[2]? = some out2
    ∧ out0.nValue = 0 ∧ vin.out0.nValue = toInt64 out1.nValue
    ∧ vin.out0.nValue ≠ 0 ∧ out1.nValue ≠ 0 ∧ out2.nValue ≠ 0 ∧ ask.price ≠ 0 ∧ d.price ≠ 0
    ∧ ask.price = toInt64 (d.price + out2.nValue)

/-- What the validator leaves open. -/
structure Harmless (symbol : String) : Prop where
  spends : ∀ d, env.Admitted tx symbol d → d.funcid ∈ "oBxS".toList.map fid → ¬ env.SpendsNothing tx
  bids : ∀ d, env.Admitted tx symbol d → d.funcid = fid 'B' →
    ¬ env.FillsShort (env.assetsEvalcode2 additionalTokensEvalcode2 d.assetid) tx d
  asks : ∀ d, env.Admitted tx symbol d → d.funcid = fid 'S' →
    ¬ env.FillsAll (env.assetsEvalcode2 additionalTokensEvalcode2 d.assetid) tx d

end

section
variable {env : ContractEnv} {additionalTokensEvalcode2 : UInt8} {tx : CTransaction}
  {d : AssetOpRet}

variable {assetid : Uint256}

theorem assetCalcAmounts_ne_undefined (vin : List CTxIn) :
    env.assetCalcAmounts assetid vin ≠ .error .undefined := by
  induction vin with
  | nil => nofun
  | cons i vin ih =>
    unfold assetCalcAmounts
    split_ifs
    · intro h
      rcases bind_eq_error.1 h with h | ⟨vinTx, -, h⟩
      · exact expect_ne_undefined h
      · rcases bind_eq_error.1 h with h | ⟨inputs, -, h⟩
        · exact ih h
        · cases h
    · exact ih

theorem assetCalcAmounts_ok {vin : List CTxIn} :
    (∃ inputs, env.assetCalcAmounts assetid vin = .ok inputs) ↔
      ∀ i ∈ vin, env.isMyVin EVAL_TOKENS i.scriptSig = true → env.lookup i.prevout.hash ≠ none := by
  induction vin with
  | nil => exact ⟨fun _ => nofun, fun _ => ⟨0, rfl⟩⟩
  | cons i vin ih =>
    rw [forall_mem_cons, ← ih, assetCalcAmounts.eq_2]
    by_cases hmine : env.isMyVin EVAL_TOKENS i.scriptSig = true
    · rw [if_pos hmine]
      simp only [bind_eq_ok, expect_eq_ok, pure_eq_ok, hmine, forall_const,
        Option.ne_none_iff_exists']
      constructor
      · rintro ⟨_, vinTx, hvinTx, inputs, hinputs, -⟩
        exact ⟨⟨vinTx, hvinTx⟩, inputs, hinputs⟩
      · rintro ⟨⟨vinTx, hvinTx⟩, inputs, hinputs⟩
        exact ⟨_, vinTx, hvinTx, inputs, hinputs, rfl⟩
    · rw [if_neg hmine]
      exact ⟨fun h => ⟨fun hmine' => absurd hmine' hmine, h⟩, fun h => h.2⟩

theorem preventCC_ne_undefined {vins vouts : Option ℕ} :
    env.preventCC tx vins vouts ≠ .error .undefined := by
  intro h
  rcases bind_eq_error.1 h with h | ⟨_, -, h⟩
  · exact require_ne_undefined h
  · exact require_ne_undefined h

/-- The output that `vin.1` spends is read first. -/
theorem assetValidateCCvin_undefined_iff {funcid : UInt8} :
    env.assetValidateCCvin additionalTokensEvalcode2 funcid tx = .error .undefined
      ↔ env.SpendsNothing tx := by
  unfold assetValidateCCvin
  simp only [bind_eq_error, require_ne_undefined, false_or, require_eq_ok, exists_const,
    defined_eq_undefined, defined_eq_ok, expect_ne_undefined, expect_eq_ok, decide_eq_true_eq,
    getElem?_eq_none_iff, pure_ne_error, and_false, exists_false, or_false]
  constructor
  · rintro ⟨hlong, hshort | ⟨vin1, hvin1, hn, vinTx, hvinTx, hvout⟩⟩
    · omega
    · exact ⟨vin1, vinTx, hvin1, hn, hvinTx, length_eq_zero_iff.1 (Nat.le_zero.1 hvout)⟩
  · rintro ⟨vin1, vinTx, hvin1, hn, hvinTx, hvout⟩
    obtain ⟨hlt, -⟩ := List.getElem?_eq_some_iff.1 hvin1
    exact ⟨hlt, .inr ⟨vin1, hvin1, hn, vinTx, hvinTx, by simp [hvout]⟩⟩

theorem one_lt_vout {vinTx : CTransaction} {out0 : CTxOut} {bid : AssetOpRet}
    (hout0 : vinTx.vout[0]? = some out0) (hcc : isPayToCryptoCondition out0.scriptPubKey = true)
    (hbid : decodeAssetTokenOpRet (opretOf vinTx) = some bid) : 1 < vinTx.vout.length := by
  by_contra hshort
  obtain ⟨hlt, hget⟩ := List.getElem?_eq_some_iff.1 hout0
  obtain ⟨out, hout⟩ := length_eq_one_iff.1 (show vinTx.vout.length = 1 by omega)
  have hlast : opretOf vinTx = out0.scriptPubKey := by
    simp [opretOf, hout, ← hget]
  have hdata : getOpReturnData out0.scriptPubKey ≠ [] := by
    intro hnil
    rw [hlast] at hbid
    simp [decodeAssetTokenOpRet, decodeTokenOpRet, hnil] at hbid
  rw [isPayToCryptoCondition_of_opReturnData hdata] at hcc
  cases hcc

theorem assetValidateBuyvin_undefined_iff {funcid : UInt8} :
    env.assetValidateBuyvin additionalTokensEvalcode2 funcid tx assetid = .error .undefined
      ↔ env.SpendsNothing tx := by
  unfold assetValidateBuyvin
  rw [bind_eq_error, assetValidateCCvin_undefined_iff, or_iff_left]
  rintro ⟨vin, hvin, h⟩
  obtain ⟨_, -, -, -, hout0, -, -⟩ := assetValidateCCvin_eq_ok hvin
  simp only [bind_eq_error, require_ne_undefined, false_or, require_eq_ok, exists_const,
    expect_ne_undefined, expect_eq_ok, pure_ne_error, and_false, or_false] at h
  obtain ⟨hcc, bid, hbid, hmarker⟩ := h
  unfold bidMarker at hmarker
  split_ifs at hmarker
  · simp only [bind_eq_error, require_ne_undefined, defined_eq_undefined, and_false,
      exists_false, or_false, getElem?_eq_none_iff] at hmarker
    exact absurd (one_lt_vout hout0 hcc hbid) (Nat.not_lt.2 hmarker)
  · cases hmarker

theorem assetValidateSellvin_undefined_iff {funcid : UInt8} :
    env.assetValidateSellvin additionalTokensEvalcode2 funcid tx assetid = .error .undefined
      ↔ env.SpendsNothing tx := by
  unfold assetValidateSellvin
  simp only [bind_eq_error, assetValidateCCvin_undefined_iff, expect_ne_undefined,
    pure_ne_error, and_false, exists_false, or_false]

/-! ### The branches -/

theorem validateCancelbuy_undefined_iff (hvouts : 2 ≤ tx.vout.length) :
    env.validateCancelbuy additionalTokensEvalcode2 tx d = .error .undefined
      ↔ env.SpendsNothing tx := by
  have hout0 : ¬ tx.vout.length ≤ 0 := by omega
  unfold validateCancelbuy
  simp only [bind_eq_error, assetValidateBuyvin_undefined_iff, require_ne_undefined,
    defined_eq_undefined, preventCC_ne_undefined, and_false, exists_false, or_false,
    getElem?_eq_none_iff, hout0]

theorem validateCancelsell_undefined_iff (hvouts : 2 ≤ tx.vout.length) :
    env.validateCancelsell additionalTokensEvalcode2 tx d = .error .undefined
      ↔ env.SpendsNothing tx := by
  have hout0 : ¬ tx.vout.length ≤ 0 := by omega
  unfold validateCancelsell
  simp only [bind_eq_error, assetValidateSellvin_undefined_iff, require_ne_undefined,
    defined_eq_undefined, preventCC_ne_undefined, and_false, exists_false, or_false,
    getElem?_eq_none_iff, hout0]

theorem fillbuyWithChange_ne_undefined {inputs : ℤ} {origTokensCCaddr : String}
    {out2 out4 : CTxOut} :
    env.fillbuyWithChange inputs origTokensCCaddr out2 out4 ≠ .error .undefined := by
  simp [fillbuyWithChange, bind_eq_error]

theorem fillbuyWithoutChange_ne_undefined {inputs nValue : ℤ} {origTokensCCaddr : String}
    {bid : AssetOpRet} {out0 out1 out2 out3 : CTxOut} :
    env.fillbuyWithoutChange inputs origTokensCCaddr d bid nValue out0 out1 out2 out3
      ≠ .error .undefined := by
  simp [fillbuyWithoutChange, bind_eq_error]

theorem outputs_of_four (hvouts : 4 ≤ tx.vout.length) : ∃ out0 out1 out2 out3,
    tx.vout[0]? = some out0 ∧ tx.vout[1]? = some out1 ∧ tx.vout[2]? = some out2
      ∧ tx.vout[3]? = some out3 :=
  ⟨_, _, _, _, getElem?_eq_getElem (by omega), getElem?_eq_getElem (by omega),
    getElem?_eq_getElem (by omega), getElem?_eq_getElem (by omega)⟩

theorem validateFillbuy_undefined_iff {inputs : ℤ} :
    env.validateFillbuy additionalTokensEvalcode2 tx d inputs = .error .undefined
      ↔ env.SpendsNothing tx ∨ env.FillsShort additionalTokensEvalcode2 tx d := by
  have hend : ∀ (vin : AssetVin) (bid : AssetOpRet) (out0 out1 out2 out3 out4 : CTxOut),
      (if isPayToCryptoCondition out4.scriptPubKey then do
          env.fillbuyWithChange inputs vin.origCCaddr out2 out4
          env.preventCC tx none (some 5)
        else do
          env.fillbuyWithoutChange inputs vin.origCCaddr d bid vin.out0.nValue out0 out1 out2 out3
          env.preventCC tx none (some 4)) ≠ .error .undefined := by
    intro vin bid out0 out1 out2 out3 out4 h
    split_ifs at h
    · simp [bind_eq_error, fillbuyWithChange_ne_undefined, preventCC_ne_undefined] at h
    · simp [bind_eq_error, fillbuyWithoutChange_ne_undefined, preventCC_ne_undefined] at h
  unfold validateFillbuy
  simp only [bind_eq_error, assetValidateBuyvin_undefined_iff, require_ne_undefined,
    require_eq_ok, defined_eq_undefined, defined_eq_ok, false_or, exists_const, decide_eq_true_eq,
    getElem?_eq_none_iff, hend, and_false, exists_false, or_false]
  refine or_congr_right ⟨?_, ?_⟩
  · rintro ⟨⟨vin, bid⟩, hbid, hvouts, horig, hreads⟩
    rcases hreads with hshort | ⟨out0, hout0, hshort | ⟨out1, hout1, hshort | ⟨out2, hout2,
      hshort | ⟨out3, hout3, hlocked, hfour⟩⟩⟩⟩
    · omega
    · omega
    · omega
    · omega
    · exact ⟨vin, bid, out0, out1, hbid, by omega, horig, hout0, hout1, hlocked⟩
  · rintro ⟨vin, bid, out0, out1, hbid, hfour, horig, hout0, hout1, hlocked⟩
    obtain ⟨-, -, out2, out3, -, -, hout2, hout3⟩ := outputs_of_four hfour.ge
    exact ⟨(vin, bid), hbid, hfour.ge, horig, .inr ⟨out0, hout0, .inr ⟨out1, hout1, .inr ⟨out2, hout2,
      .inr ⟨out3, hout3, hlocked, hfour.le⟩⟩⟩⟩⟩

theorem validateFillsell_undefined_iff :
    env.validateFillsell additionalTokensEvalcode2 tx d = .error .undefined
      ↔ env.SpendsNothing tx ∨ env.FillsAll additionalTokensEvalcode2 tx d := by
  unfold validateFillsell
  simp only [bind_eq_error, assetValidateSellvin_undefined_iff, require_ne_undefined,
    require_eq_ok, defined_eq_undefined, defined_eq_ok, false_or, exists_const, decide_eq_true_eq,
    getElem?_eq_none_iff, and_false, or_false, validateAskRemainder_eq_none]
  refine or_congr_right ⟨?_, ?_⟩
  · rintro ⟨⟨vin, ask⟩, hask, hvouts, horig, hreads⟩
    rcases hreads with hshort | ⟨out0, hout0, hshort | ⟨out1, hout1, hshort | ⟨out2, hout2,
      hshort | ⟨out3, hout3, hlocked, hprice, hnone, horigval, hreceived, hpaid, htotal, hsum, -⟩⟩⟩⟩
    · omega
    · omega
    · omega
    · omega
    · rw [hnone, zero_add] at hlocked
      exact ⟨vin, ask, out0, out1, out2, hask, hvouts, horig, hout0, hout1, hout2, hnone, hlocked,
        horigval, hreceived, hpaid, htotal, hprice, hsum⟩
  · rintro ⟨vin, ask, out0, out1, out2, hask, hvouts, horig, hout0, hout1, hout2, hnone, hlocked,
      horigval, hreceived, hpaid, htotal, hprice, hsum⟩
    obtain ⟨-, -, -, out3, -, -, -, hout3⟩ := outputs_of_four hvouts
    have hlocked' : vin.out0.nValue = toInt64 (out0.nValue + out1.nValue) := by
      rw [hnone, zero_add, hlocked]
    exact ⟨(vin, ask), hask, hvouts, horig, .inr ⟨out0, hout0, .inr ⟨out1, hout1, .inr ⟨out2, hout2,
      .inr ⟨out3, hout3, hlocked', hprice, hnone, horigval, hreceived, hpaid, htotal, hsum,
        hlocked'⟩⟩⟩⟩⟩

/-! ### The validator -/

/-- A branch that has no meaning is a cancel or a fill. -/
theorem validateAssetFuncid_undefined_iff (hvouts : 2 ≤ tx.vout.length) {inputs : ℤ} :
    env.validateAssetFuncid additionalTokensEvalcode2 tx d inputs = .error .undefined
      ↔ d.funcid ∈ "oBxS".toList.map fid ∧ env.SpendsNothing tx
        ∨ d.funcid = fid 'B' ∧ env.FillsShort additionalTokensEvalcode2 tx d
        ∨ d.funcid = fid 'S' ∧ env.FillsAll additionalTokensEvalcode2 tx d := by
  have hmem : d.funcid ∈ "oBxS".toList.map fid
      ↔ d.funcid = fid 'o' ∨ d.funcid = fid 'B' ∨ d.funcid = fid 'x' ∨ d.funcid = fid 'S' := by
    simp
  rw [hmem]
  unfold validateAssetFuncid
  by_cases ho : d.funcid = fid 'o'
  · rw [if_neg (by rw [ho]; decide), if_neg (by rw [ho]; decide), if_neg (by rw [ho]; decide),
      if_pos ho, validateCancelbuy_undefined_iff hvouts]
    simp [ho, show fid 'o' ≠ fid 'B' by decide, show fid 'o' ≠ fid 'S' by decide]
  by_cases hB : d.funcid = fid 'B'
  · rw [if_neg (by rw [hB]; decide), if_neg (by rw [hB]; decide), if_neg (by rw [hB]; decide),
      if_neg ho, if_pos hB, validateFillbuy_undefined_iff]
    simp [hB, show fid 'B' ≠ fid 'S' by decide]
  by_cases hx : d.funcid = fid 'x'
  · rw [if_neg (by rw [hx]; decide), if_neg (by rw [hx]; decide), if_neg (by rw [hx]; decide),
      if_neg ho, if_neg hB, if_neg (by rw [hx]; decide), if_pos hx,
      validateCancelsell_undefined_iff hvouts]
    simp [hx, show fid 'x' ≠ fid 'B' by decide, show fid 'x' ≠ fid 'S' by decide]
  by_cases hS : d.funcid = fid 'S'
  · rw [if_neg (by rw [hS]; decide), if_neg (by rw [hS]; decide), if_neg (by rw [hS]; decide),
      if_neg ho, if_neg hB, if_neg (by rw [hS]; decide), if_neg hx, if_pos hS,
      validateFillsell_undefined_iff]
    simp [hS, show fid 'S' ≠ fid 'B' by decide]
  rw [if_neg ho, if_neg hB, if_neg hx, if_neg hS]
  simp only [ho, hB, hx, hS, or_self, false_and, iff_false]
  split_ifs <;> nofun

variable {symbol : String}

theorem Admitted.assetsValidate_eq (h : env.Admitted tx symbol d) :
    ∃ inputs, env.assetsValidate additionalTokensEvalcode2 symbol tx =
      env.validateAssetFuncid (env.assetsEvalcode2 additionalTokensEvalcode2 d.assetid) tx d
        inputs := by
  obtain ⟨inputs, hinputs⟩ : ∃ inputs, env.assetCalcAmounts d.assetid tx.vin = .ok inputs :=
    assetCalcAmounts_ok.2 h.found
  obtain ⟨vin0, hvin0, hnormal⟩ := h.vin0
  have hvouts : tx.vout ≠ [] := ne_nil_of_length_pos (by have := h.vouts; omega)
  refine ⟨inputs, ?_⟩
  unfold assetsValidate validateAsset
  rw [if_neg (by simp [h.exempt])]
  simp [require, expect, defined, bind, Except.bind, hvouts, h.decode, h.known, h.known2, hvin0,
    hnormal, h.vouts, h.assetid, hinputs]

/-- A transaction with inputs for which the validator has no meaning has passed these checks. -/
theorem admitted_of_undefined (hvin : tx.vin ≠ [])
    (h : env.assetsValidate additionalTokensEvalcode2 symbol tx = .error .undefined) :
    ∃ d, env.Admitted tx symbol d := by
  unfold assetsValidate validateAsset at h
  split_ifs at h with hexempt
  · cases h
  · simp only [bind_eq_error, require_ne_undefined, expect_ne_undefined, false_or,
      require_eq_ok, expect_eq_ok, defined_eq_undefined, defined_eq_ok, exists_const,
      decide_eq_true_eq, getElem?_eq_none_iff] at h
    obtain ⟨-, d, hdecode, hknown, hknown2, hshort | ⟨vin0, hvin0, hnormal, hvouts, hassetid,
      hbad | ⟨inputs, hinputs, -⟩⟩⟩ := h
    · exact absurd (length_eq_zero_iff.1 (Nat.le_zero.1 hshort)) hvin
    · exact absurd hbad (assetCalcAmounts_ne_undefined tx.vin)
    · exact ⟨d, {
        exempt := Bool.eq_false_of_not_eq_true hexempt
        decode := hdecode
        known := hknown
        known2 := hknown2
        vin0 := ⟨vin0, hvin0, by simpa using hnormal⟩
        vouts := hvouts
        assetid := hassetid
        found := assetCalcAmounts_ok.1 ⟨inputs, hinputs⟩ }⟩

theorem Admitted.vin_ne_nil (h : env.Admitted tx symbol d) : tx.vin ≠ [] := by
  obtain ⟨vin0, hvin0, -⟩ := h.vin0
  rintro hnil
  rw [hnil] at hvin0
  cases hvin0

/-- **The validator has no meaning on what it admits exactly in the three cases.** -/
theorem Admitted.undefined_iff (h : env.Admitted tx symbol d) :
    env.assetsValidate additionalTokensEvalcode2 symbol tx = .error .undefined
      ↔ d.funcid ∈ "oBxS".toList.map fid ∧ env.SpendsNothing tx
        ∨ d.funcid = fid 'B'
          ∧ env.FillsShort (env.assetsEvalcode2 additionalTokensEvalcode2 d.assetid) tx d
        ∨ d.funcid = fid 'S'
          ∧ env.FillsAll (env.assetsEvalcode2 additionalTokensEvalcode2 d.assetid) tx d := by
  obtain ⟨inputs, heq⟩ : ∃ inputs, env.assetsValidate additionalTokensEvalcode2 symbol tx =
      env.validateAssetFuncid _ tx d inputs := h.assetsValidate_eq
  rw [heq, validateAssetFuncid_undefined_iff h.vouts]

end

/-- **The reads and the divisions of the validator are right if and only if the spent transaction
has outputs, a fill of a bid has more than four, and one of an ask does not take all tokens while
coins are asked for.** -/
theorem reads_inside_iff (env : ContractEnv) (additionalTokensEvalcode2 : UInt8)
    (tx : CTransaction) (symbol : String) :
    env.ReadsInside additionalTokensEvalcode2 tx symbol
      ↔ env.Harmless additionalTokensEvalcode2 tx symbol := by
  constructor
  · intro h
    refine ⟨fun d hd hfuncid hspends => ?_, fun d hd hfuncid hshort => ?_,
      fun d hd hfuncid hall => ?_⟩
    · exact hd.vin_ne_nil (h.outputs (hd.undefined_iff.2 (.inl ⟨hfuncid, hspends⟩)))
    · exact hd.vin_ne_nil (h.outputs (hd.undefined_iff.2 (.inr (.inl ⟨hfuncid, hshort⟩))))
    · exact hd.vin_ne_nil (h.outputs (hd.undefined_iff.2 (.inr (.inr ⟨hfuncid, hall⟩))))
  · intro h
    refine ⟨fun hundefined => ?_, fun _ _ _ _ _ _ => ?_, fun _ _ _ _ _ _ =>
      swapRemainder_ne_none _ _ _ _ _ _⟩
    · by_contra hvin
      obtain ⟨d, hd⟩ := admitted_of_undefined hvin hundefined
      rcases hd.undefined_iff.1 hundefined with ⟨hfuncid, hspends⟩ | ⟨hfuncid, hshort⟩ |
        ⟨hfuncid, hall⟩
      · exact h.spends d hd hfuncid hspends
      · exact h.bids d hd hfuncid hshort
      · exact h.asks d hd hfuncid hall
    · rw [bidRemainder_eq]
      nofun

end ContractEnv

namespace AssetsSample

/-- A fill of the bid without a change output. -/
def shortFill : CTransaction where
  hash := 8
  vin := [⟨⟨91, 0⟩, [], 0⟩, ⟨⟨3, 0⟩, scriptSig1 EVAL_ASSETS assetsUnspendablePk, 0⟩,
    ⟨⟨2, 0⟩, scriptSig1 EVAL_TOKENS seller, 0⟩]
  vout := [⟨600, scriptOf assetsCondition⟩, ⟨400, payToPubkey seller⟩,
    ⟨4, scriptOf bidderTokensCondition⟩, ⟨0, opret 'B' 6 bidder⟩]

end AssetsSample

open AssetsSample in
/-- **Output 4 of a fill with four outputs is read.** -/
theorem fill_read_outside : ¬ ∀ (env : ContractEnv) (additionalTokensEvalcode2 : UInt8)
    (tx : CTransaction) (symbol : String), env.ReadsInside additionalTokensEvalcode2 tx symbol := by
  intro hall
  have hundefined : env.assetsValidate 0 "TOKEN" shortFill = .error .undefined := by decide +kernel
  exact absurd ((hall env.toContractEnv 0 shortFill "TOKEN").outputs hundefined) (by decide)

end Komodo
