/-
# What an ask is paid

`case 'S'` of `AssetsValidate` (`src/src/cc/assets.cpp`). `ValidateAskRemainder` compares
unit prices as truncated quotients, and its comment expects the remainder to be "close
enough in effective unit cost to not matter". So a fill pays at least the truncated unit
price of the ask for each token, and not always the price itself: of ten tokens for 19
satoshis nine may be taken for nine (`fillsell_below_price`).

Each fill takes what it pays off the price that the next one finds. A chain of fills that
leaves no tokens has therefore paid all that was asked for (`fillsell_paid`): with the
last tokens gone the code divides by zero unless the price is gone too.
-/

import Komodo.CC.AssetsBids

namespace Komodo

/-- What `ValidateAskRemainder` makes sure of. -/
theorem validateAskRemainder_eq_true {remaining_nValue remaining_assetoshis orig_assetoshis
    received_assetoshis paid_nValue total_nValue : ℤ}
    (h : validateAskRemainder remaining_nValue remaining_assetoshis orig_assetoshis
      received_assetoshis paid_nValue total_nValue = some true) :
    received_assetoshis ≠ 0 ∧ total_nValue = toInt64 (remaining_nValue + paid_nValue)
      ∧ total_nValue.tdiv orig_assetoshis ≤ paid_nValue.tdiv received_assetoshis
      ∧ (remaining_assetoshis = 0 → remaining_nValue = 0) := by
  unfold validateAskRemainder at h
  split_ifs at h with hzero htotal horig hdivide
  · cases h
  · cases h
  · cases h
  · rw [not_or, not_or, not_or] at hzero
    refine ⟨hzero.2.1, not_not.1 htotal, by simpa using h, fun hnone => ?_⟩
    by_contra hleft
    exact hdivide ⟨hleft, hnone⟩

/-! ### An accepted fill -/

/-- What the code has checked of a fill of an ask. -/
structure OfferFill.Sold {env : ContractEnv} {tx : CTransaction} (f : OfferFill env tx 'S') :
    Prop where
  remainder : validateAskRemainder f.opret.price f.out0.nValue f.locked.nValue f.out1.nValue
    f.out2.nValue f.offer.price = some true
  /-- The coins go to the normal address of who made the ask. -/
  paysTo : isPayToCryptoCondition f.out2.scriptPubKey = false ∧
    env.getscriptaddress f.out2.scriptPubKey
      = env.getscriptaddress (payToPubkey f.offer.origpubkey)
  origpubkey : f.offer.origpubkey = f.opret.origpubkey

/-- The offer that `IsAssetvout` finds is the one in the opreturn. -/
theorem ContractEnv.isAssetvout_decode {tx : CTransaction} {v : ℕ} {refassetid : Uint256}
    {amount : ℤ} {d : AssetOpRet} (h : isAssetvout tx v refassetid = some (amount, d)) :
    decodeAssetTokenOpRet (opretOf tx) = some d := by
  unfold isAssetvout at h
  split at h
  · cases h
  · split_ifs at h
    simp only [validateAssetOpret, Option.map_eq_some_iff, Option.bind_eq_bind,
      Option.bind_eq_some_iff, Prod.mk.injEq] at h
    obtain ⟨d', ⟨d'', hdecode, hd⟩, -, rfl⟩ := h
    split_ifs at hd
    all_goals exact hdecode.trans hd

/-- An accepted fill has all the parts, and the code has checked them. -/
theorem OfferFill.exists_sold {env : ContractEnv} {tx : CTransaction} {symbol : String}
    {additionalTokensEvalcode2 : UInt8} {d : AssetOpRet}
    (h : env.assetsValidate additionalTokensEvalcode2 symbol tx = .ok ())
    (hexempt : env.assetsExempt symbol = false)
    (hd : decodeAssetTokenOpRet (opretOf tx) = some d) (hkind : d.funcid = fid 'S') :
    ∃ f : OfferFill env tx 'S', f.Sold := by
  obtain ⟨inputs, -, hswitch⟩ := ContractEnv.assetsValidate_eq_ok h hexempt hd
  have hfill : env.validateFillsell (env.assetsEvalcode2 additionalTokensEvalcode2 d.assetid) tx d
      = .ok () := by
    simpa [ContractEnv.validateAssetFuncid, hkind, fid] using hswitch
  simp only [ContractEnv.validateFillsell, Checked.bind_eq_ok, require_eq_ok, defined_eq_ok,
    decide_eq_true_eq, exists_const] at hfill
  obtain ⟨⟨vin, ask⟩, hsell, -, horig, out0, hout0, out1, hout1, out2, hout2, out3, hout3, -,
    remainder, hremainder, rfl, -, hpaid, -, -⟩ := hfill
  simp only [ContractEnv.assetValidateSellvin, Checked.bind_eq_ok, expect_eq_ok,
    Checked.pure_eq_ok, Prod.mk.injEq, Option.filter_eq_some_iff] at hsell
  obtain ⟨vin, hvin, ⟨amount, ask⟩, ⟨hask, -⟩, rfl, rfl⟩ := hsell
  obtain ⟨vin1, hvin1, -, hlookup, hlocked, -, haddrs⟩ := ContractEnv.assetValidateCCvin_eq_ok hvin
  have hoffer := ContractEnv.isAssetvout_decode hask
  have hnormal := (ContractEnv.getAssetorigaddrs_eq_some hoffer haddrs).2
  obtain ⟨hcc, hto, -⟩ := ContractEnv.constrainVout_some hpaid
  exact ⟨⟨d, vin1, vin.vinTx, ask, vin.out0, out0, out1, out2, out3, hd, hkind, hvin1, hlookup,
    hoffer, hlocked, hout0, hout1, hout2, hout3⟩, hremainder, ⟨hcc, hto.trans hnormal.symm⟩, horig⟩

/-- A fill of an ask that was accepted, at whatever moment and whatever earlier calls left
in the record of the contract. That its outputs hold amounts of money was checked before,
by `CheckTransaction`. -/
structure AcceptedAskFill where
  env : ChainEnv
  symbol : String
  additionalTokensEvalcode2 : UInt8
  tx : CTransaction
  fill : OfferFill env.toContractEnv tx 'S'
  values : ∀ out ∈ tx.vout, 0 ≤ out.nValue ∧ out.nValue ≤ env.maxMoney
  not_exempt : env.assetsExempt symbol = false
  accepted : env.assetsValidate additionalTokensEvalcode2 symbol tx = .ok ()

namespace AcceptedAskFill

section one
variable (a : AcceptedAskFill)

/-- The tokens that are locked in the ask. -/
def origAssetoshis : ℤ := a.fill.locked.nValue

/-- The coins that the ask wants for them. -/
def totalNValue : ℤ := a.fill.offer.price

/-- The tokens taken. -/
def received : ℤ := a.fill.out1.nValue

/-- The coins paid. -/
def paid : ℤ := a.fill.out2.nValue

/-- The tokens left. -/
def remainingAssetoshis : ℤ := a.fill.out0.nValue

/-- The coins go to the address of a key. -/
def PaysTo (origpubkey : Bytes) : Prop :=
  isPayToCryptoCondition a.fill.out2.scriptPubKey = false ∧
    a.env.getscriptaddress a.fill.out2.scriptPubKey
      = a.env.getscriptaddress (payToPubkey origpubkey)

theorem sold : a.fill.Sold := by
  obtain ⟨f, hf⟩ := OfferFill.exists_sold a.accepted a.not_exempt a.fill.decode_opret a.fill.kind
  rwa [Subsingleton.elim a.fill f]

theorem paid_nonneg : 0 ≤ a.paid := (a.fill.inRange a.values).2.2.1

/-- What is left of the price is what was not paid, modulo `2 ^ 64`. -/
theorem totalNValue_modEq : (2 : ℤ) ^ 64 ∣ a.paid + a.fill.opret.price - a.totalNValue := by
  have htotal := (validateAskRemainder_eq_true a.sold.remainder).2.1
  have hdvd : ((2 ^ 64 : ℕ) : ℤ) ∣ (a.fill.opret.price + a.paid)
    - toInt64 (a.fill.opret.price + a.paid) := Int.dvd_self_sub_bmod
  rw [show toInt64 (a.fill.opret.price + a.paid) = a.totalNValue from htotal.symm] at hdvd
  rw [add_comm a.paid]
  exact_mod_cast hdvd

theorem unitprice_mul_received_le : a.totalNValue.tdiv a.origAssetoshis * a.received ≤ a.paid := by
  obtain ⟨hreceived, -, hunit, -⟩ := validateAskRemainder_eq_true a.sold.remainder
  obtain ⟨-, h1, -⟩ := a.fill.inRange a.values
  have hpos : 0 < a.received := lt_of_le_of_ne h1.1 hreceived.symm
  calc a.totalNValue.tdiv a.origAssetoshis * a.received
      ≤ a.paid.tdiv a.received * a.received := mul_le_mul_of_nonneg_right hunit hpos.le
    _ = a.paid / a.received * a.received := by rw [Int.tdiv_eq_ediv_of_nonneg a.paid_nonneg]
    _ ≤ a.paid := Int.ediv_mul_le _ hpos.ne'

end one

/-! ### Chains of fills -/

/-- A fill that spends what the fill before it left. -/
def Follows (a b : AcceptedAskFill) : Prop := b.fill.offerTx = a.tx

theorem Follows.offer_eq {a b : AcceptedAskFill} (h : Follows a b) :
    b.fill.offer = a.fill.opret := by
  have hdecode := b.fill.decode_offer
  rw [h, a.fill.decode_opret] at hdecode
  exact (Option.some.inj hdecode).symm

/-- What a chain of fills has paid. -/
def totalPaid (fills : List AcceptedAskFill) : ℤ := (fills.map paid).sum

theorem totalPaid_nonneg (fills : List AcceptedAskFill) : 0 ≤ totalPaid fills := by
  refine List.sum_nonneg fun x hx => ?_
  obtain ⟨a, -, rfl⟩ := List.mem_map.1 hx
  exact a.paid_nonneg

/-- What a chain has paid and what its last fill still wants make up the price of the ask,
modulo `2 ^ 64`. -/
theorem totalPaid_modEq {first last : AcceptedAskFill} {fills : List AcceptedAskFill}
    (hchain : fills.IsChain Follows) (hfirst : fills.head? = some first)
    (hlast : fills.getLast? = some last) :
    (2 : ℤ) ^ 64 ∣ totalPaid fills + last.fill.opret.price - first.totalNValue := by
  induction fills generalizing first with
  | nil => cases hfirst
  | cons a rest ih =>
    cases hfirst
    cases rest with
    | nil =>
      cases hlast
      simpa [totalPaid] using a.totalNValue_modEq
    | cons b rest =>
      rw [List.isChain_cons_cons] at hchain
      rw [List.getLast?_cons_cons] at hlast
      have hrest := ih hchain.2 rfl hlast
      have hprice : b.totalNValue = a.fill.opret.price :=
        congrArg AssetOpRet.price hchain.1.offer_eq
      rw [hprice] at hrest
      have hpaid : totalPaid (a :: b :: rest) = a.paid + totalPaid (b :: rest) := by
        simp [totalPaid]
      have hsplit : totalPaid (a :: b :: rest) + last.fill.opret.price - a.totalNValue
          = (a.paid + a.fill.opret.price - a.totalNValue)
            + (totalPaid (b :: rest) + last.fill.opret.price - a.fill.opret.price) := by
        rw [hpaid]
        ring
      rw [hsplit]
      exact dvd_add a.totalNValue_modEq hrest

/-- All fills of a chain pay the same key. -/
theorem origpubkey_eq {first : AcceptedAskFill} {fills : List AcceptedAskFill}
    (hchain : fills.IsChain Follows) (hfirst : fills.head? = some first) :
    ∀ a ∈ fills, a.fill.offer.origpubkey = first.fill.offer.origpubkey := by
  induction fills generalizing first with
  | nil => cases hfirst
  | cons a rest ih =>
    cases hfirst
    intro x hx
    rcases List.mem_cons.1 hx with rfl | hx
    · rfl
    cases rest with
    | nil => cases hx
    | cons b rest =>
      rw [List.isChain_cons_cons] at hchain
      rw [ih hchain.2 rfl x hx, hchain.1.offer_eq, a.sold.origpubkey]

end AcceptedAskFill

open AcceptedAskFill in
/-- **What an ask is paid.** In a chain of accepted fills of an ask, each of which spends
what the one before it left, every fill pays the one who made the ask, and at least the
truncated unit price for each token it takes. If no tokens are left after the last one, the
whole price has been paid, and not more unless the payments add up to `2 ^ 64`. -/
theorem fillsell_paid {first : AcceptedAskFill} {fills : List AcceptedAskFill}
    (hchain : fills.IsChain Follows) (hfirst : fills.head? = some first) :
    (∀ a ∈ fills, a.PaysTo first.fill.offer.origpubkey
        ∧ a.totalNValue.tdiv a.origAssetoshis * a.received ≤ a.paid)
      ∧ ∀ last, fills.getLast? = some last → last.remainingAssetoshis = 0 →
        first.totalNValue ≤ totalPaid fills
          ∧ (0 ≤ first.totalNValue → totalPaid fills < 2 ^ 64 →
            totalPaid fills = first.totalNValue) := by
  refine ⟨fun a ha => ⟨?_, a.unitprice_mul_received_le⟩, fun last hlast hnone => ?_⟩
  · rw [← origpubkey_eq hchain hfirst a ha]
    exact a.sold.paysTo
  · have hprice : last.fill.opret.price = 0 :=
      (validateAskRemainder_eq_true last.sold.remainder).2.2.2 hnone
    obtain ⟨j, hj⟩ := totalPaid_modEq hchain hfirst hlast
    have hrange : first.totalNValue < 2 ^ 63 :=
      (decodeAssetTokenOpRet_price first.fill.decode_offer).2
    have hpaid := totalPaid_nonneg fills
    rw [hprice] at hj
    constructor <;> omega

/-! ### Ten tokens for 19 satoshis -/

namespace AssetsSample

/-- An ask of 19 satoshis for ten tokens. -/
def askTx : CTransaction where
  hash := 4
  vin := [⟨⟨92, 0⟩, [], 0⟩, ⟨⟨2, 0⟩, scriptSig1 EVAL_TOKENS seller, 0⟩,
    ⟨⟨2, 1⟩, scriptSig1 EVAL_TOKENS seller, 0⟩]
  vout := [⟨10, scriptOf dualCondition⟩, ⟨10000, scriptOf sellerMarkerCondition⟩,
    ⟨0, opret 's' 19 seller⟩]

/-- A fill that spends the tokens of an ask or of the fill before it. -/
def askFill (hash offer : Uint256) (tokensLeft tokens coins coinsLeft : ℕ) : CTransaction where
  hash := hash
  vin := [⟨⟨93, 0⟩, [], 0⟩, ⟨⟨offer, 0⟩, pushData (dualFulfillment ++ [1]), 0⟩]
  vout := [⟨tokensLeft, scriptOf dualCondition⟩, ⟨tokens, scriptOf bidderTokensCondition⟩,
    ⟨coins, payToPubkey seller⟩, ⟨10000, scriptOf sellerMarkerCondition⟩,
    ⟨0, opret 'S' coinsLeft seller⟩]

/-- Nine tokens for nine satoshis. -/
def ninth : CTransaction := askFill 6 4 1 9 9 10

/-- The last token for the other ten. -/
def tenth : CTransaction := askFill 7 6 0 1 10 0

/-- The first fill, accepted. -/
def firstFill : AcceptedAskFill where
  env := envOf [funding, creation, askTx] (by decide)
  symbol := "TOKEN"
  additionalTokensEvalcode2 := 0
  tx := ninth
  fill := {
    opret := ⟨fid 'S', 2, 0, 10, seller⟩
    vin1 := ⟨⟨4, 0⟩, pushData (dualFulfillment ++ [1]), 0⟩
    offerTx := askTx
    offer := ⟨fid 's', 2, 0, 19, seller⟩
    locked := ⟨10, scriptOf dualCondition⟩
    out0 := ⟨1, scriptOf dualCondition⟩
    out1 := ⟨9, scriptOf bidderTokensCondition⟩
    out2 := ⟨9, payToPubkey seller⟩
    out3 := ⟨10000, scriptOf sellerMarkerCondition⟩
    decode_opret := by decide +kernel
    kind := rfl
    vin_one := rfl
    lookup_offer := rfl
    decode_offer := by decide +kernel
    vout_locked := rfl
    vout_zero := rfl
    vout_one := rfl
    vout_two := rfl
    vout_three := rfl }
  values := by decide
  not_exempt := by decide
  accepted := by decide +kernel

/-- The second one, which leaves no tokens. -/
def secondFill : AcceptedAskFill where
  env := envOf [funding, creation, askTx, ninth] (by decide)
  symbol := "TOKEN"
  additionalTokensEvalcode2 := 0
  tx := tenth
  fill := {
    opret := ⟨fid 'S', 2, 0, 0, seller⟩
    vin1 := ⟨⟨6, 0⟩, pushData (dualFulfillment ++ [1]), 0⟩
    offerTx := ninth
    offer := ⟨fid 'S', 2, 0, 10, seller⟩
    locked := ⟨1, scriptOf dualCondition⟩
    out0 := ⟨0, scriptOf dualCondition⟩
    out1 := ⟨1, scriptOf bidderTokensCondition⟩
    out2 := ⟨10, payToPubkey seller⟩
    out3 := ⟨10000, scriptOf sellerMarkerCondition⟩
    decode_opret := by decide +kernel
    kind := rfl
    vin_one := rfl
    lookup_offer := rfl
    decode_offer := by decide +kernel
    vout_locked := rfl
    vout_zero := rfl
    vout_one := rfl
    vout_two := rfl
    vout_three := rfl }
  values := by decide
  not_exempt := by decide
  accepted := by decide +kernel

end AssetsSample

open AssetsSample AcceptedAskFill in
/-- The hypotheses of `fillsell_paid` are satisfiable: two fills that use up an ask. -/
theorem fillsell_paid_in_two : totalPaid [firstFill, secondFill] = 19 := by
  have hchain : [firstFill, secondFill].IsChain Follows :=
    List.isChain_cons_cons.2 ⟨rfl, List.isChain_singleton _⟩
  exact ((fillsell_paid hchain rfl).2 secondFill rfl rfl).2 (by decide) (by decide)

open AssetsSample in
/-- The first of the two fills pays less than the price of its tokens, nine satoshis where
17 would do. -/
theorem fillsell_below_price :
    firstFill.env.assetsValidate 0 "TOKEN" firstFill.tx = .ok ()
      ∧ firstFill.fill.opret.funcid = fid 'S'
      ∧ ¬ firstFill.paid * firstFill.origAssetoshis
        ≥ firstFill.received * firstFill.totalNValue :=
  ⟨firstFill.accepted, rfl, by decide⟩

end Komodo
