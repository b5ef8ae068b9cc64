/-
# What fills a bid

`case 'B'` of `AssetsValidate` (`src/src/cc/assets.cpp`). A fill should hand the
recognised tokens to the bidder, take no more coins than these tokens are worth at the
price of the bid, and keep the rest of the coins for the rest of the tokens
(`BidFill.Guarantees`). The code does so on some fills only, and `fillbuy_guarantees_iff`
says on which:

* `ConstrainVout` takes an expected amount of zero for "any amount", so that a fill without
  token inputs may declare any number of tokens;
* `ValidateBidRemainder` asks for at least the truncated unit price where the bidder needs
  at most the price, so that nothing bounds the coins from above;
* with a change output at `vout.4` the chain of `else if` ends, and neither the price nor
  what is left is looked at.
-/

import Komodo.CC.Assets
import Komodo.CC.TokenAmounts
import Komodo.CC.TokenEncode

namespace Komodo

open Streams List

/-! ### The opreturn -/

/-- The price in an opreturn is a 64-bit integer. -/
theorem decodeAssetTokenOpRet_price {s : CScript} {d : AssetOpRet}
    (h : decodeAssetTokenOpRet s = some d) : -2 ^ 63 ≤ d.price ∧ d.price < 2 ^ 63 := by
  simp only [decodeAssetTokenOpRet, Option.bind_eq_some_iff] at h
  obtain ⟨t, -, h⟩ := h
  unfold decodeAssetBlob at h
  split at h
  · split_ifs at h
    · cases h
      exact ⟨by norm_num, by norm_num⟩
    · simp only [Unserialize.unmarshal_eq_some, readAssetOrder, bind_apply,
        Option.bind_eq_some_iff] at h
      obtain ⟨_, -, _, -, ⟨price, _⟩, hprice, _, -, hd⟩ := h
      simp only [pure_apply, Option.some.injEq, Prod.mk.injEq] at hd
      obtain ⟨rfl, -⟩ := hd
      exact Unserialize.int_range (by decide) hprice
    · simp only [Unserialize.unmarshal_eq_some, readAssetExchange, bind_apply,
        Option.bind_eq_some_iff] at h
      obtain ⟨_, -, _, -, _, -, ⟨price, _⟩, hprice, _, -, hd⟩ := h
      simp only [pure_apply, Option.some.injEq, Prod.mk.injEq] at hd
      obtain ⟨rfl, -⟩ := hd
      exact Unserialize.int_range (by decide) hprice
  · cases h

theorem add_eq_of_toInt64 {a b m : ℤ} (h : m = toInt64 (a + b)) (hm : 0 ≤ m) (ha : 0 ≤ a)
    (ha' : a < 2 ^ 63) (hb : 0 ≤ b) (hb' : b < 2 ^ 63) : a + b = m := by
  obtain ⟨j, hj⟩ : ((2 ^ 64 : ℕ) : ℤ) ∣ (a + b) - toInt64 (a + b) := Int.dvd_self_sub_bmod
  have hbounds := (toInt64_bounds (a + b)).2
  rw [← h] at hj hbounds
  push_cast at hj
  omega

/-- What `ValidateBidRemainder` makes sure of. -/
theorem validateBidRemainder_eq_true {remaining_units remaining_nValue orig_nValue received_nValue
    paidunits totalunits : ℤ} (h : validateBidRemainder remaining_units remaining_nValue orig_nValue
      received_nValue paidunits totalunits = true) :
    paidunits ≠ 0 ∧ totalunits = toInt64 (remaining_units + paidunits)
      ∧ orig_nValue.tdiv totalunits ≤ received_nValue.tdiv paidunits := by
  unfold validateBidRemainder at h
  split_ifs at h with hzero hunits hvalue
  rw [not_or, not_or, not_or] at hzero
  exact ⟨hzero.2.2.1, not_not.1 hunits, by simpa using h⟩

/-! ### Token inputs -/

namespace ContractEnv

variable {env : ContractEnv}

/-- The tokens that the token inputs of a transaction bring. -/
def recognisedInputs (env : ContractEnv) (assetid : Uint256) (vin : List CTxIn) : ℤ :=
  ((tokenVins env.toCCEnv vin).map fun i =>
    tokenAmountAt env.toCCEnv false env.lookup assetid i.prevout).sum

theorem assetCalcAmounts_eq_ok {assetid : Uint256} {vin : List CTxIn} {inputs : ℤ}
    (h : env.assetCalcAmounts assetid vin = .ok inputs) :
    inputs = env.recognisedInputs assetid vin := by
  induction vin generalizing inputs with
  | nil => exact (Checked.pure_eq_ok.1 h).symm
  | cons i vin ih =>
    unfold assetCalcAmounts at h
    split_ifs at h with hi
    · simp only [Checked.bind_eq_ok, expect_eq_ok, Checked.pure_eq_ok] at h
      obtain ⟨vinTx, hvinTx, rest, hrest, rfl⟩ := h
      rw [ih hrest, recognisedInputs, recognisedInputs, tokenVins_cons_pos hi, map_cons,
        sum_cons, tokenAmountAt, hvinTx]
      simp only [isTokensvout_flat]
    · rw [ih h, recognisedInputs, recognisedInputs, tokenVins_cons_neg hi]

end ContractEnv

theorem ChainEnv.recognisedInputs_nonneg (env : ChainEnv) (assetid : Uint256) (vin : List CTxIn) :
    0 ≤ env.recognisedInputs assetid vin := by
  refine sum_nonneg fun a ha => ?_
  obtain ⟨i, -, rfl⟩ := mem_map.1 ha
  unfold tokenAmountAt
  cases hl : env.lookup i.prevout.hash with
  | none => exact le_rfl
  | some tx =>
    simp only [isTokensvout_flat]
    exact isTokensvoutFlat_nonneg (fun out hout => (env.nValue_of_lookup hl out hout).1) _

/-! ### An accepted fill -/

/-- A fill of an offer: its opreturn, the offer that `vin.1` spends and the outputs that
`AssetsValidate` reads. -/
structure OfferFill (env : ContractEnv) (tx : CTransaction) (funcid : Char) where
  opret : AssetOpRet
  vin1 : CTxIn
  offerTx : CTransaction
  offer : AssetOpRet
  locked : CTxOut
  out0 : CTxOut
  out1 : CTxOut
  out2 : CTxOut
  out3 : CTxOut
  decode_opret : decodeAssetTokenOpRet (opretOf tx) = some opret
  kind : opret.funcid = fid funcid
  vin_one : tx.vin[1]? = some vin1
  lookup_offer : env.lookup vin1.prevout.hash = some offerTx
  decode_offer : decodeAssetTokenOpRet (opretOf offerTx) = some offer
  vout_locked : offerTx.vout[0]? = some locked
  vout_zero : tx.vout[0]? = some out0
  vout_one : tx.vout[1]? = some out1
  vout_two : tx.vout[2]? = some out2
  vout_three : tx.vout[3]? = some out3

/-- The parts of a fill are determined by the transaction. -/
instance {env : ContractEnv} {tx : CTransaction} {funcid : Char} :
    Subsingleton (OfferFill env tx funcid) := by
  constructor
  intro f g
  have hopret : f.opret = g.opret := Option.some.inj (f.decode_opret.symm.trans g.decode_opret)
  have hvin1 : f.vin1 = g.vin1 := Option.some.inj (f.vin_one.symm.trans g.vin_one)
  have hofferTx : f.offerTx = g.offerTx :=
    Option.some.inj (f.lookup_offer.symm.trans (hvin1 ▸ g.lookup_offer))
  have hoffer : f.offer = g.offer :=
    Option.some.inj (f.decode_offer.symm.trans (hofferTx ▸ g.decode_offer))
  have hlocked : f.locked = g.locked :=
    Option.some.inj (f.vout_locked.symm.trans (hofferTx ▸ g.vout_locked))
  have h0 : f.out0 = g.out0 := Option.some.inj (f.vout_zero.symm.trans g.vout_zero)
  have h1 : f.out1 = g.out1 := Option.some.inj (f.vout_one.symm.trans g.vout_one)
  have h2 : f.out2 = g.out2 := Option.some.inj (f.vout_two.symm.trans g.vout_two)
  have h3 : f.out3 = g.out3 := Option.some.inj (f.vout_three.symm.trans g.vout_three)
  cases f
  cases g
  subst hopret hvin1 hofferTx hoffer hlocked h0 h1 h2 h3
  rfl

theorem OfferFill.inRange {env : ChainEnv} {tx : CTransaction} {funcid : Char}
    (f : OfferFill env.toContractEnv tx funcid)
    (hvalues : ∀ out ∈ tx.vout, 0 ≤ out.nValue ∧ out.nValue ≤ env.maxMoney) :
    (0 ≤ f.out0.nValue ∧ f.out0.nValue < 2 ^ 63) ∧ (0 ≤ f.out1.nValue ∧ f.out1.nValue < 2 ^ 63)
      ∧ (0 ≤ f.out2.nValue ∧ f.out2.nValue < 2 ^ 63) := by
  have hmax := env.maxMoney_lt
  have h0 := hvalues _ (mem_of_getElem? f.vout_zero)
  have h1 := hvalues _ (mem_of_getElem? f.vout_one)
  have h2 := hvalues _ (mem_of_getElem? f.vout_two)
  omega

theorem OfferFill.locked_eq {env : ChainEnv} {tx : CTransaction} {funcid : Char}
    (f : OfferFill env.toContractEnv tx funcid)
    (hvalues : ∀ out ∈ tx.vout, 0 ≤ out.nValue ∧ out.nValue ≤ env.maxMoney)
    (h : f.locked.nValue = toInt64 (f.out0.nValue + f.out1.nValue)) :
    f.out0.nValue + f.out1.nValue = f.locked.nValue := by
  obtain ⟨h0, h1, -⟩ := f.inRange hvalues
  have hlocked := env.nValue_of_lookup f.lookup_offer _ (mem_of_getElem? f.vout_locked)
  exact add_eq_of_toInt64 h hlocked.1 h0.1 h0.2 h1.1 h1.2

/-! ### Fills of bids -/

/-- A fill of a bid; the code also looks at `vout.4`. -/
structure BidFill (env : ContractEnv) (tx : CTransaction) extends OfferFill env tx 'B' where
  out4 : CTxOut
  vout_four : tx.vout[4]? = some out4

namespace BidFill

section
variable {env : ContractEnv} {tx : CTransaction} (f : BidFill env tx)

/-- Whether the code sees a change output of tokens. -/
def hasChange : Bool := isPayToCryptoCondition f.out4.scriptPubKey

/-- The tokens in it. -/
def change : ℤ := if f.hasChange then f.out4.nValue else 0

/-- The tokens that the inputs bring. -/
def inputs : ℤ := env.recognisedInputs f.opret.assetid tx.vin

/-- The rest of the bid stays at the address of the contract, with the tokens that are
still wanted as its price. -/
def KeepsRest : Prop :=
  f.out2.nValue < f.offer.price →
    env.constrainVout f.out0 true (some assetsUnspendableCCaddr) 0 = true
      ∧ f.out0.nValue = f.locked.nValue - f.out1.nValue
      ∧ f.opret.price = f.offer.price - f.out2.nValue

/-- What a fill owes the bidder. -/
structure Guarantees (additionalTokensEvalcode2 : UInt8) : Prop where
  /-- The tokens go to the token address of the bidder. -/
  delivered : isPayToCryptoCondition f.out2.scriptPubKey = true ∧
    env.getscriptaddress f.out2.scriptPubKey = env.origTokensAddress
      (env.assetsEvalcode2 additionalTokensEvalcode2 f.opret.assetid) (pubkey2pk f.offer.origpubkey)
  /-- They are the recognised token inputs, less the change. -/
  tokens : f.out2.nValue + f.change = f.inputs
  /-- The coins taken are at most the price of the tokens delivered. -/
  price : f.out1.nValue * f.offer.price ≤ f.locked.nValue * f.out2.nValue
  rest : f.KeepsRest

/-- The coins taken beyond the truncated unit price, the code's `unitprice`, of the tokens. -/
def excess : ℤ := f.out1.nValue - f.locked.nValue.tdiv f.offer.price * f.out2.nValue

/-- When a fill that the code accepts is one the bidder can live with. -/
structure Sound : Prop where
  /-- Without a change output there are token inputs. -/
  inputs_ne : f.hasChange = false → f.inputs ≠ 0
  /-- The coins beyond the truncated unit price come out of what the division of the bid
  left over, in the proportion of the tokens. -/
  excess_le : f.excess * f.offer.price ≤ f.locked.nValue.tmod f.offer.price * f.out2.nValue
  /-- With a change output the fill leaves the rest where nobody looks for it. -/
  rest : f.hasChange = true → f.KeepsRest

theorem excess_le_iff : f.excess * f.offer.price ≤ f.locked.nValue.tmod f.offer.price * f.out2.nValue ↔
    f.out1.nValue * f.offer.price ≤ f.locked.nValue * f.out2.nValue := by
  have hdiv := Int.mul_tdiv_add_tmod f.locked.nValue f.offer.price
  have hscaled : f.locked.nValue * f.out2.nValue =
      f.locked.nValue.tdiv f.offer.price * f.out2.nValue * f.offer.price
        + f.locked.nValue.tmod f.offer.price * f.out2.nValue := by
    conv_lhs => rw [← hdiv]
    ring
  unfold excess
  rw [hscaled, sub_mul]
  constructor <;> intro h <;> linarith

end

section accepted
variable {env : ContractEnv} {tx : CTransaction} {additionalTokensEvalcode2 : UInt8}

/-- What the code has checked of a fill it accepts. -/
structure Passed (f : BidFill env tx) (additionalTokensEvalcode2 : UInt8) : Prop where
  delivered : isPayToCryptoCondition f.out2.scriptPubKey = true ∧
    env.getscriptaddress f.out2.scriptPubKey = env.origTokensAddress
      (env.assetsEvalcode2 additionalTokensEvalcode2 f.opret.assetid) (pubkey2pk f.offer.origpubkey)
  locked : f.locked.nValue = toInt64 (f.out0.nValue + f.out1.nValue)
  withChange : f.hasChange = true → f.inputs = toInt64 (f.out2.nValue + f.out4.nValue)
  withoutChange : f.hasChange = false → (f.inputs = 0 ∨ f.inputs = f.out2.nValue)
    ∧ validateBidRemainder f.opret.price f.out0.nValue f.locked.nValue f.out1.nValue f.out2.nValue
      f.offer.price = true
    ∧ env.keepsBid f.opret.price f.out0 = true

/-- An accepted fill has all the parts, and the code has checked them. -/
theorem exists_passed {symbol : String} {d : AssetOpRet}
    (h : env.assetsValidate additionalTokensEvalcode2 symbol tx = .ok ())
    (hexempt : env.assetsExempt symbol = false)
    (hd : decodeAssetTokenOpRet (opretOf tx) = some d) (hkind : d.funcid = fid 'B') :
    ∃ f : BidFill env tx, f.Passed additionalTokensEvalcode2 := by
  obtain ⟨inputs, hinputs, hswitch⟩ := ContractEnv.assetsValidate_eq_ok h hexempt hd
  obtain rfl := ContractEnv.assetCalcAmounts_eq_ok hinputs
  have hfill : env.validateFillbuy (env.assetsEvalcode2 additionalTokensEvalcode2 d.assetid) tx d
      (env.recognisedInputs d.assetid tx.vin) = .ok () := by
    simpa [ContractEnv.validateAssetFuncid, hkind, fid] using hswitch
  simp only [ContractEnv.validateFillbuy, Checked.bind_eq_ok, require_eq_ok, defined_eq_ok,
    decide_eq_true_eq, exists_const] at hfill
  obtain ⟨⟨vin, bid⟩, hbuy, -, horig, out0, hout0, out1, hout1, out2, hout2, out3, hout3, hlocked,
    out4, hout4, hbranch⟩ := hfill
  simp only [ContractEnv.assetValidateBuyvin, Checked.bind_eq_ok, require_eq_ok,
    expect_eq_ok, Checked.pure_eq_ok, exists_const, Prod.mk.injEq] at hbuy
  obtain ⟨vin, hvin, -, bid, hbid, ⟨⟩, -, -, -, rfl, rfl⟩ := hbuy
  obtain ⟨vin1, hvin1, -, hlookup, hzero, -, haddrs⟩ := ContractEnv.assetValidateCCvin_eq_ok hvin
  have haddr := (ContractEnv.getAssetorigaddrs_eq_some hbid haddrs).1
  let f : BidFill env tx := ⟨⟨d, vin1, vin.vinTx, bid, vin.out0, out0, out1, out2, out3, hd,
    hkind, hvin1, hlookup, hbid, hzero, hout0, hout1, hout2, hout3⟩, out4, hout4⟩
  refine ⟨f, ?_⟩
  split_ifs at hbranch with hchange
  · simp only [ContractEnv.fillbuyWithChange, Checked.bind_eq_ok, require_eq_ok, exists_const,
      decide_eq_true_eq] at hbranch
    obtain ⟨⟨hout2addr, hsum⟩, -⟩ := hbranch
    obtain ⟨hcc, hto, -⟩ := ContractEnv.constrainVout_some hout2addr
    exact ⟨⟨hcc, hto.trans haddr.symm⟩, hlocked, fun _ => hsum,
      fun hno => absurd (hno.symm.trans hchange) Bool.false_ne_true⟩
  · simp only [ContractEnv.fillbuyWithoutChange, Checked.bind_eq_ok, require_eq_ok,
      exists_const] at hbranch
    obtain ⟨⟨hout2addr, -, -, hremainder, hkeeps⟩, -⟩ := hbranch
    obtain ⟨hcc, hto, hamount⟩ := ContractEnv.constrainVout_some hout2addr
    exact ⟨⟨hcc, hto.trans haddr.symm⟩, hlocked, fun hyes => absurd hyes hchange,
      fun _ => ⟨hamount, hremainder, hkeeps⟩⟩

instance : Subsingleton (BidFill env tx) := by
  constructor
  intro f g
  have hfill : f.toOfferFill = g.toOfferFill := Subsingleton.elim _ _
  have h4 : f.out4 = g.out4 := Option.some.inj (f.vout_four.symm.trans g.vout_four)
  cases f
  cases g
  subst hfill h4
  rfl

end accepted

section sound
variable {env : ChainEnv} {tx : CTransaction} {additionalTokensEvalcode2 : UInt8}
  {f : BidFill env.toContractEnv tx}

theorem Passed.tokens_of_change (hp : f.Passed additionalTokensEvalcode2)
    (hvalues : ∀ out ∈ tx.vout, 0 ≤ out.nValue ∧ out.nValue ≤ env.maxMoney)
    (hchange : f.hasChange = true) : f.out2.nValue + f.change = f.inputs := by
  obtain ⟨-, -, h2⟩ := f.inRange hvalues
  have hmax := env.maxMoney_lt
  have h4 := hvalues _ (mem_of_getElem? f.vout_four)
  rw [change, if_pos hchange]
  exact add_eq_of_toInt64 (hp.withChange hchange) (env.recognisedInputs_nonneg _ _) h2.1 h2.2
    h4.1 (by omega)

theorem Passed.tokens_iff_of_no_change (hp : f.Passed additionalTokensEvalcode2)
    (hchange : f.hasChange = false) : f.out2.nValue + f.change = f.inputs ↔ f.inputs ≠ 0 := by
  obtain ⟨hinputs, hremainder, -⟩ := hp.withoutChange hchange
  have hpaid := (validateBidRemainder_eq_true hremainder).1
  have hnone : f.change = 0 := by simp [change, hchange]
  rw [hnone]
  omega

/-- Without a change output the rest of the bid is kept. -/
theorem Passed.keepsRest_of_no_change (hp : f.Passed additionalTokensEvalcode2)
    (hvalues : ∀ out ∈ tx.vout, 0 ≤ out.nValue ∧ out.nValue ≤ env.maxMoney)
    (hchange : f.hasChange = false) : f.KeepsRest := by
  intro hwanted
  obtain ⟨-, hremainder, hkeeps⟩ := hp.withoutChange hchange
  have hunits := (validateBidRemainder_eq_true hremainder).2.1
  have hprice := decodeAssetTokenOpRet_price f.decode_opret
  have hbid := decodeAssetTokenOpRet_price f.decode_offer
  obtain ⟨-, -, h2⟩ := f.inRange hvalues
  have hleft : f.opret.price = f.offer.price - f.out2.nValue := by
    obtain ⟨j, hj⟩ : ((2 ^ 64 : ℕ) : ℤ) ∣ (f.opret.price + f.out2.nValue)
      - toInt64 (f.opret.price + f.out2.nValue) := Int.dvd_self_sub_bmod
    rw [← hunits] at hj
    push_cast at hj
    omega
  have hsum := f.locked_eq hvalues hp.locked
  refine ⟨?_, by omega, hleft⟩
  have hne : f.opret.price ≠ 0 := by omega
  simpa [ContractEnv.keepsBid, hne] using hkeeps

theorem Passed.guarantees_iff (hp : f.Passed additionalTokensEvalcode2)
    (hvalues : ∀ out ∈ tx.vout, 0 ≤ out.nValue ∧ out.nValue ≤ env.maxMoney) :
    f.Guarantees additionalTokensEvalcode2 ↔ f.Sound := by
  constructor
  · intro hg
    exact ⟨fun hno => (hp.tokens_iff_of_no_change hno).1 hg.tokens, f.excess_le_iff.2 hg.price,
      fun _ => hg.rest⟩
  · intro hs
    refine ⟨hp.delivered, ?_, f.excess_le_iff.1 hs.excess_le, ?_⟩
    · cases hchange : f.hasChange with
      | true => exact hp.tokens_of_change hvalues hchange
      | false => exact (hp.tokens_iff_of_no_change hchange).2 (hs.inputs_ne hchange)
    · cases hchange : f.hasChange with
      | true => exact hs.rest hchange
      | false => exact hp.keepsRest_of_no_change hvalues hchange

end sound

end BidFill

/-- **When a fill of a bid is sound.** Of the fills that `AssetsValidate` accepts, those
keep what they owe the bidder that bring token inputs or have a change output, that take
no more coins beyond the truncated unit price than the division left over for these
tokens, and that with a change output keep the rest of the bid unasked. That the outputs
hold amounts of money was checked before, by `CheckTransaction`. -/
theorem fillbuy_guarantees_iff {env : ChainEnv} {tx : CTransaction} {symbol : String}
    {additionalTokensEvalcode2 : UInt8} {d : AssetOpRet}
    (hvalues : ∀ out ∈ tx.vout, 0 ≤ out.nValue ∧ out.nValue ≤ env.maxMoney)
    (hexempt : env.assetsExempt symbol = false)
    (hd : decodeAssetTokenOpRet (opretOf tx) = some d) (hkind : d.funcid = fid 'B')
    (h : env.assetsValidate additionalTokensEvalcode2 symbol tx = .ok ()) :
    Nonempty (BidFill env.toContractEnv tx) ∧ ∀ f : BidFill env.toContractEnv tx,
      (f.Guarantees additionalTokensEvalcode2 ↔ f.Sound) := by
  obtain ⟨f, hp⟩ := BidFill.exists_passed h hexempt hd hkind
  refine ⟨⟨f⟩, fun g => ?_⟩
  obtain rfl := Subsingleton.elim f g
  exact hp.guarantees_iff hvalues

/-! ### A fill without tokens -/

namespace AssetsSample

/-- The keys of a bidder and of a seller. -/
def bidder : CPubKey := 0x02 :: List.replicate 32 0x33
@[inherit_doc bidder] def seller : CPubKey := 0x02 :: List.replicate 32 0x44

/-- `cc_conditionBinary(MakeCCcond1(EVAL_ASSETS, assetsUnspendablePk))`. -/
def assetsCondition : Bytes :=
  [0xa2, 0x2c, 0x80, 0x20, 0x1a, 0xb4, 0x00, 0xe0, 0x39, 0x12, 0x20, 0x28, 0x34, 0x55, 0x20,
   0xba, 0x04, 0x1a, 0xc3, 0xe6, 0xec, 0x81, 0xad, 0x28, 0xd8, 0x41, 0x5e, 0x78, 0xd7, 0x60,
   0xd5, 0x5f, 0x41, 0x09, 0x7d, 0xd5, 0x81, 0x03, 0x12, 0x0c, 0x00, 0x82, 0x03, 0x00, 0x04,
   0x01]

/-- `cc_conditionBinary(MakeCCcond1(EVAL_ASSETS, bidder))`. -/
def bidderMarkerCondition : Bytes :=
  [0xa2, 0x2c, 0x80, 0x20, 0x42, 0xca, 0xcb, 0x49, 0xb4, 0x42, 0x12, 0x38, 0xbe, 0x6b, 0xb3,
   0x8d, 0x8e, 0xce, 0xe1, 0x9b, 0x52, 0x88, 0x15, 0x42, 0xdd, 0x67, 0xfa, 0x79, 0x85, 0xc7,
   0xb3, 0x48, 0x12, 0x9a, 0xd8, 0xdd, 0x81, 0x03, 0x12, 0x0c, 0x00, 0x82, 0x03, 0x00, 0x04,
   0x01]

/-- `cc_conditionBinary(MakeCCcond1(EVAL_ASSETS, seller))`. -/
def sellerMarkerCondition : Bytes :=
  [0xa2, 0x2c, 0x80, 0x20, 0xf5, 0x22, 0x0d, 0x23, 0x36, 0xce, 0xa1, 0x40, 0x00, 0xe3, 0xd9,
   0x51, 0x47, 0x78, 0x85, 0xd4, 0xc9, 0x17, 0xb2, 0x1e, 0x32, 0xa2, 0x4e, 0xb4, 0xa2, 0xd6,
   0xdd, 0x5b, 0x6c, 0x37, 0xd9, 0x68, 0x81, 0x03, 0x12, 0x0c, 0x00, 0x82, 0x03, 0x00, 0x04,
   0x01]

/-- `cc_conditionBinary(MakeCCcond1(EVAL_TOKENS, bidder))`. -/
def bidderTokensCondition : Bytes :=
  [0xa2, 0x2c, 0x80, 0x20, 0x33, 0x17, 0x7c, 0x93, 0x97, 0xda, 0x82, 0xc8, 0x55, 0x03, 0x01,
   0x84, 0xb8, 0x4d, 0x0c, 0xec, 0x3e, 0x4c, 0xdd, 0xfd, 0xfa, 0x74, 0x14, 0xc4, 0x25, 0x44,
   0x34, 0x26, 0xed, 0xd5, 0x34, 0x1f, 0x81, 0x03, 0x12, 0x0c, 0x00, 0x82, 0x03, 0x00, 0x04,
   0x01]

/-- `cc_conditionBinary(MakeCCcond1(EVAL_TOKENS, seller))`. -/
def sellerTokensCondition : Bytes :=
  [0xa2, 0x2c, 0x80, 0x20, 0x2e, 0x48, 0x32, 0x17, 0xef, 0x77, 0x3b, 0xe9, 0xd2, 0xdb, 0x84,
   0x55, 0x24, 0xa1, 0x1d, 0xde, 0x03, 0xa0, 0xb3, 0x02, 0xc7, 0xf3, 0x88, 0x15, 0x57, 0xc7,
   0x79, 0xba, 0xed, 0xef, 0x43, 0x33, 0x81, 0x03, 0x12, 0x0c, 0x00, 0x82, 0x03, 0x00, 0x04,
   0x01]

/-- `cc_conditionBinary(MakeCCcond1(EVAL_TOKENS, tokensUnspendablePk))`. -/
def tokensCondition : Bytes :=
  [0xa2, 0x2c, 0x80, 0x20, 0x43, 0x2d, 0xe3, 0x88, 0xaa, 0xbc, 0xb6, 0xb4, 0xe3, 0x32, 0x63,
   0x51, 0xd1, 0xd8, 0x15, 0xce, 0xe8, 0xbe, 0x9a, 0x8d, 0x37, 0xb0, 0x55, 0xcd, 0x1c, 0x0c,
   0xf8, 0x78, 0x2e, 0x5c, 0x50, 0xc0, 0x81, 0x03, 0x12, 0x0c, 0x00, 0x82, 0x03, 0x00, 0x04,
   0x01]

/-- `cc_conditionBinary(MakeTokensCCcond1(EVAL_ASSETS, 0, assetsUnspendablePk))`. -/
def dualCondition : Bytes :=
  [0xa2, 0x2c, 0x80, 0x20, 0xda, 0x88, 0x0e, 0x7f, 0xc6, 0x86, 0x67, 0xbf, 0x26, 0xd0, 0x86,
   0x7b, 0xa3, 0xc4, 0x3f, 0xfa, 0x9f, 0x9c, 0x09, 0x6f, 0x25, 0x9f, 0x12, 0xd3, 0xfd, 0x4a,
   0xa4, 0x3c, 0x96, 0xb1, 0x19, 0xc6, 0x81, 0x03, 0x22, 0x10, 0x00, 0x82, 0x03, 0x00, 0x04,
   0x01]

/-- The script of a condition. -/
def scriptOf (condition : Bytes) : CScript := pushData condition ++ [OP_CHECKCRYPTOCONDITION]

/-- A fulfillment of the condition that locks the tokens of an ask. -/
def dualFulfillment : Bytes :=
  [0xa2, 0x7b, 0xa0, 0x77, 0xa2, 0x6b, 0xa0, 0x67, 0xa5, 0x65, 0x80, 0x21]
    ++ assetsUnspendablePk ++ [0x81, 0x40] ++ List.replicate 64 1
    ++ [0xa1, 0x00, 0xaf, 0x03, 0x80, 0x01, 0xe3, 0xaf, 0x03, 0x80, 0x01, 0xf2, 0xa1, 0x00]

/-- The condition fulfilled by it. -/
def dualSigned : CC :=
  .threshold 3 3 [.threshold 1 1 [.secp256k1 assetsUnspendablePk (some (List.replicate 64 1))],
    .eval [EVAL_ASSETS], .eval [EVAL_TOKENS]]

/-- A coinbase that pays the seller. -/
def funding : CTransaction where
  hash := 1
  vin := [⟨⟨0, 0xffffffff⟩, [], 0⟩]
  vout := [⟨100000, payToPubkey seller⟩]

/-- The creation of ten tokens, four of them in an output of their own. -/
def creation : CTransaction where
  hash := 2
  vin := [⟨⟨1, 0⟩, [], 0⟩]
  vout := [⟨4, scriptOf sellerTokensCondition⟩, ⟨6, scriptOf sellerTokensCondition⟩,
    ⟨0, encodeTokenCreateOpRet seller [fid 'T'] [] []⟩]

/-- An opreturn of an offer or a fill, for token 2. -/
def opret (f : Char) (price : ℕ) (origpubkey : CPubKey) : CScript :=
  encodeTokenOpRet 2 [origpubkey] [(OPRETID_ASSETSDATA,
    [EVAL_ASSETS, fid f] ++ leBytes 8 price ++ vectorBytes origpubkey)]

/-- A bid of 1000 satoshis for ten tokens. -/
def bidTx : CTransaction where
  hash := 3
  vin := [⟨⟨90, 0⟩, [], 0⟩]
  vout := [⟨1000, scriptOf assetsCondition⟩, ⟨10000, scriptOf bidderMarkerCondition⟩,
    ⟨0, opret 'b' 10 bidder⟩]

/-- A fill of the bid, with some token inputs. -/
def fill (tokenVin : List CTxIn) (coinsLeft coins tokens tokensLeft : ℕ) : CTransaction where
  hash := 5
  vin := ⟨⟨91, 0⟩, [], 0⟩ :: ⟨⟨3, 0⟩, scriptSig1 EVAL_ASSETS assetsUnspendablePk, 0⟩ :: tokenVin
  vout := [⟨coinsLeft, scriptOf assetsCondition⟩, ⟨coins, payToPubkey seller⟩,
    ⟨tokens, scriptOf bidderTokensCondition⟩, ⟨10000, scriptOf bidderMarkerCondition⟩,
    ⟨50000, payToPubkey seller⟩, ⟨0, opret 'B' tokensLeft bidder⟩]

/-- Four tokens for four tenths of the coins. -/
def honestFill : CTransaction := fill [⟨⟨2, 0⟩, scriptSig1 EVAL_TOKENS seller, 0⟩] 600 400 4 6

/-- All the coins, for ten tokens that no input brings. -/
def emptyFill : CTransaction := fill [] 0 1000 10 0

/-- `MAX_MONEY` of the chain. -/
def maxMoney : ℤ := 2100000000000000

/-- A node that has seen some transactions. -/
def envOf (txs : List CTransaction) (hwithin : amountsWithin txs maxMoney = true) : ChainEnv where
  conditionBinary
    | .threshold 2 2 [.eval [0xe3], .threshold 1 1 [.secp256k1 pk _]] =>
      if pk = assetsUnspendablePk then assetsCondition
      else if pk = bidder then bidderMarkerCondition else sellerMarkerCondition
    | .threshold 2 2 [.eval [0xf2], .threshold 1 1 [.secp256k1 pk _]] =>
      if pk = tokensUnspendablePk then tokensCondition
      else if pk = bidder then bidderTokensCondition else sellerTokensCondition
    | .threshold 3 3 [.eval [0xe3], .eval [0xf2], .threshold 1 1 [.secp256k1 _ _]] => dualCondition
    | _ => []
  readFulfillmentBinary b :=
    if b = fulfillment1 EVAL_ASSETS assetsUnspendablePk then
      some (signedCond1 EVAL_ASSETS assetsUnspendablePk)
    else if b = fulfillment1 EVAL_TOKENS seller then some (signedCond1 EVAL_TOKENS seller)
    else if b = dualFulfillment then some dualSigned
    else none
  anonPublicKey _ := []
  anonHasCode _ _ := false
  solver s := if s = payToPubkey seller then some (.pubkey, [seller]) else none
  hash160 _ := []
  getscriptaddress s :=
    if s = scriptOf assetsCondition then some "RGKRjeTBw4LYFotSDLT6RWzMHbhXri6BG6"
    else if s = scriptOf bidderMarkerCondition then some "RFeoLW2kvAFGcX97twNR1TzhRdNrB13Jw8"
    else if s = scriptOf sellerMarkerCondition then some "RWzoHrKPhtz467UNXmBnFfXjMkj9DGbm6Q"
    else if s = scriptOf bidderTokensCondition then some "RFScHitR4RnZ8ZCWuQsXfd4wtsrUTti7xE"
    else if s = scriptOf sellerTokensCondition then some "RTnF7rosM5N4c6c327xjwrdohFXYdxUakK"
    else if s = scriptOf dualCondition then some "RTWtxY7GTBZ3zL8jfzyWWz1fveF3KXKBF8"
    else if s = payToPubkey bidder then some "RHv44wXMgqnXAmY77fpya9bpS7Qi85hd7i"
    else if s = payToPubkey seller then some "RFpwZGkjVQ19QVh7uu7PSfUfKJ8Asqmmrm"
    else none
  getTransaction := findTx txs 100
  blockIndex h := if h = 100 then some ⟨10, 1600000000⟩ else none
  tip := ⟨1000, 1600100000⟩
  lastNotarizedHeight := 500
  sha256 b := b
  maxMoney := maxMoney
  maxMoney_lt := by decide
  getValueIn := valueIn txs
  hash_of_lookup h := (findTx_eq_some h).2
  nValue_of_lookup h := nValue_of_findTx hwithin h

/-- A node that has seen the bid. -/
def env : ChainEnv := envOf [funding, creation, bidTx] (by decide)

/-- The parts of a fill of the bid. -/
def fillParts (tokenVin : List CTxIn) (coinsLeft coins tokens tokensLeft : ℕ)
    (hd : decodeAssetTokenOpRet (opretOf (fill tokenVin coinsLeft coins tokens tokensLeft))
      = some ⟨fid 'B', 2, 0, tokensLeft, bidder⟩) :
    BidFill env.toContractEnv (fill tokenVin coinsLeft coins tokens tokensLeft) where
  opret := ⟨fid 'B', 2, 0, tokensLeft, bidder⟩
  vin1 := ⟨⟨3, 0⟩, scriptSig1 EVAL_ASSETS assetsUnspendablePk, 0⟩
  offerTx := bidTx
  offer := ⟨fid 'b', 2, 0, 10, bidder⟩
  locked := ⟨1000, scriptOf assetsCondition⟩
  out0 := ⟨coinsLeft, scriptOf assetsCondition⟩
  out1 := ⟨coins, payToPubkey seller⟩
  out2 := ⟨tokens, scriptOf bidderTokensCondition⟩
  out3 := ⟨10000, scriptOf bidderMarkerCondition⟩
  out4 := ⟨50000, payToPubkey seller⟩
  decode_opret := hd
  kind := rfl
  vin_one := rfl
  lookup_offer := rfl
  decode_offer := by decide +kernel
  vout_locked := rfl
  vout_zero := rfl
  vout_one := rfl
  vout_two := rfl
  vout_three := rfl
  vout_four := rfl

end AssetsSample

open AssetsSample in
/-- The hypotheses of `fillbuy_guarantees_iff` are satisfiable: four of ten tokens for four
tenths of the coins, where the guarantees hold. -/
theorem fillbuy_guarantees_honest :
    ∃ f : BidFill env.toContractEnv honestFill, f.Guarantees 0 := by
  have haccepted : env.assetsValidate 0 "TOKEN" honestFill = .ok () := by decide +kernel
  have hd : decodeAssetTokenOpRet (opretOf honestFill) = some ⟨fid 'B', 2, 0, (6 : ℕ), bidder⟩ := by
    decide +kernel
  obtain ⟨-, hiff⟩ := fillbuy_guarantees_iff (by decide) (by decide) hd rfl haccepted
  refine ⟨fillParts _ _ _ _ _ hd, (hiff _).2 ⟨?_, ?_, ?_⟩⟩
  · intro _
    show env.recognisedInputs 2 honestFill.vin ≠ 0
    decide +kernel
  · show ((400 : ℤ) - (1000 : ℤ).tdiv 10 * 4) * 10 ≤ (1000 : ℤ).tmod 10 * 4
    decide
  · intro hchange
    have hnone : isPayToCryptoCondition (payToPubkey seller) = false := by decide
    exact absurd (hchange.symm.trans hnone) (by decide)

open AssetsSample in
/-- A fill without token inputs takes all the coins of a bid, and is accepted: the ten
tokens it declares to deliver are none. -/
theorem fillbuy_without_tokens :
    env.assetsValidate 0 "TOKEN" emptyFill = .ok ()
      ∧ (∀ out ∈ emptyFill.vout, 0 ≤ out.nValue ∧ out.nValue ≤ env.maxMoney)
      ∧ ∃ f : BidFill env.toContractEnv emptyFill, f.out1.nValue = 1000 ∧ f.inputs = 0
        ∧ ¬ f.Guarantees 0 := by
  have hd : decodeAssetTokenOpRet (opretOf emptyFill) = some ⟨fid 'B', 2, 0, (0 : ℕ), bidder⟩ := by
    decide +kernel
  have hinputs : env.recognisedInputs 2 emptyFill.vin = 0 := by decide +kernel
  have hnone : isPayToCryptoCondition (payToPubkey seller) = false := by decide
  refine ⟨by decide +kernel, by decide, fillParts _ _ _ _ _ hd, rfl, hinputs, fun hg => ?_⟩
  have htokens : (10 : ℤ) + (if isPayToCryptoCondition (payToPubkey seller) then 50000 else 0)
      = env.recognisedInputs 2 emptyFill.vin := hg.tokens
  rw [hinputs, hnone] at htokens
  simp at htokens

end Komodo
