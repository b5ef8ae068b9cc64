/-
# Filling a bid

`SetBidFillamounts` of `src/src/cc/CCassetsCore.cpp` and the fills of a bid, one after the other.

A fill pays the truncated unit price for every token.  What is left is then worth no less for each
token that is still asked for (`setBidFillamounts_partial`), so every fill of a bid of at least one
coin for each token goes through, and the last one pays what is left of the coins
(`fillAll_spec`).
-/

import Komodo.CC.Assets
import Komodo.Lib.Overflow

namespace Komodo

open Overflow Int

/-- What `SetBidFillamounts` returns and the amounts that it sets. -/
structure BidFillamounts where
  filled : Bool
  received_nValue : ℤ
  remaining_units : ℤ
  paidunits : ℤ
deriving DecidableEq, Repr

/-- `SetBidFillamounts`; `none` where a number overflows. -/
def setBidFillamounts (orig_nValue paidunits totalunits : ℤ) : Option BidFillamounts :=
  if totalunits = 0 then some ⟨false, 0, 0, 0⟩
  else if totalunits ≤ paidunits then some ⟨true, orig_nValue, 0, totalunits⟩
  else do
    let remaining_units ← int64 (totalunits - paidunits)
    let unitprice ← int64 (orig_nValue.tdiv totalunits)
    let received_nValue ← int64 (paidunits * unitprice)
    if 0 < unitprice ∧ 0 < received_nValue ∧ received_nValue ≤ orig_nValue then
      let remaining_nValue ← int64 (orig_nValue - received_nValue)
      some ⟨validateBidRemainder remaining_units remaining_nValue orig_nValue received_nValue
        paidunits totalunits, received_nValue, remaining_units, paidunits⟩
    else some ⟨false, received_nValue, remaining_units, paidunits⟩

/-- A bid: its coins and the tokens that are asked for. -/
structure Bid where
  nValue : ℤ
  units : ℤ
deriving DecidableEq, Repr

namespace Bid

/-- What a fill leaves of the bid. -/
def left (bid : Bid) (fill : BidFillamounts) : Bid :=
  ⟨bid.nValue - fill.received_nValue, fill.remaining_units⟩

/-- Fills one after the other, each of what the one before has left: what the last one leaves, and
the coins received. -/
def fillAll (bid : Bid) : (fills : List ℤ) → Option (Bid × ℤ)
  | [] => some (bid, 0)
  | paidunits :: fills => do
    let fill ← setBidFillamounts bid.nValue paidunits bid.units
    let (last, received) ← fillAll (bid.left fill) fills
    some (last, fill.received_nValue + received)

/-- Coins for tokens, or neither, in the range of `int64_t`. -/
structure Open (bid : Bid) : Prop where
  range : bid.nValue < 2 ^ 63 ∧ bid.units < 2 ^ 63
  open_or_filled : 0 < bid.nValue ∧ 0 < bid.units ∨ bid.nValue = 0 ∧ bid.units = 0

end Bid

/-! ### One fill -/

theorem setBidFillamounts_all {bid : Bid} {paidunits : ℤ} (hunits : bid.units ≠ 0)
    (hall : bid.units ≤ paidunits) :
    setBidFillamounts bid.nValue paidunits bid.units = some ⟨true, bid.nValue, 0, bid.units⟩ := by
  rw [setBidFillamounts, if_neg hunits, if_pos hall]

theorem price_pos {nValue units : ℤ} (hunits : 0 < units) (hone : units ≤ nValue) :
    0 < nValue / units := by
  have hle : 1 ≤ nValue / units := Int.le_ediv_of_mul_le hunits (by rwa [Int.one_mul])
  omega

section partial_fill
variable {bid : Bid} (h : bid.Open) {paidunits : ℤ} (hpaid : 0 < paidunits)
  (hpart : paidunits < bid.units)
include h hpaid hpart

theorem price_bounds :
    0 ≤ bid.nValue / bid.units ∧ 0 ≤ paidunits * (bid.nValue / bid.units) ∧
      paidunits * (bid.nValue / bid.units) ≤ bid.nValue := by
  have hunits : 0 < bid.units := hpaid.trans hpart
  have hvalue : 0 ≤ bid.nValue := by
    rcases h.open_or_filled with ⟨hvalue, -⟩ | ⟨hvalue, -⟩ <;> omega
  have hprice : 0 ≤ bid.nValue / bid.units := ediv_nonneg hvalue hunits.le
  have hmul : bid.units * (bid.nValue / bid.units) ≤ bid.nValue := mul_ediv_self_le hunits.ne'
  have hless := Int.mul_le_mul_of_nonneg_right hpart.le hprice
  exact ⟨hprice, Int.mul_nonneg hpaid.le hprice, hless.trans hmul⟩

/-- What is paid for some of the tokens passes the check of the contract. -/
theorem validateBidRemainder_partial (hone : bid.units ≤ bid.nValue) :
    validateBidRemainder (bid.units - paidunits)
      (bid.nValue - paidunits * (bid.nValue / bid.units)) bid.nValue
      (paidunits * (bid.nValue / bid.units)) paidunits bid.units = true := by
  obtain ⟨-, -, hle⟩ := price_bounds h hpaid hpart
  have hrange := h.range
  have hunits : 0 < bid.units := hpaid.trans hpart
  have hprice : 0 < bid.nValue / bid.units := price_pos hunits hone
  have hreceived := Int.mul_pos hpaid hprice
  have hquotient : bid.nValue.tdiv bid.units = bid.nValue / bid.units :=
    tdiv_eq_ediv_of_nonneg (by omega)
  have hpaidPrice : (paidunits * (bid.nValue / bid.units)).tdiv paidunits =
      bid.nValue / bid.units := by
    rw [tdiv_eq_ediv_of_nonneg hreceived.le, mul_ediv_cancel_left _ hpaid.ne']
  have hzero : ¬ (bid.nValue = 0 ∨ paidunits * (bid.nValue / bid.units) = 0 ∨ paidunits = 0 ∨
      bid.units = 0) := by omega
  rw [validateBidRemainder, if_neg hzero, sub_add_cancel, sub_add_cancel,
    toInt64_of_range (by omega) hrange.2, toInt64_of_range (by omega) hrange.1,
    if_neg (not_not.2 rfl), if_neg (not_not.2 rfl)]
  exact decide_eq_true (hquotient.trans hpaidPrice.symm).le

/-- A fill of some of the tokens. It goes through exactly when there is a coin for each token. -/
theorem setBidFillamounts_partial :
    setBidFillamounts bid.nValue paidunits bid.units =
      some ⟨decide (bid.units ≤ bid.nValue), paidunits * (bid.nValue / bid.units),
        bid.units - paidunits, paidunits⟩ := by
  obtain ⟨hprice, hreceived, hle⟩ := price_bounds h hpaid hpart
  have hrange := h.range
  have hunits : 0 < bid.units := hpaid.trans hpart
  have hvalue : 0 ≤ bid.nValue := hreceived.trans hle
  have hquotient : bid.nValue.tdiv bid.units = bid.nValue / bid.units :=
    tdiv_eq_ediv_of_nonneg hvalue
  have hpriceLe : bid.nValue / bid.units ≤ bid.nValue := ediv_le_self _ hvalue
  rw [setBidFillamounts, if_neg hunits.ne', if_neg (not_le.2 hpart), hquotient,
    int64_of_range (by omega) (by omega), int64_of_range (by omega) (by omega)]
  simp only [Option.bind_eq_bind, Option.bind_some]
  rw [int64_of_range (by omega) (by omega), Option.bind_some]
  by_cases hone : bid.units ≤ bid.nValue
  · have hpos : 0 < bid.nValue / bid.units := price_pos hunits hone
    rw [if_pos ⟨hpos, Int.mul_pos hpaid hpos, hle⟩, int64_of_range (by omega) (by omega),
      Option.bind_some, validateBidRemainder_partial h hpaid hpart hone, decide_eq_true hone]
  · have hzero : bid.nValue / bid.units = 0 := ediv_eq_zero_of_lt hvalue (by omega)
    rw [if_neg (by omega), decide_eq_false hone]

theorem left_pos : 0 < bid.nValue - paidunits * (bid.nValue / bid.units) := by
  obtain ⟨hprice, -, -⟩ := price_bounds h hpaid hpart
  have hunits : 0 < bid.units := hpaid.trans hpart
  have hmul : bid.units * (bid.nValue / bid.units) ≤ bid.nValue := mul_ediv_self_le hunits.ne'
  rcases hprice.eq_or_lt with hzero | hpos
  · rw [← hzero, Int.mul_zero, Int.sub_zero]
    rcases h.open_or_filled with ⟨hvalue, -⟩ | ⟨-, hnone⟩ <;> omega
  · have hless := Int.mul_lt_mul_of_pos_right hpart hpos
    omega

omit h in
theorem price_le_left :
    bid.nValue / bid.units ≤
      (bid.nValue - paidunits * (bid.nValue / bid.units)) / (bid.units - paidunits) := by
  have hunits : 0 < bid.units := hpaid.trans hpart
  have hmul : bid.units * (bid.nValue / bid.units) ≤ bid.nValue := mul_ediv_self_le hunits.ne'
  rw [Int.le_ediv_iff_mul_le (by omega), Int.mul_sub, Int.mul_comm _ bid.units,
    mul_comm _ paidunits]
  omega

end partial_fill

/-! ### Fills one after the other -/

namespace Bid

/-- What holds of a bid that is left of one for `totalunits` tokens at `orig_nValue` coins. -/
structure LeftOf (orig_nValue totalunits : ℤ) (bid : Bid) : Prop where
  isOpen : bid.Open
  units_le : bid.units ≤ totalunits
  price_le : bid.units ≠ 0 → orig_nValue / totalunits ≤ bid.nValue / bid.units

variable {orig_nValue totalunits : ℤ}

theorem Open.units_nonneg {bid : Bid} (h : bid.Open) : 0 ≤ bid.units := by
  rcases h.open_or_filled with ⟨-, hunits⟩ | ⟨-, hunits⟩ <;> omega

theorem leftOf_filled (h : 0 ≤ totalunits) : LeftOf orig_nValue totalunits ⟨0, 0⟩ :=
  ⟨⟨by decide, .inr ⟨rfl, rfl⟩⟩, h, fun hne => absurd rfl hne⟩

/-- One fill. -/
theorem LeftOf.fill {bid : Bid} (h : LeftOf orig_nValue totalunits bid) {paidunits : ℤ}
    (hpaid : 0 < paidunits) :
    ∃ fill, setBidFillamounts bid.nValue paidunits bid.units = some fill ∧
      LeftOf orig_nValue totalunits (bid.left fill) := by
  have hrange := h.isOpen.range
  have hle := h.units_le
  have htotal : 0 ≤ totalunits := h.isOpen.units_nonneg.trans hle
  rcases h.isOpen.open_or_filled with ⟨hvalue, hunits⟩ | ⟨hvalue, hunits⟩
  · rcases Int.lt_or_le paidunits bid.units with hpart | hall
    · obtain ⟨-, hreceived, -⟩ := price_bounds h.isOpen hpaid hpart
      have hleft := left_pos h.isOpen hpaid hpart
      have hprice := (h.price_le hunits.ne').trans (price_le_left hpaid hpart)
      have hopen : Open ⟨bid.nValue - paidunits * (bid.nValue / bid.units),
          bid.units - paidunits⟩ :=
        ⟨⟨by dsimp only; omega, by dsimp only; omega⟩, .inl ⟨hleft, by dsimp only; omega⟩⟩
      exact ⟨_, setBidFillamounts_partial h.isOpen hpaid hpart, hopen, by dsimp only [left]; omega,
        fun _ => hprice⟩
    · refine ⟨_, setBidFillamounts_all hunits.ne' hall, ?_⟩
      rw [left, sub_self]
      exact leftOf_filled htotal
  · refine ⟨_, if_pos hunits, ?_⟩
    rw [left, hvalue]
    exact leftOf_filled htotal

theorem LeftOf.fillAll {bid : Bid} (h : LeftOf orig_nValue totalunits bid) {fills : List ℤ}
    (hfills : ∀ paidunits ∈ fills, 0 < paidunits) :
    ∃ last received, bid.fillAll fills = some (last, received) ∧
      LeftOf orig_nValue totalunits last ∧ received + last.nValue = bid.nValue := by
  induction fills generalizing bid with
  | nil => exact ⟨bid, 0, rfl, h, zero_add _⟩
  | cons paidunits fills ih =>
    obtain ⟨hpaid, hfills⟩ := List.forall_mem_cons.1 hfills
    obtain ⟨fill, hfill, hleft⟩ := h.fill hpaid
    obtain ⟨last, received, hlast, hleftOf, hsum⟩ := ih hleft hfills
    refine ⟨last, fill.received_nValue + received, by rw [Bid.fillAll, hfill]; simp [hlast],
      hleftOf, ?_⟩
    have hvalue : (bid.left fill).nValue = bid.nValue - fill.received_nValue := rfl
    omega

theorem LeftOf.units_le_nValue {bid : Bid} (h : LeftOf orig_nValue totalunits bid)
    (htotal : 0 < totalunits) (hone : totalunits ≤ orig_nValue) : bid.units ≤ bid.nValue := by
  rcases h.isOpen.open_or_filled with ⟨hvalue, hunits⟩ | ⟨hvalue, hunits⟩
  · have hprice : 1 ≤ bid.nValue / bid.units :=
      (price_pos htotal hone).trans_le (h.price_le hunits.ne')
    have hmul := (Int.le_ediv_iff_mul_le hunits).1 hprice
    rwa [one_mul] at hmul
  · rw [hvalue, hunits]

end Bid

/-- **The fills of a bid.** None overflows; what is left is worth no less for each token than the
bid was, and a bid that is filled has paid all its coins. A fill of a part that goes through passes
the check of the contract, and every one does when there is a coin for each token of the bid. -/
theorem fillAll_spec {orig_nValue totalunits : ℤ} (hvalue : 0 < orig_nValue ∧ orig_nValue < 2 ^ 63)
    (htotal : 0 < totalunits ∧ totalunits < 2 ^ 63) {fills : List ℤ}
    (hfills : ∀ paidunits ∈ fills, 0 < paidunits) :
    ∃ (bid : Bid) (received : ℤ),
      Bid.fillAll ⟨orig_nValue, totalunits⟩ fills = some (bid, received) ∧
      (bid.units ≠ 0 → orig_nValue.tdiv totalunits ≤ bid.nValue.tdiv bid.units) ∧
      (bid.units = 0 → received = orig_nValue) ∧
      received + bid.nValue = orig_nValue ∧
      ∀ paidunits, 0 < paidunits →
        ∃ fill, setBidFillamounts bid.nValue paidunits bid.units = some fill ∧
          (paidunits < bid.units → fill.filled = true →
            validateBidRemainder fill.remaining_units (bid.nValue - fill.received_nValue) bid.nValue
              fill.received_nValue fill.paidunits bid.units = true) ∧
          (paidunits < bid.units → bid.units ≤ bid.nValue → fill.filled = true) ∧
          (paidunits < bid.units → totalunits ≤ orig_nValue → fill.filled = true) := by
  have hstart : Bid.LeftOf orig_nValue totalunits ⟨orig_nValue, totalunits⟩ :=
    ⟨⟨⟨hvalue.2, htotal.2⟩, .inl ⟨hvalue.1, htotal.1⟩⟩, le_rfl, fun _ => le_rfl⟩
  obtain ⟨bid, received, hbid, hleft, hsum⟩ := hstart.fillAll hfills
  have hbidValue : 0 ≤ bid.nValue := by
    rcases hleft.isOpen.open_or_filled with ⟨hpos, -⟩ | ⟨hzero, -⟩ <;> omega
  refine ⟨bid, received, hbid, ?_, ?_, hsum, fun paidunits hpaid => ?_⟩
  · rw [Int.tdiv_eq_ediv_of_nonneg hvalue.1.le, Int.tdiv_eq_ediv_of_nonneg hbidValue]
    exact hleft.price_le
  · intro hfilled
    have hnone : bid.nValue = 0 := by
      rcases hleft.isOpen.open_or_filled with ⟨-, hpos⟩ | ⟨hzero, -⟩ <;> omega
    dsimp only at hsum
    omega
  · rcases Int.lt_or_le paidunits bid.units with hpart | hall
    · refine ⟨_, setBidFillamounts_partial hleft.isOpen hpaid hpart, fun _ hfilled => ?_,
        fun _ hone => decide_eq_true hone, fun _ hone => ?_⟩
      · exact validateBidRemainder_partial hleft.isOpen hpaid hpart (of_decide_eq_true hfilled)
      · exact decide_eq_true (hleft.units_le_nValue htotal.1 hone)
    · obtain ⟨fill, hfill, -⟩ := hleft.fill hpaid
      exact ⟨fill, hfill, fun hpart => absurd hpart (Int.not_lt.2 hall),
        fun hpart => absurd hpart (Int.not_lt.2 hall),
        fun hpart => absurd hpart (Int.not_lt.2 hall)⟩

/-- Ten coins for three tokens: three for one, three for the next, and four for the last. -/
theorem fillAll_spec_ten : ∃ bid received,
    Bid.fillAll ⟨10, 3⟩ [1, 1, 5] = some (bid, received) ∧ bid = ⟨0, 0⟩ ∧ received = 10 := by
  obtain ⟨bid, received, hbid, -, hall, -⟩ :=
    @fillAll_spec 10 3 (by decide) (by decide) [1, 1, 5] (by decide)
  have hrun : Bid.fillAll ⟨10, 3⟩ [1, 1, 5] = some (⟨0, 0⟩, 10) := by decide
  obtain ⟨rfl, -⟩ := Prod.mk.inj (Option.some.inj (hrun.symm.trans hbid))
  exact ⟨_, received, hbid, rfl, hall rfl⟩

end Komodo
