/-
# The price that oracles agree on

`_correlate_price`, `correlate_price` and `OracleCorrelatedPrice` of `src/src/cc/oracles.cpp`.

A price is agreed on by half of the list, if so many prices differ from it by no more than its 256th
part.  `correlate_price` looks for such a price from a place on that the height decides.

`OracleCorrelatedPrice` sorts the list that it was given and then hands over the elements of another
one, which is empty.  So it has no price for more than one publisher, whatever they agree on
(`robust_iff`).

A price that is read outside of the array leaves the program without a meaning.
-/

import Komodo.CC.OraclesFormat

namespace Komodo
namespace Oracles

open KV (wrap32)

/-- The prices that `_correlate_price` counts. -/
def closeTo (price other : ℤ) : Bool :=
  let diff := toInt64 (price - other)
  let diff := if diff < 0 then toInt64 (-diff) else diff
  diff ≤ price / 2 ^ 8

/-- `_correlate_price`, over the first `n` prices. -/
def correlateWith (prices : List ℤ) (n : ℕ) (price : ℤ) : ℤ :=
  if (prices.take n).countP (closeTo price) < n / 2 then 0 else price

/-- The loop of `correlate_price`, `left` turns before its end. -/
def correlateLoop (prices : List ℤ) (n : ℕ) (height : ℤ) : (left : ℕ) → (price : ℤ) → Option ℤ
  | 0, price => some price
  | left + 1, price =>
    let j := (wrap32 (height + (n - (left + 1) : ℕ))).tmod n
    if j < 0 then none
    else do
      let candidate ← prices[j.toNat]?
      let price := if candidate ≠ 0 then correlateWith prices n candidate else price
      if candidate ≠ 0 ∧ price ≠ 0 then some price
      else correlateLoop prices n height left price

def correlatePrice (height : ℤ) (prices : List ℤ) (n : ℕ) : Option ℤ :=
  if n = 1 then prices[0]? else correlateLoop prices n height n 0

def oracleCorrelatedPrice (height : ℤ) (origprices : List ℤ) : Option ℤ :=
  if wrap32 origprices.length = 1 then origprices[0]?
  else
    -- `origprices` is sorted, `sorted` is copied
    let sorted : List ℤ := []
    correlatePrice height sorted sorted.length

/-- At least half of the prices differ from `p` by no more than its 256th part. -/
def Agreed (prices : List ℤ) (p : ℤ) : Prop :=
  p ∈ prices ∧ prices.length / 2 ≤ prices.countP fun q => 256 * |p - q| ≤ p

instance (prices : List ℤ) (p : ℤ) : Decidable (Agreed prices p) :=
  inferInstanceAs (Decidable (_ ∧ _))

/-- A price that half of the list agrees on is found, in whatever order the list comes. -/
structure Robust (height : ℤ) (prices : List ℤ) : Prop where
  found : (∃ p, Agreed prices p) →
    ∃ p, oracleCorrelatedPrice height prices = some p ∧ Agreed prices p
  missing : (¬∃ p, Agreed prices p) → oracleCorrelatedPrice height prices = some 0
  order : ∀ prices', prices'.Perm prices →
    oracleCorrelatedPrice height prices' = oracleCorrelatedPrice height prices

/-- The prices are positive values of an `int64_t`. -/
def Positive (prices : List ℤ) : Prop := ∀ p ∈ prices, 0 < p ∧ p < 2 ^ 63

instance (prices : List ℤ) : Decidable (Positive prices) :=
  inferInstanceAs (Decidable (∀ p ∈ prices, _))

variable {height : ℤ} {prices : List ℤ}

/-! ### The prices of the publishers -/

theorem oracleCorrelatedPrice_eq (height : ℤ) (prices : List ℤ) :
    oracleCorrelatedPrice height prices
      = if prices.length % 2 ^ 32 = 1 then prices[0]? else some 0 := by
  have hone : wrap32 prices.length = 1 ↔ prices.length % 2 ^ 32 = 1 := by
    unfold wrap32
    rw [Int.bmod_def]
    split_ifs <;> omega
  unfold oracleCorrelatedPrice
  simp only [hone]
  rfl

/-- **The price of the publishers is right** where there is one of them, or where they agree on
nothing.  A list whose length is one above a multiple of `2 ^ 32` is taken for a single price. -/
theorem robust_iff (height : ℤ) (hne : prices ≠ []) (hpos : Positive prices) :
    Robust height prices ↔ if prices.length % 2 ^ 32 = 1 then ∀ p ∈ prices, ∀ q ∈ prices, p = q
      else ¬∃ p, Agreed prices p := by
  split_ifs with hone
  · have hprice : ∀ prices' : List ℤ, prices'.Perm prices →
        oracleCorrelatedPrice height prices' = prices'[0]? := fun prices' hperm => by
      rw [oracleCorrelatedPrice_eq, hperm.length_eq, if_pos hone]
    constructor
    · intro h p hp q hq
      have hfirst : ∀ p ∈ prices, oracleCorrelatedPrice height prices = some p := fun p hp => by
        have hperm := (List.perm_cons_erase hp).symm
        rw [← h.order _ hperm, hprice _ hperm]
        rfl
      exact Option.some_inj.1 ((hfirst p hp).symm.trans (hfirst q hq))
    · intro hall
      obtain ⟨p, hp⟩ := List.exists_mem_of_ne_nil prices hne
      have hsome : ∀ prices' : List ℤ, prices'.Perm prices →
          oracleCorrelatedPrice height prices' = some p := fun prices' hperm => by
        have hlength : 0 < prices'.length := by
          rw [hperm.length_eq]
          exact List.length_pos_of_ne_nil hne
        rw [hprice _ hperm, List.getElem?_eq_getElem hlength]
        exact congrArg some (hall _ (hperm.mem_iff.1 (List.getElem_mem hlength)) p hp)
      have hagreed : Agreed prices p := by
        have hclose : prices.countP (fun q => 256 * |p - q| ≤ p) = prices.length := by
          rw [List.countP_eq_length]
          intro q hq
          rw [hall q hq p hp, sub_self, abs_zero, decide_eq_true_iff]
          exact (hpos p hp).1.le
        exact ⟨hp, by rw [hclose]; exact Nat.div_le_self ..⟩
      exact ⟨fun _ => ⟨p, hsome _ (List.Perm.refl _), hagreed⟩, fun hnone => absurd ⟨p, hagreed⟩ hnone,
        fun prices' hperm => (hsome _ hperm).trans (hsome _ (List.Perm.refl _)).symm⟩
  · have hprice : ∀ prices' : List ℤ, prices'.Perm prices →
        oracleCorrelatedPrice height prices' = some 0 := fun prices' hperm => by
      rw [oracleCorrelatedPrice_eq, hperm.length_eq, if_neg hone]
    constructor
    · intro h hagreed
      obtain ⟨p, hp, hmem, -⟩ := h.found hagreed
      rw [hprice _ (List.Perm.refl _), Option.some_inj] at hp
      exact absurd hp (hpos p hmem).1.ne
    · intro hnone
      exact ⟨fun hagreed => absurd hagreed hnone, fun _ => hprice _ (List.Perm.refl _),
        fun prices' hperm => (hprice _ hperm).trans (hprice _ (List.Perm.refl _)).symm⟩

/-- One publisher has the price. -/
theorem robust_single : Robust 1000 [7] :=
  (robust_iff 1000 (List.cons_ne_nil 7 []) (by decide)).2 (by simp)

/-- **Two publishers of the same price have none.** -/
theorem equal_prices_lost : Positive [100, 100] ∧ Agreed [100, 100] 100
    ∧ oracleCorrelatedPrice 1000 [100, 100] = some 0 ∧ ¬Robust 1000 [100, 100] := by
  refine ⟨by decide, by decide, by rfl, fun h => ?_⟩
  obtain ⟨p, hp, hmem, -⟩ := h.found ⟨100, by decide⟩
  have hzero : p = 0 := (Option.some_inj.1 hp).symm
  rw [hzero] at hmem
  exact absurd hmem (by decide)

end Oracles
end Komodo
