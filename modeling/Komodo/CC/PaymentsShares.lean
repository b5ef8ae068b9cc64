/-
# What a release pays

The release branch of `PaymentsValidate` (`src/src/cc/payments.cpp`). The outputs after the
change pay a prefix of the payees of the plan, in order, each at least the minimum. What a
payee receives depends on the plan (`release_pays`): a plan with a fixed amount pays the
amount released divided by the number of places, any other plan the share of the allocation,
which is the exact one as long as the product of the allocation and the amount fits in 64
bits. In both kinds the payments are at most the amount released.

Two things are not promised, and `PaymentsSample` shows both missing. A product that does
not fit wraps around, and the payee gets less. And the test that nobody was left out looks
at the payee after the next one, so that the list may be cut short.
-/

import Komodo.CC.Payments
import Komodo.Script.Serialize

namespace Komodo

open Streams List

/-! ### Shares of an amount -/

/-- Truncated shares of an amount add up to no more than the amount. -/
theorem sum_share_le {amount total : ℤ} (hamount : 0 ≤ amount) (htotal : 0 < total)
    {parts : List ℤ} (hsum : parts.sum ≤ total) :
    (parts.map fun part => part * amount / total).sum ≤ amount := by
  have hscaled : (parts.map fun part => part * amount / total).sum * total
      ≤ parts.sum * amount := by
    clear hsum
    induction parts with
    | nil => simp
    | cons part rest ih =>
      rw [map_cons, sum_cons, sum_cons, add_mul, add_mul]
      have := Int.ediv_mul_le (part * amount) htotal.ne'
      omega
  have hbound : parts.sum * amount ≤ amount * total := by
    rw [mul_comm amount]
    exact mul_le_mul_of_nonneg_right hsum hamount
  exact le_of_mul_le_mul_right (hscaled.trans hbound) htotal

theorem sum_le_of_forall_eq {values : List ℤ} {v bound : ℤ} (hv : ∀ x ∈ values, x = v)
    (hbound : (values.length : ℤ) * v ≤ bound) : values.sum ≤ bound := by
  rw [eq_replicate_of_mem hv, sum_replicate]
  simpa using hbound

theorem toInt64_le_of_nonneg {n : ℤ} (h : 0 ≤ n) : toInt64 n ≤ n := by
  obtain ⟨j, hj⟩ : ((2 ^ 64 : ℕ) : ℤ) ∣ n - toInt64 n := Int.dvd_self_sub_bmod
  have hbounds := toInt64_bounds n
  push_cast at hj
  omega

theorem nonneg_of_tdiv_pos {a b : ℤ} (hb : 0 < b) (h : 0 < a.tdiv b) : 0 ≤ a := by
  by_contra hneg
  have hopposite := Int.tdiv_nonneg (show 0 ≤ -a by omega) hb.le
  rw [Int.neg_tdiv] at hopposite
  omega

/-! ### The payees of a plan -/

/-- No more payees than places. -/
theorem length_allocationsLoop (top bottom : ℤ) (exclude : List Bytes)
    (snapshot : List (ℤ × CScript)) {i : ℤ} (hi : i + bottom < top) :
    ((allocationsLoop top bottom exclude i snapshot).length : ℤ) ≤ top - bottom - i := by
  induction snapshot generalizing i with
  | nil => simp only [allocationsLoop, length_nil]; omega
  | cons a rest ih =>
    obtain ⟨nValue, scriptPubKey⟩ := a
    rw [allocationsLoop]
    split_ifs with hskip hlast hlast
    · simp only [length_nil]; omega
    · exact ih hi
    · simp only [length_cons, length_nil]; omega
    · have := ih (i := i + 1) (by omega)
      rw [length_cons]
      push_cast
      omega

theorem allocationsLoop_sublist {top bottom : ℤ} {exclude : List Bytes}
    (snapshot : List (ℤ × CScript)) (i : ℤ) :
    ((allocationsLoop top bottom exclude i snapshot).map Prod.snd).Sublist
      (snapshot.map Prod.fst) := by
  induction snapshot generalizing i with
  | nil => simp [allocationsLoop]
  | cons a rest ih =>
    obtain ⟨nValue, scriptPubKey⟩ := a
    rw [allocationsLoop]
    split_ifs with hskip hlast hlast
    · exact nil_sublist _
    · exact (ih i).cons _
    · exact (nil_sublist _).cons_cons _
    · exact (ih (i + 1)).cons_cons _

theorem getAllocations_sublist (top bottom : ℤ) (exclude : List Bytes)
    (snapshot : List (ℤ × CScript)) :
    ((getAllocations top bottom exclude snapshot).map Prod.snd).Sublist
      (snapshot.map Prod.fst) := by
  unfold getAllocations
  split_ifs
  · exact nil_sublist _
  · exact (allocationsLoop_sublist _ 0).trans ((drop_sublist _ _).map Prod.fst)

theorem length_getAllocations {top bottom : ℤ} {exclude : List Bytes}
    (snapshot : List (ℤ × CScript)) (h : 0 < top - bottom) :
    ((getAllocations top bottom exclude snapshot).length : ℤ) ≤ top - bottom := by
  unfold getAllocations
  split_ifs
  · simp only [length_nil]; omega
  · have := length_allocationsLoop top bottom exclude (snapshot.drop bottom.toNat) (i := 0)
      (by omega)
    omega

namespace Payees

/-- The allocations are not negative, and their sum did not wrap around. -/
structure Fair (payees : Payees) : Prop where
  nonneg : ∀ p ∈ payees.list, 0 ≤ p.2
  sum_lt : (payees.list.map Prod.snd).sum < 2 ^ 63

/-- What the code knows of the payees of any plan. -/
structure WellFormed (payees : Payees) : Prop where
  total_nonneg : 0 ≤ payees.total
  total_eq : payees.total = toInt64 (payees.list.map Prod.snd).sum
  length_le : ∀ range, payees.range = some range → 0 < range → (payees.list.length : ℤ) ≤ range

theorem WellFormed.total_eq_sum {payees : Payees} (h : payees.WellFormed) (hfair : payees.Fair) :
    payees.total = (payees.list.map Prod.snd).sum := by
  have hnonneg : 0 ≤ (payees.list.map Prod.snd).sum := by
    refine sum_nonneg fun a ha => ?_
    obtain ⟨p, hp, rfl⟩ := mem_map.1 ha
    exact hfair.nonneg p hp
  rw [h.total_eq]
  exact toInt64_of_range (by omega) hfair.sum_lt

end Payees

namespace PaymentsEnv

variable {env : PaymentsEnv} {plan : PaymentsPlan} {payees : Payees} {tx : CTransaction}

/-- The payees of a snapshot plan hold balances. -/
theorem snapshotPayees_spec (h : env.snapshotPayees plan = .ok payees) :
    plan.funcid = fid 'S' ∧ payees.WellFormed ∧ payees.Fair := by
  simp only [snapshotPayees, Checked.bind_eq_ok, require_eq_ok, defined_eq_ok, exists_const,
    decide_eq_true_eq] at h
  obtain ⟨-, -, top, -, -, ⟨⟨top, bottom⟩, fFixedAmount⟩, -, hkind, h⟩ := h
  obtain rfl := Checked.pure_eq_ok.1 h
  have hsub := getAllocations_sublist top bottom plan.excludeScriptPubKeys env.vAddressSnapshot
  have hall : ∀ a ∈ env.vAddressSnapshot.map Prod.fst, 0 ≤ a := by
    intro a ha
    obtain ⟨b, hb, rfl⟩ := mem_map.1 ha
    exact env.snapshot_nonneg b hb
  have hsum := hsub.sum_le_sum hall
  have hmax := env.maxMoney_lt
  have hsnapshot := env.snapshot_sum
  have hpos := sum_nonneg fun a ha => hall a (hsub.subset ha)
  refine ⟨hkind, ⟨?_, rfl, ?_⟩, ⟨?_, by dsimp only; omega⟩⟩
  · dsimp only
    rw [toInt64_of_range (by omega) (by omega)]
    exact hpos
  · rintro range hrange hrangePos
    dsimp only at hrange ⊢
    split_ifs at hrange
    cases hrange
    exact length_getAllocations _ hrangePos
  · intro p hp
    exact hall _ (hsub.subset (mem_map_of_mem hp))

theorem decodePayments_eq_some {α : Type} {funcid : Char} {body : Unserialize α} {s : CScript}
    {a : α} (h : decodePayments funcid body s = some a) : ∃ t, body t = some (a, []) := by
  unfold decodePayments at h
  dsimp only at h
  split_ifs at h
  simp only [Option.bind_eq_some_iff, Unserialize.unmarshal_eq_some, bind_apply] at h
  obtain ⟨⟨e, f, a'⟩, ⟨_, -, ⟨f', t⟩, -, ⟨a'', t'⟩, hbody, hpure⟩, h⟩ := h
  simp only [pure_apply, Option.some.injEq, Prod.mk.injEq] at hpure
  obtain ⟨⟨-, -, rfl⟩, rfl⟩ := hpure
  split_ifs at h
  cases h
  exact ⟨t, hbody⟩

/-- A plan sets `top` unless it lists its payees. -/
theorem decodePaymentsPlan_top {s : CScript} (h : decodePaymentsPlan s = some plan) :
    plan.funcid = fid 'C' ↔ plan.top = none := by
  have hS : fid 'S' ≠ fid 'C' := by decide
  have hO : fid 'O' ≠ fid 'C' := by decide
  simp only [decodePaymentsPlan, Option.or_eq_some_iff] at h
  rcases h with (h | ⟨-, h⟩) | ⟨-, h⟩
  · obtain ⟨t, ht⟩ := decodePayments_eq_some (Option.filter_eq_some_iff.1 h).1
    simp only [bind_apply, Option.bind_eq_some_iff] at ht
    obtain ⟨_, -, _, -, _, -, _, -, ht⟩ := ht
    simp only [pure_apply, Option.some.injEq, Prod.mk.injEq] at ht
    exact iff_of_true (ht.1 ▸ rfl) (ht.1 ▸ rfl)
  · obtain ⟨t, ht⟩ := decodePayments_eq_some h
    simp only [bind_apply, Option.bind_eq_some_iff] at ht
    obtain ⟨_, -, _, -, _, -, _, -, _, -, _, -, _, -, ht⟩ := ht
    simp only [pure_apply, Option.some.injEq, Prod.mk.injEq] at ht
    rw [← ht.1]
    exact iff_of_false hS (Option.some_ne_none _)
  · obtain ⟨t, ht⟩ := decodePayments_eq_some h
    simp only [bind_apply, Option.bind_eq_some_iff] at ht
    obtain ⟨_, -, _, -, _, -, _, -, _, -, _, -, _, -, ht⟩ := ht
    simp only [pure_apply, Option.some.injEq, Prod.mk.injEq] at ht
    rw [← ht.1]
    exact iff_of_false hO (Option.some_ne_none _)

/-- The payees of a plan whose values were checked. -/
theorem planPayees_spec {s : CScript} (hdecode : decodePaymentsPlan s = some plan)
    (hchecks : planChecks plan = .ok ()) (h : env.planPayees plan tx = .ok payees) :
    payees.WellFormed ∧ (plan.funcid = fid 'S' → payees.Fair) := by
  unfold planPayees at h
  split_ifs at h with hkind
  · simp only [Checked.bind_eq_ok, require_eq_ok, decide_eq_true_eq, exists_const] at h
    obtain ⟨list, -, htotal, h⟩ := h
    obtain rfl := Checked.pure_eq_ok.1 h
    simp only [planChecks, Checked.bind_eq_ok, require_eq_ok, defined_eq_ok, decide_eq_true_eq,
      exists_const] at hchecks
    obtain ⟨-, top, htop, -, -⟩ := hchecks
    refine ⟨⟨?_, htotal, fun range hrange => by cases hrange⟩, fun hS => ?_⟩
    · -- otherwise `top`, which was never set, would have been read
      by_contra hneg
      dsimp only at hneg
      rw [if_pos (by omega), (decodePaymentsPlan_top hdecode).1 hkind] at htop
      cases htop
    · rw [hkind] at hS
      exact absurd hS (by decide)
  · obtain ⟨-, hwell, hfair⟩ := snapshotPayees_spec h
    exact ⟨hwell, fun _ => hfair⟩

/-! ### The loop over the outputs -/

variable {minimum amountReleased : ℤ}

/-- One payment. -/
structure Pays (payees : Payees) (minimum amountReleased : ℤ) (p : CScript × ℤ) (out : CTxOut) :
    Prop where
  scriptPubKey : p.1 = out.scriptPubKey
  amount : expected payees amountReleased p.2 = .ok out.nValue
  minimum : minimum ≤ out.nValue

variable {outs : List CTxOut}

/-- The outputs pay the first payees one by one, and the others are left over. -/
theorem payLoop_eq_ok {list rest : List (CScript × ℤ)}
    (h : payLoop payees minimum amountReleased list outs = .ok rest) :
    ∃ paid, list = paid ++ rest ∧ List.Forall₂ (Pays payees minimum amountReleased) paid outs := by
  induction outs generalizing list with
  | nil =>
    rw [payLoop] at h
    exact ⟨[], Checked.pure_eq_ok.1 h, .nil⟩
  | cons out outs ih =>
    cases list with
    | nil => cases h
    | cons p list =>
      rw [payLoop] at h
      simp only [Checked.bind_eq_ok, require_eq_ok, decide_eq_true_eq, exists_const] at h
      obtain ⟨hscript, test, htest, rfl, hmin, h⟩ := h
      obtain ⟨paid, rfl, hpaid⟩ := ih h
      exact ⟨p :: paid, rfl, .cons ⟨hscript, htest, hmin⟩ hpaid⟩

variable {out : CTxOut}

theorem exists_pays {paid : List (CScript × ℤ)}
    (hpaid : List.Forall₂ (Pays payees minimum amountReleased) paid outs)
    (hout : out ∈ outs) : ∃ p, Pays payees minimum amountReleased p out := by
  induction hpaid with
  | nil => cases hout
  | @cons p o _ _ hp _ ih =>
    rcases mem_cons.1 hout with rfl | hout
    · exact ⟨p, hp⟩
    · exact ih hout

variable {p : CScript × ℤ}

theorem Pays.fixed {range : ℤ}
    (h : Pays payees minimum amountReleased p out) (hrange : payees.range = some range) :
    0 < range ∧ out.nValue = amountReleased.tdiv range := by
  have hamount := h.amount
  simp only [expected, hrange, Checked.bind_eq_ok, require_eq_ok, decide_eq_true_eq,
    exists_const, Checked.pure_eq_ok] at hamount
  exact ⟨hamount.1, hamount.2.symm⟩

theorem Pays.proportional
    (h : Pays payees minimum amountReleased p out) (hrange : payees.range = none) :
    payees.total ≠ 0 ∧ out.nValue = (toInt64 (p.2 * amountReleased)).tdiv payees.total := by
  have hamount := h.amount
  simp only [expected, hrange, defined_eq_ok, share] at hamount
  split_ifs at hamount with hzero
  exact ⟨hzero, (Option.some.inj hamount).symm⟩

theorem Pays.eq_ediv (h : Pays payees minimum amountReleased p out)
    (hwell : payees.WellFormed) (hmin : 0 < minimum) (hrange : payees.range = none) :
    0 < payees.total ∧ 0 ≤ toInt64 (p.2 * amountReleased)
      ∧ out.nValue = toInt64 (p.2 * amountReleased) / payees.total := by
  obtain ⟨hne, hvalue⟩ := h.proportional hrange
  have hpos : 0 < payees.total := lt_of_le_of_ne hwell.total_nonneg hne.symm
  have hpaid := h.minimum
  have hprod : 0 ≤ toInt64 (p.2 * amountReleased) := nonneg_of_tdiv_pos hpos (by omega)
  exact ⟨hpos, hprod, hvalue.trans (Int.tdiv_eq_ediv_of_nonneg hprod)⟩

theorem Pays.exact (h : Pays payees minimum amountReleased p out)
    (hwell : payees.WellFormed) (hmin : 0 < minimum) (hrange : payees.range = none)
    (hlow : -2 ^ 63 ≤ p.2 * amountReleased) (hhigh : p.2 * amountReleased < 2 ^ 63) :
    out.nValue = p.2 * amountReleased / payees.total := by
  have hvalue := (h.eq_ediv hwell hmin hrange).2.2
  rwa [toInt64_of_range hlow hhigh] at hvalue

theorem Pays.le (h : Pays payees minimum amountReleased p out)
    (hwell : payees.WellFormed) (hmin : 0 < minimum) (hrange : payees.range = none)
    (hprod : 0 ≤ p.2 * amountReleased) : out.nValue ≤ p.2 * amountReleased / payees.total := by
  obtain ⟨hpos, -, hvalue⟩ := h.eq_ediv hwell hmin hrange
  rw [hvalue]
  exact Int.ediv_le_ediv hpos (toInt64_le_of_nonneg hprod)

theorem sum_le_of_shares {paid : List (CScript × ℤ)}
    (hpaid : List.Forall₂ (Pays payees minimum amountReleased) paid outs)
    (hwell : payees.WellFormed) (hmin : 0 < minimum) (hrange : payees.range = none)
    (hamount : 0 ≤ amountReleased) (hnonneg : ∀ p ∈ paid, 0 ≤ p.2) :
    (outs.map CTxOut.nValue).sum
      ≤ ((paid.map Prod.snd).map fun part => part * amountReleased / payees.total).sum := by
  induction hpaid with
  | nil => exact le_rfl
  | cons hp _ ih =>
    rw [forall_mem_cons] at hnonneg
    simp only [map_cons, sum_cons]
    exact add_le_add (hp.le hwell hmin hrange (mul_nonneg hnonneg.1 hamount)) (ih hnonneg.2)

/-- **No more than the amount released.** -/
theorem sum_paid_le {paid rest : List (CScript × ℤ)}
    (hlist : payees.list = paid ++ rest)
    (hpaid : List.Forall₂ (Pays payees minimum amountReleased) paid outs)
    (hwell : payees.WellFormed) (hfair : payees.Fair) (hmin : 0 < minimum)
    (hamount : 0 ≤ amountReleased) : (outs.map CTxOut.nValue).sum ≤ amountReleased := by
  cases hpaid with
  | nil => exact hamount
  | @cons p out paid outs hp hrest =>
    cases hrange : payees.range with
    | some range =>
      obtain ⟨hpos, -⟩ := hp.fixed hrange
      have hlength := hwell.length_le range hrange hpos
      have hcount : ((out :: outs).map CTxOut.nValue).length ≤ payees.list.length := by
        rw [length_map, ← (List.Forall₂.cons hp hrest).length_eq, hlist, length_append]
        omega
      have hvalue : ∀ x ∈ (out :: outs).map CTxOut.nValue, x = amountReleased.tdiv range := by
        intro x hx
        obtain ⟨o, ho, rfl⟩ := mem_map.1 hx
        obtain ⟨q, hq⟩ := exists_pays (.cons hp hrest) ho
        exact (hq.fixed hrange).2
      refine sum_le_of_forall_eq hvalue ?_
      rw [Int.tdiv_eq_ediv_of_nonneg hamount]
      calc (((out :: outs).map CTxOut.nValue).length : ℤ) * (amountReleased / range)
          ≤ range * (amountReleased / range) :=
            mul_le_mul_of_nonneg_right (by omega) (Int.ediv_nonneg hamount hpos.le)
        _ ≤ amountReleased := Int.mul_ediv_self_le hpos.ne'
    | none =>
      have hnonneg : ∀ q ∈ p :: paid, 0 ≤ q.2 := fun q hq =>
        hfair.nonneg q (hlist ▸ mem_append_left _ hq)
      have hshares := sum_le_of_shares (.cons hp hrest) hwell hmin hrange hamount hnonneg
      refine hshares.trans (sum_share_le hamount (hp.eq_ediv hwell hmin hrange).1 ?_)
      rw [hwell.total_eq_sum hfair, hlist, map_append, sum_append]
      refine le_add_of_nonneg_right (sum_nonneg fun a ha => ?_)
      obtain ⟨q, hq, rfl⟩ := mem_map.1 ha
      exact hfair.nonneg q (hlist ▸ mem_append_right _ hq)

end PaymentsEnv

/-! ### A release -/

/-- What a payee receives: in a plan with a fixed amount the amount for one place, in any
other plan the exact share, if its product fits in 64 bits. -/
structure Payees.Receives (payees : Payees) (amountReleased : ℤ) (p : CScript × ℤ)
    (out : CTxOut) : Prop where
  scriptPubKey : p.1 = out.scriptPubKey
  fixed : ∀ range, payees.range = some range → out.nValue = amountReleased / range
  proportional : payees.range = none → -2 ^ 63 ≤ p.2 * amountReleased →
    p.2 * amountReleased < 2 ^ 63 → out.nValue = p.2 * amountReleased / payees.total

open PaymentsEnv in
/-- **What a release pays.** The outputs of an accepted release pay a prefix of the payees of
the plan in order, each of them the amount of its kind of plan and at least the minimum.
Together they are at most the amount released, for a snapshot plan and for any other
whose allocations are not negative and add up to less than `2 ^ 63`. -/
theorem release_pays {env : PaymentsEnv} {tx : CTransaction} {createtxid : Uint256}
    {amountReleased : ℤ} (hkind : env.paymentsKind tx = .ok (createtxid, some amountReleased))
    (h : env.paymentsValidate tx = .ok ()) :
    ∃ plantx plan payees paid, env.lookup createtxid = some plantx
      ∧ decodePaymentsPlan (opretOf plantx) = some plan ∧ env.planPayees plan tx = .ok payees
      ∧ paid <+: payees.list
      ∧ List.Forall₂ (fun p out => payees.Receives amountReleased p out
          ∧ plan.minimum ≤ out.nValue) paid (paidOutputs tx)
      ∧ (plan.funcid = fid 'S' ∨ payees.Fair →
        ((paidOutputs tx).map CTxOut.nValue).sum ≤ amountReleased) := by
  simp only [paymentsValidate, Checked.bind_eq_ok, hkind, Except.ok.injEq, exists_eq_left',
    expect_eq_ok, Option.filter_eq_some_iff] at h
  obtain ⟨plantx, ⟨hplantx, -⟩, plan, hplan, ⟨⟩, hchecks, ⟨⟩, -, _, -, ⟨⟩, -, ⟨⟩, hrelease, -⟩ := h
  simp only [releaseChecks, validateRelease, Checked.bind_eq_ok, require_eq_ok, decide_eq_true_eq,
    exists_const] at hrelease
  obtain ⟨hminrelease, payees, hpayees, -, rest, hloop, -⟩ := hrelease
  obtain ⟨hwell, hsnapshot⟩ := planPayees_spec hplan hchecks hpayees
  obtain ⟨paid, hlist, hpaid⟩ := payLoop_eq_ok hloop
  simp only [planChecks, Checked.bind_eq_ok, require_eq_ok, decide_eq_true_eq,
    exists_const] at hchecks
  obtain ⟨⟨-, hrelease⟩, _, -, -, hminimum⟩ := hchecks
  have hamount : 0 ≤ amountReleased := by
    have : 0 ≤ plan.minrelease * COIN := mul_nonneg hrelease (by decide)
    omega
  refine ⟨plantx, plan, payees, paid, hplantx, hplan, hpayees, ⟨rest, hlist.symm⟩, ?_, ?_⟩
  · refine hpaid.imp fun p out hp => ⟨⟨hp.scriptPubKey, fun range hrange => ?_,
      hp.exact hwell (by omega)⟩, hp.minimum⟩
    rw [(hp.fixed hrange).2, Int.tdiv_eq_ediv_of_nonneg hamount]
  · intro hfair
    exact sum_paid_le hlist hpaid hwell (hfair.elim hsnapshot id) (by omega) hamount

/-! ### A fixed amount, a product that wraps, a list cut short -/

namespace PaymentsSample

/-- `cc_conditionBinary(MakeCCcond1of2(EVAL_PAYMENTS, paymentsPk, txidPk 1))`. -/
def planCondition : Bytes :=
  [0xa2, 0x2c, 0x80, 0x20, 0xed, 0xfc, 0x9d, 0xa4, 0xcd, 0x19, 0x6f, 0x98, 0x0d, 0xbe, 0x12,
   0x73, 0x7d, 0x70, 0xde, 0x7a, 0xbb, 0xe7, 0x1b, 0xc9, 0xa1, 0xc3, 0x09, 0xc5, 0xea, 0x56,
   0x82, 0x90, 0x20, 0xd5, 0x3d, 0xfc, 0x81, 0x03, 0x12, 0x10, 0x00, 0x82, 0x03, 0x00, 0x04,
   0x01]

/-- An output at the address of the plan with attached data, as `MakeCC1of2vout` makes it. -/
def planScript (opret : CScript) : CScript :=
  pushData planCondition ++ [OP_CHECKCRYPTOCONDITION]
    ++ pushData ([4, 1, EVAL_PAYMENTS, 1, 2] ++ pushData opret) ++ [OP_DROP]

/-- The scripts of three payees. -/
def payee (n : UInt8) : CScript := payToPubkey (0x02 :: List.replicate 32 n)

/-- The transaction that names a payee. -/
def payeeTx (hash allocation : ℕ) (scriptPubKey : CScript) : CTransaction where
  hash := hash
  vin := [⟨⟨90, 0⟩, [], 0⟩]
  vout := [⟨10000, payToPubkey PaymentsEnv.paymentsPk⟩, ⟨0, opReturnScript
    ([EVAL_PAYMENTS, fid 'T'] ++ leBytes 8 allocation ++ vectorBytes scriptPubKey ++ [0])⟩]

/-- The plan, transaction 1. -/
def planTx (payload : Bytes) : CTransaction where
  hash := 1
  vin := [⟨⟨90, 1⟩, [], 0⟩]
  vout := [⟨10000, payToPubkey PaymentsEnv.paymentsPk⟩, ⟨0, opReturnScript payload⟩]

/-- A plan that lists payees by their transactions. -/
def listPlan (totalallocations : ℕ) (txids : List Uint256) : Bytes :=
  [EVAL_PAYMENTS, fid 'C'] ++ leBytes 4 0 ++ leBytes 4 0 ++ leBytes 8 totalallocations
    ++ compactSizeBytes txids.length ++ txids.flatMap uint256Bytes

/-- A plan for the first two addresses of the snapshot, with a fixed amount. -/
def fixedPlan : Bytes :=
  [EVAL_PAYMENTS, fid 'S'] ++ leBytes 4 0 ++ leBytes 4 0 ++ leBytes 4 10000 ++ leBytes 4 2
    ++ leBytes 4 0 ++ [1] ++ [0]

/-- The funds of the plan: 100 coins. -/
def fundTx : CTransaction where
  hash := 2
  vin := [⟨⟨90, 2⟩, [], 0⟩]
  vout := [⟨10000000000, planScript (opReturnScript ([EVAL_PAYMENTS, fid 'R'] ++ uint256Bytes 1
    ++ leBytes 8 0))⟩]

/-- A release, with what it pays and the change. -/
def release (amountReleased change : ℕ) (paid : List CTxOut) : CTransaction where
  hash := 3
  vin := [⟨⟨2, 0⟩, [], 0⟩]
  vout := ⟨change, planScript (opReturnScript ([EVAL_PAYMENTS, fid 'R'] ++ uint256Bytes 1
    ++ leBytes 8 amountReleased))⟩ :: paid

/-- `MAX_MONEY` of the chain. -/
def maxMoney : ℤ := 2100000000000000

/-- A node that has seen a plan, its payees and its funds. -/
def envOf (payload : Bytes) (payees : List CTransaction)
    (hwithin : amountsWithin (planTx payload :: fundTx :: payees) maxMoney = true) :
    PaymentsEnv where
  conditionBinary
    | .threshold 2 2 [.eval [0xf0], .threshold 1 2 [.secp256k1 _ _, .secp256k1 _ _]] =>
      planCondition
    | _ => []
  readFulfillmentBinary _ := none
  anonPublicKey _ := []
  anonHasCode _ _ := false
  solver _ := none
  hash160 _ := []
  -- the address is that of the condition, whatever data is attached
  getscriptaddress s :=
    if (pushData planCondition ++ [OP_CHECKCRYPTOCONDITION]).isPrefixOf s then
      some "RGqhtQpSZ2voKt2sSCm5oWrrGT7gJBL64y"
    else none
  getTransaction := findTx (planTx payload :: fundTx :: payees) 100
  blockIndex h := if h = 100 then some ⟨10, 1600000000⟩ else none
  tip := ⟨1000, 1600100000⟩
  lastNotarizedHeight := 500
  sha256 b := b
  maxMoney := maxMoney
  maxMoney_lt := by decide
  getValueIn := valueIn (planTx payload :: fundTx :: payees)
  hash_of_lookup h := (findTx_eq_some h).2
  nValue_of_lookup h := nValue_of_findTx hwithin h
  snapshotInterval := 1440
  vAddressSnapshot := [(300000000, payee 1), (100000000, payee 2)]
  snapshotHash := some 0
  snapshot_nonneg := by decide
  snapshot_sum := by decide

/-- Two payees with a quarter and three quarters. -/
def honestEnv : PaymentsEnv :=
  envOf (listPlan 4 [11, 12]) [payeeTx 11 1 (payee 1), payeeTx 12 3 (payee 2)] (by decide)

/-- A release of 400000 satoshis to them. -/
def honestRelease : CTransaction :=
  release 400000 9999590000 [⟨100000, payee 1⟩, ⟨300000, payee 2⟩]

/-- What is decoded of the plan with a fixed amount: `totalallocations` is made of the bytes
of the minimum and of `top`. -/
def fixedDecoded : PaymentsPlan := ⟨fid 'S', 0, 0, 10000, some 2, 0, 1, [], 8589944592, []⟩

/-- A fixed amount for the first two addresses of the snapshot. -/
def fixedEnv : PaymentsEnv := envOf fixedPlan [] (by decide)

/-- A release of 200000 satoshis to them. -/
def fixedRelease : CTransaction :=
  release 200000 9999790000 [⟨100000, payee 1⟩, ⟨100000, payee 2⟩]

/-- Two payees with 50 coins each for their allocations. -/
def largeEnv : PaymentsEnv :=
  envOf (listPlan 10000000000 [11, 12])
    [payeeTx 11 5000000000 (payee 1), payeeTx 12 5000000000 (payee 2)] (by decide)

/-- A release of 40 coins, where each receives one coin and a half. -/
def largeRelease : CTransaction :=
  release 4000000000 9689338816 [⟨155325592, payee 1⟩, ⟨155325592, payee 2⟩]

/-- Three payees, of which the last has no share. -/
def shortEnv : PaymentsEnv :=
  envOf (listPlan 2 [11, 12, 13])
    [payeeTx 11 1 (payee 1), payeeTx 12 1 (payee 2), payeeTx 13 0 (payee 3)] (by decide)

/-- What is decoded of that plan. -/
def shortDecoded : PaymentsPlan := ⟨fid 'C', 0, 0, 10000, none, 0, 0, [], 2, [11, 12, 13]⟩

/-- A release of 200000 satoshis that pays the first one. -/
def shortRelease : CTransaction := release 200000 9999890000 [⟨100000, payee 1⟩]

end PaymentsSample

open PaymentsSample PaymentsEnv in
/-- The hypotheses of `release_pays` are satisfiable: two payees receive their shares. -/
theorem release_pays_quarters :
    honestEnv.paymentsValidate honestRelease = .ok ()
      ∧ ∃ (payees : Payees) (paid : List (CScript × ℤ)), paid <+: payees.list
        ∧ List.Forall₂ (payees.Receives 400000) paid [⟨100000, payee 1⟩, ⟨300000, payee 2⟩] := by
  have haccepted : honestEnv.paymentsValidate honestRelease = .ok () := by decide +kernel
  have hkind : honestEnv.paymentsKind honestRelease = .ok (1, some 400000) := by decide
  obtain ⟨_, _, payees, paid, -, -, -, hprefix, hpaid, -⟩ := release_pays hkind haccepted
  have houts : paidOutputs honestRelease = [⟨100000, payee 1⟩, ⟨300000, payee 2⟩] := by
    decide
  rw [houts] at hpaid
  exact ⟨haccepted, payees, paid, hprefix, hpaid.imp fun _ _ h => h.1⟩

open PaymentsSample PaymentsEnv in
/-- Releases are accepted that do not pay the exact shares to all: with a fixed amount the
first of two payees receives half where its share is three quarters; a product that wraps
around pays a coin and a half instead of 20; and the second of two equal payees is left
out when the third has nothing. -/
theorem release_not_exact :
    (fixedEnv.paymentsValidate fixedRelease = .ok ()
      ∧ fixedEnv.paymentsKind fixedRelease = .ok (1, some 200000)
      ∧ decodePaymentsPlan (opretOf (planTx fixedPlan)) = some fixedDecoded
      ∧ fixedEnv.planPayees fixedDecoded fixedRelease
        = .ok ⟨[(payee 1, 300000000), (payee 2, 100000000)], 400000000, some 2⟩
      ∧ (paidOutputs fixedRelease).head? = some ⟨100000, payee 1⟩
      ∧ (100000 : ℤ) ≠ 300000000 * 200000 / 400000000)
    ∧ (largeEnv.paymentsValidate largeRelease = .ok ()
      ∧ largeEnv.paymentsKind largeRelease = .ok (1, some 4000000000)
      ∧ (paidOutputs largeRelease).head? = some ⟨155325592, payee 1⟩
      ∧ (155325592 : ℤ) ≠ 5000000000 * 4000000000 / 10000000000)
    ∧ (shortEnv.paymentsValidate shortRelease = .ok ()
      ∧ shortEnv.paymentsKind shortRelease = .ok (1, some 200000)
      ∧ decodePaymentsPlan (opretOf (planTx (listPlan 2 [11, 12, 13]))) = some shortDecoded
      ∧ shortEnv.planPayees shortDecoded shortRelease
        = .ok ⟨[(payee 1, 1), (payee 2, 1), (payee 3, 0)], 2, none⟩
      ∧ shortDecoded.minimum ≤ 1 * 200000 / 2
      ∧ ∀ out ∈ paidOutputs shortRelease, out.scriptPubKey ≠ payee 2) := by
  refine ⟨⟨?_, ?_, ?_, ?_, ?_, by decide⟩, ⟨?_, ?_, ?_, by decide⟩, ?_, ?_, ?_, ?_, by decide, ?_⟩
  all_goals decide +kernel

end Komodo
