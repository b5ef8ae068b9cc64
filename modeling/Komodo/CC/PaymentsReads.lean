/-
# What the payments contract indexes, divides by and dereferences

`PaymentsValidate`, `payments_game` and `payments_lockedblocks` of `src/src/cc/payments.cpp`.

The loop over the outputs runs to the end of the outputs of the transaction and takes a payee of the
plan for each; after it, the payee after the next one is looked at where any is left over.  The
share of an allocation is divided by the sum of all, which is zero for a snapshot plan without
balances.  The output that an input spends is read where its transaction is found, and the block of
that transaction is dereferenced when it is not found, as for one of the mempool.

`staysInside_iff` says that these are the only ways to go wrong.  `paymentsValidate_undefined_iff`
ties the steps of which it speaks to the chain of checks: apart from them, the chain leaves the
language only where an output 0 or attached data is missing, or `top` was never set.
-/

import Komodo.CC.PaymentsShares

namespace Komodo

open Streams List Checked

namespace PaymentsEnv

section
variable (env : PaymentsEnv) (tx : CTransaction)

/-! ### The steps -/

/-- The checks before those of a release and of the inputs are passed. -/
structure Passed (createtxid : Uint256) (kind : Option ℤ) (plan : PaymentsPlan) : Prop where
  kind : env.paymentsKind tx = .ok (createtxid, kind)
  decodes : ∃ plantx, (env.lookup createtxid).filter (·.vout ≠ []) = some plantx
    ∧ decodePaymentsPlan (opretOf plantx) = some plan
  values : planChecks plan = .ok ()
  fee : env.checkTxFee tx (PAYMENTS_TXFEE + 1) "txfee is too high" = .ok ()
  change : ∃ paid, env.isPaymentsvout tx 0 (env.planAddress createtxid) [] = .ok paid ∧ paid.1 ≠ 0

/-- A release comes to its payees. -/
structure Pending (plan : PaymentsPlan) (amountReleased : ℤ) : Prop where
  passed : ∃ createtxid, env.Passed tx createtxid (some amountReleased) plan
  minrelease : plan.minrelease * COIN ≤ amountReleased

/-- A release comes to its outputs. -/
structure Releases (plan : PaymentsPlan) (amountReleased : ℤ) (payees : Payees) : Prop
    extends env.Pending tx plan amountReleased where
  collected : env.planPayees plan tx = .ok payees
  missing : payees.list ≠ []

/-- A release of a plan with the game setting comes to the block of the snapshot. -/
structure Plays (plan : PaymentsPlan) : Prop where
  pending : ∃ amountReleased, env.Pending tx plan amountReleased
  kind : plan.funcid ≠ fid 'C'
  activated : env.snapshotInterval ≠ 0
  snapshot : env.vAddressSnapshot ≠ []
  top : ∃ top, plan.top = some top ∧ top ≤ 3999
  game : plan.fixedAmount = 7

/-- The loop over the inputs comes to `i`, after those before it, and finds its transaction. -/
structure Reaches (createtxid : Uint256) (kind : Option ℤ) (plan : PaymentsPlan)
    (before : List CTxIn) (i : CTxIn) (txin : CTransaction) (blockhash : Uint256) : Prop where
  passed : env.Passed tx createtxid kind plan
  released : env.releaseChecks plan tx kind = .ok ()
  vin : ∃ after, tx.vin = before ++ i :: after
  found : env.getTransaction i.prevout.hash = some (txin, blockhash)

/-- An input passes its checks. -/
def VinPasses (createtxid : Uint256) (kind : Option ℤ) (plan : PaymentsPlan) (i : CTxIn) : Prop :=
  ∃ txin blockhash offset, env.getTransaction i.prevout.hash = some (txin, blockhash)
    ∧ i.prevout.n < txin.vout.length
    ∧ env.vinOffset createtxid kind.isNone txin i.prevout.n = .ok offset
    ∧ env.lockedBlocks blockhash (plan.lockedblocks + offset) = .ok ()

/-- The validator indexes the payees inside their number, divides by a sum that is not zero,
dereferences a block that is there, and reads outputs that a transaction has. -/
structure StaysInside : Prop where
  payees : ∀ plan amountReleased payees paid out more rest,
    env.Releases tx plan amountReleased payees → paidOutputs tx = paid ++ out :: more →
    payLoop payees plan.minimum amountReleased payees.list paid = .ok rest →
    paid.length < payees.list.length
  share : ∀ plan amountReleased payees paid out more p rest,
    env.Releases tx plan amountReleased payees → paidOutputs tx = paid ++ out :: more →
    payLoop payees plan.minimum amountReleased payees.list paid = .ok (p :: rest) →
    p.1 = out.scriptPubKey → payees.range = none → payees.total ≠ 0
  next : ∀ plan amountReleased payees rest, env.Releases tx plan amountReleased payees →
    payLoop payees plan.minimum amountReleased payees.list (paidOutputs tx) = .ok rest →
    (paidOutputs tx).length < payees.list.length →
    (paidOutputs tx).length + 1 < payees.list.length ∧ payees.total ≠ 0
  game : ∀ plan, env.Plays tx plan → env.snapshotHash ≠ none
  output : ∀ createtxid kind plan before i txin blockhash dust,
    env.Reaches tx createtxid kind plan before i txin blockhash →
    env.checkVins plan createtxid kind.isNone before = .ok dust →
    i.prevout.n < txin.vout.length
  block : ∀ createtxid kind plan before i txin blockhash dust offset,
    env.Reaches tx createtxid kind plan before i txin blockhash →
    env.checkVins plan createtxid kind.isNone before = .ok dust →
    i.prevout.n < txin.vout.length →
    env.vinOffset createtxid kind.isNone txin i.prevout.n = .ok offset →
    env.blockIndex blockhash ≠ none

/-- The data attached to an output has less than the six bytes that are passed over. -/
def ShortData (out : CTxOut) : Prop :=
  ∃ param, payToCryptoCondition out.scriptPubKey = some [param] ∧ param.length < 6

/-- The other steps without a meaning: an output 0 that is not there, attached data that is too
short, and `top` where it was never set. -/
inductive Unread : Prop
  | vout (empty : tx.vout = [])
  | change {out : CTxOut} (first : tx.vout[0]? = some out) (short : ShortData out)
  | top {createtxid : Uint256} {kind : Option ℤ} {plan : PaymentsPlan}
    (decoded : env.paymentsKind tx = .ok (createtxid, kind))
    (decodes : ∃ plantx, (env.lookup createtxid).filter (·.vout ≠ []) = some plantx
      ∧ decodePaymentsPlan (opretOf plantx) = some plan)
    (nonneg : 0 ≤ plan.lockedblocks ∧ 0 ≤ plan.minrelease)
    (unset : plan.totalallocations ≤ 0 ∧ plan.top = none)
  | data {createtxid : Uint256} {kind : Option ℤ} {plan : PaymentsPlan} {before : List CTxIn}
    {i : CTxIn} {txin : CTransaction} {blockhash : Uint256} {out : CTxOut}
    (reaches : env.Reaches tx createtxid kind plan before i txin blockhash)
    (earlier : ∀ j ∈ before, env.VinPasses createtxid kind plan j)
    (spent : txin.vout[i.prevout.n]? = some out) (short : ShortData out)

/-- What the validator does not test. -/
structure Regular : Prop where
  outputs : ∀ plan amountReleased payees paid out more,
    env.Releases tx plan amountReleased payees → paidOutputs tx = paid ++ out :: more →
    ¬ List.Forall₂ (Pays payees plan.minimum amountReleased) payees.list paid
  left : ∀ plan amountReleased payees paid p, env.Releases tx plan amountReleased payees →
    payees.list = paid ++ [p] →
    ¬ List.Forall₂ (Pays payees plan.minimum amountReleased) paid (paidOutputs tx)
  balance : ∀ plan amountReleased payees p rest, env.Releases tx plan amountReleased payees →
    plan.funcid = fid 'S' → payees.range = none → payees.list = p :: rest →
    (∀ out, (paidOutputs tx).head? = some out → p.1 = out.scriptPubKey) →
    ∃ q ∈ payees.list, q.2 ≠ 0
  fixed : ∀ plan amountReleased payees range paid p rest,
    env.Releases tx plan amountReleased payees → plan.funcid = fid 'S' →
    payees.range = some range → payees.list = paid ++ p :: rest →
    List.Forall₂ (Pays payees plan.minimum amountReleased) paid (paidOutputs tx) →
    ∃ q ∈ payees.list, q.2 ≠ 0
  game : ∀ plan, env.Plays tx plan → env.snapshotHash ≠ none
  vins : ∀ createtxid kind plan before i txin blockhash,
    env.Reaches tx createtxid kind plan before i txin blockhash →
    (∀ j ∈ before, env.VinPasses createtxid kind plan j) →
    i.prevout.n < txin.vout.length ∧
      ((∃ offset, env.vinOffset createtxid kind.isNone txin i.prevout.n = .ok offset) →
        ∃ b, env.blockIndex blockhash = some b)

end

section
variable {env : PaymentsEnv} {tx : CTransaction} {plan : PaymentsPlan} {payees : Payees}
  {amountReleased minimum : ℤ} {createtxid : Uint256} {kind : Option ℤ}

/-! ### The loop over the outputs -/

variable {outs : List CTxOut}

variable {rest list : List (CScript × ℤ)}

theorem payLoop_append {paid : List (CScript × ℤ)}
    (hpaid : List.Forall₂ (Pays payees minimum amountReleased) paid outs) (more : List CTxOut) :
    payLoop payees minimum amountReleased (paid ++ rest) (outs ++ more)
      = payLoop payees minimum amountReleased rest more := by
  induction hpaid with
  | nil => rfl
  | cons hp _ ih =>
    rw [cons_append, cons_append, payLoop, ← ih]
    simp only [hp.scriptPubKey, hp.amount, hp.minimum, require, bind, Except.bind, decide_true,
      if_true]

theorem payLoop_eq_ok_iff {list rest : List (CScript × ℤ)} :
    payLoop payees minimum amountReleased list outs = .ok rest ↔ ∃ paid, list = paid ++ rest
      ∧ List.Forall₂ (Pays payees minimum amountReleased) paid outs := by
  refine ⟨payLoop_eq_ok, ?_⟩
  rintro ⟨paid, rfl, hpaid⟩
  have happend : payLoop payees minimum amountReleased (paid ++ rest) (outs ++ []) = _ :=
    payLoop_append hpaid []
  rw [append_nil] at happend
  rw [happend, payLoop]
  rfl

theorem expected_undefined_iff {allocation : ℤ} :
    expected payees amountReleased allocation = .error .undefined
      ↔ payees.range = none ∧ payees.total = 0 := by
  unfold expected share
  cases payees.range with
  | some range =>
    simp only [bind_eq_error, require_ne_undefined, pure_ne_error, and_false,
      exists_false, or_false, reduceCtorEq, false_and]
  | none => simp

/-- The loop goes wrong at an output for which there is no payee, or no share. -/
theorem payLoop_undefined_iff :
    payLoop payees minimum amountReleased list outs = .error .undefined
      ↔ ∃ paid out more, outs = paid ++ out :: more
        ∧ (payLoop payees minimum amountReleased list paid = .ok []
          ∨ ∃ p rest, payLoop payees minimum amountReleased list paid = .ok (p :: rest)
            ∧ p.1 = out.scriptPubKey ∧ payees.range = none ∧ payees.total = 0) := by
  constructor
  · intro h
    induction outs generalizing list with
    | nil =>
      rw [payLoop] at h
      cases h
    | cons out outs ih =>
      cases list with
      | nil => exact ⟨[], out, outs, rfl, .inl rfl⟩
      | cons p list =>
        rw [payLoop] at h
        simp only [bind_eq_error, require_ne_undefined, false_or, require_eq_ok,
          exists_const, decide_eq_true_eq, expected_undefined_iff] at h
        obtain ⟨hscript, ⟨hrange, htotal⟩ | ⟨test, htest, rfl, hmin, h⟩⟩ := h
        · exact ⟨[], out, outs, rfl, .inr ⟨p, list, rfl, hscript, hrange, htotal⟩⟩
        · have hp : Pays payees minimum amountReleased p out := ⟨hscript, htest, hmin⟩
          have hnext : ∀ rest paid, payLoop payees minimum amountReleased list paid = .ok rest →
              payLoop payees minimum amountReleased (p :: list) (out :: paid) = .ok rest := by
            intro rest paid hrest
            obtain ⟨done, rfl, hdone⟩ := payLoop_eq_ok hrest
            exact payLoop_eq_ok_iff.2 ⟨p :: done, rfl, .cons hp hdone⟩
          obtain ⟨paid, out', more, rfl, hend | ⟨q, rest, hend, hshare⟩⟩ := ih h
          · exact ⟨out :: paid, out', more, rfl, .inl (hnext _ _ hend)⟩
          · exact ⟨out :: paid, out', more, rfl, .inr ⟨q, rest, hnext _ _ hend, hshare⟩⟩
  · rintro ⟨paid, out, more, rfl, hend | ⟨p, rest, hend, hscript, hrange, htotal⟩⟩
    · obtain ⟨done, rfl, hdone⟩ := payLoop_eq_ok hend
      rw [payLoop_append hdone]
      rfl
    · obtain ⟨done, rfl, hdone⟩ := payLoop_eq_ok hend
      rw [payLoop_append hdone, payLoop]
      refine bind_eq_error.2 (.inr ⟨(), by simp [hscript], ?_⟩)
      exact bind_eq_error.2 (.inl (expected_undefined_iff.2 ⟨hrange, htotal⟩))

theorem length_of_payLoop (h : payLoop payees minimum amountReleased list outs = .ok rest) :
    list.length = outs.length + rest.length := by
  obtain ⟨paid, rfl, hpaid⟩ := payLoop_eq_ok h
  rw [length_append, hpaid.length_eq]

theorem lookAhead_undefined_iff :
    lookAhead payees minimum amountReleased rest = .error .undefined
      ↔ rest ≠ [] ∧ (rest.length = 1 ∨ payees.total = 0) := by
  cases rest with
  | nil => simp [lookAhead, pure_ne_error]
  | cons p rest =>
    cases rest with
    | nil => simp [lookAhead, bind_eq_error]
    | cons q rest => simp [lookAhead, share, bind_eq_error]

/-! ### The loop over the inputs -/

/-- What goes wrong at an input whose transaction is found. -/
inductive VinFails (env : PaymentsEnv) (createtxid : Uint256) (kind : Option ℤ)
    (plan : PaymentsPlan) (i : CTxIn) (txin : CTransaction) (blockhash : Uint256) : Prop
  | output (outside : txin.vout.length ≤ i.prevout.n)
  | data (inside : i.prevout.n < txin.vout.length)
    (short : env.vinOffset createtxid kind.isNone txin i.prevout.n = .error .undefined)
  | block {offset : ℤ} (inside : i.prevout.n < txin.vout.length)
    (passes : env.vinOffset createtxid kind.isNone txin i.prevout.n = .ok offset)
    (missing : env.blockIndex blockhash = none)

theorem checkVins_eq_ok_iff {vin : List CTxIn} :
    (∃ dust, env.checkVins plan createtxid kind.isNone vin = .ok dust)
      ↔ ∀ i ∈ vin, env.VinPasses createtxid kind plan i := by
  induction vin with
  | nil => exact ⟨fun _ => nofun, fun _ => ⟨0, rfl⟩⟩
  | cons i vin ih =>
    rw [forall_mem_cons, ← ih]
    unfold VinPasses
    simp only [checkVins, bind_eq_ok, expect_eq_ok, defined_eq_ok, pure_eq_ok, Prod.exists]
    constructor
    · rintro ⟨_, txin, blockhash, hfound, out, hout, offset, hoffset, ⟨⟩, hblock, dust, hdust, -⟩
      exact ⟨⟨txin, blockhash, offset, hfound, (List.getElem?_eq_some_iff.1 hout).1, hoffset,
        hblock⟩, dust, hdust⟩
    · rintro ⟨⟨txin, blockhash, offset, hfound, hlt, hoffset, hblock⟩, dust, hdust⟩
      exact ⟨_, txin, blockhash, hfound, _, getElem?_eq_getElem hlt, offset, hoffset, (),
        hblock, dust, hdust, rfl⟩

/-- The loop goes wrong at the first input that does not pass its checks. -/
theorem checkVins_undefined_iff {vin : List CTxIn} :
    env.checkVins plan createtxid kind.isNone vin = .error .undefined
      ↔ ∃ before i after txin blockhash, vin = before ++ i :: after
        ∧ (∀ j ∈ before, env.VinPasses createtxid kind plan j)
        ∧ env.getTransaction i.prevout.hash = some (txin, blockhash)
        ∧ VinFails env createtxid kind plan i txin blockhash := by
  have hstep : ∀ (i : CTxIn) (vin : List CTxIn),
      env.checkVins plan createtxid kind.isNone (i :: vin) = .error .undefined
      ↔ (∃ txin blockhash, env.getTransaction i.prevout.hash = some (txin, blockhash)
          ∧ VinFails env createtxid kind plan i txin blockhash)
        ∨ env.VinPasses createtxid kind plan i
          ∧ env.checkVins plan createtxid kind.isNone vin = .error .undefined := by
    intro i vin
    unfold VinPasses
    simp only [checkVins, bind_eq_error, expect_ne_undefined, false_or, expect_eq_ok,
      defined_eq_undefined, defined_eq_ok, getElem?_eq_none_iff, pure_ne_error,
      and_false, exists_false, or_false, Prod.exists, lockedBlocks, require_ne_undefined,
      bind_eq_ok, require_eq_ok]
    constructor
    · rintro ⟨txin, blockhash, hfound, hlong | ⟨out, hout, hdata | ⟨offset, hoffset, hmissing |
        ⟨⟨⟩, ⟨b, hb, hdeep⟩, hrest⟩⟩⟩⟩
      · exact .inl ⟨txin, blockhash, hfound, .output hlong⟩
      · exact .inl ⟨txin, blockhash, hfound, .data (List.getElem?_eq_some_iff.1 hout).1 hdata⟩
      · exact .inl ⟨txin, blockhash, hfound, .block (List.getElem?_eq_some_iff.1 hout).1 hoffset
          hmissing⟩
      · exact .inr ⟨⟨txin, blockhash, offset, hfound, (List.getElem?_eq_some_iff.1 hout).1,
          hoffset, b, hb, hdeep⟩, hrest⟩
    · rintro (⟨txin, blockhash, hfound, hlong | ⟨hlt, hdata⟩ | ⟨hlt, hoffset, hmissing⟩⟩ |
        ⟨⟨txin, blockhash, offset, hfound, hlt, hoffset, b, hb, hdeep⟩, hrest⟩)
      · exact ⟨txin, blockhash, hfound, .inl hlong⟩
      · exact ⟨txin, blockhash, hfound, .inr ⟨_, getElem?_eq_getElem hlt, .inl hdata⟩⟩
      · exact ⟨txin, blockhash, hfound, .inr ⟨_, getElem?_eq_getElem hlt, .inr ⟨_, hoffset,
          .inl hmissing⟩⟩⟩
      · exact ⟨txin, blockhash, hfound, .inr ⟨_, getElem?_eq_getElem hlt, .inr ⟨offset,
          hoffset, .inr ⟨(), ⟨b, hb, hdeep⟩, hrest⟩⟩⟩⟩
  constructor
  · intro h
    induction vin with
    | nil => cases h
    | cons i vin ih =>
      rcases (hstep i vin).1 h with ⟨txin, blockhash, hfound, hfails⟩ | ⟨hpasses, h⟩
      · exact ⟨[], i, vin, txin, blockhash, rfl, forall_mem_nil _, hfound, hfails⟩
      · obtain ⟨before, j, after, txin, blockhash, rfl, hbefore, hfound, hfails⟩ := ih h
        exact ⟨i :: before, j, after, txin, blockhash, rfl,
          forall_mem_cons.2 ⟨hpasses, hbefore⟩, hfound, hfails⟩
  · rintro ⟨before, i, after, txin, blockhash, rfl, hbefore, hfound, hfails⟩
    induction before with
    | nil => exact (hstep i after).2 (.inl ⟨txin, blockhash, hfound, hfails⟩)
    | cons j before ih =>
      rw [forall_mem_cons] at hbefore
      exact (hstep j _).2 (.inr ⟨hbefore.1, ih hbefore.2⟩)

/-! ### The sum of the allocations -/

theorem total_pos_of_listed {script : CScript} (hdecode : decodePaymentsPlan script = some plan)
    (hvalues : planChecks plan = .ok ()) (hkind : plan.funcid = fid 'C') :
    0 < plan.totalallocations := by
  simp only [planChecks, bind_eq_ok, require_eq_ok, defined_eq_ok, decide_eq_true_eq,
    exists_const] at hvalues
  obtain ⟨-, top, htop, -, -⟩ := hvalues
  by_contra hneg
  -- otherwise `top`, which was never set, would have been read
  rw [if_pos (by omega), (decodePaymentsPlan_top hdecode).1 hkind] at htop
  cases htop

/-- The sum is zero for a snapshot plan whose payees have no balance. -/
theorem Releases.total_eq_zero_iff (h : env.Releases tx plan amountReleased payees) :
    payees.total = 0 ↔ plan.funcid = fid 'S' ∧ ∀ q ∈ payees.list, q.2 = 0 := by
  obtain ⟨createtxid, hpassed⟩ := h.passed
  obtain ⟨plantx, -, hdecode⟩ := hpassed.decodes
  have hcollected := h.collected
  unfold planPayees at hcollected
  split_ifs at hcollected with hkind
  · have hpos := total_pos_of_listed hdecode hpassed.values hkind
    simp only [bind_eq_ok, require_eq_ok, exists_const, pure_eq_ok] at hcollected
    obtain ⟨list, -, -, rfl⟩ := hcollected
    refine ⟨fun hzero => absurd hzero hpos.ne', fun hS => ?_⟩
    exact absurd (hkind.symm.trans hS.1) (by decide)
  · obtain ⟨hS, hwell, hfair⟩ := snapshotPayees_spec hcollected
    rw [hwell.total_eq_sum hfair, eq_true hS, true_and]
    constructor
    · intro hzero q hq
      refine all_zero_of_le_zero_le_of_sum_eq_zero ?_ hzero (mem_map_of_mem hq)
      intro v hv
      obtain ⟨p, hp, rfl⟩ := mem_map.1 hv
      exact hfair.nonneg p hp
    · intro hzero
      refine sum_eq_zero fun v hv => ?_
      obtain ⟨p, hp, rfl⟩ := mem_map.1 hv
      exact hzero p hp

theorem total_ne_zero_of_paid {paid : List (CScript × ℤ)}
    (hpaid : List.Forall₂ (Pays payees minimum amountReleased) paid outs) (hne : outs ≠ [])
    (hrange : payees.range = none) : payees.total ≠ 0 := by
  cases hpaid with
  | nil => exact absurd rfl hne
  | cons hp _ => exact (hp.proportional hrange).1

end

/-- **The steps of the validator are right if and only if a release has no output beyond its payees
and does not leave out the last one alone, the payees of a snapshot plan have a balance where a
share is computed, the snapshot has a block, and the inputs spend outputs of transactions that are
in a block.** -/
theorem staysInside_iff (env : PaymentsEnv) (tx : CTransaction) :
    env.StaysInside tx ↔ env.Regular tx := by
  constructor
  · intro h
    have hbalance : ∀ {plan amountReleased payees},
        env.Releases tx plan amountReleased payees → plan.funcid = fid 'S' →
        payees.total ≠ 0 → ∃ q ∈ payees.list, q.2 ≠ 0 := by
      intro plan amountReleased payees hreleases hS htotal
      by_contra hzero
      simp only [not_exists, not_and, ne_eq, not_not] at hzero
      exact htotal (hreleases.total_eq_zero_iff.2 ⟨hS, hzero⟩)
    refine ⟨fun plan amount payees paid out more hreleases houts hpaid => ?_,
      fun plan amount payees paid p hreleases hlist hpaid => ?_,
      fun plan amount payees p rest hreleases hS hrange hlist hfirst => ?_,
      fun plan amount payees range paid p rest hreleases hS hrange hlist hpaid => ?_, h.game,
      fun createtxid kind plan before i txin blockhash hreaches hbefore => ?_⟩
    · have hloop := payLoop_eq_ok_iff.2 ⟨_, (append_nil _).symm, hpaid⟩
      have hlt := h.payees plan amount payees paid out more _ hreleases houts hloop
      have hlen := hpaid.length_eq
      omega
    · have hloop := payLoop_eq_ok_iff.2 ⟨_, hlist, hpaid⟩
      have hlen := hpaid.length_eq
      have hlist' : payees.list.length = paid.length + 1 := by rw [hlist, length_append]; rfl
      have hnext := h.next plan amount payees _ hreleases hloop (by omega)
      omega
    · refine hbalance hreleases hS ?_
      cases houts : paidOutputs tx with
      | nil =>
        have hlen : (paidOutputs tx).length = 0 := by rw [houts]; rfl
        have hpos : 0 < payees.list.length := length_pos_iff.2 hreleases.missing
        refine (h.next plan amount payees payees.list hreleases ?_ (by omega)).2
        rw [houts]
        exact payLoop_eq_ok_iff.2 ⟨[], rfl, .nil⟩
      | cons out more =>
        have hscript : p.1 = out.scriptPubKey := hfirst out (by rw [houts]; rfl)
        refine h.share plan amount payees [] out more p rest hreleases houts ?_ hscript hrange
        exact payLoop_eq_ok_iff.2 ⟨[], hlist, .nil⟩
    · refine hbalance hreleases hS ?_
      have hloop := payLoop_eq_ok_iff.2 ⟨_, hlist, hpaid⟩
      have hlen := length_of_payLoop hloop
      rw [length_cons] at hlen
      exact (h.next plan amount payees _ hreleases hloop (by omega)).2
    · obtain ⟨dust, hdust⟩ := checkVins_eq_ok_iff.2 hbefore
      have hlt := h.output createtxid kind plan before i txin blockhash dust hreaches hdust
      refine ⟨hlt, fun ⟨offset, hoffset⟩ => Option.ne_none_iff_exists'.1 ?_⟩
      exact h.block createtxid kind plan before i txin blockhash dust offset hreaches hdust hlt
        hoffset
  · intro h
    have htotal : ∀ {plan amountReleased payees rest},
        env.Releases tx plan amountReleased payees →
        payLoop payees plan.minimum amountReleased payees.list (paidOutputs tx) = .ok rest →
        rest ≠ [] → payees.total ≠ 0 := by
      intro plan amountReleased payees rest hreleases hloop hne hzero
      obtain ⟨hS, hall⟩ := hreleases.total_eq_zero_iff.1 hzero
      obtain ⟨paid, hlist, hpaid⟩ := payLoop_eq_ok hloop
      obtain ⟨p, rest, rfl⟩ := exists_cons_of_ne_nil hne
      cases hrange : payees.range with
      | some range =>
        obtain ⟨q, hq, hne⟩ :=
          h.fixed plan amountReleased payees range paid p rest hreleases hS hrange hlist hpaid
        exact hne (hall q hq)
      | none =>
        have houts : paidOutputs tx = [] := by
          by_contra houts
          exact total_ne_zero_of_paid hpaid houts hrange hzero
        rw [houts] at hpaid
        cases hpaid
        obtain ⟨q, hq, hne⟩ := h.balance plan amountReleased payees p rest hreleases hS hrange hlist
          (fun out hout => by rw [houts] at hout; cases hout)
        exact hne (hall q hq)
    refine ⟨fun plan amount payees paid out more rest hreleases houts hloop => ?_,
      fun plan amount payees paid out more p rest hreleases houts hloop hscript hrange hzero => ?_,
      fun plan amount payees rest hreleases hloop hlt => ?_, h.game,
      fun createtxid kind plan before i txin blockhash dust hreaches hdust =>
        (h.vins createtxid kind plan before i txin blockhash hreaches
          (checkVins_eq_ok_iff.1 ⟨dust, hdust⟩)).1,
      fun createtxid kind plan before i txin blockhash dust offset hreaches hdust hlt hoffset => ?_⟩
    · have hlen := length_of_payLoop hloop
      have hrest : rest ≠ [] := by
        rintro rfl
        obtain ⟨done, hdone, hpaid⟩ := payLoop_eq_ok hloop
        rw [append_nil] at hdone
        exact h.outputs plan amount payees paid out more hreleases houts (hdone ▸ hpaid)
      have hpos := length_pos_iff.2 hrest
      omega
    · obtain ⟨hS, hall⟩ := hreleases.total_eq_zero_iff.1 hzero
      obtain ⟨done, hlist, hpaid⟩ := payLoop_eq_ok hloop
      have hnil : paid = [] := by
        by_contra hne
        exact total_ne_zero_of_paid hpaid hne hrange hzero
      subst hnil
      cases hpaid
      obtain ⟨q, hq, hne⟩ := h.balance plan amount payees p rest hreleases hS hrange hlist
        (fun out' hout => by rw [houts] at hout; cases hout; exact hscript)
      exact hne (hall q hq)
    · have hlen := length_of_payLoop hloop
      have hne : rest ≠ [] := by
        rintro rfl
        rw [length_nil] at hlen
        omega
      refine ⟨?_, htotal hreleases hloop hne⟩
      have hpos := length_pos_iff.2 hne
      by_contra hone
      obtain ⟨p, rfl⟩ := length_eq_one_iff.1 (show rest.length = 1 by omega)
      obtain ⟨paid, hlist, hpaid⟩ := payLoop_eq_ok hloop
      exact h.left plan amount payees paid p hreleases hlist hpaid
    · obtain ⟨-, hblock⟩ := h.vins createtxid kind plan before i txin blockhash hreaches
        (checkVins_eq_ok_iff.1 ⟨dust, hdust⟩)
      exact Option.ne_none_iff_exists'.2 (hblock ⟨offset, hoffset⟩)

/-! ### The chain of checks -/

section
variable {env : PaymentsEnv} {tx : CTransaction} {plan : PaymentsPlan} {amountReleased : ℤ}
  {createtxid : Uint256} {kind : Option ℤ}

theorem getCCopret_undefined_iff {out : CTxOut} {opret : CScript} :
    getCCopret out.scriptPubKey opret = .error .undefined ↔ ShortData out := by
  unfold getCCopret ShortData
  cases payToCryptoCondition out.scriptPubKey with
  | none => simp [pure_ne_error]
  | some params =>
    rcases params with _ | ⟨param, _ | ⟨_, _⟩⟩
    · simp [pure_ne_error]
    · by_cases hshort : param.length < 6
      · simp [hshort]
      · simp [hshort, pure_ne_error]
    · simp [pure_ne_error]

theorem isPaymentsvout_undefined_iff {v : ℕ} {cmpaddr : String} {ccopret : CScript} :
    env.isPaymentsvout tx v cmpaddr ccopret = .error .undefined
      ↔ tx.vout.length ≤ v ∨ ∃ out, tx.vout[v]? = some out ∧ ShortData out := by
  unfold isPaymentsvout
  rw [bind_eq_error, defined_eq_undefined, getElem?_eq_none_iff]
  refine or_congr_right (exists_congr fun out => ?_)
  rw [defined_eq_ok, bind_eq_error, getCCopret_undefined_iff]
  refine and_congr_right fun _ => or_iff_left ?_
  rintro ⟨data, -, h⟩
  cases data with
  | none => cases h
  | some data =>
    cases haddress : env.getscriptaddress out.scriptPubKey <;>
      simp [haddress, pure_ne_error] at h

theorem paymentsKind_undefined_iff : env.paymentsKind tx = .error .undefined
    ↔ tx.vout = [] ∨ ∃ out, tx.vout[0]? = some out ∧ ShortData out := by
  unfold paymentsKind
  rw [bind_eq_error, isPaymentsvout_undefined_iff, Nat.le_zero, length_eq_zero_iff, or_iff_left]
  rintro ⟨⟨change, ccopret⟩, -, h⟩
  simp only [bind_eq_error, require_ne_undefined, false_or] at h
  obtain ⟨_, -, h⟩ := h
  cases hmerge : decodePaymentsMergeOpRet ccopret <;>
    simp only [hmerge, bind_eq_error, expect_ne_undefined, pure_ne_error, and_false,
      exists_false, or_false] at h

theorem vinOffset_undefined_iff {fIsMerge : Bool} {txin : CTransaction} {n : ℕ} :
    env.vinOffset createtxid fIsMerge txin n = .error .undefined
      ↔ txin.vout.length ≤ n ∨ ∃ out, txin.vout[n]? = some out ∧ ShortData out := by
  unfold vinOffset
  rw [bind_eq_error, isPaymentsvout_undefined_iff, or_iff_left_of_imp]
  rintro ⟨⟨fromGlobal, vinccopret⟩, -, h⟩
  dsimp only at h
  split_ifs at h
  · simp only [bind_eq_error, require_ne_undefined, pure_ne_error, and_false,
      exists_false, or_false] at h
  · simp only [bind_eq_error, require_ne_undefined, pure_ne_error, and_false,
      exists_false, or_false, isPaymentsvout_undefined_iff] at h
    exact h

theorem planChecks_undefined_iff : planChecks plan = .error .undefined
    ↔ (0 ≤ plan.lockedblocks ∧ 0 ≤ plan.minrelease)
      ∧ plan.totalallocations ≤ 0 ∧ plan.top = none := by
  unfold planChecks
  simp only [bind_eq_error, require_ne_undefined, false_or, or_false, require_eq_ok,
    exists_const, defined_eq_undefined, decide_eq_true_eq, and_false]
  refine and_congr_right fun _ => ?_
  split_ifs with htotal <;> simp [htotal]

theorem listedPayees_ne_undefined (txidoprets : List Uint256) :
    env.listedPayees tx txidoprets ≠ .error .undefined := by
  have hopret : ∀ opret, destOpret tx opret ≠ .error .undefined := by
    intro opret
    unfold destOpret
    split_ifs
    · rintro ⟨⟩
    · simp only [ne_eq, bind_eq_error, require_ne_undefined, and_false, exists_false,
        or_false, not_false_eq_true]
  induction txidoprets with
  | nil => rintro ⟨⟩
  | cons txidopret txidoprets ih =>
    unfold listedPayees
    split
    · exact ih
    · simp only [ne_eq, bind_eq_error, hopret, ih, pure_ne_error, and_false,
        exists_false, or_false, not_false_eq_true]

theorem snapshotRange_undefined_iff {top : ℤ} : env.snapshotRange plan top = .error .undefined
    ↔ plan.fixedAmount = 7 ∧ env.snapshotHash = none := by
  unfold snapshotRange
  split_ifs with hgame
  · simp only [bind_eq_error, defined_eq_undefined, pure_ne_error, and_false,
      exists_false, or_false, hgame, true_and]
  · simp only [pure_ne_error, hgame, false_and]

theorem planPayees_undefined_iff (htop : plan.funcid ≠ fid 'C' → plan.top ≠ none) :
    env.planPayees plan tx = .error .undefined ↔ (plan.funcid ≠ fid 'C' ∧ env.snapshotInterval ≠ 0
      ∧ env.vAddressSnapshot ≠ [] ∧ (∃ top, plan.top = some top ∧ top ≤ 3999)
      ∧ plan.fixedAmount = 7) ∧ env.snapshotHash = none := by
  unfold planPayees
  split_ifs with hkind
  · simp only [bind_eq_error, listedPayees_ne_undefined, require_ne_undefined, pure_ne_error,
      and_false, exists_false, or_false, hkind, ne_eq, not_true_eq_false, false_and]
  · obtain ⟨top, htop⟩ := Option.ne_none_iff_exists'.1 (htop hkind)
    unfold snapshotPayees
    simp only [bind_eq_error, require_ne_undefined, false_or, require_eq_ok, exists_const,
      defined_eq_undefined, defined_eq_ok, htop, reduceCtorEq, Option.some.injEq, exists_eq_left',
      decide_eq_true_eq, snapshotRange_undefined_iff, pure_ne_error, and_false, or_false,
      hkind, ne_eq, not_false_eq_true, true_and, and_assoc]

theorem validateRelease_undefined_iff :
    env.validateRelease plan tx amountReleased = .error .undefined
      ↔ plan.minrelease * COIN ≤ amountReleased
        ∧ (env.planPayees plan tx = .error .undefined
          ∨ ∃ payees, env.planPayees plan tx = .ok payees ∧ payees.list ≠ []
            ∧ (payLoop payees plan.minimum amountReleased payees.list (paidOutputs tx)
                = .error .undefined
              ∨ ∃ rest, payLoop payees plan.minimum amountReleased payees.list (paidOutputs tx)
                  = .ok rest
                ∧ lookAhead payees plan.minimum amountReleased rest = .error .undefined)) := by
  unfold validateRelease
  simp only [bind_eq_error, require_ne_undefined, false_or, require_eq_ok, exists_const,
    decide_eq_true_eq]

/-- What is left of the chain once the checks of every transaction are passed. -/
theorem paymentsValidate_of_passed (h : env.Passed tx createtxid kind plan) :
    env.paymentsValidate tx = .error .undefined
      ↔ env.releaseChecks plan tx kind = .error .undefined
        ∨ env.releaseChecks plan tx kind = .ok ()
          ∧ env.checkVins plan createtxid kind.isNone tx.vin = .error .undefined := by
  obtain ⟨plantx, hplantx, hplan⟩ := h.decodes
  obtain ⟨⟨change, ccopret⟩, hchange, hne⟩ := h.change
  have hmerge : ∀ fIsMerge dust, mergeChecks tx fIsMerge dust ≠ .error .undefined := by
    intro fIsMerge dust
    unfold mergeChecks
    split_ifs
    · simp [bind_eq_error]
    · rintro ⟨⟩
  unfold paymentsValidate
  simp only [bind_eq_error, require_ne_undefined, require_eq_ok, expect_ne_undefined,
    expect_eq_ok, h.kind, hplantx, hplan, h.values, h.fee, hchange, hne, hmerge,
    reduceCtorEq, Except.ok.injEq, Option.some.injEq, exists_eq_left', false_or, or_false,
    exists_const, and_false, ne_eq, not_false_eq_true, decide_true, true_and]
  exact or_congr_right ⟨fun h => h.elim fun _ h => h, fun h => ⟨(), h⟩⟩

/-- The chain goes wrong in a release, at an input, or before all of them. -/
theorem passed_of_undefined (h : env.paymentsValidate tx = .error .undefined)
    (hread : ¬ env.Unread tx) : ∃ createtxid kind plan, env.Passed tx createtxid kind plan := by
  have hkind : env.paymentsKind tx ≠ .error .undefined := by
    rw [ne_eq, paymentsKind_undefined_iff, not_or]
    exact ⟨fun hnil => hread (.vout hnil), fun ⟨_, hfirst, hshort⟩ => hread (.change hfirst hshort)⟩
  have hvout : ∀ cmpaddr, env.isPaymentsvout tx 0 cmpaddr [] ≠ .error .undefined := by
    intro cmpaddr
    rw [ne_eq, isPaymentsvout_undefined_iff, Nat.le_zero, length_eq_zero_iff,
      ← @paymentsKind_undefined_iff env]
    exact hkind
  have hfee : env.checkTxFee tx (PAYMENTS_TXFEE + 1) "txfee is too high" ≠ .error .undefined := by
    simp [ChainEnv.checkTxFee, bind_eq_error]
  unfold paymentsValidate at h
  simp only [bind_eq_error, require_ne_undefined, require_eq_ok, expect_ne_undefined,
    expect_eq_ok, false_or, exists_const, decide_eq_true_eq, hkind, hvout, hfee, Prod.exists] at h
  obtain ⟨createtxid, kind, hdecoded, plantx, hplantx, plan, hplan,
    hvalues | ⟨⟨⟩, hvalues, ⟨⟩, hpaid, change, ccopret, hchange, hne, -⟩⟩ := h
  · obtain ⟨hnonneg, hunset⟩ := planChecks_undefined_iff.1 hvalues
    exact absurd (.top hdecoded ⟨plantx, hplantx, hplan⟩ hnonneg hunset) hread
  · exact ⟨createtxid, kind, plan, hdecoded, ⟨plantx, hplantx, hplan⟩, hvalues, hpaid,
      ⟨_, hchange, hne⟩⟩

/-- Each of the steps is one of the chain. -/
theorem staysInside_of_defined (h : env.paymentsValidate tx ≠ .error .undefined) :
    env.StaysInside tx := by
  have hpending : ∀ {plan amountReleased}, env.Pending tx plan amountReleased →
      env.planPayees plan tx ≠ .error .undefined ∧ ∀ payees, env.planPayees plan tx = .ok payees →
        payees.list ≠ [] →
        payLoop payees plan.minimum amountReleased payees.list (paidOutputs tx) ≠ .error .undefined
        ∧ ∀ rest,
          payLoop payees plan.minimum amountReleased payees.list (paidOutputs tx) = .ok rest →
          lookAhead payees plan.minimum amountReleased rest ≠ .error .undefined := by
    intro plan amountReleased hpending
    obtain ⟨createtxid, hpassed⟩ := hpending.passed
    have hrelease : env.validateRelease plan tx amountReleased ≠ .error .undefined :=
      fun hrelease => h ((paymentsValidate_of_passed hpassed).2 (.inl hrelease))
    rw [ne_eq, validateRelease_undefined_iff, eq_true hpending.minrelease, true_and] at hrelease
    simp only [not_or, not_exists, not_and] at hrelease
    exact ⟨hrelease.1, fun payees hpayees hne => hrelease.2 payees hpayees hne⟩
  have hvins : ∀ {createtxid kind plan before i txin blockhash},
      env.Reaches tx createtxid kind plan before i txin blockhash →
      (∃ dust, env.checkVins plan createtxid kind.isNone before = .ok dust) →
      ¬ VinFails env createtxid kind plan i txin blockhash := by
    intro createtxid kind plan before i txin blockhash hreaches hbefore hfails
    obtain ⟨after, hvin⟩ := hreaches.vin
    exact h ((paymentsValidate_of_passed hreaches.passed).2 (.inr ⟨hreaches.released,
      checkVins_undefined_iff.2 ⟨before, i, after, txin, blockhash, hvin,
        checkVins_eq_ok_iff.1 hbefore, hreaches.found, hfails⟩⟩))
  refine ⟨fun plan amount payees paid out more rest hreleases houts hloop => ?_,
    fun plan amount payees paid out more p rest hreleases houts hloop hscript hrange hzero => ?_,
    fun plan amount payees rest hreleases hloop hlt => ?_, fun plan hplays hnone => ?_,
    fun createtxid kind plan before i txin blockhash dust hreaches hdust => ?_,
    fun createtxid kind plan before i txin blockhash dust offset hreaches hdust hlt hoffset
      hnone => hvins hreaches ⟨dust, hdust⟩ (.block hlt hoffset hnone)⟩
  · have hlen := length_of_payLoop hloop
    have hne : rest ≠ [] := by
      rintro rfl
      exact ((hpending hreleases.toPending).2 payees hreleases.collected hreleases.missing).1
        (payLoop_undefined_iff.2 ⟨paid, out, more, houts, .inl hloop⟩)
    have hpos := length_pos_iff.2 hne
    omega
  · exact ((hpending hreleases.toPending).2 payees hreleases.collected hreleases.missing).1
      (payLoop_undefined_iff.2 ⟨paid, out, more, houts, .inr ⟨p, rest, hloop, hscript, hrange,
        hzero⟩⟩)
  · have hlen := length_of_payLoop hloop
    have hahead := ((hpending hreleases.toPending).2 payees hreleases.collected
      hreleases.missing).2 rest hloop
    have hne : rest ≠ [] := by
      rintro rfl
      rw [length_nil] at hlen
      omega
    rw [ne_eq, lookAhead_undefined_iff, eq_true hne, true_and, not_or] at hahead
    have hpos := length_pos_iff.2 hne
    exact ⟨by omega, hahead.2⟩
  · obtain ⟨amountReleased, hplaying⟩ := hplays.pending
    obtain ⟨createtxid, hpassed⟩ := hplaying.passed
    obtain ⟨plantx, -, hplan⟩ := hpassed.decodes
    exact (hpending hplaying).1 ((planPayees_undefined_iff (mt (decodePaymentsPlan_top hplan).2)).2
      ⟨⟨hplays.kind, hplays.activated, hplays.snapshot, hplays.top, hplays.game⟩, hnone⟩)
  · by_contra hlong
    exact hvins hreaches ⟨dust, hdust⟩ (.output (Nat.le_of_not_lt hlong))

/-- **The steps of the chain that have no meaning.** They are the ones outside of `StaysInside`,
and the other reads. -/
theorem paymentsValidate_undefined_iff : env.paymentsValidate tx = .error .undefined
    ↔ ¬ env.StaysInside tx ∨ env.Unread tx := by
  constructor
  · intro hundefined
    by_contra hneither
    rw [not_or, not_not] at hneither
    obtain ⟨hinside, hread⟩ := hneither
    obtain ⟨createtxid, kind, plan, hpassed⟩ := passed_of_undefined hundefined hread
    rcases (paymentsValidate_of_passed hpassed).1 hundefined with hrelease | ⟨hreleased, hvins⟩
    · cases kind with
      | none => cases hrelease
      | some amountReleased =>
        obtain ⟨hmin, hpayees | ⟨payees, hpayees, hne, hloop | ⟨rest, hloop, hahead⟩⟩⟩ :=
          validateRelease_undefined_iff.1 hrelease
        · obtain ⟨plantx, -, hplan⟩ := hpassed.decodes
          obtain ⟨⟨hkind, hactivated, hsnapshot, htop, hgame⟩, hnone⟩ :=
            (planPayees_undefined_iff (mt (decodePaymentsPlan_top hplan).2)).1 hpayees
          exact hinside.game plan ⟨⟨amountReleased, ⟨createtxid, hpassed⟩, hmin⟩, hkind, hactivated,
            hsnapshot, htop, hgame⟩ hnone
        · have hreleases : env.Releases tx plan amountReleased payees :=
            ⟨⟨⟨createtxid, hpassed⟩, hmin⟩, hpayees, hne⟩
          obtain ⟨paid, out, more, houts, hend | ⟨p, rest, hend, hscript, hrange, hzero⟩⟩ :=
            payLoop_undefined_iff.1 hloop
          · have hlt := hinside.payees plan amountReleased payees paid out more [] hreleases houts
              hend
            have hlen := length_of_payLoop hend
            rw [length_nil] at hlen
            omega
          · exact hinside.share plan amountReleased payees paid out more p rest hreleases houts hend
              hscript hrange hzero
        · have hreleases : env.Releases tx plan amountReleased payees :=
            ⟨⟨⟨createtxid, hpassed⟩, hmin⟩, hpayees, hne⟩
          obtain ⟨hrest, hone⟩ := lookAhead_undefined_iff.1 hahead
          have hlen := length_of_payLoop hloop
          have hpos := length_pos_iff.2 hrest
          obtain ⟨hnext, htotal⟩ := hinside.next plan amountReleased payees rest hreleases hloop
            (by omega)
          rcases hone with hone | hzero
          · omega
          · exact htotal hzero
    · obtain ⟨before, i, after, txin, blockhash, hvin, hbefore, hfound, hfails⟩ :=
        checkVins_undefined_iff.1 hvins
      have hreaches : env.Reaches tx createtxid kind plan before i txin blockhash :=
        ⟨hpassed, hreleased, ⟨after, hvin⟩, hfound⟩
      obtain ⟨dust, hdust⟩ := checkVins_eq_ok_iff.2 hbefore
      rcases hfails with hlong | ⟨hlt, hdata⟩ | ⟨hlt, hoffset, hnone⟩
      · exact absurd (hinside.output _ _ _ _ _ _ _ dust hreaches hdust) (Nat.not_lt.2 hlong)
      · rcases vinOffset_undefined_iff.1 hdata with hlong | ⟨out, hout, hshort⟩
        · exact absurd hlt (Nat.not_lt.2 hlong)
        · exact hread (.data hreaches hbefore hout hshort)
      · exact hinside.block _ _ _ _ _ _ _ dust _ hreaches hdust hlt hoffset hnone
  · rintro (houtside | hread)
    · by_contra hdefined
      exact houtside (staysInside_of_defined hdefined)
    · rcases hread with hnil | ⟨hfirst, hshort⟩ | ⟨hdecoded, ⟨plantx, hplantx, hplan⟩, hnonneg,
        hunset⟩ | ⟨hreaches, hbefore, hout, hshort⟩
      · exact bind_eq_error.2 (.inl (paymentsKind_undefined_iff.2 (.inl hnil)))
      · exact bind_eq_error.2
          (.inl (paymentsKind_undefined_iff.2 (.inr ⟨_, hfirst, hshort⟩)))
      · refine bind_eq_error.2 (.inr ⟨_, hdecoded, ?_⟩)
        refine bind_eq_error.2 (.inr ⟨plantx, expect_eq_ok.2 hplantx, ?_⟩)
        refine bind_eq_error.2 (.inr ⟨_, expect_eq_ok.2 hplan, ?_⟩)
        exact bind_eq_error.2 (.inl (planChecks_undefined_iff.2 ⟨hnonneg, hunset⟩))
      · obtain ⟨after, hvin⟩ := hreaches.vin
        have hlt := (List.getElem?_eq_some_iff.1 hout).1
        exact (paymentsValidate_of_passed hreaches.passed).2 (.inr ⟨hreaches.released,
          checkVins_undefined_iff.2 ⟨_, _, after, _, _, hvin, hbefore, hreaches.found,
            .data hlt (vinOffset_undefined_iff.2 (.inr ⟨_, hout, hshort⟩))⟩⟩)

end

end PaymentsEnv

namespace PaymentsSample

/-- The plan of two payees with a quarter and three quarters. -/
def honestDecoded : PaymentsPlan := ⟨fid 'C', 0, 0, 10000, none, 0, 0, [], 4, [11, 12]⟩

/-- A release of 400000 satoshis to them that leaves out the second. -/
def truncatedRelease : CTransaction := release 400000 9999890000 [⟨100000, payee 1⟩]

theorem truncated_releases : honestEnv.Releases truncatedRelease honestDecoded 400000
    ⟨[(payee 1, 1), (payee 2, 3)], 4, none⟩ := by
  have hfee : honestEnv.checkTxFee truncatedRelease (PAYMENTS_TXFEE + 1) "txfee is too high"
      = .ok () := by decide
  have hchange : honestEnv.isPaymentsvout truncatedRelease 0 (honestEnv.planAddress 1) []
      = .ok (9999890000, opReturnScript ([EVAL_PAYMENTS, fid 'R'] ++ uint256Bytes 1
        ++ leBytes 8 400000)) := by decide +kernel
  have hplan : decodePaymentsPlan (opretOf (planTx (listPlan 4 [11, 12])))
      = some honestDecoded := by decide +kernel
  exact ⟨⟨⟨1, by decide +kernel, ⟨_, rfl, hplan⟩, by decide, hfee, _, hchange, by decide⟩,
    by decide⟩, by decide +kernel, by decide⟩

end PaymentsSample

open PaymentsSample PaymentsEnv in
/-- **The payee after the next one is looked up where one is left.** -/
theorem allocation_read_outside :
    ¬ ∀ (env : PaymentsEnv) (tx : CTransaction), env.StaysInside tx := by
  intro hall
  have hloop : payLoop ⟨[(payee 1, 1), (payee 2, 3)], 4, none⟩ 10000 400000
      [(payee 1, 1), (payee 2, 3)] (paidOutputs truncatedRelease) = .ok [(payee 2, 3)] := by decide
  exact absurd ((hall _ _).next _ _ _ _ truncated_releases hloop (by decide)).1 (by decide)

end Komodo
