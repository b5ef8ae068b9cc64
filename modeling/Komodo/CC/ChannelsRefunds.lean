/-
# Refunds of a channel

`case 'R'` of `ChannelsValidate` (`src/src/cc/channels.cpp`). A refund names an open
transaction and a close transaction. The code decodes the first one; of the second it
only asks that it is notarised, whatever it is, and the funds that a refund spends are
tied to the channel by their amount and their address, which all channels of the two
parties share. `ChannelRefund`, the call that makes refunds, does decode the close
transaction and compares its channel.

`channelsRun_refundsKept` is about whole runs: where each transaction of a channel spends what an
accepted transaction of the same channel left, and each refund names a close transaction of its
channel, the funds of every refund descend from the channel it names, after a notarised notice.
-/

import Komodo.CC.ChannelsPayments

namespace Komodo

/-- A chain, the newest transaction first, with a mark on those that `ChannelsValidate`
was asked about. -/
abbrev ChannelsChain := List (CTransaction × Bool)

/-- A chain in which the marked transactions were accepted when they were added. -/
inductive ChannelsRun (node : Node) : ChannelsChain → Prop
  | nil : ChannelsRun node []
  | plain {run : ChannelsChain} {tx : CTransaction} (hrun : ChannelsRun node run) :
      ChannelsRun node ((tx, false) :: run)
  | checked {run : ChannelsChain} {tx : CTransaction} (hrun : ChannelsRun node run)
      (accepted : (node.view (run.map Prod.fst)).channelsValidate tx = .ok ()) :
      ChannelsRun node ((tx, true) :: run)

/-- The output 0 of an accepted payment or close of a channel. -/
def HandsOn (older : ChannelsChain) (opentxid : Uint256) (p : COutPoint) (prev : CTransaction) :
    Prop :=
  (prev, true) ∈ older ∧ p = ⟨prev.hash, 0⟩
    ∧ ∃ r, decodeChannelsOpRet (opretOf prev) = some r ∧ r.opentxid = opentxid
      ∧ (r.funcid = fid 'P' ∨ r.funcid = fid 'C')

/-- The funds of a channel: output 0 of its open transaction, and what accepted payments
and closes of the channel hand on from there. -/
inductive Descends (run : ChannelsChain) (opentxid : Uint256) : COutPoint → Prop
  | funding : Descends run opentxid ⟨opentxid, 0⟩
  | step {p : COutPoint} {tx : CTransaction} {vin1 : CTxIn} (hands : HandsOn run opentxid p tx)
      (spends : tx.vin[1]? = some vin1) (earlier : Descends run opentxid vin1.prevout) :
      Descends run opentxid p

/-- The inputs that move the funds of a channel: `vin.1`, and any other that spends from the
address of the channel named. -/
def MovesFunds (env : ContractEnv) (tx : CTransaction) (r : ChannelsOpRet) (i : CTxIn) : Prop :=
  tx.vin[1]? = some i
    ∨ i ∈ tx.vin ∧ ∃ openTx o t out, env.channelOpen r = .ok (openTx, o)
      ∧ env.spent i = some (t, out)
      ∧ env.getscriptaddress out.scriptPubKey = some (env.channelAddress o)

/-- The close transaction that an opreturn of a refund names. -/
def NamesClose (env : ContractEnv) (r : ChannelsOpRet) : Prop :=
  ∃ closeTx c, env.lookup r.param3 = some closeTx ∧ decodeChannelsOpRet (opretOf closeTx) = some c
    ∧ c.funcid = fid 'C' ∧ c.opentxid = r.opentxid

/-- What an accepted refund is to have: a channel, a notarised notice that this channel is
closed, and funds that descend from it. -/
def RefundKept (env : ContractEnv) (older : ChannelsChain) (tx : CTransaction) : Prop :=
  ∀ r, decodeChannelsOpRet (opretOf tx) = some r → r.funcid = fid 'R' →
    (∃ openTx o, env.channelOpen r = .ok (openTx, o))
    ∧ (NamesClose env r ∧ env.txNotarizedConfirmed r.param3 = true)
    ∧ (∃ vin1, tx.vin[1]? = some vin1)
    ∧ ∀ i, MovesFunds env tx r i → Descends older r.opentxid i.prevout

/-- The links that `ChannelsValidate` leaves to the spender. -/
structure LinksKept (env : ContractEnv) (older : ChannelsChain) (tx : CTransaction) : Prop where
  parent : ∀ r, decodeChannelsOpRet (opretOf tx) = some r → ∀ i, MovesFunds env tx r i →
    i.prevout = ⟨r.opentxid, 0⟩ ∨ ∃ prev, HandsOn older r.opentxid i.prevout prev
  close : ∀ r, decodeChannelsOpRet (opretOf tx) = some r → r.funcid = fid 'R' → NamesClose env r

/-! ### What a refund checks -/

theorem ContractEnv.channelsValidate_refund {env : ContractEnv} {tx : CTransaction}
    {r : ChannelsOpRet} (h : env.channelsValidate tx = .ok ())
    (hr : decodeChannelsOpRet (opretOf tx) = some r) (hR : r.funcid = fid 'R') :
    (∃ openTx o, env.channelOpen r = .ok (openTx, o)) ∧ env.txNotarizedConfirmed r.param3 = true := by
  obtain ⟨r', openTx, o, hr', -, hopen, hbranch⟩ := channelsValidate_eq_ok h
  obtain rfl := Option.some.inj (hr.symm.trans hr')
  refine ⟨⟨openTx, o, hopen⟩, ?_⟩
  rcases hbranch with ⟨hP, -⟩ | ⟨hC, -⟩ | ⟨-, hrefund⟩
  · exact absurd (hR.symm.trans hP) (by decide)
  · exact absurd (hR.symm.trans hC) (by decide)
  · simp only [channelRefund, Checked.bind_eq_ok, require_eq_ok, exists_const] at hrefund
    obtain ⟨⟨⟩, -, hnotarized, -⟩ := hrefund
    exact hnotarized

/-- Every accepted transaction has a `vin.1`. -/
theorem ContractEnv.exists_vin1 {env : ContractEnv} {tx : CTransaction}
    (h : env.channelsValidate tx = .ok ()) : ∃ vin1, tx.vin[1]? = some vin1 := by
  obtain ⟨r, openTx, o, hr, hexact, -, hbranch⟩ := channelsValidate_eq_ok h
  have hO : ¬ r.funcid = fid 'O' := by
    rcases hbranch with ⟨hf, -⟩ | ⟨hf, -⟩ | ⟨hf, -⟩ <;> rw [hf] <;> decide
  have hinput : ∀ outputs, env.channelsExactInput tx outputs = .ok true →
      ∃ vin1, tx.vin[1]? = some vin1 := by
    intro outputs hin
    simp only [channelsExactInput, Checked.bind_eq_ok, defined_eq_ok] at hin
    obtain ⟨vin1, h1, -⟩ := hin
    exact ⟨vin1, h1⟩
  simp only [channelsExactAmounts, hr, if_neg hO] at hexact
  split_ifs at hexact
  · exact hinput _ hexact
  · exact hinput _ hexact
  · exact hinput _ hexact
  · cases hexact

/-! ### Descent -/

section descent
variable {older run : ChannelsChain} {opentxid : Uint256} {p : COutPoint}

theorem HandsOn.mono {prev : CTransaction} (h : HandsOn older opentxid p prev)
    (hsub : older <:+ run) : HandsOn run opentxid p prev :=
  ⟨hsub.subset h.1, h.2⟩

theorem Descends.mono (h : Descends older opentxid p) (hsub : older <:+ run) :
    Descends run opentxid p := by
  induction h with
  | funding => exact .funding
  | step hands spends _ ih => exact .step (hands.mono hsub) spends ih

end descent

section runs
variable {node : Node} {run : ChannelsChain}

/-- In a run with its links kept, what a payment or a close hands on descends from the
channel it names. The induction is on the run: the links of the newest transaction lead
to older ones. -/
theorem ChannelsRun.descends (hrun : ChannelsRun node run)
    (hlinks : ∀ tx older, (tx, true) :: older <:+ run →
      LinksKept (node.view (older.map Prod.fst)) older tx) :
    ∀ {opentxid p prev}, HandsOn run opentxid p prev → Descends run opentxid p := by
  induction hrun with
  | nil => exact fun h => absurd h.1 List.not_mem_nil
  | @plain older tx _ ih =>
    intro opentxid p prev hands
    have hsub : older <:+ (tx, false) :: older := List.suffix_cons _ _
    have hmem : (prev, true) ∈ older := by
      rcases List.mem_cons.1 hands.1 with heq | hmem
      · cases heq
      · exact hmem
    exact (ih (fun t o h => hlinks t o (h.trans hsub)) ⟨hmem, hands.2⟩).mono hsub
  | @checked older tx _ accepted ih =>
    intro opentxid p prev hands
    have hsub : older <:+ (tx, true) :: older := List.suffix_cons _ _
    have ih : ∀ {opentxid p prev}, HandsOn older opentxid p prev → Descends older opentxid p :=
      ih fun t o h => hlinks t o (h.trans hsub)
    rcases List.mem_cons.1 hands.1 with heq | hmem
    · obtain rfl := (Prod.mk.inj heq).1
      obtain ⟨r, hr, hid, -⟩ := hands.2.2
      obtain ⟨vin1, h1⟩ := ContractEnv.exists_vin1 accepted
      refine .step hands h1 ?_
      rcases (hlinks prev older List.suffix_rfl).parent r hr vin1 (.inl h1) with hopen | ⟨q, hq⟩
      · rw [hopen, hid]
        exact .funding
      · rw [hid] at hq
        exact (ih hq).mono hsub
    · exact (ih ⟨hmem, hands.2⟩).mono hsub

/-- **Refunds follow a notice.** In every run whose channel transactions spend, as funds of
the channel they name, its output 0 or what an accepted payment or close of it handed on,
and whose refunds name a close of their channel, every refund has been preceded by the
notarised close of the channel from which all its funds descend. -/
theorem channelsRun_refundsKept (hrun : ChannelsRun node run)
    (hlinks : ∀ tx older, (tx, true) :: older <:+ run →
      LinksKept (node.view (older.map Prod.fst)) older tx) :
    ∀ tx older, (tx, true) :: older <:+ run →
      RefundKept (node.view (older.map Prod.fst)) older tx := by
  induction hrun with
  | nil => exact fun tx older h => absurd (List.suffix_nil.1 h) (List.cons_ne_nil _ _)
  | @plain chain new _ ih =>
    intro tx older hsuffix
    rcases List.suffix_cons_iff.1 hsuffix with heq | hold
    · cases heq
    · exact ih (fun t o h => hlinks t o (h.trans (List.suffix_cons _ _))) tx older hold
  | @checked chain new hchain accepted ih =>
    intro tx older hsuffix
    rcases List.suffix_cons_iff.1 hsuffix with heq | hold
    · cases heq
      intro r hr hR
      have hkept := hlinks _ _ hsuffix
      obtain ⟨hopen, hnotarized⟩ := ContractEnv.channelsValidate_refund accepted hr hR
      refine ⟨hopen, ⟨hkept.close r hr hR, hnotarized⟩, ContractEnv.exists_vin1 accepted,
        fun i hi => ?_⟩
      rcases hkept.parent r hr i hi with hfunding | ⟨prev, hprev⟩
      · rw [hfunding]
        exact .funding
      · exact hchain.descends (fun t o h => hlinks t o (h.trans (List.suffix_cons _ _))) hprev
    · exact ih (fun t o h => hlinks t o (h.trans (List.suffix_cons _ _))) tx older hold

end runs

/-! ### A refund without a notice -/

namespace ChannelsSample

/-- The node of the sample over time. -/
def node : Node where
  view chain := { env with getTransaction := findTx chain 100 }
  lookup_view chain txid := findTx_map_fst chain 100 txid

/-- The inputs with which the sender spends what a transaction left, and its marker. -/
def spendBySrc (txid : Uint256) : List CTxIn :=
  [⟨⟨92, 0⟩, [], 0⟩, ⟨⟨txid, 0⟩, pushData (channelFulfillment src destFingerprint ++ [1]), 0⟩,
    ⟨⟨txid, 1⟩, scriptSig1 EVAL_CHANNELS src, 0⟩]

/-- The notice that channel 1 is closed. -/
def closeTx : CTransaction where
  hash := 5
  vin := spendBySrc 1
  vout := [⟨100000000, scriptOf channelCondition⟩, ⟨10000, scriptOf srcCondition⟩,
    ⟨10000, scriptOf destCondition⟩, ⟨0, opret 'C' 1 1 100000000 0⟩]

/-- A refund of what a transaction left of channel 1, with a transaction named as the
notice. -/
def refundTx (txid closetxid : Uint256) : CTransaction where
  hash := 6
  vin := spendBySrc txid
  vout := [⟨10000, scriptOf srcCondition⟩, ⟨10000, scriptOf destCondition⟩,
    ⟨100000000, payToPubkey src⟩, ⟨0, opret 'R' 1 1 100000000 closetxid⟩]

/-- A chain with the channel, its close and the refund that follows. -/
def closed : ChannelsChain := [(closeTx, true), (openTx 1 hash5, false)]

theorem decode_closeTx : decodeChannelsOpRet (opretOf closeTx)
    = some ⟨fid 'C', 0, 1, src, dest, 1, 100000000, 0⟩ := by decide +kernel

theorem prevout_of_movesFunds {older : List CTransaction} {tx : CTransaction} {r : ChannelsOpRet}
    {p : COutPoint} (hopen : (node.view older).channelOpen r = .ok (openTx 1 hash5, opened))
    (h1 : tx.vin[1]?.map CTxIn.prevout = some p)
    (hother : ∀ i ∈ tx.vin, i.prevout = p ∨ ((node.view older).spent i).all (fun q =>
      (node.view older).getscriptaddress q.2.scriptPubKey
        ≠ some ((node.view older).channelAddress opened)) = true) {i : CTxIn}
    (hi : MovesFunds (node.view older) tx r i) : i.prevout = p := by
  rcases hi with hi | ⟨hmem, _, o, t, out, hopen', hspent, haddr⟩
  · simpa only [hi, Option.map_some, Option.some.injEq] using h1
  · rw [hopen] at hopen'
    cases hopen'
    simpa [hspent, haddr] using hother i hmem

theorem decode_refundTx : decodeChannelsOpRet (opretOf (refundTx 5 5))
    = some ⟨fid 'R', 0, 1, src, dest, 1, 100000000, 5⟩ := by decide +kernel

end ChannelsSample

open ChannelsSample in
/-- The hypotheses of `channelsRun_refundsKept` are satisfiable: a channel that is closed
and then refunded. -/
theorem channelsRun_refundsKept_closed :
    ChannelsRun node ((refundTx 5 5, true) :: closed) ∧
      RefundKept (node.view (closed.map Prod.fst)) closed (refundTx 5 5) := by
  have hrun : ChannelsRun node ((refundTx 5 5, true) :: closed) :=
    .checked (.checked (.plain .nil) (by decide +kernel)) (by decide +kernel)
  refine ⟨hrun, channelsRun_refundsKept hrun (fun tx older hsuffix => ?_) _ _ List.suffix_rfl⟩
  rcases List.suffix_cons_iff.1 hsuffix with heq | hsuffix
  · cases heq
    constructor
    · intro r hr i hi
      obtain rfl := Option.some.inj (decode_refundTx.symm.trans hr)
      refine .inr ⟨closeTx, List.mem_cons_self, ?_, _, decode_closeTx, rfl, .inr rfl⟩
      exact prevout_of_movesFunds (by decide +kernel) rfl (by decide +kernel) hi
    · intro r hr _
      obtain rfl := Option.some.inj (decode_refundTx.symm.trans hr)
      exact ⟨closeTx, _, by decide +kernel, decode_closeTx, rfl, rfl⟩
  · rcases List.suffix_cons_iff.1 hsuffix with heq | hsuffix
    · cases heq
      constructor
      · intro r hr i hi
        obtain rfl := Option.some.inj (decode_closeTx.symm.trans hr)
        exact .inl (prevout_of_movesFunds (by decide +kernel) rfl (by decide +kernel) hi)
      · intro r hr hR
        obtain rfl := Option.some.inj (decode_closeTx.symm.trans hr)
        exact absurd hR (by decide)
    · have hmem := hsuffix.subset List.mem_cons_self
      simp at hmem

open ChannelsSample in
/-- A refund that names the open transaction itself as the notice is accepted as soon as
that one is notarised. -/
theorem refund_without_close :
    ChannelsRun node [(refundTx 1 1, true), (openTx 1 hash5, false)] ∧
      ¬ RefundKept (node.view [openTx 1 hash5]) [(openTx 1 hash5, false)] (refundTx 1 1) := by
  have hdecode : decodeChannelsOpRet (opretOf (refundTx 1 1))
      = some ⟨fid 'R', 0, 1, src, dest, 1, 100000000, 1⟩ := by decide +kernel
  refine ⟨.checked (.plain .nil) (by decide +kernel), fun h => ?_⟩
  obtain ⟨-, ⟨⟨closeTx, c, hclose, hc, hC, -⟩, -⟩, -⟩ := h _ hdecode rfl
  have hlookup : (node.view [openTx 1 hash5]).lookup 1 = some (openTx 1 hash5) := by
    decide +kernel
  obtain rfl := Option.some.inj (hlookup.symm.trans hclose)
  rw [← Option.some.inj (validOpen.opret.symm.trans hc)] at hC
  exact absurd hC (by decide)

end Komodo
