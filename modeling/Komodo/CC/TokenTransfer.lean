/-
# Tokens received in a validated transfer

When a transfer is validated, its token inputs are counted with `goDeeper`;
when its outputs are spent later, `IsTokensvout` balances it again with its
inputs counted without `goDeeper` (`src/src/cc/CCtokens.cpp`, `TokensExactAmounts`
called from `IsTokensvout`). An input that looks like a token output and is none
is worth nothing the first time and its full amount the second time.

`transfer_output_kept_iff` says exactly when the outputs of an accepted transfer
keep their amounts; `mixed_transfer_output_lost` is a transfer whose recipient
ends up with nothing.
-/

import Komodo.CC.TokenSupply

namespace Komodo

variable {env : CCEnv} {symbol : String} {l l' : Ledger} {e : LedgerTx} {tokenid : Uint256}

/-- Every token input whose previous output looks like a token output spends one
of the creation, or of a transaction that balances. -/
def InputsGenuine (env : CCEnv) (lookup : TxLookup) (tokenid : Uint256) (tx : CTransaction) :
    Prop :=
  ∀ i ∈ tokenVins env tx.vin, ∀ p, lookup i.prevout.hash = some p →
    isTokensvoutFlat env lookup p (toInt32 i.prevout.n) tokenid ≠ 0 →
    balanced env lookup tokenid p = true ∨ tokenid = p.hash

/-- What the token inputs look like adds up to the outputs. -/
def InputsLookBalanced (env : CCEnv) (lookup : TxLookup) (tokenid : Uint256)
    (tx : CTransaction) : Prop :=
  ((tokenVins env tx.vin).map fun i => tokenAmountAt env false lookup tokenid i.prevout).sum =
    tokenOutputs env lookup tx tokenid

theorem sum_map_eq_iff_of_le {α : Type} {xs : List α} {f g : α → ℤ}
    (h : ∀ x ∈ xs, f x ≤ g x) :
    (xs.map f).sum = (xs.map g).sum ↔ ∀ x ∈ xs, f x = g x := by
  induction xs with
  | nil => simp
  | cons x xs ih =>
    have hx : f x ≤ g x := h x List.mem_cons_self
    have hxs : ∀ y ∈ xs, f y ≤ g y := fun y hy => h y (List.mem_cons_of_mem _ hy)
    have hsum : (xs.map f).sum ≤ (xs.map g).sum := List.sum_le_sum hxs
    rw [List.forall_mem_cons, ← ih hxs, List.map_cons, List.map_cons, List.sum_cons, List.sum_cons]
    omega

theorem Accepted.tokenAmountAt_le (h : Accepted env symbol l) (o : COutPoint) :
    tokenAmountAt env true l.lookup tokenid o ≤ tokenAmountAt env false l.lookup tokenid o := by
  unfold tokenAmountAt
  split
  · rename_i tx htx
    obtain ⟨l₀, e, -, ha, rfl⟩ := h.accepts_of_lookup htx
    rw [isTokensvout_flat]
    exact (isTokensvout_deep_bounds ha.value_nonneg _).2
  · exact le_rfl

/-- The inputs are genuine iff each of them counts as much with `goDeeper` as
without. -/
theorem inputsGenuine_iff {lookup : TxLookup} {tx : CTransaction} :
    InputsGenuine env lookup tokenid tx ↔ ∀ i ∈ tokenVins env tx.vin,
      tokenAmountAt env true lookup tokenid i.prevout =
        tokenAmountAt env false lookup tokenid i.prevout := by
  refine forall₂_congr fun i _ => ?_
  unfold tokenAmountAt
  cases lookup i.prevout.hash with
  | none => simp
  | some p =>
    simp only [isTokensvout_flat, isTokensvout_deep, Option.some.injEq, forall_eq']
    split_ifs with hb
    · exact ⟨fun _ => rfl, fun _ _ => hb⟩
    · exact ⟨fun hg => by_contra fun hne => hb (hg (Ne.symm hne)), fun h0 hne => absurd h0.symm hne⟩

theorem inputsLookBalanced_iff (h : Accepted env symbol l) {d : TokenOpRet}
    (hd : tokenOpRet e.tx = some d)
    (hacc : (tokensValidate env (l.context symbol e) e.tx).val = true)
    (hx : (l.context symbol e).exempt = false) :
    InputsLookBalanced env l.lookup d.tokenid e.tx ↔
      InputsGenuine env l.lookup d.tokenid e.tx := by
  obtain ⟨d', hd', -, -, -, hsum, -⟩ := tokensValidate_spec hacc hx
  obtain rfl : d = d' := Option.some.inj (hd.symm.trans hd')
  rw [inputsGenuine_iff, ← sum_map_eq_iff_of_le fun i _ => h.tokenAmountAt_le i.prevout]
  change _ = tokenOutputs env l.lookup e.tx d.tokenid at hsum
  unfold InputsLookBalanced
  rw [← hsum]
  exact eq_comm

/-- **When a received token output keeps its amount.** Let `e` be a transfer
accepted on top of the ledger `l`, of a token whose creation is found there, and
let an output of it have been counted among its token outputs. In every later
ledger `IsTokensvout`, with `goDeeper`, gives the output the same amount iff all
token inputs of the transfer that look like tokens are tokens. (In the window in
which the ROGUE chain compares no amounts: iff what the inputs look like adds up
to the outputs.) -/
theorem transfer_output_kept_iff (h : Accepted env symbol l') (hs : e :: l <:+ l')
    (hm : e.tx.isMint = false) {d : TokenOpRet} (hd : tokenOpRet e.tx = some d)
    (hacc : (tokensValidate env (l.context symbol e) e.tx).val = true)
    (hfound : l.lookup d.tokenid ≠ none) {n : ℕ}
    (hv : isTokensvoutFlat env l.lookup e.tx n d.tokenid ≠ 0) :
    tokenAmountAt env true l'.lookup d.tokenid ⟨e.tx.hash, n⟩ =
        isTokensvoutFlat env l.lookup e.tx n d.tokenid ↔
      if (l.context symbol e).exempt then InputsLookBalanced env l.lookup d.tokenid e.tx
      else InputsGenuine env l.lookup d.tokenid e.tx := by
  obtain ⟨t, ht⟩ := Option.ne_none_iff_exists'.1 hfound
  have hl : l <:+ l' := (List.suffix_cons _ _).trans hs
  have ha : Accepts env symbol l e := by cases h.suffix hs; assumption
  have hp := h.parents_eq hl ha hm
  -- the output is found, at its position
  have hlook : l'.lookup e.tx.hash = some e.tx :=
    h.lookup_mono hs (by rw [Ledger.lookup_cons, if_pos rfl])
  have hn : toInt32 n = n := by
    refine if_pos (by_contra fun hlarge => hv (isTokensvoutFlat_outOfRange (Or.inr ?_)))
    have := ha.vout_length
    rw [maxTxSizeAfterSapling] at this
    omega
  -- it counts iff the transfer balances
  have hid : d.tokenid ≠ e.tx.hash := by
    intro hid
    rw [hid, ha.fresh] at ht
    cases ht
  have hflat : isTokensvoutFlat env l'.lookup e.tx n d.tokenid =
      isTokensvoutFlat env l.lookup e.tx n d.tokenid :=
    (isTokensvoutFlat_congr (by rw [ht, h.lookup_mono hl ht]) (Or.inr hp) _).symm
  have hkept : tokenAmountAt env true l'.lookup d.tokenid ⟨e.tx.hash, n⟩ =
      isTokensvoutFlat env l.lookup e.tx n d.tokenid ↔
      balanced env l.lookup d.tokenid e.tx = true := by
    rw [tokenAmountAt]
    simp only [hlook, hn]
    rw [isTokensvout_deep, ← h.balanced_stable hl hfound hp, hflat]
    constructor
    · intro heq
      by_contra hb
      rw [if_neg (not_or.2 ⟨hb, hid⟩)] at heq
      exact hv heq.symm
    · exact fun hb => if_pos (Or.inl hb)
  have hbal : balanced env l.lookup d.tokenid e.tx = true ↔
      InputsLookBalanced env l.lookup d.tokenid e.tx :=
    (tokensExactAmounts_isEqual false).trans
      (and_iff_right fun i hi => ha.parent_found hm (mem_tokenVins.1 hi).1)
  rw [hkept, hbal]
  split_ifs with hx
  · exact Iff.rfl
  · exact inputsLookBalanced_iff (h.suffix hl) hd hacc (by simpa using hx)

/-! ### A transfer that loses its tokens -/

namespace Sample

/-- A transfer of the ten created tokens that also spends the forged output. -/
def mixedTransfer : CTransaction where
  hash := 4
  vin := [⟨⟨2, 0⟩, tokenSig, 0⟩, ⟨⟨3, 0⟩, tokenSig, 0⟩]
  vout := [tokenOut 10, ⟨1000, payToKey⟩, transferOpret]

/-- The opreturn of the transfers. -/
def transferData : TokenOpRet := ⟨fid 't', EVAL_TOKENS, 2, [key], []⟩

end Sample

/-- The hypotheses of `transfer_output_kept_iff` are satisfiable, and so is each
side of it: the transfer of the created tokens alone. -/
theorem transfer_output_kept_plain :
    tokenAmountAt Sample.env true
        (Ledger.lookup [⟨100, Sample.transfer⟩, ⟨100, Sample.creation⟩, ⟨100, Sample.funding⟩]) 2
        ⟨4, 0⟩ = 10 ∧
      InputsGenuine Sample.env (Ledger.lookup [⟨100, Sample.creation⟩, ⟨100, Sample.funding⟩]) 2
        Sample.transfer := by
  have hl : Accepted Sample.env "TOKEN"
      [⟨100, Sample.transfer⟩, ⟨100, Sample.creation⟩, ⟨100, Sample.funding⟩] :=
    .cons (Sample.accepted_creation _) ⟨by decide, by decide, by decide, by decide, by decide,
      by decide, fun _ _ => by decide +kernel⟩
  have hkept : tokenAmountAt Sample.env true
      (Ledger.lookup [⟨100, Sample.transfer⟩, ⟨100, Sample.creation⟩, ⟨100, Sample.funding⟩]) 2
      ⟨4, 0⟩ = 10 := by decide +kernel
  have hflat : isTokensvoutFlat Sample.env
      (Ledger.lookup [⟨100, Sample.creation⟩, ⟨100, Sample.funding⟩]) Sample.transfer (0 : ℕ) 2
      = 10 := by decide
  exact ⟨hkept, (transfer_output_kept_iff (d := Sample.transferData) hl (List.suffix_refl _)
    (by decide) (by decide +kernel) (by decide +kernel) (by decide +kernel)
    (hflat.trans_ne (by decide))).1 (hkept.trans hflat.symm)⟩

/-- A transfer accepted by `TokensValidate` that counts ten tokens in its output,
and for which the output counts nothing once it is to be spent. -/
theorem mixed_transfer_output_lost :
    Accepted Sample.env "TOKEN" (⟨100, Sample.mixedTransfer⟩ :: Sample.forgeryLedger) ∧
      (tokensValidate Sample.env (Ledger.context Sample.forgeryLedger "TOKEN"
        ⟨100, Sample.mixedTransfer⟩) Sample.mixedTransfer).val = true ∧
      isTokensvoutFlat Sample.env (Ledger.lookup Sample.forgeryLedger) Sample.mixedTransfer 0 2
        = 10 ∧
      tokenAmountAt Sample.env true
        (Ledger.lookup (⟨100, Sample.mixedTransfer⟩ :: Sample.forgeryLedger)) 2 ⟨4, 0⟩ = 0 := by
  have hval : (tokensValidate Sample.env (Ledger.context Sample.forgeryLedger "TOKEN"
      ⟨100, Sample.mixedTransfer⟩) Sample.mixedTransfer).val = true := by decide +kernel
  refine ⟨.cons (Sample.accepted_forgery _) ?_, hval, by decide +kernel, by decide +kernel⟩
  exact ⟨by decide, by decide, by decide, by decide, by decide, by decide, fun _ _ => hval⟩

end Komodo
