/-
# The supply of a token

A ledger is the list of the transactions a node accepted, the newest first. It
is `Accepted` when every transaction was acceptable at its turn: it has a new
id, pays no negative amount, spends outputs that were unspent, and, if one of
its inputs is a token input, passed `TokensValidate` (`src/src/cc/CCtokens.cpp`).
Anything may look like a token transfer; only transactions with a token input
are validated.

`supply_le_created` says that what `IsTokensvout` recognises, with `goDeeper`,
over the unspent outputs is never more than what it recognises in the creation
transaction, as long as no transaction was waved through by the rule for the
first 12500 blocks of the ROGUE chain; `rogue_supply_exceeds_created` shows what
can happen under that rule.
-/

import Komodo.CC.TokenAmounts

namespace Komodo

open List

/-- An accepted transaction, with the height of the tip at its validation. -/
structure LedgerTx where
  height : ℤ
  tx : CTransaction
deriving DecidableEq, Repr

/-- The accepted transactions, the newest first. -/
abbrev Ledger := List LedgerTx

/-- The outpoints of a transaction's outputs. -/
def outpoints (tx : CTransaction) : List COutPoint :=
  (List.range tx.vout.length).map fun n => ⟨tx.hash, n⟩

/-- The outpoints a transaction spends. Coinbases and imports spend none. -/
def spends (tx : CTransaction) : List COutPoint :=
  if tx.isMint then [] else tx.vin.map CTxIn.prevout

namespace Ledger

/-- `myGetTransaction` over the accepted transactions. -/
def lookup (l : Ledger) : TxLookup := fun h =>
  (l.find? fun e => e.tx.hash == h).map LedgerTx.tx

/-- The unspent outputs. -/
def unspent : Ledger → List COutPoint
  | [] => []
  | e :: l => outpoints e.tx ++ (unspent l).filter (· ∉ spends e.tx)

/-- What the validator of a transaction sees of the chain. -/
def context (l : Ledger) (symbol : String) (e : LedgerTx) : ChainContext :=
  ⟨symbol, e.height, l.lookup⟩

end Ledger

section ledger
variable (env : CCEnv) (symbol : String)

/-- `MAX_TX_SIZE_AFTER_SAPLING`: the bytes of a transaction, and so a bound on
the number of its outputs. -/
def maxTxSizeAfterSapling : ℕ := 200000

/-- A transaction is acceptable on top of a ledger. -/
structure Accepts (l : Ledger) (e : LedgerTx) : Prop where
  hash_ne_null : e.tx.hash ≠ 0
  fresh : l.lookup e.tx.hash = none
  value_nonneg : ∀ out ∈ e.tx.vout, 0 ≤ out.nValue
  vout_length : e.tx.vout.length ≤ maxTxSizeAfterSapling
  spends_unspent : ∀ o ∈ spends e.tx, o ∈ Ledger.unspent l
  spends_nodup : (spends e.tx).Nodup
  validated : e.tx.isMint = false → tokenVins env e.tx.vin ≠ [] →
    (tokensValidate env (l.context symbol e) e.tx).val = true

/-- Every transaction was acceptable at its turn. -/
inductive Accepted : Ledger → Prop
  | nil : Accepted []
  | cons {l : Ledger} {e : LedgerTx} : Accepted l → Accepts env symbol l e → Accepted (e :: l)

/-- The total of what `IsTokensvout(true, …)` recognises over the unspent outputs. -/
def tokenSupply (l : Ledger) (tokenid : Uint256) : ℤ :=
  (l.unspent.map (tokenAmountAt env true l.lookup tokenid)).sum

/-- What `IsTokensvout(true, …)` recognises in the creation transaction. -/
def tokenCreated (l : Ledger) (tokenid : Uint256) : ℤ :=
  match l.lookup tokenid with
  | some tx => ((outpoints tx).map (tokenAmountAt env true l.lookup tokenid)).sum
  | none => 0

end ledger

section supply
variable {env : CCEnv} {symbol : String} {l l' : Ledger} {e : LedgerTx} {tokenid : Uint256}

/-! ### Lookups -/

namespace Ledger

theorem lookup_cons (e : LedgerTx) (l : Ledger) (h : Uint256) :
    lookup (e :: l) h = if e.tx.hash = h then some e.tx else lookup l h := by
  unfold lookup
  by_cases he : e.tx.hash = h <;> simp [he]

theorem lookup_some {h : Uint256} {tx : CTransaction} (hl : l.lookup h = some tx) :
    tx.hash = h ∧ ∃ e ∈ l, e.tx = tx := by
  unfold lookup at hl
  obtain ⟨e, he, rfl⟩ := Option.map_eq_some_iff.1 hl
  exact ⟨by simpa using find?_some he, e, mem_of_find?_eq_some he, rfl⟩

theorem unspent_lookup : ∀ {l : Ledger} {o : COutPoint}, o ∈ l.unspent →
    (l.lookup o.hash).isSome
  | e :: l, o, ho => by
    rw [lookup_cons]
    split_ifs with h
    · rfl
    · rcases mem_append.1 ho with ho | ho
      · obtain ⟨n, -, rfl⟩ := mem_map.1 ho
        exact absurd rfl h
      · exact unspent_lookup (List.mem_filter.1 ho).1

end Ledger

namespace Accepted

theorem suffix (h : Accepted env symbol l') (hs : l <:+ l') : Accepted env symbol l := by
  induction h with
  | nil => rw [suffix_nil.1 hs]; exact .nil
  | cons hl he ih =>
    rcases suffix_cons_iff.1 hs with rfl | hs
    · exact .cons hl he
    · exact ih hs

theorem lookup_mono (h : Accepted env symbol l') (hs : l <:+ l') {id : Uint256}
    {tx : CTransaction} (hl : l.lookup id = some tx) : l'.lookup id = some tx := by
  induction h with
  | nil => rwa [suffix_nil.1 hs] at hl
  | @cons k e hk he ih =>
    rcases suffix_cons_iff.1 hs with rfl | hs
    · exact hl
    · rw [Ledger.lookup_cons, if_neg, ih hs]
      rintro rfl
      exact absurd (ih hs) (by rw [he.fresh]; simp)

theorem accepts (h : Accepted env symbol l) (he : e ∈ l) :
    ∃ l₀, e :: l₀ <:+ l ∧ Accepts env symbol l₀ e := by
  induction h with
  | nil => cases he
  | @cons k e' hk he' ih =>
    rcases mem_cons.1 he with rfl | hm
    · exact ⟨k, suffix_refl _, he'⟩
    · obtain ⟨l₀, hs, ha⟩ := ih hm
      exact ⟨l₀, hs.trans (suffix_cons _ _), ha⟩

theorem accepts_of_lookup (h : Accepted env symbol l) {id : Uint256} {tx : CTransaction}
    (hl : l.lookup id = some tx) :
    ∃ l₀ e, e :: l₀ <:+ l ∧ Accepts env symbol l₀ e ∧ e.tx = tx := by
  obtain ⟨-, e, he, rfl⟩ := Ledger.lookup_some hl
  obtain ⟨l₀, hs, ha⟩ := h.accepts he
  exact ⟨l₀, e, hs, ha, rfl⟩

theorem lookup_null (h : Accepted env symbol l) : l.lookup 0 = none := by
  by_contra hne
  obtain ⟨tx, htx⟩ := Option.ne_none_iff_exists'.1 hne
  obtain ⟨l₀, e, -, ha, rfl⟩ := h.accepts_of_lookup htx
  exact ha.hash_ne_null (Ledger.lookup_some htx).1

end Accepted

namespace Accepts

theorem parent_found (h : Accepts env symbol l e) (hm : e.tx.isMint = false) {i : CTxIn}
    (hi : i ∈ e.tx.vin) : (l.lookup i.prevout.hash).isSome := by
  refine Ledger.unspent_lookup (h.spends_unspent _ ?_)
  rw [spends, hm, if_neg Bool.false_ne_true]
  exact mem_map_of_mem hi

end Accepts

theorem Accepted.parents_eq (h : Accepted env symbol l') (hs : l <:+ l')
    (ha : Accepts env symbol l e) (hm : e.tx.isMint = false) :
    ∀ i ∈ e.tx.vin, l.lookup i.prevout.hash = l'.lookup i.prevout.hash := by
  intro i hi
  obtain ⟨tx, htx⟩ := Option.isSome_iff_exists.1 (ha.parent_found hm hi)
  rw [htx, h.lookup_mono hs htx]

variable {tx : CTransaction}

theorem isMint_eq_false (hi : ¬ tx.isCoinImport = true)
    (hc : ¬ tx.isCoinBase = true) : tx.isMint = false := by
  simp [CTransaction.isMint, hi, hc]

theorem CTransaction.isCoinBase_vin (h : tx.isCoinBase = true) {i : CTxIn}
    (hi : i ∈ tx.vin) : i.prevout.hash = 0 ∧ i.prevout.n = 0xffffffff := by
  unfold CTransaction.isCoinBase at h
  split at h
  · rename_i j hj
    rw [hj, mem_singleton] at hi
    subst hi
    simpa [COutPoint.isNull] using h
  · cases h

/-- The single input of a coin import has the position `10e8`. -/
theorem CTransaction.isCoinImport_vin (h : tx.isCoinImport = true)
    {i : CTxIn} (hi : i ∈ tx.vin) : i.prevout.n = 1000000000 := by
  unfold CTransaction.isCoinImport at h
  split at h
  · rename_i j hj
    rw [hj, mem_singleton] at hi
    subst hi
    simpa using h
  · cases h

theorem Accepted.agreeAtParents (h : Accepted env symbol l') (hs : l <:+ l') {id : Uint256}
    (hl : l.lookup id = some tx) :
    AgreeAtParents l.lookup l'.lookup tx := by
  by_cases hi : tx.isCoinImport = true
  · exact Or.inl hi
  refine Or.inr fun i hvin => ?_
  by_cases hc : tx.isCoinBase = true
  · rw [(tx.isCoinBase_vin hc hvin).1, h.lookup_null, (h.suffix hs).lookup_null]
  · obtain ⟨l₀, e, hs₀, ha, rfl⟩ := (h.suffix hs).accepts_of_lookup hl
    have hm := isMint_eq_false hi hc
    have h₀ : l₀ <:+ l := (suffix_cons _ _).trans hs₀
    rw [← (h.suffix hs).parents_eq h₀ ha hm i hvin, h.parents_eq (h₀.trans hs) ha hm i hvin]

/-! ### Transactions that mint carry no tokens -/

/-- The lookup finds only transactions within the size limit. -/
def SizeBounded (lookup : TxLookup) : Prop :=
  ∀ id tx, lookup id = some tx → tx.vout.length ≤ maxTxSizeAfterSapling

theorem Accepted.sizeBounded (h : Accepted env symbol l) : SizeBounded l.lookup := by
  intro id tx htx
  obtain ⟨l₀, e, -, ha, rfl⟩ := h.accepts_of_lookup htx
  exact ha.vout_length

variable {lookup : TxLookup}

/-- The input of a coinbase or an import points at no output. -/
theorem tokenAmountAt_mint (hb : SizeBounded lookup)
    (hm : tx.isMint = true) {i : CTxIn} (hi : i ∈ tx.vin) :
    tokenAmountAt env false lookup tokenid i.prevout = 0 := by
  unfold tokenAmountAt
  cases hl : lookup i.prevout.hash with
  | none => rfl
  | some p =>
    have hp := hb _ _ hl
    rw [maxTxSizeAfterSapling] at hp
    refine (isTokensvout_flat _).trans (isTokensvoutFlat_outOfRange ?_)
    rcases Bool.or_eq_true_iff.1 hm with h | h
    · rw [tx.isCoinImport_vin h hi, toInt32, if_pos (by decide)]
      omega
    · rw [(tx.isCoinBase_vin h hi).2, toInt32, if_neg (by decide)]
      omega

/-- An output that `IsTokensvout` recognises with `goDeeper`, outside the
creation, belongs to a transaction that balances and has token inputs. -/
theorem balanced_of_amount (hn : ∀ out ∈ tx.vout, 0 ≤ out.nValue) (hid : tokenid ≠ tx.hash) {v : ℤ}
    (hv : (isTokensvout env true lookup tokenid tx v).val ≠ 0) :
    balanced env lookup tokenid tx = true ∧ isTokensvoutFlat env lookup tx v tokenid ≠ 0 ∧
      ((tokenVins env tx.vin).map fun i =>
        tokenAmountAt env false lookup tokenid i.prevout).sum ≠ 0 := by
  rw [isTokensvout_deep] at hv
  have hbal : balanced env lookup tokenid tx = true := by
    by_contra hbal
    exact hv (if_neg (not_or.2 ⟨hbal, hid⟩))
  rw [if_pos (Or.inl hbal)] at hv
  refine ⟨hbal, hv, ?_⟩
  rw [((tokensExactAmounts_isEqual false).1 hbal).2]
  exact fun h0 => hv (isTokensvoutFlat_of_outputs_zero hn h0 v)

theorem isTokensvout_mint (hb : SizeBounded lookup)
    (hn : ∀ out ∈ tx.vout, 0 ≤ out.nValue) (hm : tx.isMint = true) (hid : tokenid ≠ tx.hash)
    (v : ℤ) : (isTokensvout env true lookup tokenid tx v).val = 0 := by
  by_contra hv
  refine (balanced_of_amount hn hid hv).2.2 (sum_eq_zero fun a h => ?_)
  obtain ⟨i, hi, rfl⟩ := mem_map.1 h
  exact tokenAmountAt_mint hb hm (mem_tokenVins.1 hi).1

/-- **Only validated transfers carry tokens.** If `IsTokensvout`, with
`goDeeper` and at any later time, recognises an output of a transaction other
than the creation, then the transaction was validated: at its turn the creation
was found, and the deep amounts of its token inputs added up to the amounts of
its outputs. -/
theorem Accepts.transfer_of_amount (ha : Accepts env symbol l e)
    (hx : (l.context symbol e).exempt = false) (hid : tokenid ≠ e.tx.hash)
    (hb : SizeBounded lookup) {v : ℤ}
    (hv : (isTokensvout env true lookup tokenid e.tx v).val ≠ 0) :
    e.tx.isMint = false ∧ l.lookup tokenid ≠ none ∧
      ((tokenVins env e.tx.vin).map fun i =>
        tokenAmountAt env true l.lookup tokenid i.prevout).sum =
        tokenOutputs env l.lookup e.tx tokenid := by
  have hm : e.tx.isMint = false := by
    by_contra hm
    rw [Bool.not_eq_false] at hm
    exact hv (isTokensvout_mint hb ha.value_nonneg hm hid v)
  obtain ⟨-, hflat, hin⟩ := balanced_of_amount ha.value_nonneg hid hv
  have hne : tokenVins env e.tx.vin ≠ [] := by
    intro h0
    rw [h0] at hin
    exact hin rfl
  obtain ⟨d, hd, ht, hfound, -, hsum, -⟩ := tokensValidate_spec (ha.validated hm hne) hx
  have htok : tokenid = d.tokenid := isTokensvoutFlat_tokenid hd ht hflat
  rw [htok]
  exact ⟨hm, hfound, hsum⟩

/-! ### Amounts do not change later -/

theorem Accepted.flat_stable (h : Accepted env symbol l') (hs : l <:+ l')
    (ht : l.lookup tokenid ≠ none) {id : Uint256}
    (hl : l.lookup id = some tx) (v : ℤ) :
    isTokensvoutFlat env l.lookup tx v tokenid = isTokensvoutFlat env l'.lookup tx v tokenid := by
  obtain ⟨t, htt⟩ := Option.ne_none_iff_exists'.1 ht
  exact isTokensvoutFlat_congr (by rw [htt, h.lookup_mono hs htt]) (h.agreeAtParents hs hl) v

theorem Accepted.balanced_stable (h : Accepted env symbol l') (hs : l <:+ l')
    (ht : l.lookup tokenid ≠ none)
    (hp : ∀ i ∈ tx.vin, l.lookup i.prevout.hash = l'.lookup i.prevout.hash) :
    balanced env l.lookup tokenid tx = balanced env l'.lookup tokenid tx := by
  obtain ⟨t, htt⟩ := Option.ne_none_iff_exists'.1 ht
  exact balanced_congr (by rw [htt, h.lookup_mono hs htt]) hp
    fun i _ p hp => h.agreeAtParents hs hp

/-- Once the creation is found, the deep amounts of a transaction stay what they
are. -/
theorem Accepted.deep_stable (h : Accepted env symbol l') (hs : l <:+ l')
    (ht : l.lookup tokenid ≠ none) {id : Uint256}
    (hl : l.lookup id = some tx) (v : ℤ) :
    (isTokensvout env true l.lookup tokenid tx v).val =
      (isTokensvout env true l'.lookup tokenid tx v).val := by
  by_cases hid : tokenid = tx.hash
  · rw [isTokensvout_deep, isTokensvout_deep, if_pos (Or.inr hid), if_pos (Or.inr hid)]
    exact h.flat_stable hs ht hl v
  obtain ⟨l₀, e, -, ha, rfl⟩ := (h.suffix hs).accepts_of_lookup hl
  by_cases hm : e.tx.isMint = true
  · rw [isTokensvout_mint (h.suffix hs).sizeBounded ha.value_nonneg hm hid,
      isTokensvout_mint h.sizeBounded ha.value_nonneg hm hid]
  · have hp : ∀ i ∈ e.tx.vin, l.lookup i.prevout.hash = l'.lookup i.prevout.hash := by
      rcases h.agreeAtParents hs hl with hi | hp
      · exact absurd (Bool.or_eq_true_iff.2 (Or.inl hi)) hm
      · exact hp
    rw [isTokensvout_deep, isTokensvout_deep, h.balanced_stable hs ht hp, h.flat_stable hs ht hl]

theorem Accepted.tokenAmountAt_stable (h : Accepted env symbol l') (hs : l <:+ l')
    (ht : l.lookup tokenid ≠ none) {o : COutPoint} (ho : (l.lookup o.hash).isSome) :
    tokenAmountAt env true l.lookup tokenid o = tokenAmountAt env true l'.lookup tokenid o := by
  obtain ⟨tx, htx⟩ := Option.isSome_iff_exists.1 ho
  unfold tokenAmountAt
  rw [htx, h.lookup_mono hs htx]
  exact h.deep_stable hs ht htx _

theorem Accepted.tokenAmountAt_nonneg (h : Accepted env symbol l) (o : COutPoint) :
    0 ≤ tokenAmountAt env true l.lookup tokenid o := by
  unfold tokenAmountAt
  split
  · rename_i tx htx
    obtain ⟨l₀, e, -, ha, rfl⟩ := h.accepts_of_lookup htx
    exact (isTokensvout_deep_bounds ha.value_nonneg _).1
  · exact le_rfl

/-! ### The unspent outputs -/

theorem outpoints_nodup (tx : CTransaction) : (outpoints tx).Nodup :=
  List.Nodup.map (fun _ _ h => congrArg COutPoint.n h) nodup_range

theorem mem_outpoints_hash {o : COutPoint} (h : o ∈ outpoints tx) :
    o.hash = tx.hash := by
  obtain ⟨n, -, rfl⟩ := mem_map.1 h
  rfl

theorem Accepted.unspent_nodup (h : Accepted env symbol l) : l.unspent.Nodup := by
  induction h with
  | nil => exact nodup_nil
  | @cons k e hk he ih =>
    refine nodup_append.2 ⟨outpoints_nodup _, ih.filter _, ?_⟩
    rintro o ho o' ho' rfl
    have hfound := Ledger.unspent_lookup (mem_filter.1 ho').1
    rw [mem_outpoints_hash ho, he.fresh] at hfound
    cases hfound

theorem Accepts.sum_unspent (ha : Accepts env symbol l e) (hl : Accepted env symbol l)
    (f : COutPoint → ℤ) :
    (l.unspent.map f).sum =
      ((l.unspent.filter (· ∉ spends e.tx)).map f).sum + ((spends e.tx).map f).sum := by
  have hperm : (l.unspent.filter (· ∈ spends e.tx)).Perm (spends e.tx) := by
    refine (perm_ext_iff_of_nodup (hl.unspent_nodup.filter _) ha.spends_nodup).2 fun o => ?_
    rw [mem_filter, decide_eq_true_eq]
    exact ⟨fun h => h.2, fun h => ⟨ha.spends_unspent o h, h⟩⟩
  rw [← (hperm.map f).sum_eq]
  generalize l.unspent = u
  induction u with
  | nil => rfl
  | cons o u ih =>
    by_cases ho : o ∈ spends e.tx <;> simp [ho, ih] <;> omega

/-! ### No inflation -/

/-- No transaction of the ledger was accepted by the rule for the first blocks
of the ROGUE chain. -/
def NotExempt (symbol : String) (l : Ledger) : Prop :=
  ∀ e ∈ l, ¬ (symbol = "ROGUE" ∧ e.height ≤ 12500)

theorem NotExempt.context {l₀ : Ledger} (hx : NotExempt symbol l) (he : e ∈ l) :
    (l₀.context symbol e).exempt = false :=
  decide_eq_false (hx e he)

theorem Accepted.created_before (h : Accepted env symbol l) (hx : NotExempt symbol l)
    {o : COutPoint} (hid : tokenid ≠ o.hash)
    (hv : tokenAmountAt env true l.lookup tokenid o ≠ 0) :
    ∃ (l₀ : Ledger) (e : LedgerTx), e :: l₀ <:+ l ∧ e.tx.hash = o.hash ∧
      l₀.lookup tokenid ≠ none := by
  unfold tokenAmountAt at hv
  split at hv
  · rename_i tx htx
    obtain ⟨l₀, e, hs, ha, rfl⟩ := h.accepts_of_lookup htx
    have hh := (Ledger.lookup_some htx).1
    have hmem : e ∈ l := hs.subset mem_cons_self
    have := ha.transfer_of_amount (hx.context hmem) (hh ▸ hid) h.sizeBounded hv
    exact ⟨l₀, e, hs, hh, this.2.1⟩
  · exact absurd rfl hv

theorem Accepted.amount_eq_zero (h : Accepted env symbol l) (hx : NotExempt symbol l)
    (ht : l.lookup tokenid = none) (o : COutPoint) :
    tokenAmountAt env true l.lookup tokenid o = 0 := by
  by_contra hv
  have hid : tokenid ≠ o.hash := by
    rintro rfl
    rw [tokenAmountAt, ht] at hv
    exact hv rfl
  obtain ⟨l₀, e, hs, -, hne⟩ := h.created_before hx hid hv
  obtain ⟨t, htt⟩ := Option.ne_none_iff_exists'.1 hne
  rw [h.lookup_mono ((suffix_cons _ _).trans hs) htt] at ht
  cases ht

/-- The outputs of a transaction together carry at most the tokens it spends. -/
theorem Accepts.sum_outpoints_le (ha : Accepts env symbol l e) (hl : Accepted env symbol l)
    (hx : (l.context symbol e).exempt = false) (hid : tokenid ≠ e.tx.hash) :
    ((outpoints e.tx).map (tokenAmountAt env true (Ledger.lookup (e :: l)) tokenid)).sum ≤
      ((spends e.tx).map (tokenAmountAt env true l.lookup tokenid)).sum := by
  have hl' : Accepted env symbol (e :: l) := .cons hl ha
  have hs : l <:+ e :: l := suffix_cons _ _
  have hat : ∀ o ∈ outpoints e.tx, tokenAmountAt env true (Ledger.lookup (e :: l)) tokenid o =
      (isTokensvout env true (Ledger.lookup (e :: l)) tokenid e.tx (toInt32 o.n)).val := by
    intro o ho
    rw [tokenAmountAt, mem_outpoints_hash ho, Ledger.lookup_cons, if_pos rfl]
  have hspent : 0 ≤ ((spends e.tx).map (tokenAmountAt env true l.lookup tokenid)).sum :=
    sum_nonneg fun a h => by
      obtain ⟨o, -, rfl⟩ := mem_map.1 h
      exact hl.tokenAmountAt_nonneg o
  by_cases hall : ∀ o ∈ outpoints e.tx,
      tokenAmountAt env true (Ledger.lookup (e :: l)) tokenid o = 0
  · rw [map_congr_left hall]
    simpa using hspent
  · push Not at hall
    obtain ⟨o, ho, hv⟩ := hall
    rw [hat o ho] at hv
    obtain ⟨hm, hfound, hsum⟩ := ha.transfer_of_amount hx hid hl'.sizeBounded hv
    obtain ⟨t, ht⟩ := Option.ne_none_iff_exists'.1 hfound
    have hp := hl'.parents_eq hs ha hm
    calc ((outpoints e.tx).map (tokenAmountAt env true (Ledger.lookup (e :: l)) tokenid)).sum
        ≤ tokenOutputs env (Ledger.lookup (e :: l)) e.tx tokenid := by
          rw [tokenOutputs_eq, outpoints, map_map]
          refine sum_le_sum fun n hn => ?_
          have hsize := ha.vout_length
          rw [maxTxSizeAfterSapling] at hsize
          have hn' : n < 2 ^ 31 := by have := mem_range.1 hn; omega
          rw [Function.comp_apply, hat _ (mem_map_of_mem hn), toInt32, if_pos hn']
          exact (isTokensvout_deep_bounds ha.value_nonneg _).2
      _ = tokenOutputs env l.lookup e.tx tokenid :=
          (tokenOutputs_congr (by rw [ht, hl'.lookup_mono hs ht]) (Or.inr hp)).symm
      _ = ((tokenVins env e.tx.vin).map fun i =>
            tokenAmountAt env true l.lookup tokenid i.prevout).sum := hsum.symm
      _ ≤ (e.tx.vin.map fun i => tokenAmountAt env true l.lookup tokenid i.prevout).sum :=
          (filter_sublist.map _).sum_le_sum fun a h => by
            obtain ⟨i, -, rfl⟩ := mem_map.1 h
            exact hl.tokenAmountAt_nonneg _
      _ = ((spends e.tx).map (tokenAmountAt env true l.lookup tokenid)).sum := by
          rw [spends, hm, if_neg Bool.false_ne_true, map_map]
          rfl

/-- One accepted transaction keeps the supply within the created amount. -/
theorem Accepts.supply_step (ha : Accepts env symbol l e) (hl : Accepted env symbol l)
    (hx : NotExempt symbol (e :: l))
    (ih : tokenSupply env l tokenid ≤ tokenCreated env l tokenid) :
    tokenSupply env (e :: l) tokenid ≤ tokenCreated env (e :: l) tokenid := by
  have hl' : Accepted env symbol (e :: l) := .cons hl ha
  have hs : l <:+ e :: l := suffix_cons _ _
  have hfound : ∀ o ∈ l.unspent.filter (· ∉ spends e.tx), (l.lookup o.hash).isSome :=
    fun o ho => Ledger.unspent_lookup (mem_filter.1 ho).1
  unfold tokenSupply
  rw [Ledger.unspent, map_append, sum_append]
  by_cases hid : tokenid = e.tx.hash
  · -- the creation itself: nothing older is recognised
    have hold : ∀ o ∈ l.unspent.filter (· ∉ spends e.tx),
        tokenAmountAt env true (Ledger.lookup (e :: l)) tokenid o = 0 := by
      intro o ho
      by_contra hv
      have hne : tokenid ≠ o.hash := by
        rintro rfl
        have := hfound o ho
        rw [hid, ha.fresh] at this
        cases this
      obtain ⟨l₀, e₀, hs₀, hh, hc⟩ := hl'.created_before hx hne hv
      rcases suffix_cons_iff.1 hs₀ with heq | hs₀
      · obtain ⟨rfl, -⟩ := cons.inj heq
        exact hne (hid.trans hh)
      · obtain ⟨t, htt⟩ := Option.ne_none_iff_exists'.1 hc
        have := hl.lookup_mono ((suffix_cons _ _).trans hs₀) htt
        rw [hid, ha.fresh] at this
        cases this
    rw [map_congr_left hold, tokenCreated, Ledger.lookup_cons, if_pos hid.symm]
    simp
  · cases ht : l.lookup tokenid with
    | none =>
      have ht' : Ledger.lookup (e :: l) tokenid = none := by
        rw [Ledger.lookup_cons, if_neg (Ne.symm hid), ht]
      rw [tokenCreated, ht', map_congr_left fun o _ => hl'.amount_eq_zero hx ht' o,
        map_congr_left fun o _ => hl'.amount_eq_zero hx ht' o]
      simp
    | some tx =>
      have hne : l.lookup tokenid ≠ none := by rw [ht]; simp
      have hcreated : tokenCreated env (e :: l) tokenid = tokenCreated env l tokenid := by
        rw [tokenCreated, tokenCreated, hl'.lookup_mono hs ht, ht]
        refine congrArg sum (map_congr_left fun o ho => ?_)
        refine (hl'.tokenAmountAt_stable hs hne ?_).symm
        rw [mem_outpoints_hash ho, (Ledger.lookup_some ht).1, ht]
        rfl
      have hold : ((l.unspent.filter (· ∉ spends e.tx)).map
            (tokenAmountAt env true (Ledger.lookup (e :: l)) tokenid)).sum =
          ((l.unspent.filter (· ∉ spends e.tx)).map
            (tokenAmountAt env true l.lookup tokenid)).sum :=
        congrArg sum (map_congr_left fun o ho =>
          (hl'.tokenAmountAt_stable hs hne (hfound o ho)).symm)
      have hnew := ha.sum_outpoints_le hl (hx.context mem_cons_self) hid
      have hsplit := ha.sum_unspent hl (tokenAmountAt env true l.lookup tokenid)
      unfold tokenSupply at ih
      rw [hcreated, hold]
      omega

/-- **No inflation.** In every ledger accepted transaction by transaction, with
none accepted in the window in which the ROGUE chain does not validate tokens,
and for every token id, the amounts that `IsTokensvout` recognises with
`goDeeper` over the unspent outputs add up to at most what it recognises in the
creation transaction; to nothing if there is none. -/
theorem supply_le_created (h : Accepted env symbol l) (hx : NotExempt symbol l)
    (tokenid : Uint256) : tokenSupply env l tokenid ≤ tokenCreated env l tokenid := by
  induction h with
  | nil => exact le_rfl
  | cons hl he ih => exact he.supply_step hl hx (ih fun e he => hx e (mem_cons_of_mem _ he))

end supply

/-! ### A small chain

One key, the conditions that pay to it and to the tokens contract with their
real encodings, and a fulfillment of the first (with a placeholder for the
signature, which no definition here checks). -/

namespace Sample

/-- A public key: the generator of the curve. -/
def key : CPubKey :=
  [0x02, 0x79, 0xbe, 0x66, 0x7e, 0xf9, 0xdc, 0xbb, 0xac, 0x55, 0xa0, 0x62, 0x95, 0xce, 0x87,
   0x0b, 0x07, 0x02, 0x9b, 0xfc, 0xdb, 0x2d, 0xce, 0x28, 0xd9, 0x59, 0xf2, 0x81, 0x5b, 0x16,
   0xf8, 0x17, 0x98]

/-- `cc_conditionBinary(MakeCCcond1(EVAL_TOKENS, key))`. -/
def keyCondition : Bytes :=
  [0xa2, 0x2c, 0x80, 0x20, 0x6f, 0xe4, 0xdd, 0x2a, 0x06, 0x67, 0xf7, 0xa6, 0x6c, 0x55, 0xe4,
   0x88, 0x05, 0xa0, 0x5f, 0x90, 0xb6, 0x3e, 0x71, 0x59, 0x72, 0x98, 0x14, 0xe6, 0x23, 0x85,
   0x27, 0x5e, 0xf1, 0xad, 0x00, 0xdf, 0x81, 0x03, 0x12, 0x0c, 0x00, 0x82, 0x03, 0x00, 0x04,
   0x01]

/-- `cc_conditionBinary(MakeCCcond1(EVAL_TOKENS, tokensUnspendablePk))`. -/
def markerCondition : Bytes :=
  [0xa2, 0x2c, 0x80, 0x20, 0x43, 0x2d, 0xe3, 0x88, 0xaa, 0xbc, 0xb6, 0xb4, 0xe3, 0x32, 0x63,
   0x51, 0xd1, 0xd8, 0x15, 0xce, 0xe8, 0xbe, 0x9a, 0x8d, 0x37, 0xb0, 0x55, 0xcd, 0x1c, 0x0c,
   0xf8, 0x78, 0x2e, 0x5c, 0x50, 0xc0, 0x81, 0x03, 0x12, 0x0c, 0x00, 0x82, 0x03, 0x00, 0x04,
   0x01]

/-- The signature bytes of the fulfillment. -/
def signature : Bytes := List.replicate 64 1

/-- The fulfillment of `MakeCCcond1(EVAL_TOKENS, key)`. -/
def fulfillment : Bytes :=
  [0xa2, 0x76, 0xa0, 0x72, 0xa2, 0x6b, 0xa0, 0x67, 0xa5, 0x65, 0x80, 0x21] ++ key
    ++ [0x81, 0x40] ++ signature ++ [0xa1, 0x00, 0xaf, 0x03, 0x80, 0x01, 0xf2, 0xa1, 0x00]

/-- The script of an output to a key. -/
def payToKey : CScript := pushData key ++ [0xac]

/-- The codec and `Solver` on the data of the small chain. -/
def env : CCEnv where
  conditionBinary
    | .threshold 2 2 [.eval [0xf2], .threshold 1 1 [.secp256k1 pk _]] =>
      if pk = key then keyCondition else if pk = tokensUnspendablePk then markerCondition else []
    | _ => []
  readFulfillmentBinary b :=
    if b = fulfillment then
      some (.threshold 2 2 [.threshold 1 1 [.secp256k1 key (some signature)], .eval [0xf2]])
    else none
  anonPublicKey _ := []
  anonHasCode _ _ := false
  solver s := if s = payToKey then some (.pubkey, [key]) else none
  hash160 _ := []

/-- The input script that spends a token output. -/
def tokenSig : CScript := pushData (fulfillment ++ [1])

/-- The input script that spends an output to the key (its signature left out). -/
def keySig : CScript := pushData [1]

/-- An output of tokens to the key. -/
def tokenOut (nValue : ℤ) : CTxOut := env.makeCC1vout EVAL_TOKENS nValue key

/-- An opreturn output. -/
def opretOut (payload : Bytes) : CTxOut := ⟨0, OP_RETURN :: pushData payload⟩

/-- The creation opreturn: originator, name `T`, no description. -/
def createOpret : CTxOut := opretOut ([EVAL_TOKENS, fid 'c', 0x21] ++ key ++ [1, fid 'T', 0])

/-- The transfer opreturn for token id 2, with one key. -/
def transferOpret : CTxOut :=
  opretOut ([EVAL_TOKENS, fid 't'] ++ List.replicate 31 0 ++ [2, 1, 0x21] ++ key)

/-- A coinbase paying the key twice. -/
def funding : CTransaction where
  hash := 1
  vin := [⟨⟨0, 0xffffffff⟩, [], 0⟩]
  vout := [⟨100, payToKey⟩, ⟨2000, payToKey⟩]

/-- The creation of ten tokens. -/
def creation : CTransaction where
  hash := 2
  vin := [⟨⟨1, 0⟩, keySig, 0⟩]
  vout := [tokenOut 10, createOpret]

/-- A transaction without token inputs that looks like a transfer of 1000 tokens. -/
def forgery : CTransaction where
  hash := 3
  vin := [⟨⟨1, 1⟩, keySig, 0⟩]
  vout := [tokenOut 1000, transferOpret]

/-- A transfer of the created tokens. -/
def transfer : CTransaction where
  hash := 4
  vin := [⟨⟨2, 0⟩, tokenSig, 0⟩]
  vout := [tokenOut 10, transferOpret]

/-- A transfer of the forged tokens. -/
def forgedTransfer : CTransaction where
  hash := 4
  vin := [⟨⟨3, 0⟩, tokenSig, 0⟩]
  vout := [tokenOut 1000, transferOpret]

/-- The funding, the creation and the forgery, at height 100. -/
def forgeryLedger : Ledger := [⟨100, forgery⟩, ⟨100, creation⟩, ⟨100, funding⟩]

theorem accepted_creation (symbol : String) :
    Accepted env symbol [⟨100, creation⟩, ⟨100, funding⟩] := by
  refine .cons (.cons .nil ?_) ?_
  · exact ⟨by decide, by decide, by decide, by decide, by decide, by decide,
      fun h => absurd h (by decide)⟩
  · exact ⟨by decide, by decide, by decide, by decide, by decide, by decide,
      fun _ h => absurd (by decide) h⟩

theorem accepted_forgery (symbol : String) : Accepted env symbol forgeryLedger :=
  .cons (accepted_creation symbol) ⟨by decide, by decide, by decide, by decide, by decide,
    by decide, fun _ h => absurd (by decide) h⟩

end Sample

/-- The hypotheses of `supply_le_created` are satisfiable: the ten tokens of a
creation, after a transfer of them. -/
theorem supply_le_created_transfer :
    tokenSupply Sample.env [⟨100, Sample.transfer⟩, ⟨100, Sample.creation⟩,
        ⟨100, Sample.funding⟩] 2 = 10 ∧
      tokenSupply Sample.env [⟨100, Sample.transfer⟩, ⟨100, Sample.creation⟩,
          ⟨100, Sample.funding⟩] 2 ≤
        tokenCreated Sample.env [⟨100, Sample.transfer⟩, ⟨100, Sample.creation⟩,
          ⟨100, Sample.funding⟩] 2 := by
  have h : Accepted Sample.env "TOKEN" [⟨100, Sample.transfer⟩, ⟨100, Sample.creation⟩,
      ⟨100, Sample.funding⟩] :=
    .cons (Sample.accepted_creation _) ⟨by decide, by decide, by decide, by decide, by decide,
      by decide, fun _ _ => by decide +kernel⟩
  exact ⟨by decide +kernel, supply_le_created h (fun _ _ hx => absurd hx.1 (by decide)) 2⟩

/-- On the ROGUE chain below height 12500 a token input needs no validation, and
forged tokens pass for real ones: of ten tokens created, 1010 are recognised. -/
theorem rogue_supply_exceeds_created :
    Accepted Sample.env "ROGUE" (⟨100, Sample.forgedTransfer⟩ :: Sample.forgeryLedger) ∧
      tokenCreated Sample.env (⟨100, Sample.forgedTransfer⟩ :: Sample.forgeryLedger) 2 = 10 ∧
      tokenSupply Sample.env (⟨100, Sample.forgedTransfer⟩ :: Sample.forgeryLedger) 2 = 1010 := by
  refine ⟨.cons (Sample.accepted_forgery _) ?_, by decide +kernel, by decide +kernel⟩
  exact ⟨by decide, by decide, by decide, by decide, by decide, by decide, fun _ _ => by decide⟩

end Komodo
