/-
# Coinbases that are not mature after a reorganisation

`CTxMemPool::removeForReorg` of `src/src/txmempool.cpp` against the rule for coinbases in
`Consensus::CheckTxInputs` (`src/src/main.cpp`), for the pools that `AcceptToMemoryPool` builds.

To the consensus a coinbase is spent too early when it is not mature *or* still time-locked; the
pool asks for both.  What goes is then a selected transaction or descends from one
(`mem_removeForReorg`), which is not always so of what the consensus refuses:
`no_premature_left_iff` says when it is.

The descendants are found in `mapNextTx`.  `Traced` is what this needs of the pool.  Unlike
`Consistent` it holds in every run, since an import erases no outpoint that another transaction
can spend.
-/

import Komodo.Mempool.Consistent

namespace Komodo

open KeyIndex List

namespace CTxMemPool

/-! ### The rule of the consensus -/

namespace ReorgView

variable (v : ReorgView)

/-- `CCoins::TotalTxValue`, as it is compared: a `uint64_t`. -/
def totalTxValue (coins : CCoins) : ℤ := (coins.vout.map CTxOut.nValue).sum % 2 ^ 64

/-- What `Consensus::CheckTxInputs` says of the coins that an input spends, when they are of a
coinbase: the level of `state.DoS`, zero for `state.Invalid`, and the reason. -/
def checkCoinbase (coins : CCoins) : Except (ℕ × String) Unit :=
  if coins.fCoinBase then
    if v.timelockGTE ≤ totalTxValue coins
        ∧ v.nMemPoolHeight % 2 ^ 64 < v.blockUnlocktime coins.nHeight % 2 ^ 64 then
      .error (10, "bad-txns-premature-spend-of-coinbase")
    else if (v.nMemPoolHeight - coins.nHeight) % 2 ^ 32 < v.coinbaseMaturity then
      .error (0, "bad-txns-premature-spend-of-coinbase")
    else .ok ()
  else .ok ()

/-- The transaction spends an output of a confirmed coinbase that `CheckTxInputs` refuses. -/
def SpendsPremature (tx : CTransaction) : Prop :=
  ∃ o coins, tx.Spends o ∧ v.accessCoins o.hash = some coins ∧ coins.isAvailable o.n = true
    ∧ v.checkCoinbase coins ≠ .ok ()

end ReorgView

/-! ### The pools that are built -/

/-- `fSpendsCoinbase` of `AcceptToMemoryPool`. -/
def fSpendsCoinbase (accessCoins : Uint256 → Option CCoins) (tx : CTransaction) : Bool :=
  !tx.isCoinImport && tx.vin.any fun txin =>
    (accessCoins txin.prevout.hash).any CCoins.fCoinBase

/-- What an unspent output says of its transaction. -/
def Knows (isCoinBase : Uint256 → Prop) (accessCoins : Uint256 → Option CCoins) : Prop :=
  ∀ o : COutPoint, ∀ coins, accessCoins o.hash = some coins → coins.isAvailable o.n = true →
    (coins.fCoinBase = true ↔ isCoinBase o.hash)

/-- An addition as `AcceptToMemoryPool` makes it: besides the tests of the pool, the inputs are
there, and the transaction has no more outputs than fit into a block. -/
structure Accepted (isCoinBase : Uint256 → Prop) (pool : CTxMemPool) (entry : CTxMemPoolEntry) :
    Prop where
  acceptable : pool.acceptable entry.tx = true
  outputs : entry.tx.vout.length ≤ 1000000000
  flag : ∃ accessCoins, Knows isCoinBase accessCoins
    ∧ (∀ o, entry.tx.Spends o → ∃ coins, accessCoins o.hash = some coins
      ∧ coins.isAvailable o.n = true)
    ∧ entry.spendsCoinbase = fSpendsCoinbase accessCoins entry.tx

/-- Each addition of a run. -/
def AllAccepted (isCoinBase : Uint256 → Prop) (pool : CTxMemPool) : List Op → Prop
  | [] => True
  | op :: ops => (∀ entry, op = .addUnchecked entry → Accepted isCoinBase pool entry)
      ∧ AllAccepted isCoinBase (pool.step op).1 ops

/-- The pool after a run of additions as `AcceptToMemoryPool` makes them and of any removals. -/
def Reachable (isCoinBase : Uint256 → Prop) (pool : CTxMemPool) : Prop :=
  ∃ ops, AllAccepted isCoinBase {} ops ∧ pool = run {} ops

/-! ### What holds in every run -/

/-- An id names one entry, and `mapNextTx` has every outpoint that another transaction may have
made, with the transaction that spends it. -/
structure Traced (isCoinBase : Uint256 → Prop) (pool : CTxMemPool) : Prop where
  ids : (pool.txs.map CTransaction.hash).Nodup
  sound : ∀ o next, pool.mapNextTx o = some next → next.1 ∈ pool.txs ∧ next.1.Spends o
  complete : ∀ t ∈ pool.txs, ∀ o, t.Spends o → o.n < 1000000000 →
    ∃ i, pool.mapNextTx o = some (t, i)
  outputs : ∀ t ∈ pool.txs, t.vout.length ≤ 1000000000
  flag : ∀ e ∈ pool.mapTx, ∀ o, e.tx.Spends o → isCoinBase o.hash → e.spendsCoinbase = true

section
variable {isCoinBase : Uint256 → Prop} {pool : CTxMemPool} {e : CTxMemPoolEntry}
  {tx : CTransaction}

theorem Traced.eq_of_hash (h : pool.Traced isCoinBase) {t : CTransaction} (ht : t ∈ pool.txs)
    (htx : tx ∈ pool.txs) (hhash : t.hash = tx.hash) : t = tx :=
  inj_on_of_nodup_map h.ids ht htx hhash

theorem traced_empty : Traced isCoinBase {} :=
  ⟨nodup_nil, fun _ _ h => (nomatch h), fun _ h => (nomatch h), fun _ h => (nomatch h),
    fun _ h => (nomatch h)⟩

theorem fSpendsCoinbase_of_spends {accessCoins : Uint256 → Option CCoins} {o : COutPoint}
    {coins : CCoins} (h : tx.Spends o) (hcoins : accessCoins o.hash = some coins)
    (hbase : coins.fCoinBase = true) : fSpendsCoinbase accessCoins tx = true := by
  obtain ⟨himport, hmem⟩ := h
  obtain ⟨txin, htxin, rfl⟩ := mem_map.1 hmem
  rw [fSpendsCoinbase, himport, Bool.not_false, Bool.true_and, any_eq_true]
  exact ⟨txin, htxin, by rw [hcoins]; exact hbase⟩

theorem Traced.addUnchecked (h : pool.Traced isCoinBase) (haccepted : Accepted isCoinBase pool e) :
    (pool.addUnchecked e).Traced isCoinBase := by
  obtain ⟨hnew, hfree, -⟩ := acceptable_iff.1 haccepted.acceptable
  have htxs := txs_addUnchecked hnew
  have hkey : ∀ o, o ∈ e.tx.nextEntries.map Prod.fst → e.tx.Spends o := by
    intro o ho
    obtain ⟨⟨o, next⟩, hmem, rfl⟩ := mem_map.1 ho
    exact (mem_prevouts_of_nextEntries hmem).1
  have hnext : (pool.addUnchecked e).mapNextTx = putAll pool.mapNextTx e.tx.nextEntries := by
    rw [addUnchecked_eq hnew]
  refine ⟨?_, fun o next ho => ?_, fun t ht o ho hn => ?_, fun t ht => ?_,
    fun e' he' o ho hbase => ?_⟩
  · rw [htxs, map_append, nodup_append]
    refine ⟨h.ids, nodup_singleton _, ?_⟩
    rintro a ha b hb rfl
    obtain ⟨t, ht, hhash⟩ := mem_map.1 ha
    exact contains_eq_false.1 hnew t ht (hhash.trans (mem_singleton.1 hb))
  · rw [hnext] at ho
    rw [htxs, mem_append, mem_singleton]
    by_cases hmem : o ∈ e.tx.nextEntries.map Prod.fst
    · obtain ⟨next', hentry, hput⟩ := exists_putAll_of_mem pool.mapNextTx hmem
      obtain rfl := Option.some.inj (hput.symm.trans ho)
      obtain ⟨hspends, htx⟩ := mem_prevouts_of_nextEntries hentry
      exact ⟨.inr htx, htx ▸ hspends⟩
    · rw [putAll_of_notMem hmem] at ho
      exact ⟨.inl (h.sound o next ho).1, (h.sound o next ho).2⟩
  · rw [hnext]
    rw [htxs, mem_append, mem_singleton] at ht
    rcases ht with ht | rfl
    · obtain ⟨i, hi⟩ := h.complete t ht o ho hn
      have hmem : o ∉ e.tx.nextEntries.map Prod.fst := fun hmem => by
        rw [hfree o (hkey o hmem).2] at hi
        cases hi
      exact ⟨i, by rw [putAll_of_notMem hmem, hi]⟩
    · obtain ⟨i, hentry⟩ := exists_nextEntries ho
      obtain ⟨⟨t, j⟩, hput, hvalue⟩ := exists_putAll_of_mem pool.mapNextTx
        (mem_map_of_mem (f := Prod.fst) hentry)
      obtain rfl := (mem_prevouts_of_nextEntries hput).2
      exact ⟨j, hvalue⟩
  · rw [htxs, mem_append, mem_singleton] at ht
    rcases ht with ht | rfl
    · exact h.outputs t ht
    · exact haccepted.outputs
  · rw [addUnchecked_eq hnew, mem_append, mem_singleton] at he'
    rcases he' with he' | rfl
    · exact h.flag e' he' o ho hbase
    · obtain ⟨accessCoins, hknows, hinputs, hflag⟩ := haccepted.flag
      obtain ⟨coins, hcoins, havailable⟩ := hinputs o ho
      rw [hflag]
      exact fSpendsCoinbase_of_spends ho hcoins ((hknows o coins hcoins havailable).2 hbase)

theorem spends_or_import {o : COutPoint} (h : o ∈ tx.prevouts) :
    tx.Spends o ∨ o.n = 1000000000 := by
  cases himport : tx.isCoinImport with
  | false => exact .inl ⟨himport, h⟩
  | true =>
    refine .inr ?_
    unfold CTransaction.isCoinImport at himport
    unfold CTransaction.prevouts at h
    split at himport
    · next i hvin =>
      rw [hvin, map_singleton, mem_singleton] at h
      rw [h]
      exact of_decide_eq_true himport
    · cases himport

theorem Traced.eraseEntry (h : pool.Traced isCoinBase) (he : e ∈ pool.mapTx) :
    (pool.eraseEntry e).Traced isCoinBase := by
  have htx : e.tx ∈ pool.txs := mem_map_of_mem he
  refine ⟨?_, fun o next ho => ?_, fun t ht o ho hn => ?_, fun t ht => ?_, fun e' he' => ?_⟩
  · rw [txs_eraseEntry]
    exact h.ids.sublist (filter_sublist.map _)
  · have hmem : o ∉ e.tx.prevouts := fun hmem => by
      rw [show (pool.eraseEntry e).mapNextTx o = none from dropKeys_of_mem hmem] at ho
      cases ho
    obtain ⟨hnext, hspends⟩ := h.sound o next ((dropKeys_of_notMem hmem).symm.trans ho)
    refine ⟨mem_txs_eraseEntry.2 ⟨hnext, fun hhash => hmem ?_⟩, hspends⟩
    rw [← h.eq_of_hash hnext htx hhash]
    exact hspends.2
  · obtain ⟨ht, hne⟩ := mem_txs_eraseEntry.1 ht
    obtain ⟨i, hi⟩ := h.complete t ht o ho hn
    refine ⟨i, (dropKeys_of_notMem fun hmem => ?_).trans hi⟩
    rcases spends_or_import hmem with hspends | heq
    · obtain ⟨j, hj⟩ := h.complete e.tx htx o hspends hn
      exact hne (congrArg (fun next => next.1.hash) (Option.some.inj (hi.symm.trans hj)))
    · omega
  · exact h.outputs t (mem_txs_eraseEntry.1 ht).1
  · exact h.flag e' (mem_of_mem_filter he')

/-! ### Removals keep what an erased entry keeps -/

section keeps
variable {P : CTxMemPool → Prop} (herase : ∀ {pool e}, P pool → e ∈ pool.mapTx →
  P (pool.eraseEntry e))
include herase

theorem removeLoop_keeps {txToRemove : List Uint256} {removed : List CTransaction}
    {fRecursive : Bool} (h : P pool) : P (pool.removeLoop txToRemove removed fRecursive).1 := by
  induction pool, txToRemove, removed using removeLoop.induct fRecursive with
  | case1 pool removed => rwa [removeLoop_nil]
  | case2 pool removed hash rest hnone ih =>
    rw [removeLoop_cons_none hnone]
    exact ih h
  | case3 pool removed hash rest e hfind _ ih =>
    rw [removeLoop_cons_some hfind]
    exact ih (herase h (find_eq_some hfind).1)

omit herase in
theorem foldl_keeps {α : Type}
    {f : CTxMemPool × List CTransaction → α → CTxMemPool × List CTransaction}
    (hf : ∀ p a, P p.1 → P (f p a).1) (l : List α) {p : CTxMemPool × List CTransaction}
    (h : P p.1) : P (l.foldl f p).1 := by
  induction l generalizing p with
  | nil => exact h
  | cons a l ih => exact ih (hf p a h)

theorem removeConflict_keeps (tx : CTransaction) (removed : List CTransaction)
    (txConflict : Option CTransaction) (h : P pool) :
    P (removeConflict tx pool removed txConflict).1 := by
  unfold removeConflict
  cases txConflict with
  | none => exact h
  | some t =>
    dsimp only
    split_ifs
    · exact removeLoop_keeps herase h
    · exact h

theorem removeConflicts_keeps (tx : CTransaction) (removed : List CTransaction) (h : P pool) :
    P (pool.removeConflicts tx removed).1 := by
  unfold removeConflicts
  refine foldl_keeps (fun p nf hp => removeConflict_keeps herase tx _ _ hp) _ ?_
  refine foldl_keeps (fun p nf hp => removeConflict_keeps herase tx _ _ hp) _ ?_
  exact foldl_keeps (fun p txin hp => removeConflict_keeps herase tx _ _ hp) _ h

theorem removeEach_keeps (transactionsToRemove : List CTransaction) (h : P pool) :
    P (pool.removeEach transactionsToRemove).1 :=
  foldl_keeps (fun _ _ hp => removeLoop_keeps herase hp) _ h

/-- Every change but an addition and `clear`. -/
theorem step_keeps {op : Op} (hadd : ∀ entry, op ≠ .addUnchecked entry) (hclear : op ≠ .clear)
    (h : P pool) : P (pool.step op).1 := by
  cases op with
  | addUnchecked entry => exact absurd rfl (hadd entry)
  | remove tx fRecursive => cases fRecursive <;> exact removeLoop_keeps herase h
  | removeForBlock vtx =>
    exact foldl_keeps (fun p tx hp => removeConflicts_keeps herase tx p.2
      (removeLoop_keeps herase hp)) vtx h
  | removeConflicts tx => exact removeConflicts_keeps herase tx [] h
  | removeForReorg v => exact removeEach_keeps herase _ h
  | removeWithAnchor invalidRoot type => exact removeEach_keeps herase _ h
  | removeExpired nBlockHeight fInterestNotValidated => exact removeEach_keeps herase _ h
  | removeWithoutBranchId nMemPoolBranchId => exact removeEach_keeps herase _ h
  | clear => exact absurd rfl hclear

end keeps

theorem Traced.step (h : pool.Traced isCoinBase) {op : Op}
    (haccepted : ∀ entry, op = .addUnchecked entry → Accepted isCoinBase pool entry) :
    (pool.step op).1.Traced isCoinBase := by
  by_cases hadd : ∃ entry, op = .addUnchecked entry
  · obtain ⟨entry, rfl⟩ := hadd
    exact h.addUnchecked (haccepted entry rfl)
  · by_cases hclear : op = .clear
    · rw [hclear]
      exact ⟨nodup_nil, fun _ _ ho => (nomatch ho), fun _ ht => (nomatch ht),
        fun _ ht => (nomatch ht), fun _ he => (nomatch he)⟩
    · exact step_keeps (fun h he => h.eraseEntry he) (fun entry heq => hadd ⟨entry, heq⟩) hclear h

theorem Traced.run (h : pool.Traced isCoinBase) {ops : List Op}
    (haccepted : AllAccepted isCoinBase pool ops) : (pool.run ops).Traced isCoinBase := by
  induction ops generalizing pool with
  | nil => exact h
  | cons op ops ih => exact ih (h.step haccepted.1) haccepted.2

theorem Reachable.traced (h : pool.Reachable isCoinBase) : pool.Traced isCoinBase := by
  obtain ⟨ops, haccepted, rfl⟩ := h
  exact traced_empty.run haccepted

/-! ### What a removal removes -/

/-- The first transaction of the pool has an output that the second one spends. -/
def Parent (pool : CTxMemPool) (r t : CTransaction) : Prop :=
  t ∈ pool.txs ∧ ∃ i < r.vout.length, t.Spends ⟨r.hash, i⟩

/-- The transaction, or one that it descends from, is named by an id of the list. -/
def Reached (pool : CTxMemPool) (hashes : List Uint256) (t : CTransaction) : Prop :=
  ∃ t₀ ∈ pool.txs, t₀.hash ∈ hashes ∧ Relation.ReflTransGen pool.Parent t₀ t

/-- A removal of some ids: what goes is reached, what is named goes, and nothing that is left
spends an output of what has gone. -/
structure RemovesReached (hashes : List Uint256) (pool pool' : CTxMemPool) : Prop where
  left : ∀ t ∈ pool'.txs, t ∈ pool.txs
  reached : ∀ t ∈ pool.txs, t ∉ pool'.txs → pool.Reached hashes t
  named : ∀ t ∈ pool.txs, t.hash ∈ hashes → t ∉ pool'.txs
  noneLeft : ∀ t ∈ pool'.txs, ∀ r ∈ pool.txs, r ∉ pool'.txs → ¬pool.Parent r t

theorem Traced.mem_spenders_iff (h : pool.Traced isCoinBase) {r : CTransaction} {hash : Uint256}
    (hr : r.vout.length ≤ 1000000000) :
    hash ∈ pool.spenders r ↔ ∃ t, t.hash = hash ∧ pool.Parent r t := by
  unfold spenders
  constructor
  · intro hmem
    obtain ⟨i, hi, hpushed⟩ := mem_filterMap.1 hmem
    obtain ⟨next, hnext, rfl⟩ := Option.map_eq_some_iff.1 hpushed
    obtain ⟨hmem, hspends⟩ := h.sound _ next hnext
    exact ⟨next.1, rfl, hmem, i, mem_range.1 hi, hspends⟩
  · rintro ⟨t, rfl, ht, i, hi, hspends⟩
    obtain ⟨j, hnext⟩ := h.complete t ht _ hspends (lt_of_lt_of_le hi hr)
    exact mem_filterMap.2 ⟨i, mem_range.2 hi, by rw [hnext, Option.map_some]⟩

theorem descends_of_subset {pool pool' : CTxMemPool} (hsub : ∀ t ∈ pool.txs, t ∈ pool'.txs)
    {r t : CTransaction} (h : Relation.ReflTransGen pool.Parent r t) :
    Relation.ReflTransGen pool'.Parent r t :=
  Relation.ReflTransGen.mono (fun _ t hparent => ⟨hsub t hparent.1, hparent.2⟩) _ _ h

theorem Traced.reached_of_erase (h : pool.Traced isCoinBase) (he : e ∈ pool.mapTx)
    {rest : List Uint256} (hr : (pool.eraseEntry e).Reached (rest ++ pool.spenders e.tx) tx) :
    pool.Reached (e.tx.hash :: rest) tx := by
  have htx : e.tx ∈ pool.txs := mem_map_of_mem he
  obtain ⟨t₀, ht₀, hhash, hpath⟩ := hr
  have ht₀ := (mem_txs_eraseEntry.1 ht₀).1
  have hpath := descends_of_subset (fun t ht => (mem_txs_eraseEntry.1 ht).1) hpath
  rcases mem_append.1 hhash with hrest | hchild
  · exact ⟨t₀, ht₀, mem_cons_of_mem _ hrest, hpath⟩
  · obtain ⟨t, ht, hparent⟩ := (h.mem_spenders_iff (h.outputs e.tx htx)).1 hchild
    obtain rfl := h.eq_of_hash hparent.1 ht₀ ht
    exact ⟨e.tx, htx, mem_cons_self, .head hparent hpath⟩

/-- The queue of `remove`. -/
theorem Traced.removeLoop_removes (h : pool.Traced isCoinBase) {txToRemove : List Uint256}
    {removed : List CTransaction} :
    RemovesReached txToRemove pool (pool.removeLoop txToRemove removed true).1 := by
  induction pool, txToRemove, removed using removeLoop.induct true with
  | case1 pool removed =>
    rw [removeLoop_nil]
    exact ⟨fun _ => id, fun t ht hnot => absurd ht hnot, fun _ _ hmem => (nomatch hmem),
      fun _ _ r hr hnot => absurd hr hnot⟩
  | case2 pool removed hash rest hnone ih =>
    rw [removeLoop_cons_none hnone]
    have ih := ih h
    refine ⟨ih.left, fun t ht hnot => ?_, fun t ht hmem => ?_, ih.noneLeft⟩
    · obtain ⟨t₀, ht₀, hmem, hpath⟩ := ih.reached t ht hnot
      exact ⟨t₀, ht₀, mem_cons_of_mem _ hmem, hpath⟩
    · exact ih.named t ht ((mem_cons.1 hmem).resolve_left (find_eq_none.1 hnone t ht))
  | case3 pool removed hash rest e hfind _ ih =>
    obtain ⟨he, rfl⟩ := find_eq_some hfind
    have htx : e.tx ∈ pool.txs := mem_map_of_mem he
    rw [removeLoop_cons_some hfind]
    have ih := ih (h.eraseEntry he)
    rw [dif_pos rfl] at ih
    rw [if_pos rfl]
    have hgone : ∀ {t}, t ∈ pool.txs → t ≠ e.tx → t ∈ (pool.eraseEntry e).txs :=
      fun ht hne => mem_txs_eraseEntry.2 ⟨ht, fun hhash => hne (h.eq_of_hash ht htx hhash)⟩
    refine ⟨fun t ht => (mem_txs_eraseEntry.1 (ih.left t ht)).1, fun t ht hnot => ?_,
      fun t ht hmem hleft => ?_, fun t ht r hr hnot hparent => ?_⟩
    · by_cases heq : t = e.tx
      · exact ⟨e.tx, htx, mem_cons_self, heq ▸ .refl⟩
      · exact h.reached_of_erase he (ih.reached t (hgone ht heq) hnot)
    · obtain ⟨-, hne⟩ := mem_txs_eraseEntry.1 (ih.left t hleft)
      refine ih.named t (ih.left t hleft) (mem_append_left _ ?_) hleft
      exact (mem_cons.1 hmem).resolve_left hne
    · have hleft := ih.left t ht
      by_cases heq : r = e.tx
      · refine ih.named t hleft (mem_append_right _ ?_) ht
        exact (h.mem_spenders_iff (h.outputs e.tx htx)).2 ⟨t, rfl, heq ▸ hparent⟩
      · exact ih.noneLeft t ht r (hgone hr heq) hnot ⟨hleft, hparent.2⟩

theorem Reached.mono {hashes hashes' : List Uint256} (h : pool.Reached hashes tx)
    (hsub : hashes ⊆ hashes') : pool.Reached hashes' tx := by
  obtain ⟨t₀, ht₀, hmem, hpath⟩ := h
  exact ⟨t₀, ht₀, hsub hmem, hpath⟩

/-- One more transaction of the pool is removed.  If it has gone already, so has what spends it. -/
theorem RemovesReached.remove {done : List Uint256} {cur : CTxMemPool} (h : pool.Traced isCoinBase)
    (hcur : cur.Traced isCoinBase) (hdone : RemovesReached done pool cur) (htx : tx ∈ pool.txs)
    (removed : List CTransaction) :
    RemovesReached (done ++ [tx.hash]) pool (cur.remove tx removed true).1 := by
  have hnext : RemovesReached _ cur (cur.remove tx removed true).1 := hcur.removeLoop_removes
  refine ⟨fun t ht => hdone.left t (hnext.left t ht), fun t ht hnot => ?_,
    fun t ht hmem hleft => ?_, fun t ht r hr hnot hparent => ?_⟩
  · by_cases hwas : t ∈ cur.txs
    · obtain ⟨t₀, ht₀, hmem, hpath⟩ := hnext.reached t hwas hnot
      have hpath := descends_of_subset hdone.left hpath
      refine ⟨t₀, hdone.left t₀ ht₀, mem_append_right _ ?_, hpath⟩
      rcases mem_cons.1 hmem with hhash | hchild
      · exact mem_singleton.2 hhash
      · split_ifs at hchild with hgone
        · rw [Bool.true_and, Bool.not_eq_true'] at hgone
          obtain ⟨t', hhash, hparent⟩ := (hcur.mem_spenders_iff (h.outputs tx htx)).1 hchild
          have hout : tx ∉ cur.txs := fun hin => contains_eq_false.1 hgone tx hin rfl
          have hparent' : pool.Parent tx t' := ⟨hdone.left t' hparent.1, hparent.2⟩
          exact absurd hparent' (hdone.noneLeft t' hparent.1 tx htx hout)
        · cases hchild
    · exact (hdone.reached t ht hwas).mono (subset_append_left _ _)
  · rcases mem_append.1 hmem with hmem | hmem
    · exact hdone.named t ht hmem (hnext.left t hleft)
    · exact hnext.named t (hnext.left t hleft)
        (mem_cons.2 (.inl (mem_singleton.1 hmem))) hleft
  · have hin := hnext.left t ht
    by_cases hwas : r ∈ cur.txs
    · exact hnext.noneLeft t ht r hwas hnot ⟨hin, hparent.2⟩
    · exact hdone.noneLeft t hin r hr hwas hparent

/-- One transaction after another. -/
theorem Traced.removeEach_removes (h : pool.Traced isCoinBase) {gone : List CTransaction}
    (hgone : ∀ t ∈ gone, t ∈ pool.txs) :
    RemovesReached (gone.map CTransaction.hash) pool (pool.removeEach gone).1 := by
  have hfold : ∀ (done : List Uint256) (p : CTxMemPool × List CTransaction),
      p.1.Traced isCoinBase → RemovesReached done pool p.1 →
      RemovesReached (done ++ gone.map CTransaction.hash) pool (gone.foldl
        (fun (p : CTxMemPool × List CTransaction) tx => p.1.remove tx p.2 true) p).1 := by
    induction gone with
    | nil =>
      intro done p _ hdone
      rwa [map_nil, append_nil]
    | cons tx gone ih =>
      intro done p hp hdone
      have hstep := hdone.remove h hp (hgone tx mem_cons_self) p.2
      have htraced : (p.1.remove tx p.2 true).1.Traced isCoinBase :=
        removeLoop_keeps (fun h he => h.eraseEntry he) hp
      have hrest := ih (fun t ht => hgone t (mem_cons_of_mem _ ht)) _ _ htraced hstep
      rwa [append_assoc] at hrest
  exact hfold [] (pool, []) h ⟨fun _ => id, fun t ht hnot => absurd ht hnot,
    fun _ _ hmem => (nomatch hmem), fun _ _ r hr hnot => absurd hr hnot⟩

/-- What is left has no removed ancestor, and what has gone has one that was named. -/
theorem RemovesReached.mem_iff {hashes : List Uint256} {pool' : CTxMemPool}
    (h : RemovesReached hashes pool pool') :
    tx ∈ pool'.txs ↔ tx ∈ pool.txs ∧ ¬pool.Reached hashes tx := by
  constructor
  · rintro hleft
    refine ⟨h.left tx hleft, ?_⟩
    rintro ⟨t₀, ht₀, hmem, hpath⟩
    have hout : tx ∉ pool'.txs := by
      clear hleft
      induction hpath with
      | refl => exact h.named t₀ ht₀ hmem
      | @tail r t hpath hparent ih =>
        refine fun ht => h.noneLeft t ht r ?_ ih hparent
        rcases hpath.cases_tail with rfl | ⟨_, _, hr⟩
        · exact ht₀
        · exact hr.1
    exact hout hleft
  · rintro ⟨htx, hreached⟩
    by_contra hnot
    exact hreached (h.reached tx htx hnot)

/-! ### After a reorganisation -/

/-- The entry is not final, or it is flagged and an input that no transaction of the pool made has
no coins, or coins that are `immature` to the pool. -/
def Selected (pool : CTxMemPool) (v : ReorgView) (e : CTxMemPoolEntry) : Prop :=
  v.checkFinalTx e.tx = false ∨ e.spendsCoinbase = true ∧ ∃ txin ∈ e.tx.vin,
    pool.contains txin.prevout.hash = false
      ∧ ∀ coins, v.accessCoins txin.prevout.hash = some coins → v.immature coins = true

/-- The transaction is selected, or it descends in the pool from one that is. -/
def Doomed (pool : CTxMemPool) (v : ReorgView) (tx : CTransaction) : Prop :=
  ∃ e ∈ pool.mapTx, pool.Selected v e ∧ Relation.ReflTransGen pool.Parent e.tx tx

theorem selected_iff {v : ReorgView} : pool.Selected v e ↔
    (!v.checkFinalTx e.tx || e.spendsCoinbase && e.tx.vin.any fun txin =>
      !pool.contains txin.prevout.hash
        && (v.accessCoins txin.prevout.hash).elim true v.immature) = true := by
  have helim : ∀ coins : Option CCoins, coins.elim true v.immature = true ↔
      ∀ c, coins = some c → v.immature c = true := by
    rintro (_ | c)
    · simp
    · simp
  simp only [Selected, Bool.or_eq_true, Bool.and_eq_true, Bool.not_eq_true', any_eq_true, helim]

/-- What `removeForReorg` leaves. -/
theorem Traced.mem_removeForReorg (h : pool.Traced isCoinBase) {v : ReorgView} :
    tx ∈ (pool.removeForReorg v).1.txs ↔ tx ∈ pool.txs ∧ ¬pool.Doomed v tx := by
  unfold removeForReorg
  rw [(h.removeEach_removes fun t ht => ?_).mem_iff]
  · refine and_congr_right fun _ => not_congr ⟨?_, ?_⟩
    · rintro ⟨t₀, ht₀, hmem, hpath⟩
      obtain ⟨t, ht, hhash⟩ := mem_map.1 hmem
      obtain ⟨e, he, rfl⟩ := mem_map.1 ht
      obtain ⟨he, hselected⟩ := mem_filter.1 he
      obtain rfl := h.eq_of_hash (mem_map_of_mem he) ht₀ hhash
      exact ⟨e, he, selected_iff.2 hselected, hpath⟩
    · rintro ⟨e, he, hselected, hpath⟩
      refine ⟨e.tx, mem_map_of_mem he, mem_map_of_mem (mem_map_of_mem ?_), hpath⟩
      exact mem_filter.2 ⟨he, selected_iff.1 hselected⟩
  · obtain ⟨e, he, rfl⟩ := mem_map.1 ht
    exact mem_map_of_mem (mem_of_mem_filter he)

end

/-- **What the consensus refuses is gone just when it was selected, or descended from what was.** -/
theorem no_premature_left_iff (isCoinBase : Uint256 → Prop) (pool : CTxMemPool)
    (h : pool.Reachable isCoinBase) (v : ReorgView) :
    (∀ tx ∈ (pool.removeForReorg v).1.txs, ¬v.SpendsPremature tx) ↔
      ∀ tx ∈ pool.txs, v.SpendsPremature tx → pool.Doomed v tx := by
  constructor
  · intro hnone tx htx hspends
    by_contra hdoomed
    exact hnone tx (h.traced.mem_removeForReorg.2 ⟨htx, hdoomed⟩) hspends
  · intro hdoomed tx htx hspends
    obtain ⟨htx, hnot⟩ := h.traced.mem_removeForReorg.1 htx
    exact hnot (hdoomed tx htx hspends)

namespace ReorgSample

/-- Spends the coinbase 100. -/
def spender : CTransaction where
  hash := 1
  vin := [⟨⟨100, 0⟩, [], 0⟩]
  vout := [⟨7, []⟩]

/-- The coinbase of block 950. -/
def coins : CCoins := ⟨true, [⟨300000000, []⟩], 950, 1⟩

/-- Block 1000 comes next; coinbases of `timelockGTE` and more are locked until block 2000. -/
def view (timelockGTE : ℤ) : ReorgView where
  checkFinalTx _ := true
  accessCoins hash := if hash = 100 then some coins else none
  nMemPoolHeight := 1000
  coinbaseMaturity := 100
  blockUnlocktime _ := 2000
  timelockGTE := timelockGTE

/-- The pool with this transaction, which has come at block 1050. -/
def pool : CTxMemPool := run {} [.addUnchecked ⟨spender, 100, 0, true, 0⟩]

theorem reachable_pool : pool.Reachable (· = 100) := by
  refine ⟨[.addUnchecked ⟨spender, 100, 0, true, 0⟩], ⟨fun entry heq => ?_, trivial⟩, rfl⟩
  obtain rfl := Op.addUnchecked.inj heq
  refine ⟨by decide, by decide, (view 0).accessCoins, fun o c hc _ => ?_, fun o ho => ?_, by decide⟩
  · unfold view at hc
    dsimp only at hc
    split_ifs at hc with hhash
    cases hc
    exact ⟨fun _ => hhash, fun _ => rfl⟩
  · obtain rfl : o = ⟨100, 0⟩ := mem_singleton.1 ho.2
    exact ⟨coins, rfl, rfl⟩

theorem spendsPremature_spender (timelockGTE : ℤ) : (view timelockGTE).SpendsPremature spender := by
  refine ⟨⟨100, 0⟩, coins, ⟨rfl, by decide⟩, rfl, rfl, ?_⟩
  unfold ReorgView.checkCoinbase
  split_ifs
  · nofun
  · nofun
  · next hmature =>
    have himmature : ((1000 : ℤ) - 950) % 2 ^ 32 < 100 := by decide
    exact absurd himmature hmature
  · next hbase => exact absurd rfl hbase

end ReorgSample

open ReorgSample

/-- The hypothesis of `no_premature_left_iff` is satisfiable: a coinbase that is locked and not
mature is spent, and the transaction goes. -/
theorem no_premature_left_locked : (view 300000000).SpendsPremature spender ∧
    ∀ tx ∈ (pool.removeForReorg (view 300000000)).1.txs, ¬(view 300000000).SpendsPremature tx := by
  refine ⟨spendsPremature_spender _,
    (no_premature_left_iff _ pool reachable_pool (view 300000000)).2 fun tx htx _ => ?_⟩
  obtain rfl : tx = spender := mem_singleton.1 htx
  refine ⟨⟨spender, 100, 0, true, 0⟩, mem_singleton.2 rfl, .inr ⟨rfl, ⟨⟨100, 0⟩, [], 0⟩,
    mem_singleton.2 rfl, by decide, fun c hc => ?_⟩, .refl⟩
  obtain rfl : coins = c := Option.some.inj hc
  decide

/-- **A coinbase that is not mature stays spent, where no coinbase is time-locked.** -/
theorem immature_left : ¬ ∀ (isCoinBase : Uint256 → Prop) (pool : CTxMemPool),
    pool.Reachable isCoinBase → ∀ v : ReorgView,
      ∀ tx ∈ (pool.removeForReorg v).1.txs, ¬v.SpendsPremature tx := by
  intro hall
  have hleft : spender ∈ (pool.removeForReorg (view (2 ^ 64 - 1))).1.txs := by decide
  exact hall _ pool reachable_pool _ spender hleft (spendsPremature_spender _)

end CTxMemPool
end Komodo
