/-
# What checking a block does to the memory pool

`CheckBlock` of `src/src/main.cpp` on a chain with contracts (`ASSETCHAINS_CC != 0`) and with
`fCheckPOW`, as far as it handles the pools, with `myAddtomempool` and
`CCTxFixAcceptToMemPoolUnchecked`.

The contracts look at the memory pool, so the block is checked in a pool of its own: the
transparent transactions of the pool are put aside in `tmpmempool`, those of the block are added
without a check, the block is checked, and what was put aside and is not in the block is added
back, without a check again. A block that fails one of the checks in between returns before the
last step.

The checks are parameters (`BlockChecks`). `checkBlock_restores_iff` says when the pool is left as
it should be: nothing lost, nothing put aside, no conflict.
-/

import Komodo.Mempool.Consistent

namespace Komodo

open KeyIndex List

/-- What `CheckBlock` asks about a block outside of the pools. -/
structure BlockChecks where
  /-- The header, the proof of work, the merkle root and the size are accepted. -/
  header : Bool
  /-- `komodo_isPoS` -/
  isPoS : Bool
  /-- `CheckTransaction`, with the position in the block. -/
  checkTransaction : CTransaction → ℕ → Bool
  legacySigOpCount : CTransaction → ℕ
  maxBlockSigops : ℕ
  /-- `komodo_check_deposit` -/
  checkDeposit : ℤ
  /-- `GetSerializeSize` -/
  serializeSize : CTransaction → ℕ
  /-- `RecursiveDynamicUsage` -/
  dynamicUsage : CTransaction → ℕ
  /-- `CurrentEpochBranchId` of the next block. -/
  branchId : ℕ

/-- No joinsplits and no shielded spends. -/
def CTransaction.isTransparent (tx : CTransaction) : Bool :=
  tx.vjoinsplit.isEmpty && tx.vShieldedSpend.isEmpty

/-- `mempool` and `tmpmempool`. -/
abbrev Pools := CTxMemPool × CTxMemPool

namespace BlockChecks

variable (c : BlockChecks)

/-! ### The steps -/

/-- The transparent transactions of the pool go to `tmpmempool`. -/
def putAside (pools : Pools) : Pools :=
  let entries := pools.1.mapTx.filter fun e => e.tx.isTransparent
  let transactionsToRemove := entries.map CTxMemPoolEntry.tx
  (transactionsToRemove.foldl (fun pool tx => (pool.remove tx [] false).1) pools.1,
    entries.foldl CTxMemPool.addUnchecked pools.2)

/-- The entry that `CCTxFixAcceptToMemPoolUnchecked` makes. -/
def uncheckedEntry (tx : CTransaction) : CTxMemPoolEntry :=
  ⟨tx, c.serializeSize tx, c.dynamicUsage tx, false, c.branchId⟩

/-- `myAddtomempool` with `fSkipExpiry`; it returns true also for a transaction that is there. -/
def myAddtomempool (pool : CTxMemPool) (tx : CTransaction) : Bool × CTxMemPool :=
  if pool.contains tx.hash then (true, pool) else (true, pool.addUnchecked (c.uncheckedEntry tx))

/-- The transactions of the block that the loop leaves out. -/
def skipped (vtx : List CTransaction) (tx : CTransaction) (i : ℕ) : Bool :=
  tx.isCoinBase || !tx.isTransparent || (i + 1 = vtx.length && c.isPoS)

/-- One turn of the loop over the block, which counts the rejects. -/
def turn (vtx : List CTransaction) (pools : Pools) : Pools × ℕ :=
  vtx.zipIdx.foldl (fun (pools, rejects) (tx, i) =>
    if c.skipped vtx tx i then (pools, rejects)
    else
      let (accepted, mempool) := c.myAddtomempool pools.1 tx
      ((mempool, (pools.2.remove tx [] false).1), if accepted then rejects else rejects + 1))
    (pools, 0)

/-- `while ( 1 )`, for some number of turns: until there are no rejects, or as many as before. -/
def fillPool (vtx : List CTransaction) : (turns lastrejects : ℕ) → Pools → Pools
  | 0, _, pools => pools
  | turns + 1, lastrejects, pools =>
    let (pools, rejects) := c.turn vtx pools
    if rejects = 0 ∨ rejects = lastrejects then pools else fillPool vtx turns rejects pools

/-- What is checked before the pools are touched. -/
def checkHead (vtx : List CTransaction) : Bool :=
  c.header && (vtx.head?.elim false CTransaction.isCoinBase)
    && vtx.tail.all fun tx => !tx.isCoinBase

/-- What is checked while the transactions of the pool are put aside. -/
def checkBody (vtx : List CTransaction) : Bool :=
  (vtx.zipIdx.all fun (tx, i) => c.checkTransaction tx i)
    && (vtx.map c.legacySigOpCount).sum ≤ c.maxBlockSigops && 0 ≤ c.checkDeposit

/-- What was put aside comes back. -/
def addBack (pools : Pools) : Pools :=
  (pools.2.mapTx.foldl CTxMemPool.addUnchecked pools.1, pools.2.clear)

/-- `CheckBlock`: the verdict and the pools. -/
def checkBlock (vtx : List CTransaction) (pools : Pools) : Bool × Pools :=
  if c.checkHead vtx then
    let pools := c.fillPool vtx (vtx.length + 1) 0 (putAside pools)
    if c.checkBody vtx then (true, addBack pools) else (false, pools)
  else (false, pools)

/-! ### What should be left -/

/-- The pools are as they should be after the check. -/
structure Restored (before : CTxMemPool) (vtx : List CTransaction) (after : Pools) : Prop where
  kept : ∀ tx ∈ before.txs, tx.hash ∉ vtx.map CTransaction.hash → tx ∈ after.1.txs
  emptied : after.2.mapTx = [] ∧ ∀ o, after.2.mapNextTx o = none
  conflictFree : ∀ tx ∈ after.1.txs, ∀ tx' ∈ after.1.txs, ∀ o, tx.Spends o → tx'.Spends o → tx = tx'
  next : ∀ tx ∈ after.1.txs, ∀ o, tx.Spends o → ∃ i, after.1.mapNextTx o = some (tx, i)

/-- No two of the transactions spend the same outpoint. -/
def NoConflict (txs : List CTransaction) : Prop :=
  ∀ tx ∈ txs, ∀ tx' ∈ txs, ∀ o, tx.Spends o → tx'.Spends o → tx = tx'

/-- The transactions of the block that go into the pool. -/
def blockTxs (vtx : List CTransaction) : List CTransaction :=
  (vtx.zipIdx.filter fun (tx, i) => !c.skipped vtx tx i).map Prod.fst

/-- Transactions join others whose ids they do not have. -/
def joinTxs (there : List CTransaction) : List CTransaction → List CTransaction
  | [] => there
  | tx :: txs =>
    joinTxs (if tx.hash ∈ there.map CTransaction.hash then there else there ++ [tx]) txs

/-- The transactions that stay in the pool during the check. -/
def staying (pool : CTxMemPool) : List CTransaction := pool.txs.filter fun tx => !tx.isTransparent

/-- The transactions that are put aside and are not in the block. -/
def aside (vtx : List CTransaction) (pool : CTxMemPool) : List CTransaction :=
  pool.txs.filter fun tx => tx.isTransparent && tx.hash ∉ (c.blockTxs vtx).map CTransaction.hash

end BlockChecks

namespace CTxMemPool

section
variable {pool : CTxMemPool} {e : CTxMemPoolEntry} {tx : CTransaction}

/-! ### Removing and adding without a check -/

/-- Every outpoint that is spent leads to some transaction that spends it. -/
def Linked (pool : CTxMemPool) : Prop :=
  Covers CTransaction.nextEntries pool.txs pool.mapNextTx

theorem Linked.addUnchecked (h : pool.Linked) (hnew : pool.contains e.tx.hash = false) :
    (pool.addUnchecked e).Linked := by
  rw [Linked, txs_addUnchecked hnew, addUnchecked_eq hnew]
  exact h.concat_put

theorem Linked.next (h : pool.Linked) (hnone : BlockChecks.NoConflict pool.txs) (ht : tx ∈ pool.txs)
    {o : COutPoint} (ho : tx.Spends o) : ∃ i, pool.mapNextTx o = some (tx, i) := by
  obtain ⟨i, hentry⟩ := exists_nextEntries ho
  obtain ⟨⟨t, j⟩, hfound⟩ := h.total tx ht _ hentry
  obtain ⟨t', ht', hentry'⟩ := h.sound o _ hfound
  obtain ⟨ho', rfl⟩ := mem_prevouts_of_nextEntries hentry'
  obtain rfl := hnone tx ht t ht' o ho ho'
  exact ⟨j, hfound⟩

/-- The transactions without the ids of a list. -/
def without (txs : List CTransaction) (hashes : List Uint256) : List CTransaction :=
  txs.filter fun t => t.hash ∉ hashes

theorem without_without (txs : List CTransaction) (hash : Uint256) (hashes : List Uint256) :
    without (without txs [hash]) hashes = without txs (hash :: hashes) := by
  rw [without, without, without, filter_filter]
  refine filter_congr fun t _ => ?_
  simp [Bool.and_comm]

theorem txs_remove_false : (pool.remove tx [] false).1.txs = without pool.txs [tx.hash] := by
  rw [remove_false]
  cases hfind : pool.find tx.hash with
  | none =>
    refine (filter_eq_self.2 fun t ht => ?_).symm
    simpa using find_eq_none.1 hfind t ht
  | some e =>
    rw [txs_eraseEntry, (find_eq_some hfind).2, without]
    refine filter_congr fun t _ => ?_
    simp

theorem Consistent.remove_false (h : pool.Consistent) (tx : CTransaction) :
    (pool.remove tx [] false).1.Consistent :=
  (remove_false_shrinks h tx [] []).consistent

theorem Consistent.foldl_remove (h : pool.Consistent) (txs : List CTransaction) :
    let pool' := txs.foldl (fun pool tx => (pool.remove tx [] false).1) pool
    pool'.Consistent ∧ pool'.txs = without pool.txs (txs.map CTransaction.hash) := by
  induction txs generalizing pool with
  | nil => exact ⟨h, by simp [without]⟩
  | cons tx txs ih =>
    obtain ⟨hcons, htxs⟩ := ih (h.remove_false tx)
    refine ⟨hcons, ?_⟩
    rw [txs_remove_false, without_without] at htxs
    exact htxs

/-- Adding entries with new ids. -/
theorem Linked.foldl_addUnchecked {es : List CTxMemPoolEntry} (h : pool.Linked)
    (hids : (es.map fun e => e.tx.hash).Nodup)
    (hnew : ∀ e ∈ es, ∀ t ∈ pool.txs, t.hash ≠ e.tx.hash) :
    let pool' := es.foldl CTxMemPool.addUnchecked pool
    pool'.Linked ∧ pool'.txs = pool.txs ++ es.map CTxMemPoolEntry.tx := by
  induction es generalizing pool with
  | nil => exact ⟨h, by simp⟩
  | cons e es ih =>
    rw [map_cons, nodup_cons] at hids
    have hfree := contains_eq_false.2 (hnew e mem_cons_self)
    have htxs := txs_addUnchecked hfree
    obtain ⟨hlinked, hall⟩ := ih (h.addUnchecked hfree) hids.2 fun e' he' t ht => by
      rw [htxs, mem_append, mem_singleton] at ht
      rcases ht with ht | rfl
      · exact hnew e' (mem_cons_of_mem _ he') t ht
      · exact fun hhash => hids.1 (mem_map.2 ⟨e', he', hhash.symm⟩)
    refine ⟨hlinked, ?_⟩
    rw [htxs, append_assoc] at hall
    exact hall

/-! ### Entries of a consistent pool -/

theorem Consistent.noConflict (h : pool.Consistent) : BlockChecks.NoConflict pool.txs := by
  intro t ht t' ht' o ho ho'
  obtain ⟨i, hentry⟩ := exists_nextEntries ho
  obtain ⟨j, hentry'⟩ := exists_nextEntries ho'
  exact congrArg Prod.fst (h.next.unique ht ht' hentry hentry')

theorem Consistent.not_spends (h : pool.Consistent) {t : CTransaction} (ht : t ∈ pool.txs)
    (htx : tx ∈ pool.txs) (himport : t.isCoinImport = true) {o : COutPoint} (ho : o ∈ t.prevouts) :
    ¬ tx.Spends o := by
  intro hspends
  obtain ⟨i, hentry⟩ := exists_nextEntries hspends
  have hfound := h.next.apply htx hentry
  rw [h.imports t ht himport o ho] at hfound
  cases hfound

/-- The inputs of a transaction are distinct: the index of each is kept under its outpoint. -/
theorem Consistent.nodup_prevouts (h : pool.Consistent) (htx : tx ∈ pool.txs) :
    tx.prevouts.Nodup := by
  cases himport : tx.isCoinImport with
  | true =>
    rw [CTransaction.isCoinImport] at himport
    split at himport
    · rename_i txin hvin
      rw [CTransaction.prevouts, hvin]
      exact nodup_singleton _
    · cases himport
  | false =>
    refine nodup_iff_injective_getElem.2 fun i j hij => Fin.ext ?_
    have hentry : ∀ k : Fin tx.prevouts.length,
        (tx.prevouts[k], (tx, (k : ℕ))) ∈ tx.nextEntries := by
      intro k
      have hk : (k : ℕ) < tx.vin.length := by simpa [CTransaction.prevouts] using k.isLt
      rw [CTransaction.nextEntries, himport, if_neg Bool.false_ne_true]
      refine mem_map.2 ⟨(tx.vin[(k : ℕ)], (k : ℕ)), ?_, ?_⟩
      · exact mem_zipIdx_iff_getElem?.2 (by simp [hk])
      · exact congrArg (·, (tx, (k : ℕ))) (getElem_map CTxIn.prevout).symm
    have hi := hentry i
    rw [show tx.prevouts[i] = tx.prevouts[j] from hij] at hi
    exact congrArg Prod.snd (h.next.unique htx htx hi (hentry j))

/-- Entries of a consistent pool make a consistent pool of their own. -/
theorem Consistent.selection (h : pool.Consistent) {es : List CTxMemPoolEntry}
    {part : CTxMemPool} (hpart : part.Consistent) (hsub : ∀ t ∈ part.txs, t ∈ pool.txs)
    (hes : ∀ e ∈ es, e ∈ pool.mapTx) (hids : (es.map fun e => e.tx.hash).Nodup)
    (hnew : ∀ e ∈ es, ∀ t ∈ part.txs, t.hash ≠ e.tx.hash) :
    (es.foldl CTxMemPool.addUnchecked part).Consistent := by
  induction es generalizing part with
  | nil => exact hpart
  | cons e es ih =>
    rw [map_cons, nodup_cons] at hids
    have he : e.tx ∈ pool.txs := mem_map_of_mem (hes e mem_cons_self)
    have hother : ∀ t ∈ part.txs, t ≠ e.tx := fun t ht heq =>
      hnew e mem_cons_self t ht (congrArg CTransaction.hash heq)
    have hfree : part.contains e.tx.hash = false := contains_eq_false.2 (hnew e mem_cons_self)
    have haccept : part.acceptable e.tx = true := by
      refine acceptable_iff.2 ⟨hfree, fun o ho => ?_, fun s nf hnf => ?_⟩
      · refine hpart.next.eq_none fun t ht next hentry => ?_
        have hspends := (mem_prevouts_of_nextEntries hentry).1
        cases himport : e.tx.isCoinImport with
        | true => exact h.not_spends he (hsub t ht) himport ho hspends
        | false =>
          exact hother t ht (h.noConflict t (hsub t ht) e.tx he o hspends ⟨himport, ho⟩)
      · refine (hpart.nullifiers s).eq_none fun t ht t' hentry => ?_
        obtain ⟨-, rfl⟩ := mem_nullifierEntries.1 hentry
        refine hother t' ht ((h.nullifiers s).unique (hsub t' ht) he hentry ?_)
        exact mem_nullifierEntries.2 ⟨hnf, rfl⟩
    have hapart : part.Apart e.tx := ⟨h.nodup_prevouts he, fun t ht himport o ho =>
      h.not_spends (hsub t ht) he himport ho⟩
    have htxs : (part.addUnchecked e).txs = part.txs ++ [e.tx] := txs_addUnchecked hfree
    refine ih (hpart.addUnchecked haccept hapart) (fun t ht => ?_)
      (fun e' he' => hes e' (mem_cons_of_mem _ he')) hids.2 fun e' he' t ht => ?_
    · rw [htxs, mem_append, mem_singleton] at ht
      rcases ht with ht | rfl
      · exact hsub t ht
      · exact he
    · rw [htxs, mem_append, mem_singleton] at ht
      rcases ht with ht | rfl
      · exact hnew e' (mem_cons_of_mem _ he') t ht
      · exact fun hhash => hids.1 (mem_map.2 ⟨e', he', hhash.symm⟩)

end

end CTxMemPool

namespace BlockChecks

section
variable {c : BlockChecks} {pool : CTxMemPool} {vtx : List CTransaction}

/-! ### Putting aside -/

/-- The pools after the first step, for a consistent pool. -/
theorem putAside_spec (h : pool.Consistent) :
    (putAside (pool, {})).1.Consistent ∧ (putAside (pool, {})).1.txs = staying pool ∧
      (putAside (pool, {})).2.Consistent ∧
        (putAside (pool, {})).2.txs = pool.txs.filter CTransaction.isTransparent := by
  have hentries : (pool.mapTx.filter fun e => e.tx.isTransparent).map CTxMemPoolEntry.tx
      = pool.txs.filter CTransaction.isTransparent := by
    rw [CTxMemPool.txs, filter_map]
    rfl
  have hids : ((pool.mapTx.filter fun e => e.tx.isTransparent).map fun e => e.tx.hash).Nodup := by
    have hmap := h.ids.sublist ((filter_sublist (p := CTransaction.isTransparent)).map _)
    rwa [← hentries, map_map] at hmap
  obtain ⟨hrest, hresttxs⟩ := h.foldl_remove (pool.txs.filter CTransaction.isTransparent)
  refine ⟨?_, ?_, ?_, ?_⟩
  · show (foldl _ pool (map _ _)).Consistent
    rw [hentries]
    exact hrest
  · show (foldl _ pool (map _ _)).txs = _
    rw [hentries, hresttxs, CTxMemPool.without, staying]
    refine filter_congr fun t ht => ?_
    rw [Bool.eq_iff_iff, decide_eq_true_eq, Bool.not_eq_true', ← Bool.not_eq_true]
    refine not_congr ⟨fun hmem => ?_, fun hmem => ?_⟩
    · obtain ⟨t', ht', hhash⟩ := mem_map.1 hmem
      obtain ⟨ht', htransparent⟩ := mem_filter.1 ht'
      rwa [← h.eq_of_hash ht' ht hhash]
    · exact mem_map_of_mem (mem_filter.2 ⟨ht, hmem⟩)
  · exact h.selection CTxMemPool.consistent_empty (fun t ht => by cases ht)
      (fun e he => (mem_filter.1 he).1) hids fun e he t ht => by cases ht
  · have hlinked : CTxMemPool.Linked {} := CTxMemPool.consistent_empty.next.covers
    obtain ⟨-, htxs⟩ := hlinked.foldl_addUnchecked hids fun e he t ht => by cases ht
    exact htxs.trans hentries

/-! ### The loop -/

/-- One transaction of the block comes in. -/
def enter (c : BlockChecks) (pools : Pools) (tx : CTransaction) : Pools :=
  ((c.myAddtomempool pools.1 tx).2, (pools.2.remove tx [] false).1)

theorem myAddtomempool_fst (tx : CTransaction) : (c.myAddtomempool pool tx).1 = true := by
  unfold myAddtomempool
  split_ifs
  · rfl
  · rfl

/-- Nothing is rejected. -/
theorem turn_eq (pools : Pools) : c.turn vtx pools = ((c.blockTxs vtx).foldl c.enter pools, 0) := by
  unfold turn blockTxs
  induction vtx.zipIdx generalizing pools with
  | nil => rfl
  | cons p rest ih =>
    obtain ⟨tx, i⟩ := p
    rw [foldl_cons, filter_cons]
    show foldl _ (if c.skipped vtx tx i = true then (pools, 0)
      else (c.enter pools tx, if (c.myAddtomempool pools.1 tx).1 = true then 0 else 0 + 1)) rest
        = (foldl c.enter pools
          (map Prod.fst (if (!c.skipped vtx tx i) = true then (tx, i) :: _ else _)), 0)
    rw [myAddtomempool_fst, if_pos rfl]
    cases hskip : c.skipped vtx tx i with
    | true => exact ih pools
    | false => exact ih (c.enter pools tx)

theorem fillPool_eq (turns lastrejects : ℕ) (pools : Pools) :
    c.fillPool vtx (turns + 1) lastrejects pools = (c.blockTxs vtx).foldl c.enter pools := by
  rw [fillPool, turn_eq]
  exact if_pos (Or.inl rfl)

theorem contains_iff {hash : Uint256} :
    pool.contains hash = true ↔ hash ∈ pool.txs.map CTransaction.hash := by
  rw [← Bool.not_eq_false, CTxMemPool.contains_eq_false, mem_map]
  push Not
  rfl

theorem myAddtomempool_spec (h : pool.Linked) (tx : CTransaction) :
    (c.myAddtomempool pool tx).2.Linked ∧
      (c.myAddtomempool pool tx).2.txs = joinTxs pool.txs [tx] := by
  unfold myAddtomempool
  by_cases hthere : pool.contains tx.hash = true
  · rw [if_pos hthere]
    exact ⟨h, (if_pos (contains_iff.1 hthere)).symm⟩
  · rw [if_neg hthere]
    have hfree : pool.contains (c.uncheckedEntry tx).tx.hash = false := Bool.not_eq_true _ ▸ hthere
    refine ⟨h.addUnchecked hfree, (CTxMemPool.txs_addUnchecked hfree).trans ?_⟩
    exact (if_neg fun hmem => hthere (contains_iff.2 hmem)).symm

theorem foldl_enter_spec {pools : Pools} (hlinked : pools.1.Linked) (hcons : pools.2.Consistent)
    (txs : List CTransaction) :
    let pools' := txs.foldl c.enter pools
    (pools'.1.Linked ∧ pools'.1.txs = joinTxs pools.1.txs txs) ∧ pools'.2.Consistent ∧
      pools'.2.txs = CTxMemPool.without pools.2.txs (txs.map CTransaction.hash) := by
  induction txs generalizing pools with
  | nil => exact ⟨⟨hlinked, rfl⟩, hcons, by simp [CTxMemPool.without]⟩
  | cons tx txs ih =>
    obtain ⟨hlinked', htxs⟩ := myAddtomempool_spec (c := c) hlinked tx
    obtain ⟨⟨hall, halltxs⟩, htmp, htmptxs⟩ := @ih (c.enter pools tx) hlinked'
      (hcons.remove_false tx)
    refine ⟨⟨hall, halltxs.trans ?_⟩, htmp, htmptxs.trans ?_⟩
    · show joinTxs (c.myAddtomempool pools.1 tx).2.txs txs = _
      rw [htxs]
      rfl
    · show CTxMemPool.without (pools.2.remove tx [] false).1.txs _ = _
      rw [CTxMemPool.txs_remove_false, CTxMemPool.without_without]
      rfl

theorem filled_spec (c : BlockChecks) (vtx : List CTransaction) (h : pool.Consistent)
    (turns lastrejects : ℕ) :
    let filled := c.fillPool vtx (turns + 1) lastrejects (putAside (pool, {}))
    (filled.1.Linked ∧ filled.1.txs = joinTxs (staying pool) (c.blockTxs vtx)) ∧
      filled.2.Consistent ∧ filled.2.txs = c.aside vtx pool := by
  obtain ⟨hrest, hresttxs, htmp, htmptxs⟩ := putAside_spec h
  obtain ⟨hfilled, hcons, htxs⟩ := foldl_enter_spec (c := c) hrest.next.covers htmp (c.blockTxs vtx)
  rw [hresttxs] at hfilled
  rw [htmptxs, CTxMemPool.without, filter_filter] at htxs
  rw [fillPool_eq]
  refine ⟨hfilled, hcons, htxs.trans (filter_congr fun t _ => ?_)⟩
  exact Bool.and_comm _ _

/-! ### Adding back -/

theorem mem_joinTxs_of_mem {there txs : List CTransaction} {t : CTransaction} (ht : t ∈ there) :
    t ∈ joinTxs there txs := by
  induction txs generalizing there with
  | nil => exact ht
  | cons tx txs ih =>
    rw [joinTxs]
    split_ifs
    · exact ih ht
    · exact ih (mem_append_left _ ht)

theorem mem_of_mem_joinTxs {there txs : List CTransaction} {t : CTransaction}
    (ht : t ∈ joinTxs there txs) : t ∈ there ∨ t ∈ txs := by
  induction txs generalizing there with
  | nil => exact Or.inl ht
  | cons tx txs ih =>
    rw [joinTxs] at ht
    rw [mem_cons]
    split_ifs at ht
    · exact (ih ht).imp_right Or.inr
    · rcases ih ht with hmem | hmem
      · rcases mem_append.1 hmem with hthere | hnew
        · exact Or.inl hthere
        · exact Or.inr (Or.inl (mem_singleton.1 hnew))
      · exact Or.inr (Or.inr hmem)

theorem mem_aside {t : CTransaction} : t ∈ c.aside vtx pool ↔
    t ∈ pool.txs ∧ t.isTransparent = true ∧ t.hash ∉ (c.blockTxs vtx).map CTransaction.hash := by
  rw [aside, mem_filter, Bool.and_eq_true, decide_eq_true_eq]

theorem hash_ne_of_mem_aside (h : pool.Consistent) {t t' : CTransaction}
    (ht : t ∈ joinTxs (staying pool) (c.blockTxs vtx)) (ht' : t' ∈ c.aside vtx pool) :
    t.hash ≠ t'.hash := by
  intro hhash
  obtain ⟨hpool, htransparent, hnot⟩ := mem_aside.1 ht'
  rcases mem_of_mem_joinTxs ht with hstay | hblock
  · obtain ⟨hmem, hshielded⟩ := mem_filter.1 hstay
    rw [h.eq_of_hash hmem hpool hhash, htransparent] at hshielded
    cases hshielded
  · exact hnot (hhash ▸ mem_map_of_mem hblock)

/-- A pool with what stayed, the block and what was put aside. -/
theorem addBack_spec (h : pool.Consistent) {filled : Pools}
    (hlinked : filled.1.Linked) (htxs : filled.1.txs = joinTxs (staying pool) (c.blockTxs vtx))
    (hcons : filled.2.Consistent) (htmp : filled.2.txs = c.aside vtx pool) :
    (addBack filled).1.Linked ∧
      (addBack filled).1.txs
        = joinTxs (staying pool) (c.blockTxs vtx) ++ c.aside vtx pool := by
  have hids : (filled.2.mapTx.map fun e => e.tx.hash).Nodup := by
    have hids := hcons.ids
    rwa [CTxMemPool.txs, map_map] at hids
  have hnew : ∀ e ∈ filled.2.mapTx, ∀ t ∈ filled.1.txs, t.hash ≠ e.tx.hash := by
    intro e he t ht
    rw [htxs] at ht
    exact hash_ne_of_mem_aside h ht (htmp ▸ mem_map_of_mem he)
  obtain ⟨hall, halltxs⟩ := hlinked.foldl_addUnchecked hids hnew
  refine ⟨hall, halltxs.trans ?_⟩
  rw [htxs, ← htmp]
  rfl

/-! ### What is left -/

theorem mem_of_notMem_block {t : CTransaction} (ht : t ∈ pool.txs)
    (hblock : t.hash ∉ vtx.map CTransaction.hash) :
    t ∈ joinTxs (staying pool) (c.blockTxs vtx) ∨ t ∈ c.aside vtx pool := by
  cases htransparent : t.isTransparent with
  | false =>
    refine Or.inl (mem_joinTxs_of_mem (mem_filter.2 ⟨ht, ?_⟩))
    rw [htransparent]
    rfl
  | true =>
    refine Or.inr (mem_aside.2 ⟨ht, htransparent, fun hmem => hblock ?_⟩)
    obtain ⟨t', ht', hhash⟩ := mem_map.1 hmem
    obtain ⟨⟨t'', i⟩, hzip, rfl⟩ := mem_map.1 ht'
    rw [← hhash]
    exact mem_map_of_mem (fst_mem_of_mem_zipIdx (mem_filter.1 hzip).1)

/-- In a linked pool that has them all, what can be wrong is a conflict or a rest in `tmpmempool`. -/
theorem restored_iff {after : Pools} (hlinked : after.1.Linked)
    (hkept : after.2.mapTx = [] →
      ∀ t ∈ pool.txs, t.hash ∉ vtx.map CTransaction.hash → t ∈ after.1.txs) :
    Restored pool vtx after ↔ NoConflict after.1.txs ∧
      after.2.mapTx = [] ∧ ∀ o, after.2.mapNextTx o = none := by
  constructor
  · rintro ⟨-, hemptied, hnone, -⟩
    exact ⟨hnone, hemptied⟩
  · rintro ⟨hnone, hemptied⟩
    exact ⟨hkept hemptied.1, hemptied, hnone, fun t ht o => hlinked.next hnone ht⟩

theorem emptied_iff (h : pool.Consistent) :
    (pool.mapTx = [] ∧ ∀ o, pool.mapNextTx o = none) ↔ pool.txs = [] := by
  constructor
  · rintro ⟨hempty, -⟩
    rw [CTxMemPool.txs, hempty]
    rfl
  · intro hempty
    refine ⟨map_eq_nil_iff.1 hempty, fun o => h.next.eq_none fun t ht => ?_⟩
    rw [hempty] at ht
    cases ht

theorem restored_of_head (h : pool.Consistent) (hhead : c.checkHead vtx = false) :
    Restored pool vtx (c.checkBlock vtx (pool, {})).2 := by
  have hlinked : pool.Linked := h.next.covers
  have hall := @restored_iff pool vtx (pool, {}) hlinked fun _ t ht _ => ht
  rw [checkBlock, hhead, if_neg Bool.false_ne_true]
  exact hall.2 ⟨h.noConflict, rfl, fun _ => rfl⟩

theorem accepted_restored_iff (h : pool.Consistent) (hhead : c.checkHead vtx = true)
    (hbody : c.checkBody vtx = true) : Restored pool vtx (c.checkBlock vtx (pool, {})).2 ↔
      NoConflict (joinTxs (staying pool) (c.blockTxs vtx) ++ c.aside vtx pool) := by
  obtain ⟨⟨hlinked, htxs⟩, hcons, htmp⟩ := filled_spec c vtx h vtx.length 0
  obtain ⟨hback, hbacktxs⟩ := addBack_spec h hlinked htxs hcons htmp
  rw [checkBlock, hhead, if_pos rfl, hbody]
  refine (restored_iff hback fun _ t ht hblock => ?_).trans ?_
  · rw [hbacktxs, mem_append]
    exact mem_of_notMem_block ht hblock
  · rw [hbacktxs]
    exact and_iff_left ⟨rfl, fun _ => rfl⟩

theorem refused_restored_iff (h : pool.Consistent) (hhead : c.checkHead vtx = true)
    (hbody : c.checkBody vtx = false) : Restored pool vtx (c.checkBlock vtx (pool, {})).2 ↔
      NoConflict (joinTxs (staying pool) (c.blockTxs vtx)) ∧ c.aside vtx pool = [] := by
  obtain ⟨⟨hlinked, htxs⟩, hcons, htmp⟩ := filled_spec c vtx h vtx.length 0
  rw [checkBlock, hhead, if_pos rfl, hbody]
  refine (restored_iff hlinked fun hempty t ht hblock => ?_).trans ?_
  · rw [htxs]
    refine (mem_of_notMem_block ht hblock).resolve_right fun hmem => ?_
    rw [← htmp, CTxMemPool.txs, hempty] at hmem
    cases hmem
  · rw [emptied_iff hcons, htxs, htmp]

end

/-- **When the check of a block leaves the pool in order.** For a consistent pool and an empty
`tmpmempool`: the block is refused before the pools are touched; or no two transactions of the
block and the pool together spend the same outpoint, and the block passes the checks in between
unless nothing was put aside that is not in it. -/
theorem checkBlock_restores_iff (c : BlockChecks) (pool : CTxMemPool) (vtx : List CTransaction)
    (h : pool.Consistent) : Restored pool vtx (c.checkBlock vtx (pool, {})).2 ↔
      c.checkHead vtx = false ∨
        NoConflict (joinTxs (staying pool) (c.blockTxs vtx) ++ c.aside vtx pool) ∧
          (c.checkBody vtx = true ∨ c.aside vtx pool = []) := by
  cases hhead : c.checkHead vtx with
  | false => exact iff_of_true (restored_of_head h hhead) (Or.inl rfl)
  | true =>
    rw [or_iff_right (by decide)]
    cases hbody : c.checkBody vtx with
    | true => rw [accepted_restored_iff h hhead hbody, and_iff_left (Or.inl rfl)]
    | false =>
      rw [refused_restored_iff h hhead hbody, or_iff_right Bool.false_ne_true]
      refine and_congr_left fun hnone => ?_
      rw [hnone, append_nil]

namespace CheckBlockSample

/-- Checks that all pass. -/
def lenient : BlockChecks where
  header := true
  isPoS := false
  checkTransaction _ _ := true
  legacySigOpCount _ := 1
  maxBlockSigops := 20000
  checkDeposit := 0
  serializeSize _ := 100
  dynamicUsage _ := 200
  branchId := 7

/-- The same, but for the deposits of the block. -/
def badDeposit : BlockChecks := { lenient with checkDeposit := -1 }

def coinbase : CTransaction where
  hash := 20
  vin := [⟨⟨0, 4294967295⟩, [], 0⟩]
  vout := [⟨3, []⟩]

/-- In the pool. -/
def mine : CTransaction where
  hash := 21
  vin := [⟨⟨100, 0⟩, [], 0⟩]
  vout := [⟨7, []⟩]

/-- Spends the same output. -/
def rival : CTransaction where
  hash := 22
  vin := [⟨⟨100, 0⟩, [], 0⟩]
  vout := [⟨6, []⟩]

/-- The pool with one transaction. -/
def onePool : CTxMemPool := CTxMemPool.addUnchecked {} ⟨mine, 100, 200, false, 7⟩

theorem consistent_onePool : onePool.Consistent :=
  CTxMemPool.consistent_empty.addUnchecked (by decide) ⟨by decide, fun t ht => nomatch ht⟩

end CheckBlockSample

open CheckBlockSample

/-- The hypothesis of `checkBlock_restores_iff` is satisfiable: a pool with one transaction is as it
was after a block that has nothing to do with it. -/
theorem checkBlock_restores_onePool :
    Restored onePool [coinbase] (lenient.checkBlock [coinbase] (onePool, {})).2 := by
  refine (checkBlock_restores_iff lenient onePool [coinbase] consistent_onePool).2 (Or.inr ?_)
  have hjoin : joinTxs (staying onePool) (lenient.blockTxs [coinbase])
      ++ lenient.aside [coinbase] onePool = [mine] := by decide
  rw [hjoin]
  refine ⟨fun t ht t' ht' _ _ _ => ?_, Or.inl (by decide)⟩
  rw [mem_singleton.1 ht, mem_singleton.1 ht']

/-- **A pool that is not restored.** A block that is refused for its deposits leaves the transaction
of the pool in `tmpmempool`; one that is accepted leaves two transactions that spend the same
outpoint. -/
theorem checkBlock_not_restored : onePool.Consistent ∧
    ((badDeposit.checkBlock [coinbase] (onePool, {})).1 = false ∧
      ¬ Restored onePool [coinbase] (badDeposit.checkBlock [coinbase] (onePool, {})).2) ∧
    (lenient.checkBlock [coinbase, rival] (onePool, {})).1 = true ∧
      ¬ Restored onePool [coinbase, rival]
        (lenient.checkBlock [coinbase, rival] (onePool, {})).2 := by
  refine ⟨consistent_onePool, ⟨by decide, ?_⟩, by decide, ?_⟩
  · rw [refused_restored_iff consistent_onePool (by decide) (by decide)]
    rintro ⟨-, hnone⟩
    have haside : badDeposit.aside [coinbase] onePool = [mine] := by decide
    rw [haside] at hnone
    cases hnone
  · rw [accepted_restored_iff consistent_onePool (by decide) (by decide)]
    have hjoin : joinTxs (staying onePool) (lenient.blockTxs [coinbase, rival])
        ++ lenient.aside [coinbase, rival] onePool = [rival, mine] := by decide
    rw [hjoin]
    intro hnone
    have heq := hnone rival (by simp) mine (by simp) ⟨100, 0⟩ ⟨rfl, by decide⟩ ⟨rfl, by decide⟩
    cases congrArg CTransaction.hash heq

end BlockChecks

end Komodo
