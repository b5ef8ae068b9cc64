/-
# The indexes of the memory pool stay in step

`Consistent` says what `CTxMemPool::check` asserts of a pool: `mapNextTx` and the nullifiers hold
what the transactions of `mapTx` bring, and nothing else, and the sizes add up. Each change of the
pool is followed through one lemma about the entry that comes (`Consistent.addUnchecked`) and one
about the entry that goes (`Consistent.eraseEntry`).

The queue of `remove` is a breadth-first search. Its invariant is that what spends an output of a
transaction that is gone is still in the queue (`Pending`); at the end nothing of the kind is left
(`NoneLeft`).

Two changes can break the indexes. `clear` keeps the nullifiers, and removing an import erases an
outpoint that the import did not write. `mempool_consistent` is about the runs in which neither
meets something to break.
-/

import Komodo.Mempool.TxMemPool

namespace Komodo

open KeyIndex List

/-- The transaction spends the outpoint; an import spends nothing. -/
def CTransaction.Spends (tx : CTransaction) (o : COutPoint) : Prop :=
  tx.isCoinImport = false ∧ o ∈ tx.prevouts

namespace CTxMemPool

/-- The indexes hold what the transactions bring. -/
structure Consistent (pool : CTxMemPool) : Prop where
  ids : (pool.txs.map CTransaction.hash).Nodup
  next : Indexes CTransaction.nextEntries pool.txs pool.mapNextTx
  nullifiers : ∀ s, Indexes (CTransaction.nullifierEntries s) pool.txs (pool.mapNullifiers s)
  /-- No outpoint of an import is spent by another transaction. -/
  imports : ∀ tx ∈ pool.txs, tx.isCoinImport = true → ∀ o ∈ tx.prevouts, pool.mapNextTx o = none
  size : pool.totalTxSize = (pool.mapTx.map CTxMemPoolEntry.nTxSize).sum
  usage : pool.cachedInnerUsage = (pool.mapTx.map CTxMemPoolEntry.nUsageSize).sum

/-- No transaction of the pool spends an output of those that are gone. -/
def NoneLeft (gone : List CTransaction) (pool : CTxMemPool) : Prop :=
  ∀ r ∈ gone, ∀ tx ∈ pool.txs, ∀ i < r.vout.length, ¬ tx.Spends ⟨r.hash, i⟩

section
variable {pool : CTxMemPool} {e : CTxMemPoolEntry} {tx : CTransaction} {hash : Uint256}

/-! ### Entries -/

theorem mem_prevouts_of_nextEntries {o : COutPoint} {next : CTransaction × ℕ}
    (h : (o, next) ∈ tx.nextEntries) : tx.Spends o ∧ next.1 = tx := by
  unfold CTransaction.nextEntries at h
  split_ifs at h with himport
  · cases h
  · obtain ⟨⟨txin, i⟩, hmem, heq⟩ := mem_map.1 h
    obtain ⟨rfl, rfl⟩ := Prod.mk.inj heq
    exact ⟨⟨by simpa using himport, mem_map_of_mem (fst_mem_of_mem_zipIdx hmem)⟩, rfl⟩

theorem exists_nextEntries {o : COutPoint} (h : tx.Spends o) :
    ∃ i, (o, (tx, i)) ∈ tx.nextEntries := by
  obtain ⟨himport, hmem⟩ := h
  obtain ⟨txin, htxin, rfl⟩ := mem_map.1 hmem
  obtain ⟨i, hi, rfl⟩ := mem_iff_getElem.1 htxin
  refine ⟨i, ?_⟩
  rw [CTransaction.nextEntries, himport, if_neg Bool.false_ne_true]
  exact mem_map.2 ⟨(tx.vin[i], i), mem_zipIdx_iff_getElem?.2 (by simp [hi]), rfl⟩

theorem nextEntries_unique (h : tx.prevouts.Nodup) {o : COutPoint} {next next' : CTransaction × ℕ}
    (hnext : (o, next) ∈ tx.nextEntries) (hnext' : (o, next') ∈ tx.nextEntries) : next = next' := by
  unfold CTransaction.nextEntries at hnext hnext'
  split_ifs at hnext
  · cases hnext
  · rw [if_neg (by assumption)] at hnext'
    obtain ⟨⟨txin, i⟩, hmem, heq⟩ := mem_map.1 hnext
    obtain ⟨⟨txin', j⟩, hmem', heq'⟩ := mem_map.1 hnext'
    obtain ⟨rfl, rfl⟩ := Prod.mk.inj heq
    obtain ⟨hprev, rfl⟩ := Prod.mk.inj heq'
    rw [mem_zipIdx_iff_getElem?] at hmem hmem'
    have hi : tx.prevouts[i]? = some txin.prevout := by simp [CTransaction.prevouts, hmem]
    have hj : tx.prevouts[j]? = some txin.prevout := by
      simp only [CTransaction.prevouts, getElem?_map, hmem', Option.map_some]
      exact congrArg some hprev
    obtain ⟨hlt, -⟩ := List.getElem?_eq_some_iff.1 hi
    rw [(getElem?_inj hlt h).1 (hi.trans hj.symm)]

theorem mem_nullifierEntries {s : ShieldedType} {nf : Uint256} {t : CTransaction} :
    (nf, t) ∈ tx.nullifierEntries s ↔ nf ∈ tx.nullifiers s ∧ t = tx := by
  simp only [CTransaction.nullifierEntries, mem_map, Prod.mk.injEq]
  constructor
  · rintro ⟨nf', hmem, rfl, rfl⟩
    exact ⟨hmem, rfl⟩
  · rintro ⟨hmem, rfl⟩
    exact ⟨nf, hmem, rfl, rfl⟩

/-! ### Finding an entry -/

theorem find_eq_some (h : pool.find hash = some e) : e ∈ pool.mapTx ∧ e.tx.hash = hash :=
  ⟨mem_of_find?_eq_some h, by simpa using find?_some h⟩

theorem mem_txs_of_find (h : pool.find hash = some e) : e.tx ∈ pool.txs :=
  mem_map_of_mem (find_eq_some h).1

theorem find_eq_none : pool.find hash = none ↔ ∀ tx ∈ pool.txs, tx.hash ≠ hash := by
  simp [find, txs]

theorem contains_eq_false : pool.contains hash = false ↔ ∀ tx ∈ pool.txs, tx.hash ≠ hash := by
  rw [contains, Option.isSome_eq_false_iff, Option.isNone_iff_eq_none, find_eq_none]

theorem acceptable_iff : pool.acceptable tx = true ↔ pool.contains tx.hash = false ∧
    (∀ o ∈ tx.prevouts, pool.mapNextTx o = none) ∧
      ∀ s, ∀ nf ∈ tx.nullifiers s, pool.mapNullifiers s nf = none := by
  simp only [acceptable, Bool.and_eq_true, Bool.not_eq_true', all_eq_true,
    Option.isNone_iff_eq_none, CTransaction.prevouts, forall_mem_map, and_assoc]
  refine and_congr_right fun _ => and_congr_right fun _ => ?_
  constructor
  · rintro ⟨hsprout, hsapling⟩ s
    cases s
    · exact hsprout
    · exact hsapling
  · exact fun h => ⟨h .sprout, h .sapling⟩

/-! ### An entry comes -/

theorem addUnchecked_eq (h : pool.contains e.tx.hash = false) : pool.addUnchecked e =
    { mapTx := pool.mapTx ++ [e]
      mapNextTx := putAll pool.mapNextTx e.tx.nextEntries
      mapNullifiers := fun s => putAll (pool.mapNullifiers s) (e.tx.nullifierEntries s)
      totalTxSize := pool.totalTxSize + e.nTxSize
      cachedInnerUsage := pool.cachedInnerUsage + e.nUsageSize } := by
  have hfind : pool.find e.tx.hash = none := by simpa [contains] using h
  simp [addUnchecked, h, hfind]

theorem txs_addUnchecked (h : pool.contains e.tx.hash = false) :
    (pool.addUnchecked e).txs = pool.txs ++ [e.tx] := by
  rw [addUnchecked_eq h, txs, map_append, ← txs]
  rfl

/-- The transaction has distinct inputs, and does not spend what an import of the pool names. -/
structure Apart (pool : CTxMemPool) (tx : CTransaction) : Prop where
  inputs : tx.prevouts.Nodup
  imports : ∀ t ∈ pool.txs, t.isCoinImport = true → ∀ o ∈ t.prevouts, ¬ tx.Spends o

theorem Consistent.addUnchecked (h : pool.Consistent) (haccept : pool.acceptable e.tx = true)
    (hapart : pool.Apart e.tx) : (pool.addUnchecked e).Consistent := by
  obtain ⟨hnew, hnext, hnullifiers⟩ := acceptable_iff.1 haccept
  have htxs := txs_addUnchecked hnew
  have hkeys : ∀ o, o ∈ e.tx.nextEntries.map Prod.fst → e.tx.Spends o := by
    intro o ho
    obtain ⟨⟨o, next⟩, hmem, rfl⟩ := mem_map.1 ho
    exact (mem_prevouts_of_nextEntries hmem).1
  refine ⟨?_, ?_, ?_, ?_, ?_, ?_⟩
  · rw [htxs, map_append, nodup_append]
    refine ⟨h.ids, nodup_singleton _, ?_⟩
    rintro a ha b hb rfl
    obtain ⟨t, ht, hhash⟩ := mem_map.1 ha
    exact contains_eq_false.1 hnew t ht (hhash.trans (mem_singleton.1 hb))
  · rw [htxs, addUnchecked_eq hnew]
    refine h.next.concat_put (fun entry hentry => ?_) fun o next next' => ?_
    · exact hnext _ (hkeys _ (mem_map_of_mem hentry)).2
    · exact nextEntries_unique hapart.inputs
  · intro s
    rw [htxs, addUnchecked_eq hnew]
    refine (h.nullifiers s).concat_put (fun entry hentry => ?_) fun nf t t' ht ht' => ?_
    · exact hnullifiers s _ (mem_nullifierEntries.1 hentry).1
    · rw [(mem_nullifierEntries.1 ht).2, (mem_nullifierEntries.1 ht').2]
  · intro t ht himport o ho
    rw [addUnchecked_eq hnew]
    rw [htxs, mem_append, mem_singleton] at ht
    rcases ht with ht | rfl
    · have hfree : o ∉ e.tx.nextEntries.map Prod.fst := fun hmem =>
        hapart.imports t ht himport o ho (hkeys o hmem)
      exact (putAll_of_notMem hfree).trans (h.imports t ht himport o ho)
    · have hfree : o ∉ e.tx.nextEntries.map Prod.fst := fun hmem => by
        rw [(hkeys o hmem).1] at himport
        cases himport
      exact (putAll_of_notMem hfree).trans (hnext o ho)
  · rw [addUnchecked_eq hnew]
    simp [h.size]
  · rw [addUnchecked_eq hnew]
    simp [h.usage]

/-! ### An entry goes -/

theorem txs_eraseEntry : (pool.eraseEntry e).txs = pool.txs.filter fun t => t.hash ≠ e.tx.hash := by
  rw [txs, eraseEntry, txs, filter_map]
  rfl

theorem mem_txs_eraseEntry : tx ∈ (pool.eraseEntry e).txs ↔ tx ∈ pool.txs ∧ tx.hash ≠ e.tx.hash := by
  rw [txs_eraseEntry, mem_filter, decide_eq_true_eq]

theorem Consistent.eq_of_hash (h : pool.Consistent) {t : CTransaction} (ht : t ∈ pool.txs)
    (htx : tx ∈ pool.txs) (hhash : t.hash = tx.hash) : t = tx :=
  inj_on_of_nodup_map h.ids ht htx hhash

theorem Consistent.sum_filter (h : pool.Consistent) (he : e ∈ pool.mapTx)
    (size : CTxMemPoolEntry → ℕ) :
    ((pool.mapTx.filter fun e' => e'.tx.hash ≠ e.tx.hash).map size).sum
      = (pool.mapTx.map size).sum - size e := by
  have hids : (pool.mapTx.map fun e' => e'.tx.hash).Nodup := by
    have hids := h.ids
    rwa [txs, map_map] at hids
  have herase : pool.mapTx.filter (fun e' => e'.tx.hash ≠ e.tx.hash) = pool.mapTx.erase e := by
    rw [List.Nodup.erase_eq_filter (List.Nodup.of_map _ hids)]
    refine filter_congr fun e' he' => ?_
    rw [Bool.eq_iff_iff, bne_iff_ne, decide_eq_true_eq]
    exact not_congr ⟨fun heq => inj_on_of_nodup_map hids he' he heq, fun heq => by rw [heq]⟩
  rw [herase, ((perm_cons_erase he).map size).sum_eq, map_cons, sum_cons, Nat.add_sub_cancel_left]

theorem Consistent.eraseEntry (h : pool.Consistent) (he : e ∈ pool.mapTx) :
    (pool.eraseEntry e).Consistent := by
  have htx : e.tx ∈ pool.txs := mem_map_of_mem he
  have hitems : ∀ t, t ∈ (pool.eraseEntry e).txs ↔ t ∈ pool.txs ∧ t ≠ e.tx := by
    intro t
    rw [mem_txs_eraseEntry]
    exact and_congr_right fun ht => not_congr
      ⟨fun hhash => h.eq_of_hash ht htx hhash, fun heq => by rw [heq]⟩
  refine ⟨?_, ?_, fun s => ?_, ?_, ?_, ?_⟩
  · rw [txs_eraseEntry]
    exact h.ids.sublist (filter_sublist.map _)
  · refine h.next.drop hitems (fun entry hentry => (mem_prevouts_of_nextEntries hentry).1.2) ?_
    rintro t ht hne ⟨o, next⟩ hentry ho
    cases himport : e.tx.isCoinImport with
    | true =>
      have hnone := h.imports e.tx htx himport o ho
      rw [h.next.apply ht hentry] at hnone
      cases hnone
    | false =>
      obtain ⟨i, hown⟩ := exists_nextEntries ⟨himport, ho⟩
      have hone := congrArg Prod.fst (h.next.unique ht htx hentry hown)
      rw [(mem_prevouts_of_nextEntries hentry).2] at hone
      exact hne hone
  · refine (h.nullifiers s).drop hitems (fun entry hentry => (mem_nullifierEntries.1 hentry).1) ?_
    rintro t ht hne ⟨nf, t'⟩ hentry hnf
    obtain ⟨-, rfl⟩ := mem_nullifierEntries.1 hentry
    exact hne ((h.nullifiers s).unique ht htx hentry (mem_nullifierEntries.2 ⟨hnf, rfl⟩))
  · intro t ht himport o ho
    by_cases hmem : o ∈ e.tx.prevouts
    · exact dropKeys_of_mem hmem
    · exact (dropKeys_of_notMem hmem).trans (h.imports t ((hitems t).1 ht).1 himport o ho)
  · exact (congrArg (· - e.nTxSize) h.size).trans (h.sum_filter he _).symm
  · exact (congrArg (· - e.nUsageSize) h.usage).trans (h.sum_filter he _).symm

/-! ### What a removal leaves -/

/-- From the pool and the list of the removed to those after a removal: `plain` are ids that are
removed without what spends them. -/
structure Shrinks (plain : List Uint256) (p p' : CTxMemPool × List CTransaction) : Prop where
  consistent : p'.1.Consistent
  txs : ∀ t ∈ p'.1.txs, t ∈ p.1.txs
  removed : ∀ t ∈ p.2, t ∈ p'.2
  rest : ∀ t ∈ p.1.txs, t ∈ p'.1.txs ∨ t ∈ p'.2 ∨ t.hash ∈ plain
  noneLeft : NoneLeft p.2 p.1 → NoneLeft p'.2 p'.1

section
variable {plain : List Uint256} {p p' p'' : CTxMemPool × List CTransaction}

theorem Shrinks.refl (h : p.1.Consistent) : Shrinks plain p p :=
  ⟨h, fun _ => id, fun _ => id, fun _ => Or.inl, id⟩

theorem Shrinks.trans (h : Shrinks plain p p') (h' : Shrinks plain p' p'') :
    Shrinks plain p p'' where
  consistent := h'.consistent
  txs t ht := h.txs t (h'.txs t ht)
  removed t ht := h'.removed t (h.removed t ht)
  rest t ht := by
    rcases h.rest t ht with hleft | hremoved | hplain
    · exact h'.rest t hleft
    · exact Or.inr (Or.inl (h'.removed t hremoved))
    · exact Or.inr (Or.inr hplain)
  noneLeft hp := h'.noneLeft (h.noneLeft hp)

theorem Shrinks.mono {plain' : List Uint256} (h : Shrinks plain p p') (hsub : plain ⊆ plain') :
    Shrinks plain' p p' where
  consistent := h.consistent
  txs := h.txs
  removed := h.removed
  rest t ht := (h.rest t ht).imp_right (Or.imp_right fun hmem => hsub hmem)
  noneLeft := h.noneLeft

theorem foldl_shrinks {α : Type}
    {f : CTxMemPool × List CTransaction → α → CTxMemPool × List CTransaction} {l : List α}
    (hf : ∀ p, p.1.Consistent → ∀ a ∈ l, Shrinks plain p (f p a)) (h : p.1.Consistent) :
    Shrinks plain p (l.foldl f p) := by
  induction l generalizing p with
  | nil => exact Shrinks.refl h
  | cons a l ih =>
    have hstep := hf p h a mem_cons_self
    exact hstep.trans (ih (fun p hp a ha => hf p hp a (mem_cons_of_mem _ ha)) hstep.consistent)

end

/-! ### The queue -/

/-- What spends an output of the transactions that are gone is in the queue. -/
def Pending (gone : List CTransaction) (pool : CTxMemPool) (txToRemove : List Uint256) : Prop :=
  ∀ r ∈ gone, ∀ t ∈ pool.txs, ∀ i < r.vout.length, t.Spends ⟨r.hash, i⟩ → t.hash ∈ txToRemove

theorem Consistent.mem_spenders (h : pool.Consistent) {t : CTransaction} (ht : t ∈ pool.txs) {i : ℕ}
    (hi : i < tx.vout.length) (hspends : t.Spends ⟨tx.hash, i⟩) : t.hash ∈ pool.spenders tx := by
  obtain ⟨j, hentry⟩ := exists_nextEntries hspends
  refine mem_filterMap.2 ⟨i, mem_range.2 hi, ?_⟩
  rw [h.next.apply ht hentry, Option.map_some]

theorem removeLoop_cons_none {rest : List Uint256} {removed : List CTransaction} {fRecursive : Bool}
    (h : pool.find hash = none) : pool.removeLoop (hash :: rest) removed fRecursive
      = pool.removeLoop rest removed fRecursive := by
  rw [removeLoop]
  split
  · rfl
  · rename_i e he
    rw [h] at he
    cases he

theorem removeLoop_cons_some {rest : List Uint256} {removed : List CTransaction} {fRecursive : Bool}
    (h : pool.find hash = some e) : pool.removeLoop (hash :: rest) removed fRecursive
      = (pool.eraseEntry e).removeLoop (rest ++ if fRecursive then pool.spenders e.tx else [])
        (removed ++ [e.tx]) fRecursive := by
  rw [removeLoop]
  split
  · rename_i hnone
    rw [h] at hnone
    cases hnone
  · rename_i e' he
    rw [h] at he
    cases he
    rfl

theorem removeLoop_nil {removed : List CTransaction} {fRecursive : Bool} :
    pool.removeLoop [] removed fRecursive = (pool, removed) := by
  rw [removeLoop]

/-- The queue empties the pool of what spends the removed. -/
theorem removeLoop_shrinks {txToRemove : List Uint256} {removed : List CTransaction}
    (h : pool.Consistent) :
    Shrinks [] (pool, removed) (pool.removeLoop txToRemove removed true) ∧
      (Pending removed pool txToRemove →
        NoneLeft (pool.removeLoop txToRemove removed true).2
          (pool.removeLoop txToRemove removed true).1) := by
  induction hn : pool.mapTx.length using Nat.strong_induction_on generalizing pool removed txToRemove
  rename_i n ih
  induction txToRemove with
  | nil =>
    rw [removeLoop_nil]
    refine ⟨Shrinks.refl h, fun hpending r hr t ht i hi hspends => ?_⟩
    cases hpending r hr t ht i hi hspends
  | cons hash rest ihrest =>
    cases hfind : pool.find hash with
    | none =>
      rw [removeLoop_cons_none hfind]
      refine ⟨ihrest.1, fun hpending => ihrest.2 fun r hr t ht i hi hspends => ?_⟩
      refine (mem_cons.1 (hpending r hr t ht i hi hspends)).resolve_left fun heq => ?_
      exact find_eq_none.1 hfind t ht heq
    | some e =>
      obtain ⟨he, rfl⟩ := find_eq_some hfind
      rw [removeLoop_cons_some hfind, if_pos rfl]
      have hlt := length_eraseEntry_lt hfind
      obtain ⟨hshrinks, hnone⟩ := @ih _ (hn ▸ hlt) _ (rest ++ pool.spenders e.tx)
        (removed ++ [e.tx]) (h.eraseEntry he) rfl
      have hpending : Pending removed pool (e.tx.hash :: rest) →
          NoneLeft ((pool.eraseEntry e).removeLoop (rest ++ pool.spenders e.tx)
              (removed ++ [e.tx]) true).2
            ((pool.eraseEntry e).removeLoop (rest ++ pool.spenders e.tx)
              (removed ++ [e.tx]) true).1 := by
        refine fun hpending => hnone fun r hr t ht i hi hspends => ?_
        obtain ⟨htpool, hne⟩ := mem_txs_eraseEntry.1 ht
        rw [mem_append]
        rcases mem_append.1 hr with hr | hr
        · have hmem := hpending r hr t htpool i hi hspends
          exact Or.inl ((mem_cons.1 hmem).resolve_left hne)
        · obtain rfl := mem_singleton.1 hr
          exact Or.inr (h.mem_spenders htpool hi hspends)
      refine ⟨⟨hshrinks.consistent, fun t ht => ?_, fun t ht => ?_, fun t ht => ?_, fun hleft => ?_⟩,
        hpending⟩
      · exact (mem_txs_eraseEntry.1 (hshrinks.txs t ht)).1
      · exact hshrinks.removed t (mem_append_left _ ht)
      · by_cases hhash : t.hash = e.tx.hash
        · obtain rfl := h.eq_of_hash ht (mem_txs_of_find hfind) hhash
          exact Or.inr (Or.inl (hshrinks.removed _ (mem_append_right _ mem_cons_self)))
        · exact hshrinks.rest t (mem_txs_eraseEntry.2 ⟨ht, hhash⟩)
      · exact hpending fun r hr t ht i hi hspends => absurd hspends (hleft r hr t ht i hi)

theorem remove_shrinks (h : pool.Consistent) (tx : CTransaction) (removed : List CTransaction) :
    Shrinks [] (pool, removed) (pool.remove tx removed true) :=
  (removeLoop_shrinks h).1

theorem remove_false (removed : List CTransaction) : pool.remove tx removed false =
    match pool.find tx.hash with
    | some e => (pool.eraseEntry e, removed ++ [e.tx])
    | none => (pool, removed) := by
  rw [remove]
  cases hfind : pool.find tx.hash with
  | none => rw [removeLoop_cons_none hfind]; exact removeLoop_nil
  | some e => rw [removeLoop_cons_some hfind]; exact removeLoop_nil

theorem remove_false_shrinks (h : pool.Consistent) (tx : CTransaction)
    (removed conflicts : List CTransaction) :
    Shrinks [tx.hash] (pool, conflicts) ((pool.remove tx removed false).1, conflicts) := by
  rw [remove_false]
  cases hfind : pool.find tx.hash with
  | none => exact Shrinks.refl h
  | some e =>
    obtain ⟨he, hhash⟩ := find_eq_some hfind
    refine ⟨h.eraseEntry he, fun t ht => (mem_txs_eraseEntry.1 ht).1, fun t => id, fun t ht => ?_,
      fun hleft r hr t ht => hleft r hr t (mem_txs_eraseEntry.1 ht).1⟩
    by_cases heq : t.hash = tx.hash
    · exact Or.inr (Or.inr (mem_singleton.2 heq))
    · exact Or.inl (mem_txs_eraseEntry.2 ⟨ht, by rwa [hhash]⟩)

/-! ### The removals -/

theorem removeEach_shrinks (h : pool.Consistent) (transactionsToRemove : List CTransaction) :
    Shrinks [] (pool, []) (pool.removeEach transactionsToRemove) :=
  foldl_shrinks (fun p hp t _ => remove_shrinks hp t p.2) h

theorem removeConflict_shrinks (tx : CTransaction) (h : pool.Consistent)
    (removed : List CTransaction) (txConflict : Option CTransaction) :
    Shrinks [] (pool, removed) (removeConflict tx pool removed txConflict) := by
  unfold removeConflict
  cases txConflict with
  | none => exact Shrinks.refl h
  | some t =>
    show Shrinks [] _ (if t.hash ≠ tx.hash then pool.remove t removed true else (pool, removed))
    split_ifs
    · exact remove_shrinks h t removed
    · exact Shrinks.refl h

theorem removeConflicts_shrinks (h : pool.Consistent) (tx : CTransaction)
    (removed : List CTransaction) :
    Shrinks [] (pool, removed) (pool.removeConflicts tx removed) := by
  have hvin := foldl_shrinks (p := (pool, removed)) (l := tx.vin) (fun p hp txin _ =>
    removeConflict_shrinks tx hp p.2 ((p.1.mapNextTx txin.prevout).map Prod.fst)) h
  have hsprout := foldl_shrinks (l := tx.nullifiers .sprout) (fun p hp nf _ =>
    removeConflict_shrinks tx hp p.2 (p.1.mapNullifiers .sprout nf)) hvin.consistent
  have hsapling := foldl_shrinks (l := tx.nullifiers .sapling) (fun p hp nf _ =>
    removeConflict_shrinks tx hp p.2 (p.1.mapNullifiers .sapling nf)) hsprout.consistent
  exact (hvin.trans hsprout).trans hsapling

theorem removeForBlock_shrinks (h : pool.Consistent) (vtx : List CTransaction) :
    Shrinks (vtx.map CTransaction.hash) (pool, []) (pool.removeForBlock vtx []) := by
  refine foldl_shrinks (fun p hp t ht => ?_) h
  have hplain := (remove_false_shrinks hp t [] p.2).mono
    (cons_subset.2 ⟨mem_map_of_mem ht, nil_subset _⟩)
  exact hplain.trans ((removeConflicts_shrinks hplain.consistent t p.2).mono (nil_subset _))

/-- `clear` keeps the indexes in step exactly when there are no nullifiers to keep. -/
theorem consistent_clear_iff (h : pool.Consistent) :
    pool.clear.Consistent ↔ ∀ t ∈ pool.txs, ∀ s, t.nullifiers s = [] := by
  constructor
  · intro hclear t ht s
    refine eq_nil_iff_forall_not_mem.2 fun nf hnf => ?_
    have hfound := (h.nullifiers s).apply ht (mem_nullifierEntries.2 ⟨hnf, rfl⟩)
    obtain ⟨t', ht', -⟩ := (hclear.nullifiers s nf t).1 hfound
    cases ht'
  · intro hnone
    refine ⟨nodup_nil, indexes_nil, fun s nf t => ?_, fun _ ht => ?_, rfl, rfl⟩
    · constructor
      · intro hfound
        obtain ⟨t', ht', hentry⟩ := (h.nullifiers s nf t).1 hfound
        have hnf := (mem_nullifierEntries.1 hentry).1
        rw [hnone t' ht' s] at hnf
        cases hnf
      · rintro ⟨t', ht', -⟩
        cases ht'
    · cases ht

end

/-! ### Runs -/

section run
variable {pool : CTxMemPool}

/-- A change as the callers make it: what is added is acceptable. And nothing is there to be broken:
what is added is apart from the imports, and there are no nullifiers when the pool is cleared. -/
def Allowed (pool : CTxMemPool) : Op → Prop
  | .addUnchecked entry => pool.acceptable entry.tx = true ∧ pool.Apart entry.tx
  | .clear => ∀ t ∈ pool.txs, ∀ s, t.nullifiers s = []
  | _ => True

/-- Each change of a run. -/
def AllAllowed (pool : CTxMemPool) : List Op → Prop
  | [] => True
  | op :: ops => pool.Allowed op ∧ AllAllowed (pool.step op).1 ops

/-- The ids that a change removes without what spends them. -/
def Op.plain (pool : CTxMemPool) : Op → List Uint256
  | .remove tx false => [tx.hash]
  | .removeForBlock vtx => vtx.map CTransaction.hash
  | .clear => pool.txs.map CTransaction.hash
  | _ => []

/-- What a change removes it lists, except for the plain ids; and nothing that is left spends an
output of what is listed. -/
structure RemovesAll (pool : CTxMemPool) (op : Op) : Prop where
  rest : ∀ t ∈ pool.txs, t ∈ (pool.step op).1.txs ∨ t ∈ (pool.step op).2 ∨ t.hash ∈ op.plain pool
  noneLeft : NoneLeft (pool.step op).2 (pool.step op).1

theorem Shrinks.removesAll {op : Op} {plain : List Uint256}
    (h : Shrinks plain (pool, []) (pool.step op)) (hplain : plain = op.plain pool) :
    (pool.step op).1.Consistent ∧ pool.RemovesAll op :=
  ⟨h.consistent, fun t ht => hplain ▸ h.rest t ht, h.noneLeft fun _ hr => (nomatch hr)⟩

/-- One change. -/
theorem Consistent.step (h : pool.Consistent) {op : Op} (hallowed : pool.Allowed op) :
    (pool.step op).1.Consistent ∧ pool.RemovesAll op := by
  cases op with
  | addUnchecked entry =>
    obtain ⟨haccept, hapart⟩ := hallowed
    refine ⟨h.addUnchecked haccept hapart, fun t ht => Or.inl ?_, fun _ hr => (nomatch hr)⟩
    show t ∈ (pool.addUnchecked entry).txs
    rw [txs_addUnchecked (acceptable_iff.1 haccept).1]
    exact mem_append_left _ ht
  | remove tx fRecursive =>
    cases fRecursive with
    | true => exact Shrinks.removesAll (remove_shrinks h tx []) rfl
    | false => exact Shrinks.removesAll (remove_false_shrinks h tx [] []) rfl
  | removeForBlock vtx => exact Shrinks.removesAll (removeForBlock_shrinks h vtx) rfl
  | removeConflicts tx => exact Shrinks.removesAll (removeConflicts_shrinks h tx []) rfl
  | removeForReorg v => exact Shrinks.removesAll (removeEach_shrinks h _) rfl
  | removeWithAnchor invalidRoot type => exact Shrinks.removesAll (removeEach_shrinks h _) rfl
  | removeExpired nBlockHeight fInterestNotValidated =>
    exact Shrinks.removesAll (removeEach_shrinks h _) rfl
  | removeWithoutBranchId nMemPoolBranchId => exact Shrinks.removesAll (removeEach_shrinks h _) rfl
  | clear =>
    refine ⟨(consistent_clear_iff h).2 hallowed, fun t ht => ?_, fun _ hr => (nomatch hr)⟩
    exact Or.inr (Or.inr (mem_map_of_mem ht))

theorem consistent_empty : ({} : CTxMemPool).Consistent :=
  ⟨nodup_nil, indexes_nil, fun _ => indexes_nil, fun _ ht => (nomatch ht), rfl, rfl⟩

theorem Consistent.run (h : pool.Consistent) {ops : List Op} (hallowed : pool.AllAllowed ops)
    (n : ℕ) : (pool.run (ops.take n)).Consistent ∧
      ∀ op, ops[n]? = some op → (pool.run (ops.take n)).RemovesAll op := by
  induction ops generalizing pool n with
  | nil => simpa [CTxMemPool.run] using h
  | cons op ops ih =>
    obtain ⟨hop, hops⟩ := hallowed
    obtain ⟨hstep, hremoves⟩ := h.step hop
    cases n with
    | zero =>
      refine ⟨h, fun op' hop' => ?_⟩
      cases hop'
      exact hremoves
    | succ n => exact ih hstep hops n

end run

/-- **The indexes stay in step.** In a run from the empty pool whose additions are acceptable, have
distinct inputs and spend nothing that an import of the pool names, and which clears the pool only
when it has no nullifiers, every pool is consistent; and what a removal leaves spends no output of
what it removed recursively. -/
theorem mempool_consistent (ops : List Op) (h : AllAllowed {} ops) (n : ℕ) :
    (run {} (ops.take n)).Consistent ∧
      ∀ op, ops[n]? = some op → (run {} (ops.take n)).RemovesAll op :=
  consistent_empty.run h n

namespace MempoolSample

/-- Spends a confirmed output. -/
def parent : CTransaction where
  hash := 1
  vin := [⟨⟨100, 0⟩, [], 0⟩]
  vout := [⟨7, []⟩]

/-- Spends the parent. -/
def child : CTransaction where
  hash := 2
  vin := [⟨⟨1, 0⟩, [], 0⟩]
  vout := [⟨6, []⟩]

/-- Reveals a nullifier. -/
def shielded : CTransaction where
  hash := 3
  vin := []
  vout := []
  vShieldedSpend := [⟨1, 9⟩]

/-- The import of the burn 8. -/
def burnImport : CTransaction where
  hash := 4
  vin := [⟨⟨8, 1000000000⟩, [], 0⟩]
  vout := [⟨5, []⟩]

/-- Names the same outpoint beside another one. -/
def intruder : CTransaction where
  hash := 5
  vin := [⟨⟨8, 1000000000⟩, [], 0⟩, ⟨⟨100, 1⟩, [], 0⟩]
  vout := [⟨5, []⟩]

/-- A parent and a child come in; the parent goes. -/
def family : List Op :=
  [.addUnchecked ⟨parent, 100, 0, false, 0⟩, .addUnchecked ⟨child, 90, 0, false, 0⟩,
    .remove parent true]

theorem allAllowed_family : AllAllowed {} family := by
  refine ⟨⟨by decide, by decide, fun t ht => nomatch ht⟩, ⟨by decide, by decide, ?_⟩, trivial,
    trivial⟩
  intro t ht himport
  obtain rfl : t = parent := mem_singleton.1 ht
  cases himport

end MempoolSample

open MempoolSample

/-- The hypothesis of `mempool_consistent` is satisfiable: a child follows its parent. -/
theorem mempool_consistent_family :
    (run {} family).Consistent ∧ (run {} (family.take 2)).RemovesAll (.remove parent true) :=
  ⟨(mempool_consistent family allAllowed_family 3).1,
    (mempool_consistent family allAllowed_family 2).2 _ rfl⟩

/-- **What is left behind.** A nullifier stays when the pool is cleared, and the entry of an input
goes with an import that names its outpoint, though all that was added was acceptable. -/
theorem mempool_not_consistent :
    (acceptable {} shielded = true ∧
        let pool := run {} [.addUnchecked ⟨shielded, 100, 0, false, 0⟩, .clear]
        pool.txs = [] ∧ pool.mapNullifiers .sapling 9 = some shielded ∧ ¬ pool.Consistent) ∧
      let added := run {} [.addUnchecked ⟨burnImport, 100, 0, false, 0⟩]
      let pool := run {} [.addUnchecked ⟨burnImport, 100, 0, false, 0⟩,
        .addUnchecked ⟨intruder, 100, 0, false, 0⟩, .remove burnImport false]
      acceptable {} burnImport = true ∧ added.acceptable intruder = true ∧
        pool.txs = [intruder] ∧ pool.mapNextTx ⟨8, 1000000000⟩ = none ∧ ¬ pool.Consistent := by
  refine ⟨⟨by decide, rfl, rfl, fun h => ?_⟩, ?_⟩
  · obtain ⟨t, ht, -⟩ := (h.nullifiers .sapling 9 shielded).1 rfl
    cases ht
  · have hpool : run {} [.addUnchecked ⟨burnImport, 100, 0, false, 0⟩,
        .addUnchecked ⟨intruder, 100, 0, false, 0⟩, .remove burnImport false]
        = eraseEntry (run {} [.addUnchecked ⟨burnImport, 100, 0, false, 0⟩,
          .addUnchecked ⟨intruder, 100, 0, false, 0⟩]) ⟨burnImport, 100, 0, false, 0⟩ := by
      show (CTxMemPool.remove (run {} [.addUnchecked ⟨burnImport, 100, 0, false, 0⟩,
          .addUnchecked ⟨intruder, 100, 0, false, 0⟩]) burnImport [] false).1 = _
      rw [remove_false]
      rfl
    simp only [hpool]
    refine ⟨by decide, by decide, rfl, rfl, fun h => ?_⟩
    have hentry : ((⟨8, 1000000000⟩, (intruder, 0)) : COutPoint × (CTransaction × ℕ))
        ∈ intruder.nextEntries := by decide
    have hfound := h.next.apply (mem_singleton.2 rfl) hentry
    cases hfound

end CTxMemPool

end Komodo
