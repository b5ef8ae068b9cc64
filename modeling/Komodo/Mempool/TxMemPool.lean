/-
# The transaction memory pool

`CTxMemPool` of `src/src/txmempool.h` and `src/src/txmempool.cpp`: `addUnchecked`, `remove`,
`removeForReorg`, `removeWithAnchor`, `removeConflicts`, `removeExpired`, `removeForBlock`,
`removeWithoutBranchId` and `clear`, with the tests of `AcceptToMemoryPool` (`src/src/main.cpp`)
that ask the pool.

`mapTx` is the list of the entries, one for an id, in the order in which the container lists them;
nothing here depends on that order. A pointer to a transaction of `mapTx` is that transaction.
-/

import Komodo.Coins.Record
import Komodo.Lib.KeyIndex

namespace Komodo

open KeyIndex

/-- `CTxMemPoolEntry`: what the pool reads of it. -/
structure CTxMemPoolEntry where
  tx : CTransaction
  nTxSize : ℕ
  nUsageSize : ℕ := 0
  spendsCoinbase : Bool := false
  nBranchId : ℕ := 0
deriving DecidableEq, Repr

/-- `CTxMemPool`; the default is the empty pool. -/
structure CTxMemPool where
  mapTx : List CTxMemPoolEntry := []
  mapNextTx : COutPoint → Option (CTransaction × ℕ) := fun _ => none
  /-- `mapSproutNullifiers` and `mapSaplingNullifiers`. -/
  mapNullifiers : ShieldedType → Uint256 → Option CTransaction := fun _ _ => none
  totalTxSize : ℕ := 0
  cachedInnerUsage : ℕ := 0

namespace CTransaction

/-- What `addUnchecked` writes into `mapNextTx`: nothing for an import. -/
def nextEntries (tx : CTransaction) : List (COutPoint × (CTransaction × ℕ)) :=
  if tx.isCoinImport then [] else tx.vin.zipIdx.map fun (txin, i) => (txin.prevout, (tx, i))

/-- What it writes into the nullifiers of one kind. -/
def nullifierEntries (s : ShieldedType) (tx : CTransaction) : List (Uint256 × CTransaction) :=
  (tx.nullifiers s).map fun nf => (nf, tx)

/-- The outpoints of the inputs. -/
def prevouts (tx : CTransaction) : List COutPoint := tx.vin.map CTxIn.prevout

end CTransaction

namespace CTxMemPool

/-- `mapTx.find` -/
def find (pool : CTxMemPool) (hash : Uint256) : Option CTxMemPoolEntry :=
  pool.mapTx.find? fun e => e.tx.hash = hash

/-- `exists` -/
def contains (pool : CTxMemPool) (hash : Uint256) : Bool := (pool.find hash).isSome

/-- The transactions of the pool. -/
def txs (pool : CTxMemPool) : List CTransaction := pool.mapTx.map CTxMemPoolEntry.tx

/-- `addUnchecked`. The container keeps an entry that it has; what is indexed is the transaction
found under the id. -/
def addUnchecked (pool : CTxMemPool) (entry : CTxMemPoolEntry) : CTxMemPool :=
  let tx := ((pool.find entry.tx.hash).getD entry).tx
  { mapTx := if pool.contains entry.tx.hash then pool.mapTx else pool.mapTx ++ [entry]
    mapNextTx := putAll pool.mapNextTx tx.nextEntries
    mapNullifiers := fun s => putAll (pool.mapNullifiers s) (tx.nullifierEntries s)
    totalTxSize := pool.totalTxSize + entry.nTxSize
    cachedInnerUsage := pool.cachedInnerUsage + entry.nUsageSize }

/-- The tests of `AcceptToMemoryPool` against the pool: the transaction is not there, and neither
an outpoint nor a nullifier of it is taken. -/
def acceptable (pool : CTxMemPool) (tx : CTransaction) : Bool :=
  !pool.contains tx.hash && tx.vin.all (fun txin => (pool.mapNextTx txin.prevout).isNone)
    && (tx.nullifiers .sprout).all (fun nf => (pool.mapNullifiers .sprout nf).isNone)
    && (tx.nullifiers .sapling).all fun nf => (pool.mapNullifiers .sapling nf).isNone

/-! ### Removing one transaction, or with all that spend it -/

/-- The body of the loop of `remove` on an entry. Of an import the outpoint is erased too, which
was not written. -/
def eraseEntry (pool : CTxMemPool) (e : CTxMemPoolEntry) : CTxMemPool where
  mapTx := pool.mapTx.filter fun e' => e'.tx.hash ≠ e.tx.hash
  mapNextTx := dropKeys pool.mapNextTx e.tx.prevouts
  mapNullifiers s := dropKeys (pool.mapNullifiers s) (e.tx.nullifiers s)
  totalTxSize := pool.totalTxSize - e.nTxSize
  cachedInnerUsage := pool.cachedInnerUsage - e.nUsageSize

/-- The ids that are pushed for the outputs of a transaction. -/
def spenders (pool : CTxMemPool) (tx : CTransaction) : List Uint256 :=
  (List.range tx.vout.length).filterMap fun i =>
    (pool.mapNextTx ⟨tx.hash, i⟩).map fun next => next.1.hash

theorem length_eraseEntry_lt {pool : CTxMemPool} {hash : Uint256} {e : CTxMemPoolEntry}
    (h : pool.find hash = some e) : (pool.eraseEntry e).mapTx.length < pool.mapTx.length := by
  refine List.length_filter_lt_length_iff_exists.2 ⟨e, List.mem_of_find?_eq_some h, ?_⟩
  simp

/-- The loop of `remove` over the queue `txToRemove`. -/
def removeLoop (pool : CTxMemPool) (txToRemove : List Uint256) (removed : List CTransaction)
    (fRecursive : Bool) : CTxMemPool × List CTransaction :=
  match txToRemove with
  | [] => (pool, removed)
  | hash :: rest =>
    match h : pool.find hash with
    | none => removeLoop pool rest removed fRecursive
    | some e =>
      have := length_eraseEntry_lt h
      removeLoop (pool.eraseEntry e) (rest ++ if fRecursive then pool.spenders e.tx else [])
        (removed ++ [e.tx]) fRecursive
termination_by (pool.mapTx.length, txToRemove.length)

/-- `remove`. What spends a transaction that is not in the pool is removed as well. -/
def remove (pool : CTxMemPool) (origTx : CTransaction) (removed : List CTransaction)
    (fRecursive : Bool) : CTxMemPool × List CTransaction :=
  pool.removeLoop (origTx.hash ::
    if fRecursive && !pool.contains origTx.hash then pool.spenders origTx else [])
    removed fRecursive

/-- `BOOST_FOREACH(tx, transactionsToRemove) remove(tx, removed, true)`. -/
def removeEach (pool : CTxMemPool) (transactionsToRemove : List CTransaction) :
    CTxMemPool × List CTransaction :=
  transactionsToRemove.foldl (fun (pool, removed) tx => pool.remove tx removed true) (pool, [])

/-! ### Removing what a condition selects -/

/-- What `removeForReorg` looks at. -/
structure ReorgView where
  checkFinalTx : CTransaction → Bool
  /-- `pcoins->AccessCoins` -/
  accessCoins : Uint256 → Option CCoins
  nMemPoolHeight : ℤ
  coinbaseMaturity : ℤ
  /-- `komodo_block_unlocktime` -/
  blockUnlocktime : ℤ → ℤ
  /-- `ASSETCHAINS_TIMELOCKGTE` -/
  timelockGTE : ℤ

/-- A coinbase is spent before its time, by the coins it left. -/
def ReorgView.immature (v : ReorgView) (coins : CCoins) : Bool :=
  coins.fCoinBase && v.nMemPoolHeight - coins.nHeight < v.coinbaseMaturity
    && (v.nMemPoolHeight < v.blockUnlocktime coins.nHeight && coins.isAvailable 0
      && v.timelockGTE ≤ (coins.vout.getD 0 CTxOut.null).nValue)

def removeForReorg (pool : CTxMemPool) (v : ReorgView) : CTxMemPool × List CTransaction :=
  pool.removeEach ((pool.mapTx.filter fun e =>
    !v.checkFinalTx e.tx || e.spendsCoinbase && e.tx.vin.any fun txin =>
      !pool.contains txin.prevout.hash
        && (v.accessCoins txin.prevout.hash).elim true v.immature).map CTxMemPoolEntry.tx)

def removeWithAnchor (pool : CTxMemPool) (invalidRoot : Uint256) (type : ShieldedType) :
    CTxMemPool × List CTransaction :=
  pool.removeEach (pool.txs.filter fun tx =>
    match type with
    | .sprout => tx.vjoinsplit.any fun joinsplit => joinsplit.anchor = invalidRoot
    | .sapling => tx.vShieldedSpend.any fun spend => spend.anchor = invalidRoot)

def isExpiredTx (tx : CTransaction) (nBlockHeight : ℕ) : Bool :=
  if tx.nExpiryHeight = 0 ∨ tx.isCoinBase then false else tx.nExpiryHeight < nBlockHeight

/-- `removeExpired`. `fInterestNotValidated` is asked of KMD with a tip only. -/
def removeExpired (pool : CTxMemPool) (nBlockHeight : ℕ)
    (fInterestNotValidated : CTransaction → Bool) : CTxMemPool × List CTransaction :=
  pool.removeEach (pool.txs.filter fun tx =>
    isExpiredTx tx nBlockHeight || fInterestNotValidated tx)

def removeWithoutBranchId (pool : CTxMemPool) (nMemPoolBranchId : ℕ) :
    CTxMemPool × List CTransaction :=
  pool.removeEach ((pool.mapTx.filter fun e => e.nBranchId ≠ nMemPoolBranchId).map
    CTxMemPoolEntry.tx)

/-! ### Removing for a block -/

/-- A conflicting transaction that a map leads to; a different one is removed. -/
def removeConflict (tx : CTransaction) (pool : CTxMemPool) (removed : List CTransaction)
    (txConflict : Option CTransaction) : CTxMemPool × List CTransaction :=
  match txConflict with
  | some txConflict =>
    if txConflict.hash ≠ tx.hash then pool.remove txConflict removed true else (pool, removed)
  | none => (pool, removed)

/-- `removeConflicts`: of the inputs, of the Sprout and of the Sapling nullifiers. -/
def removeConflicts (pool : CTxMemPool) (tx : CTransaction) (removed : List CTransaction) :
    CTxMemPool × List CTransaction :=
  let r := tx.vin.foldl (fun (pool, removed) txin =>
    removeConflict tx pool removed ((pool.mapNextTx txin.prevout).map Prod.fst)) (pool, removed)
  let r := (tx.nullifiers .sprout).foldl (fun (pool, removed) nf =>
    removeConflict tx pool removed (pool.mapNullifiers .sprout nf)) r
  (tx.nullifiers .sapling).foldl (fun (pool, removed) nf =>
    removeConflict tx pool removed (pool.mapNullifiers .sapling nf)) r

/-- `removeForBlock`, with the conflicts it finds. -/
def removeForBlock (pool : CTxMemPool) (vtx : List CTransaction) (conflicts : List CTransaction) :
    CTxMemPool × List CTransaction :=
  vtx.foldl (fun (pool, conflicts) tx =>
    (pool.remove tx [] false).1.removeConflicts tx conflicts) (pool, conflicts)

/-- `clear`. The nullifiers are not cleared. -/
def clear (pool : CTxMemPool) : CTxMemPool :=
  { pool with mapTx := [], mapNextTx := fun _ => none, totalTxSize := 0, cachedInnerUsage := 0 }

/-! ### Steps -/

/-- A change of the pool. -/
inductive Op
  | addUnchecked (entry : CTxMemPoolEntry)
  | remove (tx : CTransaction) (fRecursive : Bool)
  | removeForBlock (vtx : List CTransaction)
  | removeConflicts (tx : CTransaction)
  | removeForReorg (v : ReorgView)
  | removeWithAnchor (invalidRoot : Uint256) (type : ShieldedType)
  | removeExpired (nBlockHeight : ℕ) (fInterestNotValidated : CTransaction → Bool)
  | removeWithoutBranchId (nMemPoolBranchId : ℕ)
  | clear

/-- The pool after a change, and what was removed recursively. -/
def step (pool : CTxMemPool) : Op → CTxMemPool × List CTransaction
  | .addUnchecked entry => (pool.addUnchecked entry, [])
  | .remove tx true => pool.remove tx [] true
  | .remove tx false => ((pool.remove tx [] false).1, [])
  | .removeForBlock vtx => pool.removeForBlock vtx []
  | .removeConflicts tx => pool.removeConflicts tx []
  | .removeForReorg v => pool.removeForReorg v
  | .removeWithAnchor invalidRoot type => pool.removeWithAnchor invalidRoot type
  | .removeExpired nBlockHeight fInterestNotValidated =>
    pool.removeExpired nBlockHeight fInterestNotValidated
  | .removeWithoutBranchId nMemPoolBranchId => pool.removeWithoutBranchId nMemPoolBranchId
  | .clear => (pool.clear, [])

/-- The pool after a run. -/
def run (pool : CTxMemPool) (ops : List Op) : CTxMemPool :=
  ops.foldl (fun pool op => (pool.step op).1) pool

end CTxMemPool

end Komodo
