/-
# Coins views: the database and the caches over it

`src/src/coins.h` and `src/src/coins.cpp` (`CCoinsViewCache`, `CCoinsModifier`)
and `src/src/txdb.cpp` (`CCoinsViewDB`).

A view is a database or a cache over another view (`CCoinsView`). Reads are
`const` in the source and still change the caches they pass through, so
`getCoins` and `getNullifier` return the view they leave behind. `modifyCoins`
is `ModifyCoins(txid)` followed by a change of the record and the destruction
of the `CCoinsModifier`. `batchWrite` returns `none` where the assertion that a
dirty unpruned entry missing from the parent is `FRESH` fails.

The note commitment trees are a parameter: a tree type for each pool with its root.
-/

import Komodo.Coins.Record
import Komodo.Lib.KeyedLoop

namespace Komodo

/-- A note commitment tree type (`SproutMerkleTree`, `SaplingMerkleTree`).
`append` is `none` when the tree is full. -/
class MerkleTree (T : Type) where
  empty : T
  root : T → Uint256
  append : T → Uint256 → Option T

/-- `Tree::empty_root()`. -/
def emptyRoot (T : Type) [MerkleTree T] : Uint256 := MerkleTree.root (MerkleTree.empty : T)

/-- The simplest tree, used in examples: the list of its leaves, with a root
that tells lists apart. -/
instance : MerkleTree (List Uint256) where
  empty := []
  root l := l.foldr (fun x r => Nat.pair x r + 1) 1
  append l x := some (l ++ [x])

/-- `CCoinsCacheEntry`, one field for each flag. -/
structure CCoinsCacheEntry where
  coins : CCoins := {}
  dirty : Bool := false
  fresh : Bool := false
deriving DecidableEq, Repr

/-- `CAnchorsSproutCacheEntry` and `CAnchorsSaplingCacheEntry`. -/
structure CAnchorsCacheEntry (T : Type) where
  entered : Bool
  tree : T
  dirty : Bool := false

structure CNullifiersCacheEntry where
  entered : Bool := false
  dirty : Bool := false
deriving DecidableEq, Repr

abbrev CCoinsMap := Dict Uint256 CCoinsCacheEntry

abbrev CNullifiersMap := Dict Uint256 CNullifiersCacheEntry

/-- `CAnchorsSproutMap` and `CAnchorsSaplingMap`. -/
abbrev CAnchorsMap (T : Type) := Dict Uint256 (CAnchorsCacheEntry T)

variable {T : ShieldedType → Type}

/-- `CCoinsViewDB`: the records under `DB_COINS`, the anchors and nullifiers of
the two pools, and the best block and best anchors when they were written. -/
structure CCoinsViewDB (T : ShieldedType → Type) where
  coins : Dict Uint256 CCoins := ∅
  anchors (s : ShieldedType) : Dict Uint256 (T s) := ∅
  nullifiers : ShieldedType → Dict Uint256 Bool := fun _ => ∅
  bestBlock : Option Uint256 := none
  bestAnchor : ShieldedType → Option Uint256 := fun _ => none

/-- `CCoinsViewCache` without its base; the default is what the constructor
makes. -/
structure CCoinsViewCache (T : ShieldedType → Type) where
  cacheCoins : CCoinsMap := ∅
  cacheAnchors (s : ShieldedType) : CAnchorsMap (T s) := ∅
  cacheNullifiers : ShieldedType → CNullifiersMap := fun _ => ∅
  hashBlock : Uint256 := 0
  hashAnchor : ShieldedType → Uint256 := fun _ => 0

/-- A view: the database, or a cache over a view. -/
inductive CCoinsView (T : ShieldedType → Type)
  | db (d : CCoinsViewDB T)
  | cache (c : CCoinsViewCache T) (base : CCoinsView T)

/-! ### Reads -/

/-- `CCoinsViewCache::FetchCoins`: the record of `txid`, the cache and the base
after the call. `read` is what `base->GetCoins(txid, tmp)` does. -/
def CCoinsViewCache.fetchCoins {B : Type} (c : CCoinsViewCache T) (txid : Uint256) (base : B)
    (read : Option CCoins × B) : Option CCoins × CCoinsViewCache T × B :=
  match c.cacheCoins.lookup txid with
  | some e => (some e.coins, c, base)
  | none =>
    match read with
    | (none, base') => (none, c, base')
    | (some tmp, base') =>
      -- the parent only has an empty entry: our version counts as fresh
      let e : CCoinsCacheEntry := { coins := tmp, fresh := tmp.isPruned }
      (some tmp, { c with cacheCoins := c.cacheCoins.insert txid e }, base')

/-- `GetCoins` of a view, with the view it leaves. -/
def CCoinsView.getCoins : CCoinsView T → Uint256 → Option CCoins × CCoinsView T
  | .db d, txid => (d.coins.lookup txid, .db d)
  | .cache c base, txid =>
    match c.fetchCoins txid base (base.getCoins txid) with
    | (r, c', base') => (r, .cache c' base')

/-- `CCoinsViewCache::GetNullifier` given what `base->GetNullifier` does. -/
def CCoinsViewCache.fetchNullifier {B : Type} (c : CCoinsViewCache T) (s : ShieldedType)
    (nf : Uint256) (base : B) (read : Bool × B) : Bool × CCoinsViewCache T × B :=
  match (c.cacheNullifiers s).lookup nf with
  | some e => (e.entered, c, base)
  | none =>
    let m := (c.cacheNullifiers s).insert nf { entered := read.1 }
    (read.1, { c with cacheNullifiers := Function.update c.cacheNullifiers s m }, read.2)

/-- `GetNullifier` of a view, with the view it leaves. -/
def CCoinsView.getNullifier :
    CCoinsView T → ShieldedType → Uint256 → Bool × CCoinsView T
  | .db d, s, nf => (((d.nullifiers s).lookup nf).isSome, .db d)
  | .cache c base, s, nf =>
    match c.fetchNullifier s nf base (base.getNullifier s nf) with
    | (r, c', base') => (r, .cache c' base')

/-! ### Writes into a parent -/

/-- The body of the loop of `CCoinsViewCache::BatchWrite` over the child's coins. -/
def batchWriteCoin (txid : Uint256) (e : CCoinsCacheEntry) (m : CCoinsMap) : Option CCoinsMap :=
  if e.dirty then
    match m.lookup txid with
    | none =>
      if e.coins.isPruned then some m
      else if e.fresh then some (m.insert txid { coins := e.coins, dirty := true, fresh := true })
      else none
    | some us =>
      if us.fresh && e.coins.isPruned then some (m.erase txid)
      else some (m.insert txid { us with coins := e.coins, dirty := true })
  else some m

/-- The body of `BatchWriteNullifiers` of `coins.cpp`. -/
def batchWriteNullifier (nf : Uint256) (e : CNullifiersCacheEntry) (m : CNullifiersMap) :
    CNullifiersMap :=
  if e.dirty then
    match m.lookup nf with
    | none => m.insert nf { entered := e.entered, dirty := true }
    | some p =>
      if p.entered != e.entered then m.insert nf { p with entered := e.entered, dirty := true }
      else m
  else m

/-- The body of `BatchWriteAnchors` of `coins.cpp`. -/
def batchWriteAnchor {T : Type} (rt : Uint256) (e : CAnchorsCacheEntry T) (m : CAnchorsMap T) :
    CAnchorsMap T :=
  if e.dirty then
    match m.lookup rt with
    | none => m.insert rt { e with dirty := true }
    | some p =>
      if p.entered != e.entered then m.insert rt { p with entered := e.entered, dirty := true }
      else m
  else m

/-- `CCoinsViewCache::BatchWrite` with the maps of `child`. -/
def CCoinsViewCache.batchWrite (c child : CCoinsViewCache T) : Option (CCoinsViewCache T) :=
  (sweepM batchWriteCoin child.cacheCoins c.cacheCoins).map fun m =>
    { cacheCoins := m
      cacheAnchors := fun s => sweep batchWriteAnchor (child.cacheAnchors s) (c.cacheAnchors s)
      cacheNullifiers := fun s =>
        sweep batchWriteNullifier (child.cacheNullifiers s) (c.cacheNullifiers s)
      hashBlock := child.hashBlock
      hashAnchor := child.hashAnchor }

/-- The body of the loop of `CCoinsViewDB::BatchWrite` over the child's coins. -/
def dbWriteCoin (txid : Uint256) (e : CCoinsCacheEntry) (m : Dict Uint256 CCoins) :
    Dict Uint256 CCoins :=
  if e.dirty then if e.coins.isPruned then m.erase txid else m.insert txid e.coins else m

/-- The body of `BatchWriteNullifiers` of `txdb.cpp`. -/
def dbWriteNullifier (nf : Uint256) (e : CNullifiersCacheEntry) (m : Dict Uint256 Bool) :
    Dict Uint256 Bool :=
  if e.dirty then if e.entered then m.insert nf true else m.erase nf else m

/-- The body of `BatchWriteAnchors` of `txdb.cpp`; the empty tree is not written. -/
def dbWriteAnchor {T : Type} [MerkleTree T] (rt : Uint256) (e : CAnchorsCacheEntry T)
    (m : Dict Uint256 T) : Dict Uint256 T :=
  if e.dirty then
    if e.entered then if rt = emptyRoot T then m else m.insert rt e.tree
    else m.erase rt
  else m

variable [∀ s, MerkleTree (T s)]

/-- `CCoinsViewDB::BatchWrite` with the maps of `child`. -/
def CCoinsViewDB.batchWrite (d : CCoinsViewDB T) (child : CCoinsViewCache T) : CCoinsViewDB T where
  coins := sweep dbWriteCoin child.cacheCoins d.coins
  anchors s := sweep dbWriteAnchor (child.cacheAnchors s) (d.anchors s)
  nullifiers s := sweep dbWriteNullifier (child.cacheNullifiers s) (d.nullifiers s)
  bestBlock := if child.hashBlock = 0 then d.bestBlock else some child.hashBlock
  bestAnchor s := if child.hashAnchor s = 0 then d.bestAnchor s else some (child.hashAnchor s)

/-- `BatchWrite` of a view with the maps of `child`; `none` is a failed assertion. -/
def CCoinsView.batchWrite (child : CCoinsViewCache T) : CCoinsView T → Option (CCoinsView T)
  | .db d => some (.db (d.batchWrite child))
  | .cache c base => (c.batchWrite child).map (.cache · base)

/-! ### The top of a tower -/

/-- A tower: a cache over a view. The operations of the source are called on
its top cache. -/
structure Tower (T : ShieldedType → Type) where
  top : CCoinsViewCache T
  base : CCoinsView T

namespace Tower

/-- The tower as a view. -/
def view (t : Tower T) : CCoinsView T := .cache t.top t.base

/-- `CCoinsViewCache::GetCoins`, and `AccessCoins` and `HaveCoins`, which all
answer from the entry that `FetchCoins` finds. -/
def getCoins (t : Tower T) (txid : Uint256) : Option CCoins × Tower T :=
  match t.top.fetchCoins txid t.base (t.base.getCoins txid) with
  | (r, c, base) => (r, ⟨c, base⟩)

/-- The loop of `CCoinsViewCache::HaveInputs`, which stops at the first missing input. -/
def haveInputsLoop : List CTxIn → Tower T → Bool × Tower T
  | [], t => (true, t)
  | i :: is, t =>
    match t.getCoins i.prevout.hash with
    | (some coins, t') => if coins.isAvailable i.prevout.n then haveInputsLoop is t' else (false, t')
    | (none, t') => (false, t')

def haveInputs (t : Tower T) (tx : CTransaction) : Bool × Tower T :=
  if tx.isMint then (true, t) else haveInputsLoop tx.vin t

def getNullifier (t : Tower T) (s : ShieldedType) (nf : Uint256) : Bool × Tower T :=
  match t.top.fetchNullifier s nf t.base (t.base.getNullifier s nf) with
  | (r, c, base) => (r, ⟨c, base⟩)

/-- The entry that `CCoinsViewCache::ModifyCoins` hands to the modifier, and
the base after the call. -/
def modifierEntry (t : Tower T) (txid : Uint256) : CCoinsCacheEntry × CCoinsView T :=
  match t.top.cacheCoins.lookup txid with
  | some e => ({ e with dirty := true }, t.base)
  | none =>
    match t.base.getCoins txid with
    | (none, base') => ({ coins := {}, fresh := true, dirty := true }, base')
    | (some coins, base') => ({ coins, fresh := coins.isPruned, dirty := true }, base')

/-- `ModifyCoins(txid)`, the change `f` of the record, and `~CCoinsModifier`. -/
def modifyCoins (t : Tower T) (txid : Uint256) (f : CCoins → CCoins) : Tower T :=
  match t.modifierEntry txid with
  | (e, base') =>
    let coins := (f e.coins).cleanup
    let m :=
      if e.fresh && coins.isPruned then t.top.cacheCoins.erase txid
      else t.top.cacheCoins.insert txid { e with coins }
    ⟨{ t.top with cacheCoins := m }, base'⟩

def setNullifiers (t : Tower T) (tx : CTransaction) (spent : Bool) : Tower T :=
  let set := fun (m : CNullifiersMap) nf => m.insert nf { entered := spent, dirty := true }
  { t with top.cacheNullifiers := fun s => (tx.nullifiers s).foldl set (t.top.cacheNullifiers s) }

/-- `CCoinsViewCache::Flush`; the hashes of the top cache are kept. -/
def flush (t : Tower T) : Option (Tower T) :=
  (t.base.batchWrite t.top).map fun base' =>
    ⟨{ hashBlock := t.top.hashBlock, hashAnchor := t.top.hashAnchor }, base'⟩

end Tower

end Komodo
