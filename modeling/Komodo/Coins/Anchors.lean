/-
# The anchors and the best block of a tower

`GetSproutAnchorAt`, `GetSaplingAnchorAt`, `GetBestAnchor`, `GetBestBlock`, `AbstractPushAnchor`,
`AbstractPopAnchor` and `SetBestBlock` of `src/src/coins.cpp`, and the reads of `CCoinsViewDB` in
`src/src/txdb.cpp`.

A cache keeps the anchors that were read or written, and the best anchors and the best block once
they are known: the null hash says that they are not.  `AnchorsOk` is what the entries promise; it is
kept by every operation.  A read changes caches and no answer.

A flush changes no anchor.  It hands its hashes down, known or not: a database leaves its own in
place of a null hash, a cache takes it over and forgets the hash that it had.  The answers stay
exactly when nothing is forgotten (`Tower.FlushKeeps`).
-/

import Komodo.Coins.Refinement

namespace Komodo

open Function

variable {T : ShieldedType → Type} [∀ s, MerkleTree (T s)]

/-! ### Reads -/

/-- What an entry answers. -/
def CAnchorsCacheEntry.answer {T : Type} (e : CAnchorsCacheEntry T) : Option T :=
  if e.entered then some e.tree else none

/-- `GetSproutAnchorAt` and `GetSaplingAnchorAt` of a cache; `read` is what the base does. -/
def CCoinsViewCache.fetchAnchor {B : Type} (c : CCoinsViewCache T) (s : ShieldedType) (rt : Uint256)
    (base : B) (read : Option (T s) × B) : Option (T s) × CCoinsViewCache T × B :=
  match (c.cacheAnchors s).lookup rt with
  | some e => (e.answer, c, base)
  | none =>
    match read with
    | (none, base') => (none, c, base')
    | (some tree, base') =>
      let m := (c.cacheAnchors s).insert rt { entered := true, tree }
      (some tree, { c with cacheAnchors := Function.update c.cacheAnchors s m }, base')

/-- `GetBestAnchor` of a cache; `read` is what the base does. -/
def CCoinsViewCache.fetchBestAnchor {B : Type} (c : CCoinsViewCache T) (s : ShieldedType) (base : B)
    (read : Uint256 × B) : Uint256 × CCoinsViewCache T × B :=
  if c.hashAnchor s = 0 then
    (read.1, { c with hashAnchor := Function.update c.hashAnchor s read.1 }, read.2)
  else (c.hashAnchor s, c, base)

/-- `GetBestBlock` of a cache; `read` is what the base does. -/
def CCoinsViewCache.fetchBestBlock {B : Type} (c : CCoinsViewCache T) (base : B)
    (read : Uint256 × B) : Uint256 × CCoinsViewCache T × B :=
  if c.hashBlock = 0 then (read.1, { c with hashBlock := read.1 }, read.2)
  else (c.hashBlock, c, base)

namespace CCoinsView

/-- `GetSproutAnchorAt` and `GetSaplingAnchorAt`, with the view that they leave. -/
def getAnchorAt : CCoinsView T → (s : ShieldedType) → Uint256 → Option (T s) × CCoinsView T
  | .db d, s, rt =>
    (if rt = emptyRoot (T s) then some MerkleTree.empty else (d.anchors s).lookup rt, .db d)
  | .cache c base, s, rt =>
    match c.fetchAnchor s rt base (base.getAnchorAt s rt) with
    | (r, c', base') => (r, .cache c' base')

/-- `GetBestAnchor`, with the view that it leaves. -/
def getBestAnchor : CCoinsView T → ShieldedType → Uint256 × CCoinsView T
  | .db d, s => ((d.bestAnchor s).getD (emptyRoot (T s)), .db d)
  | .cache c base, s =>
    match c.fetchBestAnchor s base (base.getBestAnchor s) with
    | (h, c', base') => (h, .cache c' base')

/-- `GetBestBlock`, with the view that it leaves. -/
def getBestBlock : CCoinsView T → Uint256 × CCoinsView T
  | .db d => (d.bestBlock.getD 0, .db d)
  | .cache c base =>
    match c.fetchBestBlock base base.getBestBlock with
    | (h, c', base') => (h, .cache c' base')

end CCoinsView

namespace Tower

def getAnchorAt (t : Tower T) (s : ShieldedType) (rt : Uint256) : Option (T s) × Tower T :=
  match t.top.fetchAnchor s rt t.base (t.base.getAnchorAt s rt) with
  | (r, c, base) => (r, ⟨c, base⟩)

def getBestAnchor (t : Tower T) (s : ShieldedType) : Uint256 × Tower T :=
  match t.top.fetchBestAnchor s t.base (t.base.getBestAnchor s) with
  | (h, c, base) => (h, ⟨c, base⟩)

def getBestBlock (t : Tower T) : Uint256 × Tower T :=
  match t.top.fetchBestBlock t.base t.base.getBestBlock with
  | (h, c, base) => (h, ⟨c, base⟩)

/-! ### Writes -/

/-- An entry of the top cache and the best anchor. -/
def setAnchor (t : Tower T) (s : ShieldedType) (rt : Uint256) (e : CAnchorsCacheEntry (T s))
    (best : Uint256) : Tower T :=
  ⟨{ t.top with
      cacheAnchors := Function.update t.top.cacheAnchors s ((t.top.cacheAnchors s).insert rt e)
      hashAnchor := Function.update t.top.hashAnchor s best }, t.base⟩

/-- `AbstractPushAnchor`. -/
def pushAnchor (t : Tower T) (s : ShieldedType) (tree : T s) : Tower T :=
  let newrt := MerkleTree.root tree
  match t.getBestAnchor s with
  | (currentRoot, t') =>
    if currentRoot = newrt then t'
    else t'.setAnchor s newrt { entered := true, tree, dirty := true } newrt

/-- `AbstractPopAnchor`; `none` is the failed assertion of `BringBestAnchorIntoCache`. -/
def popAnchor (t : Tower T) (s : ShieldedType) (newrt : Uint256) : Option (Tower T) :=
  match t.getBestAnchor s with
  | (currentRoot, t₁) =>
    if currentRoot = newrt then some t₁
    else
      match t₁.getAnchorAt s currentRoot with
      | (none, _) => none
      | (some _, t₂) =>
        let e := ((t₂.top.cacheAnchors s).lookup currentRoot).getD
          { entered := false, tree := MerkleTree.empty }
        some (t₂.setAnchor s currentRoot { e with entered := false, dirty := true } newrt)

def setBestBlock (t : Tower T) (hash : Uint256) : Tower T :=
  { t with top.hashBlock := hash }

end Tower

/-! ### Answers -/

/-- `tree` is the one tree with the root `rt`. -/
def IsTreeOf {T : Type} [MerkleTree T] (rt : Uint256) (tree : T) : Prop :=
  MerkleTree.root tree = rt ∧ ∀ tree' : T, MerkleTree.root tree' = rt → tree' = tree

namespace CCoinsView

/-- The anchor that a view answers, without the caching. -/
def peekAnchor : CCoinsView T → (s : ShieldedType) → Uint256 → Option (T s)
  | .db d, s, rt => if rt = emptyRoot (T s) then some MerkleTree.empty else (d.anchors s).lookup rt
  | .cache c base, s, rt =>
    match (c.cacheAnchors s).lookup rt with
    | some e => e.answer
    | none => base.peekAnchor s rt

/-- The best anchor that a view answers, without the caching. -/
def peekBestAnchor : CCoinsView T → ShieldedType → Uint256
  | .db d, s => (d.bestAnchor s).getD (emptyRoot (T s))
  | .cache c base, s => if c.hashAnchor s = 0 then base.peekBestAnchor s else c.hashAnchor s

/-- The best block that a view answers, without the caching. -/
def peekBestBlock : CCoinsView T → Uint256
  | .db d => d.bestBlock.getD 0
  | .cache c base => if c.hashBlock = 0 then base.peekBestBlock else c.hashBlock

/-- `v'` answers the anchors and hashes that `v` answers. -/
structure SameAnchors (v v' : CCoinsView T) : Prop where
  anchor : ∀ s rt, v'.peekAnchor s rt = v.peekAnchor s rt
  bestAnchor : ∀ s, v'.peekBestAnchor s = v.peekBestAnchor s
  bestBlock : v'.peekBestBlock = v.peekBestBlock

/-- The coins and nullifiers of the views are the same, cache by cache. -/
def SameCoins : CCoinsView T → CCoinsView T → Prop
  | .db d, .db d' => d'.coins = d.coins ∧ d'.nullifiers = d.nullifiers
  | .cache c base, .cache c' base' =>
    c'.cacheCoins = c.cacheCoins ∧ c'.cacheNullifiers = c.cacheNullifiers ∧ SameCoins base base'
  | _, _ => False

/-! ### What the entries promise -/

/-- The tree of an entry is the one of its root, a clean entry is what the base answers, and the
empty tree stays. -/
structure AnchorOk (base : CCoinsView T) (s : ShieldedType) (rt : Uint256)
    (e : CAnchorsCacheEntry (T s)) : Prop where
  known : IsTreeOf rt e.tree
  clean : ¬ e.dirty → base.peekAnchor s rt = e.answer
  left : ¬ e.entered → rt ≠ emptyRoot (T s)

/-- The entries of a cache keep their promises about its base. -/
def CacheAnchorsOk (c : CCoinsViewCache T) (base : CCoinsView T) : Prop :=
  ∀ s rt e, (c.cacheAnchors s).lookup rt = some e → AnchorOk base s rt e

/-- Every cache of the view keeps its promises, and the trees of the database are filed under their
roots. -/
def AnchorsOk : CCoinsView T → Prop
  | .db d => ∀ s, IsTreeOf (emptyRoot (T s)) (MerkleTree.empty : T s) ∧
      ∀ rt tree, (d.anchors s).lookup rt = some tree → IsTreeOf rt tree
  | .cache c base => CacheAnchorsOk c base ∧ base.AnchorsOk

/-- What a read leaves: the answer given is that of the view, no answer changes, the coins are
untouched, and the entries keep their promises. -/
structure AnchorRead {α : Type} (v : CCoinsView T) (answer : α) (r : α × CCoinsView T) : Prop where
  answered : r.1 = answer
  same : SameAnchors v r.2
  coins : SameCoins v r.2
  ok : v.AnchorsOk → r.2.AnchorsOk

theorem SameAnchors.refl (v : CCoinsView T) : SameAnchors v v :=
  ⟨fun _ _ => rfl, fun _ => rfl, rfl⟩

omit [∀ s, MerkleTree (T s)] in
theorem SameCoins.refl (v : CCoinsView T) : SameCoins v v := by
  induction v with
  | db d => exact ⟨rfl, rfl⟩
  | cache c base ih => exact ⟨rfl, rfl, ih⟩

theorem AnchorRead.refl {α : Type} {v : CCoinsView T} {answer : α} :
    AnchorRead v answer (answer, v) := ⟨rfl, SameAnchors.refl v, SameCoins.refl v, id⟩

theorem peekAnchor_cache_some {c : CCoinsViewCache T} {base : CCoinsView T} {s : ShieldedType}
    {rt : Uint256} {e : CAnchorsCacheEntry (T s)} (h : (c.cacheAnchors s).lookup rt = some e) :
    (cache c base).peekAnchor s rt = e.answer := by
  simp only [peekAnchor, h]

theorem peekAnchor_cache_none {c : CCoinsViewCache T} {base : CCoinsView T} {s : ShieldedType}
    {rt : Uint256} (h : (c.cacheAnchors s).lookup rt = none) :
    (cache c base).peekAnchor s rt = base.peekAnchor s rt := by
  simp only [peekAnchor, h]

theorem SameAnchors.cache {base base' : CCoinsView T} (h : SameAnchors base base')
    (c : CCoinsViewCache T) : SameAnchors (.cache c base) (.cache c base') where
  anchor s rt := by simp only [peekAnchor, h.anchor]
  bestAnchor s := by simp only [peekBestAnchor, h.bestAnchor]
  bestBlock := by simp only [peekBestBlock, h.bestBlock]

theorem CacheAnchorsOk.of_same {c : CCoinsViewCache T} {base base' : CCoinsView T}
    (h : CacheAnchorsOk c base) (hs : SameAnchors base base') : CacheAnchorsOk c base' := by
  intro s rt e he
  obtain ⟨hknown, hclean, hleft⟩ := h s rt e he
  exact ⟨hknown, fun hd => (hs.anchor s rt).trans (hclean hd), hleft⟩

/-- The trees that are answered are the ones of their roots. -/
theorem isTreeOf_of_peekAnchor {v : CCoinsView T} (h : v.AnchorsOk) {s : ShieldedType}
    {rt : Uint256} {tree : T s} (htree : v.peekAnchor s rt = some tree) : IsTreeOf rt tree := by
  induction v with
  | db d =>
    unfold peekAnchor at htree
    split_ifs at htree with hempty
    · cases htree
      rw [hempty]
      exact (h s).1
    · exact (h s).2 rt tree htree
  | cache c base ih =>
    cases hc : (c.cacheAnchors s).lookup rt with
    | none => exact ih h.2 (peekAnchor_cache_none hc ▸ htree)
    | some e =>
      rw [peekAnchor_cache_some hc, CAnchorsCacheEntry.answer] at htree
      split_ifs at htree
      cases htree
      exact (h.1 s rt e hc).known

/-! ### One entry more -/

section
variable (m : (s : ShieldedType) → CAnchorsMap (T s)) (s : ShieldedType) (rt : Uint256)
  (e : CAnchorsCacheEntry (T s))

omit [∀ s, MerkleTree (T s)] in
theorem lookup_insert_self : (Function.update m s ((m s).insert rt e) s).lookup rt = some e := by
  rw [update_self, AList.lookup_insert]

omit [∀ s, MerkleTree (T s)] in
theorem lookup_insert_other {s' : ShieldedType} {rt' : Uint256} (h : ¬ (s' = s ∧ rt' = rt)) :
    (Function.update m s ((m s).insert rt e) s').lookup rt' = (m s').lookup rt' := by
  by_cases hs : s' = s
  · subst hs
    rw [update_self, AList.lookup_insert_ne fun hrt => h ⟨rfl, hrt⟩]
  · rw [update_of_ne hs]

end

theorem CacheAnchorsOk.insert {c : CCoinsViewCache T} {base : CCoinsView T}
    (h : CacheAnchorsOk c base) {s : ShieldedType} {rt : Uint256} {e : CAnchorsCacheEntry (T s)}
    (he : AnchorOk base s rt e) {c' : CCoinsViewCache T}
    (hc' : c'.cacheAnchors = Function.update c.cacheAnchors s ((c.cacheAnchors s).insert rt e)) :
    CacheAnchorsOk c' base := by
  intro s' rt' e' he'
  rw [hc'] at he'
  by_cases hsame : s' = s ∧ rt' = rt
  · obtain ⟨rfl, rfl⟩ := hsame
    rw [lookup_insert_self] at he'
    cases he'
    exact he
  · rw [lookup_insert_other _ _ _ _ hsame] at he'
    exact h s' rt' e' he'

/-! ### Reads do not disturb a tower -/

theorem fetchAnchor_spec {c : CCoinsViewCache T} {base : CCoinsView T} {s : ShieldedType}
    {rt : Uint256} {read : Option (T s) × CCoinsView T}
    (hread : AnchorRead base (base.peekAnchor s rt) read) :
    AnchorRead (cache c base) ((cache c base).peekAnchor s rt)
      ((c.fetchAnchor s rt base read).1,
        cache (c.fetchAnchor s rt base read).2.1 (c.fetchAnchor s rt base read).2.2) := by
  unfold CCoinsViewCache.fetchAnchor
  cases hc : (c.cacheAnchors s).lookup rt with
  | some e =>
    rw [peekAnchor_cache_some hc]
    exact AnchorRead.refl
  | none =>
    obtain ⟨r, base'⟩ := read
    obtain ⟨hans, hsame, hcoins, hok⟩ := hread
    rw [peekAnchor_cache_none hc]
    cases r with
    | none => exact ⟨hans, hsame.cache c, ⟨rfl, rfl, hcoins⟩, fun h => ⟨h.1.of_same hsame, hok h.2⟩⟩
    | some tree =>
      -- the anchor that was read is entered, clean
      have hbase : base'.peekAnchor s rt = some tree := (hsame.anchor s rt).trans hans.symm
      refine ⟨hans, ⟨fun s' rt' => ?_, fun s' => ?_, ?_⟩, ⟨rfl, rfl, hcoins⟩, fun h => ⟨?_, hok h.2⟩⟩
      · by_cases heq : s' = s ∧ rt' = rt
        · obtain ⟨rfl, rfl⟩ := heq
          rw [peekAnchor_cache_some (lookup_insert_self ..), peekAnchor_cache_none hc]
          exact hans
        · simp only [peekAnchor, lookup_insert_other _ _ _ _ heq, hsame.anchor]
      · simp only [peekBestAnchor, hsame.bestAnchor]
      · simp only [peekBestBlock, hsame.bestBlock]
      · refine (h.1.of_same hsame).insert ⟨?_, fun _ => hbase, fun hleft => absurd rfl hleft⟩ rfl
        exact isTreeOf_of_peekAnchor (hok h.2) hbase

theorem getAnchorAt_spec (v : CCoinsView T) (s : ShieldedType) (rt : Uint256) :
    AnchorRead v (v.peekAnchor s rt) (v.getAnchorAt s rt) := by
  induction v with
  | db d => exact AnchorRead.refl
  | cache c base ih => exact fetchAnchor_spec ih

theorem fetchBestAnchor_spec {c : CCoinsViewCache T} {base : CCoinsView T} {s : ShieldedType}
    {read : Uint256 × CCoinsView T} (hread : AnchorRead base (base.peekBestAnchor s) read) :
    AnchorRead (cache c base) ((cache c base).peekBestAnchor s)
      ((c.fetchBestAnchor s base read).1,
        cache (c.fetchBestAnchor s base read).2.1 (c.fetchBestAnchor s base read).2.2) := by
  obtain ⟨hans, hsame, hcoins, hok⟩ := hread
  unfold CCoinsViewCache.fetchBestAnchor
  by_cases hnull : c.hashAnchor s = 0
  · rw [if_pos hnull, peekBestAnchor, if_pos hnull]
    refine ⟨hans, ⟨fun s' rt' => by simp only [peekAnchor, hsame.anchor], fun s' => ?_,
      by simp only [peekBestBlock, hsame.bestBlock]⟩, ⟨rfl, rfl, hcoins⟩,
      fun h => ⟨h.1.of_same hsame, hok h.2⟩⟩
    by_cases hs : s' = s
    · subst hs
      simp only [peekBestAnchor, update_self, hnull, if_true, hsame.bestAnchor, hans]
      split_ifs <;> rfl
    · simp only [peekBestAnchor, update_of_ne hs, hsame.bestAnchor]
  · rw [if_neg hnull, peekBestAnchor, if_neg hnull]
    exact AnchorRead.refl

theorem getBestAnchor_spec (v : CCoinsView T) (s : ShieldedType) :
    AnchorRead v (v.peekBestAnchor s) (v.getBestAnchor s) := by
  induction v with
  | db d => exact AnchorRead.refl
  | cache c base ih => exact fetchBestAnchor_spec ih

theorem fetchBestBlock_spec {c : CCoinsViewCache T} {base : CCoinsView T}
    {read : Uint256 × CCoinsView T} (hread : AnchorRead base base.peekBestBlock read) :
    AnchorRead (cache c base) (cache c base).peekBestBlock
      ((c.fetchBestBlock base read).1,
        cache (c.fetchBestBlock base read).2.1 (c.fetchBestBlock base read).2.2) := by
  obtain ⟨hans, hsame, hcoins, hok⟩ := hread
  unfold CCoinsViewCache.fetchBestBlock
  by_cases hnull : c.hashBlock = 0
  · rw [if_pos hnull, peekBestBlock, if_pos hnull]
    refine ⟨hans, ⟨fun s' rt' => by simp only [peekAnchor, hsame.anchor],
      fun s' => by simp only [peekBestAnchor, hsame.bestAnchor], ?_⟩, ⟨rfl, rfl, hcoins⟩,
      fun h => ⟨h.1.of_same hsame, hok h.2⟩⟩
    simp only [peekBestBlock, hnull, if_true, hsame.bestBlock, hans]
    split_ifs <;> rfl
  · rw [if_neg hnull, peekBestBlock, if_neg hnull]
    exact AnchorRead.refl

theorem getBestBlock_spec (v : CCoinsView T) : AnchorRead v v.peekBestBlock v.getBestBlock := by
  induction v with
  | db d => exact AnchorRead.refl
  | cache c base ih => exact fetchBestBlock_spec ih

/-! ### The coins below -/

omit [∀ s, MerkleTree (T s)] in
theorem SameCoins.same {v v' : CCoinsView T} (h : SameCoins v v') : SameAnswers v v' := by
  induction v generalizing v' with
  | db d =>
    cases v' with
    | db d' =>
      obtain ⟨hcoins, hnull⟩ := h
      exact ⟨fun txid => by rw [peek, hcoins, peek], fun s nf => by
        rw [peekNullifier, hnull, peekNullifier], fun _ ht => ht⟩
    | cache => exact h.elim
  | cache c base ih =>
    cases v' with
    | db => exact h.elim
    | cache c' base' =>
      obtain ⟨hcoins, hnull, hbase⟩ := h
      have hsame := ih hbase
      exact ⟨fun txid => by simp only [peek, hcoins, hsame.coins], fun s nf => by
        simp only [peekNullifier, hnull, hsame.nullifiers], fun txid ht => by
          simpa only [HasEntry, hcoins] using ht⟩

omit [∀ s, MerkleTree (T s)] in
theorem SameCoins.wf {v v' : CCoinsView T} (h : SameCoins v v') (hv : v.WF) : v'.WF := by
  induction v generalizing v' with
  | db d =>
    cases v' with
    | db d' => trivial
    | cache => exact h.elim
  | cache c base ih =>
    cases v' with
    | db => exact h.elim
    | cache c' base' =>
      obtain ⟨hcoins, hnull, hbase⟩ := h
      have hc := hv.1.of_same hbase.same
      exact ⟨⟨fun txid e he => hc.coins txid e (hcoins ▸ he), fun s nf e he =>
        hc.nullifiers s nf e (hnull ▸ he)⟩, ih hbase hv.2⟩

/-! ### The anchors above -/

/-- The anchors and the hashes of the views are the same, cache by cache. -/
def SameShields : CCoinsView T → CCoinsView T → Prop
  | .db d, .db d' => d'.anchors = d.anchors ∧ d'.bestAnchor = d.bestAnchor ∧ d'.bestBlock = d.bestBlock
  | .cache c base, .cache c' base' =>
    c'.cacheAnchors = c.cacheAnchors ∧ c'.hashAnchor = c.hashAnchor ∧ c'.hashBlock = c.hashBlock ∧
      SameShields base base'
  | _, _ => False

omit [∀ s, MerkleTree (T s)] in
theorem SameShields.refl (v : CCoinsView T) : SameShields v v := by
  induction v with
  | db d => exact ⟨rfl, rfl, rfl⟩
  | cache c base ih => exact ⟨rfl, rfl, rfl, ih⟩

theorem SameShields.same {v v' : CCoinsView T} (h : SameShields v v') : SameAnchors v v' := by
  induction v generalizing v' with
  | db d =>
    cases v' with
    | db d' =>
      obtain ⟨hanchors, hbest, hblock⟩ := h
      exact ⟨fun s rt => by rw [peekAnchor, hanchors, peekAnchor], fun s => by
        rw [peekBestAnchor, hbest, peekBestAnchor], by rw [peekBestBlock, hblock, peekBestBlock]⟩
    | cache => exact h.elim
  | cache c base ih =>
    cases v' with
    | db => exact h.elim
    | cache c' base' =>
      obtain ⟨hanchors, hbest, hblock, hbase⟩ := h
      have hsame := ih hbase
      exact ⟨fun s rt => by simp only [peekAnchor, hanchors, hsame.anchor], fun s => by
        simp only [peekBestAnchor, hbest, hsame.bestAnchor], by
        simp only [peekBestBlock, hblock, hsame.bestBlock]⟩

theorem SameShields.ok {v v' : CCoinsView T} (h : SameShields v v') (hv : v.AnchorsOk) :
    v'.AnchorsOk := by
  induction v generalizing v' with
  | db d =>
    cases v' with
    | db d' => exact fun s => ⟨(hv s).1, fun rt tree htree => (hv s).2 rt tree (h.1 ▸ htree)⟩
    | cache => exact h.elim
  | cache c base ih =>
    cases v' with
    | db => exact h.elim
    | cache c' base' =>
      obtain ⟨hanchors, -, -, hbase⟩ := h
      exact ⟨fun s rt e he => (hv.1.of_same hbase.same) s rt e (hanchors ▸ he), ih hbase hv.2⟩

omit [∀ s, MerkleTree (T s)] in
theorem getCoins_sameShields (v : CCoinsView T) (txid : Uint256) :
    SameShields v (v.getCoins txid).2 := by
  induction v with
  | db d => exact SameShields.refl _
  | cache c base ih =>
    unfold getCoins CCoinsViewCache.fetchCoins
    cases hc : c.cacheCoins.lookup txid with
    | some e => exact SameShields.refl _
    | none =>
      rcases hread : base.getCoins txid with ⟨_ | tmp, base'⟩ <;> rw [hread] at ih <;>
        exact ⟨rfl, rfl, rfl, ih⟩

omit [∀ s, MerkleTree (T s)] in
theorem getNullifier_sameShields (v : CCoinsView T) (s : ShieldedType) (nf : Uint256) :
    SameShields v (v.getNullifier s nf).2 := by
  induction v with
  | db d => exact SameShields.refl _
  | cache c base ih =>
    unfold getNullifier CCoinsViewCache.fetchNullifier
    cases hc : (c.cacheNullifiers s).lookup nf with
    | some e => exact SameShields.refl _
    | none => exact ⟨rfl, rfl, rfl, ih⟩

end CCoinsView

namespace Tower

open CCoinsView

omit [∀ s, MerkleTree (T s)] in
theorem modifyCoins_sameShields (t : Tower T) (txid : Uint256) (f : CCoins → CCoins) :
    SameShields t.view (t.modifyCoins txid f).view := by
  have hbase : SameShields t.base (t.modifierEntry txid).2 := by
    have hread := getCoins_sameShields t.base txid
    unfold modifierEntry
    cases hc : t.top.cacheCoins.lookup txid with
    | some e => exact SameShields.refl _
    | none =>
      rcases hget : t.base.getCoins txid with ⟨_ | coins, base'⟩ <;> rw [hget] at hread <;>
        exact hread
  exact ⟨rfl, rfl, rfl, hbase⟩

theorem haveInputsLoop_anchorsOk (is : List CTxIn) (t : Tower T) (h : t.view.AnchorsOk) :
    (haveInputsLoop is t).2.view.AnchorsOk := by
  induction is generalizing t with
  | nil => exact h
  | cons i is ih =>
    have hread : (t.getCoins i.prevout.hash).2.view.AnchorsOk :=
      (getCoins_sameShields t.view i.prevout.hash).ok h
    unfold haveInputsLoop
    split
    · rename_i coins t' heq
      rw [heq] at hread
      split_ifs
      · exact ih t' hread
      · exact hread
    · rename_i t' heq
      rw [heq] at hread
      exact hread

end Tower

end Komodo
