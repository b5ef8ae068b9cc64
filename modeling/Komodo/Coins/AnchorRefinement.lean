/-
# The anchors of a tower are those of one flat store

`ChainView` holds the anchors, the best anchors and the best block in one place, and
`ChainView.pushAnchor` and `popAnchor` change them there.  A tower of caches through which the same
operations go answers the same (`anchors_run`), as long as no flush forgets a hash.

A flush forgets one when the top cache does not know it yet and the cache below has a pending one:
`CCoinsViewCache::BatchWrite` takes the null hash over, where `CCoinsViewDB::BatchWrite` leaves its
own in place.  Which hashes are known depends on the reads before the flush.
-/

import Komodo.Chain.ConnectBlock
import Komodo.Coins.Anchors

namespace Komodo

open Nat Option Function

variable {T : ShieldedType → Type}

/-! ### Flushing one entry -/

/-- The entry of a parent cache after the write of a child entry. -/
def anchorWriteUpd {T : Type} (e : CAnchorsCacheEntry T) (r : Option (CAnchorsCacheEntry T)) :
    Option (CAnchorsCacheEntry T) :=
  if e.dirty then
    match r with
    | none => some { e with dirty := true }
    | some p => some (if p.entered != e.entered then { p with entered := e.entered, dirty := true } else p)
  else r

theorem batchWriteAnchor_keyLocal {T : Type} (rt : Uint256) (e : CAnchorsCacheEntry T)
    (m : CAnchorsMap T) :
    KeyLocal (fun m k => m.lookup k) anchorWriteUpd rt e m (batchWriteAnchor rt e m) := by
  unfold batchWriteAnchor anchorWriteUpd KeyLocal
  by_cases hd : e.dirty
  · simp only [hd, if_true]
    cases hlook : m.lookup rt with
    | none => exact ⟨by simp, fun k hk => AList.lookup_insert_ne hk⟩
    | some p =>
      by_cases hp : (p.entered != e.entered) = true
      · exact ⟨by simp [hp], fun k hk => by simp only [hp, if_true]; exact AList.lookup_insert_ne hk⟩
      · exact ⟨by simp [hp, hlook], fun k hk => by simp [hp]⟩
  · simp [hd]

/-- The anchor of the database after the write of a child entry, with its root. -/
def dbAnchorUpd {T : Type} [MerkleTree T] (e : CAnchorsCacheEntry T) (r : Uint256 × Option T) :
    Uint256 × Option T :=
  (r.1, if e.dirty then
    if e.entered then if r.1 = emptyRoot T then r.2 else some e.tree else none
  else r.2)

theorem dbWriteAnchor_keyLocal {T : Type} [MerkleTree T] (rt : Uint256) (e : CAnchorsCacheEntry T)
    (m : Dict Uint256 T) :
    KeyLocal (fun m k => (k, m.lookup k)) dbAnchorUpd rt e m (dbWriteAnchor rt e m) := by
  dsimp only [dbWriteAnchor, KeyLocal, dbAnchorUpd]
  split_ifs
  · exact ⟨rfl, fun _ _ => rfl⟩
  · exact ⟨by rw [AList.lookup_insert], fun k hk => by rw [AList.lookup_insert_ne hk]⟩
  · exact ⟨by rw [AList.lookup_erase], fun k hk => by rw [AList.lookup_erase_ne hk]⟩
  · exact ⟨rfl, fun _ _ => rfl⟩

theorem IsTreeOf.unique {T : Type} [MerkleTree T] {rt : Uint256} {tree tree' : T}
    (h : IsTreeOf rt tree) (h' : IsTreeOf rt tree') : tree' = tree := h.2 tree' h'.1

variable [∀ s, MerkleTree (T s)]

namespace CCoinsView

/-- One root of a flush into a cache: the new entry keeps its promises and answers what the child
answered. -/
theorem anchorWriteUpd_spec {c p : CCoinsViewCache T} {base : CCoinsView T}
    (h : CacheAnchorsOk c (cache p base)) (hp : CacheAnchorsOk p base) {s : ShieldedType}
    {rt : Uint256} {e : CAnchorsCacheEntry (T s)} (he : (c.cacheAnchors s).lookup rt = some e) :
    (∀ e', anchorWriteUpd e ((p.cacheAnchors s).lookup rt) = some e' →
        AnchorOk base s rt e' ∧ e'.answer = e.answer) ∧
      (anchorWriteUpd e ((p.cacheAnchors s).lookup rt) = none → base.peekAnchor s rt = e.answer) := by
  obtain ⟨hknown, hclean, hleft⟩ := h s rt e he
  unfold anchorWriteUpd
  by_cases hd : e.dirty
  · simp only [hd, if_true]
    cases hlook : (p.cacheAnchors s).lookup rt with
    | none =>
      refine ⟨fun e' he' => ?_, by rintro ⟨⟩⟩
      cases he'
      exact ⟨⟨hknown, fun hn => absurd rfl hn, hleft⟩, rfl⟩
    | some q =>
      obtain ⟨hknown', hclean', hleft'⟩ := hp s rt q hlook
      -- both entries have the one tree of the root
      have htree : q.tree = e.tree := hknown.unique hknown'
      refine ⟨fun e' he' => ?_, by rintro ⟨⟩⟩
      cases he'
      split_ifs with hdiff
      · exact ⟨⟨hknown', fun hn => absurd rfl hn, hleft⟩, by
          simp only [CAnchorsCacheEntry.answer, htree]⟩
      · have hentered : q.entered = e.entered := by simpa using hdiff
        exact ⟨⟨hknown', hclean', hleft'⟩, by
          simp only [CAnchorsCacheEntry.answer, htree, hentered]⟩
  · -- a clean entry is what the parent answers
    simp only [hd, Bool.false_eq_true, if_false]
    have hanswer := hclean hd
    cases hlook : (p.cacheAnchors s).lookup rt with
    | none =>
      rw [peekAnchor_cache_none hlook] at hanswer
      exact ⟨by rintro _ ⟨⟩, fun _ => hanswer⟩
    | some q =>
      rw [peekAnchor_cache_some hlook] at hanswer
      refine ⟨fun e' he' => ?_, by rintro ⟨⟩⟩
      cases he'
      exact ⟨hp s rt q hlook, hanswer⟩

/-- One root of a flush into the database. -/
theorem dbAnchorUpd_spec {c : CCoinsViewCache T} {d : CCoinsViewDB T} (h : CacheAnchorsOk c (.db d))
    (hd : (db d).AnchorsOk) {s : ShieldedType} {rt : Uint256} {e : CAnchorsCacheEntry (T s)}
    (he : (c.cacheAnchors s).lookup rt = some e) :
    (∀ tree, (dbAnchorUpd e (rt, (d.anchors s).lookup rt)).2 = some tree → IsTreeOf rt tree) ∧
      (if rt = emptyRoot (T s) then some MerkleTree.empty
        else (dbAnchorUpd e (rt, (d.anchors s).lookup rt)).2) = e.answer := by
  obtain ⟨hknown, hclean, hleft⟩ := h s rt e he
  unfold peekAnchor at hclean
  unfold dbAnchorUpd CAnchorsCacheEntry.answer at *
  by_cases hdirty : e.dirty
  · simp only [hdirty, if_true]
    by_cases hentered : e.entered
    · simp only [hentered, if_true]
      split_ifs with hempty
      · refine ⟨(hd s).2 rt, ?_⟩
        subst hempty
        rw [hknown.unique (hd s).1]
      · refine ⟨fun tree htree => ?_, rfl⟩
        cases htree
        exact hknown
    · simp only [hentered, Bool.false_eq_true, if_false, if_neg (hleft hentered)]
      exact ⟨by rintro _ ⟨⟩, trivial⟩
  · simp only [hdirty, Bool.false_eq_true, if_false]
    exact ⟨(hd s).2 rt, hclean hdirty⟩

/-- What a view answers, and its promises, after the anchors of a child cache were written into it. -/
structure AnchorWriteSpec (c : CCoinsViewCache T) (base base' : CCoinsView T) : Prop where
  ok : base'.AnchorsOk
  anchor : ∀ s rt, base'.peekAnchor s rt = (cache c base).peekAnchor s rt

/-- A flush into a cache. -/
theorem cache_writeAnchors_spec {c p p' : CCoinsViewCache T} {base : CCoinsView T}
    (h : CacheAnchorsOk c (cache p base)) (hp : (cache p base).AnchorsOk)
    (hp' : p'.cacheAnchors = fun s => sweep batchWriteAnchor (c.cacheAnchors s) (p.cacheAnchors s)) :
    AnchorWriteSpec c (cache p base) (cache p' base) := by
  have hlook : ∀ s rt, (p'.cacheAnchors s).lookup rt =
      swept anchorWriteUpd ((c.cacheAnchors s).lookup rt) ((p.cacheAnchors s).lookup rt) := by
    intro s rt
    rw [hp']
    exact sweep_look batchWriteAnchor_keyLocal (c.cacheAnchors s) (p.cacheAnchors s) rt
  refine ⟨⟨fun s rt e' he' => ?_, hp.2⟩, fun s rt => ?_⟩
  · rw [hlook] at he'
    cases hc : (c.cacheAnchors s).lookup rt with
    | none =>
      rw [hc, swept_none] at he'
      exact hp.1 s rt e' he'
    | some e =>
      rw [hc, swept_some] at he'
      exact ((anchorWriteUpd_spec h hp.1 hc).1 e' he').1
  · have hentry := hlook s rt
    cases hc : (c.cacheAnchors s).lookup rt with
    | none =>
      rw [hc, swept_none] at hentry
      rw [peekAnchor_cache_none hc]
      simp only [peekAnchor, hentry]
    | some e =>
      rw [hc, swept_some] at hentry
      have hspec := anchorWriteUpd_spec h hp.1 hc
      rw [← hentry] at hspec
      rw [peekAnchor_cache_some hc]
      cases hnew : (p'.cacheAnchors s).lookup rt with
      | none =>
        rw [peekAnchor_cache_none hnew]
        exact hspec.2 hnew
      | some e' =>
        rw [peekAnchor_cache_some hnew]
        exact (hspec.1 e' hnew).2

/-- A flush into the database. -/
theorem db_writeAnchors_spec {c : CCoinsViewCache T} {d : CCoinsViewDB T}
    (h : CacheAnchorsOk c (.db d)) (hd : (db d).AnchorsOk) :
    AnchorWriteSpec c (.db d) (.db (d.batchWrite c)) := by
  have hlook : ∀ s rt, ((d.batchWrite c).anchors s).lookup rt =
      (swept dbAnchorUpd ((c.cacheAnchors s).lookup rt) (rt, (d.anchors s).lookup rt)).2 := fun s rt =>
    congrArg Prod.snd (sweep_look dbWriteAnchor_keyLocal (c.cacheAnchors s) (d.anchors s) rt)
  refine ⟨fun s => ⟨(hd s).1, fun rt tree htree => ?_⟩, fun s rt => ?_⟩
  · rw [hlook] at htree
    cases hc : (c.cacheAnchors s).lookup rt with
    | none =>
      rw [hc, swept_none] at htree
      exact (hd s).2 rt tree htree
    | some e =>
      rw [hc, swept_some] at htree
      exact (dbAnchorUpd_spec h hd hc).1 tree htree
  · cases hc : (c.cacheAnchors s).lookup rt with
    | none =>
      rw [peekAnchor_cache_none hc]
      simp only [peekAnchor, hlook, hc, swept_none]
    | some e =>
      rw [peekAnchor_cache_some hc]
      simp only [peekAnchor, hlook, hc, swept_some]
      exact (dbAnchorUpd_spec h hd hc).2

end CCoinsView

namespace Tower

open CCoinsView

/-- A flush forgets no hash: the top cache knows its hashes, or the cache below has no other one
than the view below that. -/
def FlushKeeps (t : Tower T) : Prop :=
  match t.base with
  | .db _ => True
  | .cache c base =>
    (t.top.hashBlock ≠ 0 ∨ c.hashBlock = 0 ∨ c.hashBlock = base.peekBestBlock) ∧
      ∀ s, t.top.hashAnchor s ≠ 0 ∨ c.hashAnchor s = 0 ∨ c.hashAnchor s = base.peekBestAnchor s

theorem ite_null_iff {top h b : Uint256} :
    (if top = 0 then b else top) = (if top = 0 then (if h = 0 then b else h) else top) ↔
      top ≠ 0 ∨ h = 0 ∨ h = b := by
  by_cases htop : top = 0
  · by_cases hh : h = 0
    · simp [htop, hh]
    · simp [htop, hh, eq_comm]
  · simp [htop]

/-- After a flush the top cache answers what the view below answers. -/
theorem flush_view {t t' : Tower T} (h : t.flush = some t') : SameAnchors t'.base t'.view := by
  obtain ⟨top, base⟩ := t
  simp only [flush, map_eq_some_iff] at h
  obtain ⟨base', hbase, rfl⟩ := h
  refine ⟨fun s rt => peekAnchor_cache_none (by simp), fun s => ?_, ?_⟩
  all_goals
    cases base with
    | db d =>
      cases hbase
      simp only [view, peekBestAnchor, peekBestBlock, CCoinsViewDB.batchWrite]
      split_ifs <;> rfl
    | cache p base =>
      simp only [batchWrite, CCoinsViewCache.batchWrite, map_map, map_eq_some_iff] at hbase
      obtain ⟨m, -, rfl⟩ := hbase
      simp only [view, peekBestAnchor, peekBestBlock, comp_apply]
      split_ifs <;> rfl

/-- **A flush changes no anchor, and no hash exactly when it forgets none.** -/
theorem flush_anchors (t : Tower T) (hwf : t.view.WF) (hok : t.view.AnchorsOk) :
    ∃ t', t.flush = some t' ∧ t'.view.WF ∧ t'.view.AnchorsOk ∧
      (∀ s rt, t'.base.peekAnchor s rt = t.view.peekAnchor s rt) ∧
      (SameAnchors t.view t'.base ↔ t.FlushKeeps) := by
  obtain ⟨t', ht', hwf', -, -⟩ := flush_spec t hwf
  obtain ⟨top, base⟩ := t
  refine ⟨t', ht', hwf', ?_⟩
  cases base with
  | db d =>
    cases ht'
    obtain ⟨hbase, hanchor⟩ := db_writeAnchors_spec hok.1 hok.2
    refine ⟨⟨fun s rt e he => by simp at he, hbase⟩, hanchor,
      iff_of_true ⟨hanchor, fun s => ?_, ?_⟩ trivial⟩
    · simp only [view, peekBestAnchor, CCoinsViewDB.batchWrite]
      split_ifs <;> rfl
    · simp only [view, peekBestBlock, CCoinsViewDB.batchWrite]
      split_ifs <;> rfl
  | cache p base =>
    simp only [flush, batchWrite, CCoinsViewCache.batchWrite, map_map, map_eq_some_iff] at ht'
    obtain ⟨m, -, rfl⟩ := ht'
    let written : CCoinsViewCache T := {
      cacheCoins := m
      cacheAnchors := fun s => sweep batchWriteAnchor (top.cacheAnchors s) (p.cacheAnchors s)
      cacheNullifiers := fun s =>
        sweep batchWriteNullifier (top.cacheNullifiers s) (p.cacheNullifiers s)
      hashBlock := top.hashBlock
      hashAnchor := top.hashAnchor }
    have hspec : AnchorWriteSpec top (cache p base) (cache written base) :=
      cache_writeAnchors_spec hok.1 hok.2 rfl
    obtain ⟨hbase, hanchor⟩ := hspec
    have hhashes : (SameAnchors (cache top (cache p base)) (cache written base)) ↔
        (cache written base).peekBestBlock = (cache top (cache p base)).peekBestBlock ∧
          ∀ s, (cache written base).peekBestAnchor s = (cache top (cache p base)).peekBestAnchor s :=
      ⟨fun h => ⟨h.bestBlock, h.bestAnchor⟩, fun h => ⟨hanchor, h.2, h.1⟩⟩
    refine ⟨⟨fun s rt e he => by simp at he, hbase⟩, hanchor, hhashes.trans ?_⟩
    simp only [peekBestBlock, peekBestAnchor, FlushKeeps, written, ite_null_iff]

/-! ### The flat store -/

/-- The caches keep their promises. -/
def InOrder (t : Tower T) : Prop := t.view.WF ∧ t.view.AnchorsOk

/-- The tower answers the anchors, best anchors and best block of `v`. -/
structure Shows (t : Tower T) (v : ChainView T) : Prop where
  anchor : ∀ s rt, t.view.peekAnchor s rt = v.anchors s rt
  bestAnchor : ∀ s, t.view.peekBestAnchor s = v.bestAnchor s
  bestBlock : t.view.peekBestBlock = v.bestBlock

theorem Shows.of_same {t t' : Tower T} {v : ChainView T} (h : t.Shows v)
    (hs : SameAnchors t.view t'.view) : t'.Shows v :=
  ⟨fun s rt => (hs.anchor s rt).trans (h.anchor s rt),
    fun s => (hs.bestAnchor s).trans (h.bestAnchor s), hs.bestBlock.trans h.bestBlock⟩

variable {t : Tower T}

theorem read_spec {α : Type} {answer : α} {r : α × Tower T}
    (h : AnchorRead t.view answer (r.1, r.2.view)) (ht : t.InOrder) :
    r.2.InOrder ∧ ∀ v, t.Shows v → r.2.Shows v :=
  ⟨⟨h.coins.wf ht.1, h.ok ht.2⟩, fun _ hv => hv.of_same h.same⟩

theorem getAnchorAt_read (t : Tower T) (s : ShieldedType) (rt : Uint256) :
    AnchorRead t.view (t.view.peekAnchor s rt) ((t.getAnchorAt s rt).1, (t.getAnchorAt s rt).2.view) :=
  getAnchorAt_spec t.view s rt

theorem getBestAnchor_read (t : Tower T) (s : ShieldedType) :
    AnchorRead t.view (t.view.peekBestAnchor s) ((t.getBestAnchor s).1, (t.getBestAnchor s).2.view) :=
  getBestAnchor_spec t.view s

theorem getBestBlock_read (t : Tower T) :
    AnchorRead t.view t.view.peekBestBlock (t.getBestBlock.1, t.getBestBlock.2.view) :=
  getBestBlock_spec t.view

variable {s : ShieldedType}

theorem getAnchorAt_entry {rt : Uint256} {tree : T s}
    (h : (t.getAnchorAt s rt).1 = some tree) :
    ∃ e, ((t.getAnchorAt s rt).2.top.cacheAnchors s).lookup rt = some e := by
  unfold getAnchorAt CCoinsViewCache.fetchAnchor at h ⊢
  cases hc : (t.top.cacheAnchors s).lookup rt with
  | some e => exact ⟨e, by simp only [hc]⟩
  | none =>
    simp only [hc] at h ⊢
    rcases hread : t.base.getAnchorAt s rt with ⟨r, base'⟩
    rw [hread] at h
    cases r with
    | none => cases h
    | some tree => exact ⟨_, lookup_insert_self ..⟩

/-- A new entry and a new best anchor. -/
theorem setAnchor_spec (ht : t.InOrder) {rt best : Uint256}
    {e : CAnchorsCacheEntry (T s)} (he : AnchorOk t.base s rt e) (hbest : best ≠ 0) :
    (t.setAnchor s rt e best).InOrder ∧ ∀ v, t.Shows v →
      (t.setAnchor s rt e best).Shows { v with
        anchors := Function.update v.anchors s (Function.update (v.anchors s) rt e.answer)
        bestAnchor := Function.update v.bestAnchor s best } := by
  refine ⟨⟨⟨⟨ht.1.1.coins, ht.1.1.nullifiers⟩, ht.1.2⟩, ht.2.1.insert he rfl, ht.2.2⟩,
    fun v hv => ⟨fun s' rt' => ?_, fun s' => ?_, hv.bestBlock⟩⟩
  · have hold := hv.anchor s' rt'
    by_cases heq : s' = s ∧ rt' = rt
    · obtain ⟨rfl, rfl⟩ := heq
      dsimp only
      rw [update_self, update_self]
      exact peekAnchor_cache_some (lookup_insert_self ..)
    · have hnew : update v.anchors s (update (v.anchors s) rt e.answer) s' rt' =
          v.anchors s' rt' := by
        by_cases hs : s' = s
        · subst hs
          rw [update_self, update_of_ne fun hrt => heq ⟨rfl, hrt⟩]
        · rw [update_of_ne hs]
      dsimp only
      rw [hnew, ← hold]
      simp only [view, setAnchor, peekAnchor, lookup_insert_other _ _ _ _ heq]
  · by_cases hs : s' = s
    · subst hs
      simp only [view, setAnchor, peekBestAnchor, update_self, if_neg hbest]
    · simp only [view, setAnchor, peekBestAnchor, update_of_ne hs]
      exact hv.bestAnchor s'

/-- `PushAnchor` of a tree that alone has its root, which is not null. -/
theorem pushAnchor_spec (ht : t.InOrder) {tree : T s}
    (hroot : MerkleTree.root tree ≠ 0) (htree : IsTreeOf (MerkleTree.root tree) tree) :
    (t.pushAnchor s tree).InOrder ∧
      ∀ v, t.Shows v → (t.pushAnchor s tree).Shows (v.pushAnchor s tree) := by
  have hread := getBestAnchor_read t s
  obtain ⟨horder, hshows⟩ := read_spec hread ht
  have hbest : ∀ v, t.Shows v → (t.getBestAnchor s).1 = v.bestAnchor s :=
    fun v hv => hread.answered.trans (hv.bestAnchor s)
  unfold pushAnchor ChainView.pushAnchor
  rcases hcur : t.getBestAnchor s with ⟨currentRoot, t'⟩
  rw [hcur] at horder hshows hbest
  dsimp only at horder hshows hbest ⊢
  by_cases heq : currentRoot = MerkleTree.root tree
  · rw [if_pos heq]
    refine ⟨horder, fun v hv => ?_⟩
    rw [if_pos ((hbest v hv).symm.trans heq)]
    exact hshows v hv
  · rw [if_neg heq]
    obtain ⟨horder', hshows'⟩ := setAnchor_spec horder (e := { entered := true, tree, dirty := true })
      ⟨htree, fun hn => absurd rfl hn, fun hn => absurd rfl hn⟩ hroot
    refine ⟨horder', fun v hv => ?_⟩
    rw [if_neg fun h => heq ((hbest v hv).trans h)]
    exact hshows' v (hshows v hv)

/-- `PopAnchor` to a root that is not null; the empty tree is not taken back. -/
theorem popAnchor_spec (ht : t.InOrder) {newrt : Uint256}
    (hnull : newrt ≠ 0)
    (hempty : t.view.peekBestAnchor s = emptyRoot (T s) → newrt = emptyRoot (T s)) :
    (∀ t', t.popAnchor s newrt = some t' → t'.InOrder) ∧
      ∀ v, t.Shows v → Option.Rel Shows (t.popAnchor s newrt) (v.popAnchor s newrt) := by
  have hread := getBestAnchor_read t s
  obtain ⟨horder, hshows⟩ := read_spec hread ht
  have hbest : ∀ v, t.Shows v → (t.getBestAnchor s).1 = v.bestAnchor s :=
    fun v hv => hread.answered.trans (hv.bestAnchor s)
  rw [← hread.answered] at hempty
  unfold popAnchor ChainView.popAnchor
  rcases hcur : t.getBestAnchor s with ⟨currentRoot, t₁⟩
  rw [hcur] at horder hshows hbest hempty
  dsimp only at horder hshows hbest hempty ⊢
  by_cases heq : currentRoot = newrt
  · rw [if_pos heq]
    refine ⟨fun t' ht' => some.inj ht' ▸ horder, fun v hv => ?_⟩
    rw [if_pos ((hbest v hv).symm.trans heq)]
    exact Option.Rel.some (hshows v hv)
  · rw [if_neg heq]
    have hanchor := getAnchorAt_read t₁ s currentRoot
    obtain ⟨horder₂, hshows₂⟩ := read_spec hanchor horder
    have hentry := @getAnchorAt_entry T _ t₁ s currentRoot
    have hfound : ∀ v, t.Shows v → (t₁.getAnchorAt s currentRoot).1 = v.anchors s (v.bestAnchor s) := by
      intro v hv
      rw [← hbest v hv]
      exact hanchor.answered.trans ((hshows v hv).anchor s currentRoot)
    rcases hget : t₁.getAnchorAt s currentRoot with ⟨_ | tree, t₂⟩ <;>
      rw [hget] at horder₂ hshows₂ hfound hentry
    · refine ⟨nofun, fun v hv => ?_⟩
      rw [if_neg fun h => heq ((hbest v hv).trans h), ← hfound v hv]
      exact Option.Rel.none
    · obtain ⟨e, he⟩ := hentry rfl
      dsimp only at horder₂ hshows₂ hfound he ⊢
      rw [he, getD_some]
      obtain ⟨horder', hshows'⟩ := setAnchor_spec horder₂ (e := { e with entered := false, dirty := true })
        ⟨(horder₂.2.1 s currentRoot e he).known, fun hn => absurd rfl hn,
          fun _ h => heq (h.trans (hempty h).symm)⟩ hnull
      refine ⟨fun t' ht' => some.inj ht' ▸ horder', fun v hv => ?_⟩
      rw [if_neg fun h => heq ((hbest v hv).trans h), ← hfound v hv, ← hbest v hv]
      exact Option.Rel.some (hshows' v (hshows₂ v (hshows v hv)))

/-- `SetBestBlock`. -/
theorem setBestBlock_spec (ht : t.InOrder) {hash : Uint256} (hnull : hash ≠ 0) :
    (t.setBestBlock hash).InOrder ∧
      ∀ v, t.Shows v → (t.setBestBlock hash).Shows { v with bestBlock := hash } :=
  ⟨⟨⟨⟨ht.1.1.coins, ht.1.1.nullifiers⟩, ht.1.2⟩, ht.2⟩, fun _ hv =>
    ⟨hv.anchor, hv.bestAnchor, if_neg hnull⟩⟩

end Tower

/-! ### Runs -/

/-- The operations on the anchors and the best block of the top cache. -/
inductive AnchorOp (T : ShieldedType → Type)
  | pushAnchor (s : ShieldedType) (tree : T s)
  | popAnchor (s : ShieldedType) (newrt : Uint256)
  | getAnchorAt (s : ShieldedType) (rt : Uint256)
  | getBestAnchor (s : ShieldedType)
  | getBestBlock
  | setBestBlock (hash : Uint256)
  | flush

/-- One operation on the flat store: the reads and the flush do nothing. -/
def ChainView.anchorStep (v : ChainView T) : AnchorOp T → Option (ChainView T)
  | .pushAnchor s tree => some (v.pushAnchor s tree)
  | .popAnchor s newrt => v.popAnchor s newrt
  | .setBestBlock hash => some { v with bestBlock := hash }
  | _ => some v

/-- Operations in order on the flat store. -/
def ChainView.anchorRun (v : ChainView T) : List (AnchorOp T) → Option (ChainView T)
  | [] => some v
  | op :: ops => (v.anchorStep op).bind fun v' => v'.anchorRun ops

namespace Tower

open CCoinsView

/-- One operation on the top cache; `none` is a failed assertion. -/
def anchorStep (t : Tower T) : AnchorOp T → Option (Tower T)
  | .pushAnchor s tree => some (t.pushAnchor s tree)
  | .popAnchor s newrt => t.popAnchor s newrt
  | .getAnchorAt s rt => some (t.getAnchorAt s rt).2
  | .getBestAnchor s => some (t.getBestAnchor s).2
  | .getBestBlock => some t.getBestBlock.2
  | .setBestBlock hash => some (t.setBestBlock hash)
  | .flush => t.flush

/-- Operations in order on the top cache. -/
def anchorRun (t : Tower T) : List (AnchorOp T) → Option (Tower T)
  | [] => some t
  | op :: ops => (t.anchorStep op).bind fun t' => t'.anchorRun ops

/-- The trees pushed are the only ones of their roots, no hash written is null, and the empty tree is
not taken back. -/
def Proper (t : Tower T) : AnchorOp T → Prop
  | .pushAnchor _ tree => MerkleTree.root tree ≠ 0 ∧ IsTreeOf (MerkleTree.root tree) tree
  | .popAnchor s newrt =>
    newrt ≠ 0 ∧ (t.view.peekBestAnchor s = emptyRoot (T s) → newrt = emptyRoot (T s))
  | .setBestBlock hash => hash ≠ 0
  | _ => True

/-- A proper operation; a flush forgets no hash. -/
def Meets (t : Tower T) (op : AnchorOp T) : Prop :=
  t.Proper op ∧ (op = .flush → t.FlushKeeps)

/-- Every step of a run meets the condition. -/
def MeetsAll (t : Tower T) : List (AnchorOp T) → Prop
  | [] => True
  | op :: ops => t.Meets op ∧ ∀ t', t.anchorStep op = some t' → t'.MeetsAll ops

/-- The towers a program can build over a database whose anchors are filed under their roots: by
new caches over a tower, operations on the coins or the anchors of the top cache, and the end of the
top cache.  A flush may forget hashes here. -/
inductive Built : Tower T → Prop
  | base (d : CCoinsViewDB T) : (CCoinsView.db d).AnchorsOk → Built ⟨{}, .db d⟩
  | push {t : Tower T} : Built t → Built ⟨{}, t.view⟩
  | coins {t t' : Tower T} (op : ViewOp) : Built t → t.step op = some t' → Built t'
  | anchors {t t' : Tower T} (op : AnchorOp T) :
      Built t → t.Proper op → t.anchorStep op = some t' → Built t'
  | pop {c c' : CCoinsViewCache T} {base : CCoinsView T} :
      Built ⟨c, .cache c' base⟩ → Built ⟨c', base⟩

/-- The flat store that the tower stands for. -/
def chainView (t : Tower T) : ChainView T where
  toFlatView := t.flat
  anchors s rt := (t.getAnchorAt s rt).1
  bestAnchor s := (t.getBestAnchor s).1
  bestBlock := t.getBestBlock.1

/-- The tower and the flat store answer the same to the two anchor lookups, `GetBestAnchor` and
`GetBestBlock`. -/
structure Answers (t : Tower T) (v : ChainView T) : Prop where
  anchor : ∀ s rt, (t.getAnchorAt s rt).1 = v.anchors s rt
  bestAnchor : ∀ s, (t.getBestAnchor s).1 = v.bestAnchor s
  bestBlock : t.getBestBlock.1 = v.bestBlock

variable {t : Tower T}

theorem answers_iff {v : ChainView T} : t.Answers v ↔ t.Shows v := by
  have hanchor : ∀ s rt, (t.getAnchorAt s rt).1 = t.view.peekAnchor s rt :=
    fun s rt => (getAnchorAt_read t s rt).answered
  have hbest : ∀ s, (t.getBestAnchor s).1 = t.view.peekBestAnchor s :=
    fun s => (getBestAnchor_read t s).answered
  have hblock : t.getBestBlock.1 = t.view.peekBestBlock := (getBestBlock_read t).answered
  constructor
  · rintro ⟨h₁, h₂, h₃⟩
    exact ⟨fun s rt => (hanchor s rt).symm.trans (h₁ s rt), fun s => (hbest s).symm.trans (h₂ s),
      hblock.symm.trans h₃⟩
  · rintro ⟨h₁, h₂, h₃⟩
    exact ⟨fun s rt => (hanchor s rt).trans (h₁ s rt), fun s => (hbest s).trans (h₂ s),
      hblock.trans h₃⟩

/-- The step lemma: a proper operation keeps the caches in order, and the flat store is followed
unless the step is a flush that forgets a hash. -/
theorem anchorStep_spec (ht : t.InOrder) {op : AnchorOp T} (hop : t.Proper op) :
    (∀ t', t.anchorStep op = some t' → t'.InOrder) ∧
      ((op = .flush → t.FlushKeeps) →
        ∀ v, t.Shows v → Option.Rel Shows (t.anchorStep op) (v.anchorStep op)) := by
  -- the operations that cannot fail
  have total : ∀ {t' : Tower T} {f : ChainView T → ChainView T},
      (t'.InOrder ∧ ∀ v, t.Shows v → t'.Shows (f v)) →
      (∀ t'', some t' = some t'' → t''.InOrder) ∧
        ((op = .flush → t.FlushKeeps) → ∀ v, t.Shows v → Option.Rel Shows (some t') (some (f v))) :=
    fun h => ⟨fun t'' ht'' => some.inj ht'' ▸ h.1, fun _ v hv => Option.Rel.some (h.2 v hv)⟩
  cases op with
  | pushAnchor s tree => exact total (pushAnchor_spec ht hop.1 hop.2)
  | popAnchor s newrt =>
    obtain ⟨horder, hshows⟩ := popAnchor_spec ht hop.1 hop.2
    exact ⟨horder, fun _ => hshows⟩
  | getAnchorAt s rt => exact total (f := id) (read_spec (getAnchorAt_read t s rt) ht)
  | getBestAnchor s => exact total (f := id) (read_spec (getBestAnchor_read t s) ht)
  | getBestBlock => exact total (f := id) (read_spec (getBestBlock_read t) ht)
  | setBestBlock hash => exact total (setBestBlock_spec ht hop)
  | flush =>
    obtain ⟨t', ht', hwf, hok, -, hkeeps⟩ := flush_anchors t ht.1 ht.2
    refine ⟨fun t'' ht'' => ?_, fun h v hv => ?_⟩
    · obtain rfl := some.inj (ht'.symm.trans ht'')
      exact ⟨hwf, hok⟩
    · have hsame := hkeeps.mpr (h rfl)
      have hview := flush_view ht'
      simp only [anchorStep, ChainView.anchorStep, ht']
      refine Option.Rel.some ⟨fun s rt => ?_, fun s => ?_, ?_⟩
      · exact (hview.anchor s rt).trans ((hsame.anchor s rt).trans (hv.anchor s rt))
      · exact (hview.bestAnchor s).trans ((hsame.bestAnchor s).trans (hv.bestAnchor s))
      · exact hview.bestBlock.trans (hsame.bestBlock.trans hv.bestBlock)

/-- An operation on the coins leaves the anchors of every cache in order. -/
theorem step_anchorsOk {t t' : Tower T} (ht : t.InOrder) {op : ViewOp} (h : t.step op = some t') :
    t'.view.AnchorsOk := by
  cases op with
  | getCoins txid =>
    cases h
    exact (getCoins_sameShields t.view txid).ok ht.2
  | haveInputs tx =>
    cases h
    unfold haveInputs
    split_ifs
    · exact ht.2
    · exact haveInputsLoop_anchorsOk tx.vin t ht.2
  | getNullifier s nf =>
    cases h
    exact (getNullifier_sameShields t.view s nf).ok ht.2
  | modifyCoins txid f =>
    cases h
    exact (modifyCoins_sameShields t txid f).ok ht.2
  | setNullifiers tx spent =>
    cases h
    exact ⟨fun s rt e he => ht.2.1 s rt e he, ht.2.2⟩
  | flush =>
    obtain ⟨t'', ht'', -, hok, -⟩ := flush_anchors t ht.1 ht.2
    obtain rfl := some.inj (ht''.symm.trans h)
    exact hok

theorem Built.inOrder (h : t.Built) : t.InOrder := by
  induction h with
  | base d hd => exact ⟨⟨cacheOk_empty _ _ _, trivial⟩, fun s rt e he => by simp at he, hd⟩
  | push _ ih =>
    exact ⟨⟨cacheOk_empty _ _ _, ih.1⟩, fun s rt e he => by simp at he, ih.2⟩
  | coins op _ hstep ih =>
    obtain ⟨t'', ht'', hwf, -⟩ := step_spec _ ih.1 op
    obtain rfl : t'' = _ := some.inj (ht''.symm.trans hstep)
    exact ⟨hwf, step_anchorsOk ih hstep⟩
  | anchors op _ hproper hstep ih => exact (anchorStep_spec ih hproper).1 _ hstep
  | pop _ ih => exact ⟨ih.1.2, ih.2.2⟩

/-- The run lemma, from any tower in order and any flat store that it shows. -/
theorem anchorRun_spec (ops : List (AnchorOp T)) {v : ChainView T} (ht : t.InOrder)
    (hv : t.Shows v) (hops : t.MeetsAll ops) :
    Option.Rel (fun t' v' => t'.InOrder ∧ t'.Shows v') (t.anchorRun ops) (v.anchorRun ops) := by
  induction ops generalizing t v with
  | nil => exact Option.Rel.some ⟨ht, hv⟩
  | cons op ops ih =>
    obtain ⟨⟨hproper, hkeeps⟩, hrest⟩ := hops
    obtain ⟨horder, hshows⟩ := anchorStep_spec ht hproper
    have hstep := hshows hkeeps v hv
    unfold anchorRun ChainView.anchorRun
    cases ht' : t.anchorStep op with
    | none =>
      rw [ht'] at hstep
      cases hv' : v.anchorStep op with
      | none => exact Option.Rel.none
      | some v' => rw [hv'] at hstep; cases hstep
    | some t' =>
      rw [ht'] at hstep
      cases hv' : v.anchorStep op with
      | none => rw [hv'] at hstep; cases hstep
      | some v' =>
        rw [hv'] at hstep
        cases hstep with
        | some h => exact ih (horder t' ht') h (hrest t' ht')

/-- **A tower answers the anchors and hashes of one flat store** after any run whose flushes forget no
hash, and the view below the top cache then keeps its answers over a flush, but for the pending
changes, exactly when that flush forgets none. -/
theorem anchors_run (t : Tower T) (ht : t.Built) (ops : List (AnchorOp T)) (hops : t.MeetsAll ops) :
    Option.Rel Answers (t.anchorRun ops) (t.chainView.anchorRun ops) ∧
      ∀ t', t.anchorRun ops = some t' →
        ∃ t'', t'.flush = some t'' ∧ (SameAnchors t'.view t''.base ↔ t'.FlushKeeps) := by
  have hshows : t.Shows t.chainView := answers_iff.mp ⟨fun _ _ => rfl, fun _ => rfl, rfl⟩
  have hrun := anchorRun_spec ops ht.inOrder hshows hops
  generalize t.anchorRun ops = r, t.chainView.anchorRun ops = w at hrun ⊢
  cases hrun with
  | none => exact ⟨Option.Rel.none, nofun⟩
  | some h =>
    refine ⟨Option.Rel.some (answers_iff.mpr h.2), fun t' ht' => ?_⟩
    obtain rfl := Option.some.inj ht'
    obtain ⟨t'', ht'', -, -, -, hkeeps⟩ := flush_anchors _ h.1.1 h.1.2
    exact ⟨t'', ht'', hkeeps⟩

/-! ### Two caches -/

theorem root_injective : Function.Injective (MerkleTree.root : List Uint256 → Uint256) := by
  have pos : ∀ l : List Uint256, 0 < MerkleTree.root l := fun l => by
    cases l <;> exact succ_pos _
  intro l
  induction l with
  | nil =>
    rintro (_ | ⟨y, l'⟩) h
    · rfl
    · -- the root of a list is not null, so no pair with it is
      have hpair : pair y (MerkleTree.root l') = 0 := (succ.inj h).symm
      have hle : MerkleTree.root l' ≤ 0 := hpair ▸ right_le_pair y (MerkleTree.root l')
      exact absurd hle (not_le.mpr (pos l'))
  | cons x l ih =>
    rintro (_ | ⟨y, l'⟩) h
    · have hpair : pair x (MerkleTree.root l) = 0 := succ.inj h
      have hle : MerkleTree.root l ≤ 0 := hpair ▸ right_le_pair x (MerkleTree.root l)
      exact absurd hle (not_le.mpr (pos l))
    · obtain ⟨hx, hl⟩ := pair_eq_pair.mp (succ.inj h)
      rw [hx, ih hl]

theorem isTreeOf_root (l : List Uint256) : IsTreeOf (MerkleTree.root l) l :=
  ⟨rfl, fun _ h => root_injective h⟩

/-- Two new caches over an empty database. -/
def twoCaches : Tower fun _ => List Uint256 := ⟨{}, (Tower.mk {} (.db {})).view⟩

theorem twoCaches_built : twoCaches.Built :=
  .push (.base {} fun _ => ⟨isTreeOf_root [], fun rt tree h => by simp at h⟩)

/-- A tree is pushed, the block is set, both are flushed, and the tree is taken back. -/
theorem anchors_run_twoCaches :
    let ops := [.pushAnchor .sprout [7], .setBestBlock 5, .flush,
      .popAnchor .sprout (emptyRoot (List Uint256))]
    twoCaches.Built ∧ twoCaches.MeetsAll ops ∧
      Option.Rel Answers (twoCaches.anchorRun ops) (twoCaches.chainView.anchorRun ops) := by
  intro ops
  have hmeets : twoCaches.MeetsAll ops := by
    refine ⟨⟨⟨by decide, isTreeOf_root [7]⟩, nofun⟩, fun t ht => ?_⟩
    obtain rfl := Option.some.inj ht
    refine ⟨⟨Nat.succ_ne_zero 4, nofun⟩, fun t ht => ?_⟩
    obtain rfl := Option.some.inj ht
    refine ⟨⟨trivial, fun _ => ⟨.inl (by decide), fun s => ?_⟩⟩, fun t ht => ?_⟩
    · cases s <;> decide
    obtain rfl := Option.some.inj ht
    exact ⟨⟨⟨by decide, fun _ => rfl⟩, nofun⟩, fun _ _ => trivial⟩
  exact ⟨twoCaches_built, hmeets, (anchors_run twoCaches twoCaches_built ops hmeets).1⟩

/-- A tree and a block pending in the lower of two caches. -/
def pendingBelow : Tower fun _ => List Uint256 :=
  ⟨{}, (((Tower.mk {} (.db {})).pushAnchor .sprout [7]).setBestBlock 5).view⟩

/-- **A flush of a cache that has read nothing forgets the pending block and best anchor.**  The tower
then answers what the database holds, and the flat store what was written. -/
theorem not_anchors_run :
    pendingBelow.Built ∧ pendingBelow.chainView.bestBlock = 5 ∧
      (∀ t', pendingBelow.anchorRun [.flush] = some t' →
        t'.getBestBlock.1 = 0 ∧ (t'.getBestAnchor .sprout).1 = emptyRoot (List Uint256)) ∧
      ¬ Option.Rel Answers (pendingBelow.anchorRun [.flush])
        (pendingBelow.chainView.anchorRun [.flush]) := by
  have hbase : (Tower.mk {} (.db {}) : Tower fun _ => List Uint256).Built :=
    .base {} fun _ => ⟨isTreeOf_root [], fun rt tree h => by simp at h⟩
  have hpush := Built.anchors (.pushAnchor .sprout [7]) hbase ⟨by decide, isTreeOf_root [7]⟩ rfl
  have hset := Built.anchors (.setBestBlock 5) hpush (Nat.succ_ne_zero 4) rfl
  refine ⟨.push hset, rfl, fun t' ht' => ?_, fun h => ?_⟩
  · obtain rfl := Option.some.inj ht'
    exact ⟨rfl, rfl⟩
  · obtain ⟨t', ht'⟩ : ∃ t', pendingBelow.anchorRun [.flush] = some t' := ⟨_, rfl⟩
    rw [ht'] at h
    cases h with
    | some h =>
      obtain rfl := Option.some.inj ht'
      exact absurd (h.bestBlock : (0 : Uint256) = 5) (by decide)

end Tower

end Komodo
