/-
# Flushing a cache into its parent

`CCoinsViewCache::Flush` hands the maps of the top cache to `BatchWrite` of the
view below. Under the invariant of `Komodo.Coins.Invariant` the assertion of
`CCoinsViewCache::BatchWrite` holds on every entry, the view below keeps the
invariant, and it then answers what the tower answered before (`flush_spec`).
-/

import Komodo.Coins.Invariant

namespace Komodo

variable {T : ShieldedType → Type}

/-! ### One entry -/

/-- The record of the database after the write of a child entry. -/
def dbWriteUpd (e : CCoinsCacheEntry) (r : Option CCoins) : Option CCoins :=
  if e.dirty then if e.coins.isPruned then none else some e.coins else r

theorem dbWriteCoin_keyLocal (txid : Uint256) (e : CCoinsCacheEntry) (m : Dict Uint256 CCoins) :
    KeyLocal (fun m k => m.lookup k) dbWriteUpd txid e m (dbWriteCoin txid e m) := by
  dsimp only [dbWriteCoin, KeyLocal, dbWriteUpd]
  split_ifs
  · exact ⟨AList.lookup_erase _ _, fun k hk => AList.lookup_erase_ne hk⟩
  · exact ⟨AList.lookup_insert _, fun k hk => AList.lookup_insert_ne hk⟩
  · exact ⟨rfl, fun _ _ => rfl⟩

/-- The entry of a parent cache after the write of a child entry. -/
def cacheWriteUpd (e : CCoinsCacheEntry) (r : Option CCoinsCacheEntry) :
    Option CCoinsCacheEntry :=
  if e.dirty then
    match r with
    | none =>
      if e.coins.isPruned then none else some { coins := e.coins, dirty := true, fresh := true }
    | some us =>
      if us.fresh && e.coins.isPruned then none
      else some { us with coins := e.coins, dirty := true }
  else r

/-- The assertion of `CCoinsViewCache::BatchWrite`: a dirty unpruned entry that
the parent misses is `FRESH`. -/
def WriteOk (e : CCoinsCacheEntry) (r : Option CCoinsCacheEntry) : Prop :=
  e.dirty → r = none → ¬ e.coins.isPruned → e.fresh

theorem batchWriteCoin_keyLocal (txid : Uint256) (e : CCoinsCacheEntry) (m : CCoinsMap)
    (hok : WriteOk e (m.lookup txid)) :
    ∃ m', batchWriteCoin txid e m = some m' ∧
      KeyLocal (fun m k => m.lookup k) cacheWriteUpd txid e m m' := by
  unfold batchWriteCoin cacheWriteUpd KeyLocal
  by_cases hd : e.dirty
  · simp only [hd, if_true]
    cases hlook : m.lookup txid with
    | none =>
      by_cases hp : e.coins.isPruned
      · exact ⟨m, by simp [hp], by simp [hlook, hp], fun _ _ => rfl⟩
      · have hf := hok hd hlook hp
        exact ⟨_, by simp only [hp, hf]; rfl, by simp [hp], fun k hk => AList.lookup_insert_ne hk⟩
    | some us =>
      by_cases hp : us.fresh && e.coins.isPruned
      · exact ⟨_, by simp only [hp]; rfl, by simp [hp], fun k hk => AList.lookup_erase_ne hk⟩
      · exact ⟨_, by simp only [hp]; rfl, by simp [hp], fun k hk => AList.lookup_insert_ne hk⟩
  · exact ⟨m, by simp [hd], by simp [hd], fun _ _ => rfl⟩

/-- The nullifier entry of a parent cache after the write of a child entry. -/
def nullifierWriteUpd (e : CNullifiersCacheEntry) (r : Option CNullifiersCacheEntry) :
    Option CNullifiersCacheEntry :=
  if e.dirty then
    match r with
    | none => some { entered := e.entered, dirty := true }
    | some p => some (if p.entered != e.entered then { entered := e.entered, dirty := true } else p)
  else r

theorem nullifierWriteUpd_of_not_dirty {e : CNullifiersCacheEntry} (hd : ¬ e.dirty)
    (r : Option CNullifiersCacheEntry) : nullifierWriteUpd e r = r := by
  simp only [nullifierWriteUpd, hd]
  rfl

theorem nullifierWriteUpd_of_dirty {e : CNullifiersCacheEntry} (hd : e.dirty)
    (r : Option CNullifiersCacheEntry) :
    ∃ e', nullifierWriteUpd e r = some e' ∧ e'.entered = e.entered ∧
      (¬ e'.dirty → r = some e') := by
  unfold nullifierWriteUpd
  simp only [hd, if_true]
  cases r with
  | none => exact ⟨_, rfl, rfl, fun hn => absurd rfl hn⟩
  | some q =>
    by_cases hq : (q.entered != e.entered) = true
    · exact ⟨_, rfl, by simp [hq], fun hn => absurd (by simp [hq]) hn⟩
    · refine ⟨_, rfl, ?_, fun _ => by simp [hq]⟩
      rw [if_neg hq]
      simpa using hq

theorem batchWriteNullifier_keyLocal (nf : Uint256) (e : CNullifiersCacheEntry)
    (m : CNullifiersMap) :
    KeyLocal (fun m k => m.lookup k) nullifierWriteUpd nf e m (batchWriteNullifier nf e m) := by
  unfold batchWriteNullifier nullifierWriteUpd KeyLocal
  by_cases hd : e.dirty
  · simp only [hd, if_true]
    cases hlook : m.lookup nf with
    | none => exact ⟨by simp, fun k hk => AList.lookup_insert_ne hk⟩
    | some p =>
      by_cases hp : (p.entered != e.entered) = true
      · exact ⟨by simp [hp], fun k hk => by simp only [hp, if_true]; exact AList.lookup_insert_ne hk⟩
      · exact ⟨by simp [hp, hlook], fun k hk => by simp [hp]⟩
  · simp [hd]

/-- The nullifier of the database after the write of a child entry. -/
def dbNullifierUpd (e : CNullifiersCacheEntry) (r : Option Bool) : Option Bool :=
  if e.dirty then if e.entered then some true else none else r

theorem dbWriteNullifier_keyLocal (nf : Uint256) (e : CNullifiersCacheEntry)
    (m : Dict Uint256 Bool) :
    KeyLocal (fun m k => m.lookup k) dbNullifierUpd nf e m (dbWriteNullifier nf e m) := by
  dsimp only [dbWriteNullifier, KeyLocal, dbNullifierUpd]
  split_ifs
  · exact ⟨AList.lookup_insert _, fun k hk => AList.lookup_insert_ne hk⟩
  · exact ⟨AList.lookup_erase _ _, fun k hk => AList.lookup_erase_ne hk⟩
  · exact ⟨rfl, fun _ _ => rfl⟩

/-! ### A whole flush -/

namespace CCoinsView

/-- What a view answers after the maps of a child cache were written into it. -/
structure WriteSpec (c : CCoinsViewCache T) (base base' : CCoinsView T) : Prop where
  wf : base'.WF
  coins : ∀ txid, base'.answer txid ≈ (cache c base).answer txid
  nullifiers : ∀ s nf, base'.peekNullifier s nf = (cache c base).peekNullifier s nf

variable {base : CCoinsView T} {c : CCoinsViewCache T} {e : CCoinsCacheEntry} {txid : Uint256}

theorem answer_cache_some (h : c.cacheCoins.lookup txid = some e) :
    (cache c base).answer txid = e.coins := by
  rw [answer, peek_cache_some h, Option.getD_some]

theorem answer_cache_none
    (h : c.cacheCoins.lookup txid = none) : (cache c base).answer txid = base.answer txid := by
  rw [answer, peek_cache_none h, answer]

theorem writeOk_of_cacheOk {c p : CCoinsViewCache T}
    (h : CacheOk c (cache p base))
    (he : c.cacheCoins.lookup txid = some e) : WriteOk e (p.cacheCoins.lookup txid) := by
  intro _ hmiss _
  by_contra hf
  have hentry := (h.coins txid e he).known hf
  simp [HasEntry, hmiss] at hentry

/-- One txid of a flush into a cache: the new entry of the parent keeps its
promises and answers what the child answered. -/
theorem cacheWriteUpd_spec {c p : CCoinsViewCache T}
    (h : CacheOk c (cache p base)) (hp : CacheOk p base)
    (he : c.cacheCoins.lookup txid = some e) :
    (∀ e', cacheWriteUpd e (p.cacheCoins.lookup txid) = some e' →
        EntryOk base txid e' ∧ e'.coins ≈ e.coins) ∧
      (cacheWriteUpd e (p.cacheCoins.lookup txid) = none → base.answer txid ≈ e.coins) := by
  have hce := h.coins txid e he
  unfold cacheWriteUpd
  by_cases hd : e.dirty
  · simp only [hd, if_true]
    cases hlook : p.cacheCoins.lookup txid with
    | none =>
      -- the parent misses the entry, so the child's is fresh and nothing is below
      have hfresh : e.fresh := by
        by_contra hf
        have hentry := hce.known hf
        simp [HasEntry, hlook] at hentry
      have hbelow : (base.answer txid).isPruned := by
        have := hce.fresh hfresh
        rwa [answer_cache_none hlook] at this
      split_ifs with hprn
      · exact ⟨by simp, fun _ => CCoins.eqv_of_isPruned hbelow hprn⟩
      · refine ⟨fun e' he' => ?_, by simp⟩
        cases he'
        exact ⟨⟨fun _ => hbelow, fun hn => absurd rfl hn, fun hn => absurd rfl hn⟩, Setoid.refl _⟩
    | some us =>
      have hus := hp.coins txid us hlook
      simp only
      split_ifs with hprn
      · rw [Bool.and_eq_true] at hprn
        exact ⟨by simp, fun _ => CCoins.eqv_of_isPruned (hus.fresh hprn.1) hprn.2⟩
      · refine ⟨fun e' he' => ?_, by simp⟩
        cases he'
        exact ⟨⟨hus.fresh, fun hn => absurd rfl hn, hus.known⟩, Setoid.refl _⟩
  · -- a clean entry is what the parent answers
    simp only [hd]
    have hclean := hce.clean hd
    cases hlook : p.cacheCoins.lookup txid with
    | none =>
      rw [answer_cache_none hlook] at hclean
      exact ⟨by simp, fun _ => Setoid.symm hclean⟩
    | some us =>
      rw [answer_cache_some hlook] at hclean
      refine ⟨fun e' he' => ?_, by simp⟩
      obtain rfl : us = e' := by simpa using he'
      exact ⟨hp.coins txid us hlook, Setoid.symm hclean⟩

/-- A flush into a cache: the assertion holds throughout. -/
theorem cache_batchWrite_spec {c p : CCoinsViewCache T}
    (h : CacheOk c (cache p base)) (hp : CacheOk p base) (hb : base.WF) :
    ∃ p', p.batchWrite c = some p' ∧ WriteSpec c (cache p base) (cache p' base) := by
  obtain ⟨m, hm, hlook⟩ : ∃ m, sweepM batchWriteCoin c.cacheCoins p.cacheCoins = some m ∧
      ∀ txid, m.lookup txid =
        swept cacheWriteUpd (c.cacheCoins.lookup txid) (p.cacheCoins.lookup txid) :=
    sweepM_look batchWriteCoin_keyLocal c.cacheCoins p.cacheCoins
      fun txid e he => writeOk_of_cacheOk h he
  have hnull : ∀ s nf, (sweep batchWriteNullifier (c.cacheNullifiers s)
      (p.cacheNullifiers s)).lookup nf =
        swept nullifierWriteUpd ((c.cacheNullifiers s).lookup nf)
          ((p.cacheNullifiers s).lookup nf) := fun s nf =>
    sweep_look batchWriteNullifier_keyLocal (c.cacheNullifiers s) (p.cacheNullifiers s) nf
  refine ⟨_, by rw [CCoinsViewCache.batchWrite, hm]; rfl,
    ⟨⟨⟨fun txid e' he' => ?_, fun s nf e' he' hd' => ?_⟩, hb⟩, fun txid => ?_, fun s nf => ?_⟩⟩
  · -- every entry of the written parent keeps its promises
    simp only [hlook] at he'
    cases hc : c.cacheCoins.lookup txid with
    | none =>
      rw [hc, swept_none] at he'
      exact hp.coins txid e' he'
    | some e =>
      rw [hc, swept_some] at he'
      exact ((cacheWriteUpd_spec h hp hc).1 e' he').1
  · simp only [hnull] at he'
    cases hc : (c.cacheNullifiers s).lookup nf with
    | none =>
      rw [hc, swept_none] at he'
      exact hp.nullifiers s nf e' he' hd'
    | some e =>
      rw [hc, swept_some] at he'
      by_cases hd : e.dirty
      · obtain ⟨e'', he'', _, hclean⟩ := nullifierWriteUpd_of_dirty hd ((p.cacheNullifiers s).lookup nf)
        obtain rfl : e'' = e' := Option.some.inj (he''.symm.trans he')
        exact hp.nullifiers s nf e'' (hclean hd') hd'
      · rw [nullifierWriteUpd_of_not_dirty hd] at he'
        exact hp.nullifiers s nf e' he' hd'
  · -- the answers for coins
    cases hc : c.cacheCoins.lookup txid with
    | none =>
      rw [answer_cache_none hc]
      have hm' := hlook txid
      rw [hc, swept_none] at hm'
      simp only [answer, peek, hm']
      exact Setoid.refl _
    | some e =>
      rw [answer_cache_some hc]
      have hm' := hlook txid
      rw [hc, swept_some] at hm'
      have hspec := cacheWriteUpd_spec h hp hc
      rw [← hm'] at hspec
      cases hlk : AList.lookup txid m with
      | none => rw [answer_cache_none hlk]; exact hspec.2 hlk
      | some e' => rw [answer_cache_some hlk]; exact (hspec.1 e' hlk).2
  · -- the answers for nullifiers
    simp only [peekNullifier, hnull]
    cases hc : (c.cacheNullifiers s).lookup nf with
    | none => rfl
    | some e =>
      rw [swept_some]
      by_cases hd : e.dirty
      · obtain ⟨e'', he'', hent, _⟩ := nullifierWriteUpd_of_dirty hd ((p.cacheNullifiers s).lookup nf)
        rw [he'']
        exact hent
      · rw [nullifierWriteUpd_of_not_dirty hd]
        exact (h.nullifiers s nf e hc hd).symm

variable [∀ s, MerkleTree (T s)]

/-- A flush into the database. -/
theorem db_batchWrite_spec {d : CCoinsViewDB T} (h : CacheOk c (.db d)) :
    WriteSpec c (.db d) (.db (d.batchWrite c)) := by
  refine ⟨trivial, fun txid => ?_, fun s nf => ?_⟩
  · have hlook : (d.batchWrite c).coins.lookup txid =
        swept dbWriteUpd (c.cacheCoins.lookup txid) (d.coins.lookup txid) :=
      sweep_look dbWriteCoin_keyLocal c.cacheCoins d.coins txid
    have hans : (db (d.batchWrite c)).answer txid = ((d.batchWrite c).coins.lookup txid).getD {} :=
      rfl
    rw [hans, hlook]
    cases hc : c.cacheCoins.lookup txid with
    | none =>
      rw [answer_cache_none hc]
      exact Setoid.refl _
    | some e =>
      rw [answer_cache_some hc, swept_some, dbWriteUpd]
      split_ifs with hd hp
      · exact CCoins.eqv_of_isPruned rfl hp
      · exact Setoid.refl _
      · exact Setoid.symm ((h.coins txid e hc).clean hd)
  · have hlook : ((d.batchWrite c).nullifiers s).lookup nf =
        swept dbNullifierUpd ((c.cacheNullifiers s).lookup nf) ((d.nullifiers s).lookup nf) :=
      sweep_look dbWriteNullifier_keyLocal (c.cacheNullifiers s) (d.nullifiers s) nf
    simp only [peekNullifier, hlook]
    cases hc : (c.cacheNullifiers s).lookup nf with
    | none => rfl
    | some e =>
      rw [swept_some, dbNullifierUpd]
      split_ifs with hd he
      · simp [he]
      · simp [he]
      · exact (h.nullifiers s nf e hc hd).symm

/-- `BatchWrite` into any view that keeps its promises. -/
theorem batchWrite_spec (h : (cache c base).WF) :
    ∃ base', base.batchWrite c = some base' ∧ WriteSpec c base base' := by
  obtain ⟨hc, hb⟩ := h
  cases base with
  | db d => exact ⟨_, rfl, db_batchWrite_spec hc⟩
  | cache p base =>
    obtain ⟨p', hp', hspec⟩ := cache_batchWrite_spec hc hb.1 hb.2
    exact ⟨cache p' base, by simp [batchWrite, hp'], hspec⟩

end CCoinsView

variable [∀ s, MerkleTree (T s)]

/-- **`Flush` succeeds and changes no answer.** -/
theorem Tower.flush_spec (t : Tower T) (h : t.view.WF) :
    ∃ t', t.flush = some t' ∧ t'.view.WF ∧
      (∀ txid, t'.view.answer txid ≈ t.view.answer txid) ∧
      ∀ s nf, t'.view.peekNullifier s nf = t.view.peekNullifier s nf := by
  obtain ⟨base', hb', hspec⟩ := CCoinsView.batchWrite_spec h
  refine ⟨_, by rw [flush, hb']; rfl, ⟨CCoinsView.cacheOk_empty base' _ _, hspec.wf⟩,
    fun txid => ?_, fun s nf => ?_⟩
  · exact hspec.coins txid
  · exact hspec.nullifiers s nf

end Komodo
