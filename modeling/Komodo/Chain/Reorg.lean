/-
# Disconnecting a block that was just connected

When `DisconnectBlock` undoes `ConnectBlock`: exactly when every blind write of
the block to the coins map found a pruned record, or one last written by a
tombstone (`disconnectBlock_restores_iff`). Nullifiers, anchors and the best
block always come back.

`ConnectBlock` checks this for the records of the block's own transactions
(BIP30) and not for the records that coin imports write their tombstones to.
`RemoveImportTombstone` clears such a record whatever was in it, so an import
of a burn transaction that already has a record is not undone
(`second_import_not_undone`).
-/

import Komodo.Chain.BlockEvents

namespace Komodo

open CoinEvent List Function

variable {T : ShieldedType → Type} [∀ s, MerkleTree (T s)]

/-! ### Anchors -/

namespace ChainView

/-- Forget the tree of a root that is not the best one. -/
def eraseAnchor (v : ChainView T) (s : ShieldedType) (rt : Uint256) : ChainView T :=
  if v.bestAnchor s = rt then v
  else
    { v with
      anchors := Function.update v.anchors s (Function.update (v.anchors s) rt none) }

section
variable (v : ChainView T) (s : ShieldedType) (rt : Uint256) (tree : T s) (sprout : T .sprout)
  (sapling : T .sapling)

omit [∀ s, MerkleTree (T s)] in
theorem eraseAnchor_other : (v.eraseAnchor s rt).toFlatView = v.toFlatView ∧
    (v.eraseAnchor s rt).bestAnchor = v.bestAnchor ∧
    ∀ s', (v.eraseAnchor s rt).anchors s' (v.bestAnchor s') = v.anchors s' (v.bestAnchor s') := by
  unfold eraseAnchor
  split_ifs with hroot
  · exact ⟨rfl, rfl, fun _ => rfl⟩
  · refine ⟨rfl, rfl, fun s' => ?_⟩
    by_cases hs : s' = s
    · subst hs
      simp only [Function.update_self, Function.update_of_ne hroot]
    · simp only [Function.update_of_ne hs]

omit [∀ s, MerkleTree (T s)] in
/-- There is nothing to forget of a root that is new. -/
theorem eraseAnchor_of_fresh (hfresh : rt ≠ v.bestAnchor s → v.anchors s rt = none) :
    v.eraseAnchor s rt = v := by
  unfold eraseAnchor
  split_ifs with hroot
  · rfl
  · rw [← hfresh fun h => hroot h.symm, Function.update_eq_self, Function.update_eq_self]

theorem bestAnchor_pushAnchor : (v.pushAnchor s tree).bestAnchor s = MerkleTree.root tree := by
  simp only [pushAnchor]
  split_ifs with hroot
  · exact hroot
  · exact Function.update_self ..

/-- `PopAnchor` takes `PushAnchor` back and forgets the root. -/
theorem popAnchor_pushAnchor : (v.pushAnchor s tree).popAnchor s (v.bestAnchor s) =
    some (v.eraseAnchor s (MerkleTree.root tree)) := by
  unfold pushAnchor eraseAnchor
  dsimp only
  split_ifs with hroot
  · exact if_pos rfl
  · have hne : ¬ MerkleTree.root tree = v.bestAnchor s := fun h => hroot h.symm
    simp only [popAnchor, Function.update_self, hne, if_false, Option.isNone_some,
      Bool.false_eq_true, Function.update_idem, Function.update_eq_self]

/-- The pools do not get in each other's way. -/
theorem pushAnchor_comm : (v.pushAnchor .sprout sprout).pushAnchor .sapling sapling =
    (v.pushAnchor .sapling sapling).pushAnchor .sprout sprout := by
  have hne : ShieldedType.sprout ≠ .sapling := by decide
  simp only [pushAnchor]
  by_cases hsp : v.bestAnchor .sprout = MerkleTree.root sprout <;>
    by_cases hsa : v.bestAnchor .sapling = MerkleTree.root sapling <;>
      simp only [hsp, hsa, if_true, if_false, ne_eq, hne, hne.symm, not_false_eq_true,
        Function.update_of_ne, Function.update_comm hne]

theorem eraseAnchor_pushAnchor : (v.pushAnchor .sapling sapling).eraseAnchor .sprout rt =
    (v.eraseAnchor .sprout rt).pushAnchor .sapling sapling := by
  have hne : ShieldedType.sprout ≠ .sapling := by decide
  simp only [pushAnchor, eraseAnchor]
  by_cases hsp : v.bestAnchor .sprout = rt <;>
    by_cases hsa : v.bestAnchor .sapling = MerkleTree.root sapling <;>
      simp only [hsp, hsa, if_true, if_false, ne_eq, hne, hne.symm, not_false_eq_true,
        Function.update_of_ne, Function.update_comm hne]

end

/-- `PushAnchor` leaves the other pool, the coins and the best block alone. -/
theorem pushAnchor_other (v : ChainView T) (s : ShieldedType) (tree : T s) :
    (v.pushAnchor s tree).toFlatView = v.toFlatView ∧
      (v.pushAnchor s tree).bestBlock = v.bestBlock ∧
      ∀ s', s' ≠ s → (v.pushAnchor s tree).bestAnchor s' = v.bestAnchor s' ∧
        (v.pushAnchor s tree).anchors s' = v.anchors s' := by
  simp only [pushAnchor]
  split_ifs
  · exact ⟨rfl, rfl, fun _ _ => ⟨rfl, rfl⟩⟩
  · exact ⟨rfl, rfl, fun s' hs' => by simp only [update_of_ne hs', and_self]⟩

/-- `PushAnchor` does not look at the coins or at the best block. -/
theorem pushAnchors_with (v : ChainView T) (m : FlatView) (hash : Uint256) (sprout : T .sprout)
    (sapling : T .sapling) :
    (({ v with toFlatView := m, bestBlock := hash } : ChainView T).pushAnchor .sprout
      sprout).pushAnchor .sapling sapling =
        { (v.pushAnchor .sprout sprout).pushAnchor .sapling sapling with
          toFlatView := m, bestBlock := hash } := by
  simp only [pushAnchor]
  split_ifs <;> rfl

theorem pushAnchors_toFlatView (v : ChainView T) (m : FlatView) (sprout : T .sprout)
    (sapling : T .sapling) :
    ((({ v with toFlatView := m } : ChainView T).pushAnchor .sprout sprout).pushAnchor .sapling
      sapling).toFlatView = m :=
  (pushAnchor_other _ _ _).1.trans (pushAnchor_other _ _ _).1

/-- The anchors of a block: both trees pushed, both popped back. -/
theorem popAnchors_pushAnchors (v : ChainView T) (sprout : T .sprout) (sapling : T .sapling) :
    ∃ w, ((v.pushAnchor .sprout sprout).pushAnchor .sapling sapling).popAnchor .sprout
        (v.bestAnchor .sprout) = some w ∧
      w.popAnchor .sapling (v.bestAnchor .sapling) = some ((v.eraseAnchor .sprout
        (MerkleTree.root sprout)).eraseAnchor .sapling (MerkleTree.root sapling)) := by
  have hother := (v.pushAnchor_other .sapling sapling).2.2 .sprout (by decide)
  rw [pushAnchor_comm, ← hother.1, popAnchor_pushAnchor, eraseAnchor_pushAnchor]
  refine ⟨_, rfl, ?_⟩
  rw [← (v.eraseAnchor_other ..).2.1, popAnchor_pushAnchor]

end ChainView

/-! ### Views in order -/

/-- What holds of a view whose best block is `pprev`: its records are in order,
its Sapling anchor is the one `DisconnectBlock` takes from the index, and that
anchor is the root of its tree. `connectBlock_viewOk` says that `ConnectBlock`
keeps it. -/
structure ViewOk (params : ConnectParams) (pprev : CBlockIndex) (v : ChainView T) : Prop where
  records : ∀ txid, RecordOk (v.coins txid)
  sapling : v.bestAnchor .sapling = oldSaplingRoot T params pprev
  saplingTree : ∀ tree, v.anchors .sapling (v.bestAnchor .sapling) = some tree →
    MerkleTree.root tree = v.bestAnchor .sapling

/-- Two views answer alike: the coins up to `CCoins` equality, the nullifiers,
the best anchors with their trees and the best block. -/
structure SameView (v w : ChainView T) : Prop where
  coins : ∀ txid, v.coins txid ≈ w.coins txid
  nullifiers : ∀ s nf, v.nullifiers s nf = w.nullifiers s nf
  bestAnchor : ∀ s, v.bestAnchor s = w.bestAnchor s
  bestTree : ∀ s, v.anchors s (v.bestAnchor s) = w.anchors s (w.bestAnchor s)
  bestBlock : v.bestBlock = w.bestBlock

variable {params : ConnectParams} {block : CBlock} {pprev : CBlockIndex} {v v' : ChainView T}
  {undo : CBlockUndo}

/-- What `ConnectBlock` did when it accepted a block. -/
theorem connectBlock_spec (h : connectBlock params v pprev block = some (v', undo)) :
    checkBlock params block = true ∧ v.bestBlock = pprev.hash ∧
      (∀ tx ∈ block.vtx, (v.coins tx.hash).isPruned) ∧
      ∃ sprout sapling st undos, v.anchors .sapling (v.bestAnchor .sapling) = some sapling ∧
        connectTxs params (params.fExpensiveChecks block) v (pprev.nHeight + 1 : ℕ) block.vtx
          ⟨v.toFlatView, sprout, sapling⟩ = some (st, undos) ∧
        v' = { (({ v with toFlatView := st.map } : ChainView T).pushAnchor .sprout
          st.sproutTree).pushAnchor .sapling st.saplingTree with bestBlock := block.hash } ∧
        (params.saplingActive (pprev.nHeight + 1) →
          block.hashFinalSaplingRoot = MerkleTree.root st.saplingTree) ∧
        undo = ⟨undos.tail, v.bestAnchor .sprout⟩ := by
  unfold connectBlock at h
  dsimp only at h
  split at h
  · cases h
  rename_i hcheck
  split at h
  · cases h
  rename_i hprev
  split at h
  · cases h
  rename_i hbip
  split at h
  · rename_i sprout sapling _ hsapling
    split at h
    · cases h
    split at h
    · cases h
    rename_i st undos htxs
    split at h
    · cases h
    rename_i hsap
    split at h
    · cases h
    cases h
    refine ⟨by simpa using hcheck, (not_not.1 hprev).symm, by simpa using hbip, sprout, sapling,
      st, undos, hsapling, htxs, rfl, fun hact => by simpa [hact] using hsap, rfl⟩
  · cases h

theorem checkBlock_coinbase (h : checkBlock params block = true) :
    ∃ tx txs, block.vtx = tx :: txs ∧ tx.isCoinBase = true := by
  unfold checkBlock at h
  cases hv : block.vtx with
  | nil => simp [hv] at h
  | cons tx txs =>
    simp only [hv, Bool.and_eq_true] at h
    exact ⟨tx, txs, rfl, h.1.1.1⟩

/-- The undo data of the coinbase is empty, so the undo data of the block is complete. -/
theorem undos_tail {undos : List CTxUndo} (hcheck : checkBlock params block = true)
    (hfit : UndosFit block.vtx undos) :
    [] :: undos.tail = undos ∧ undos.tail.length + 1 = block.vtx.length := by
  obtain ⟨tx₀, txs, hvtx, hcb⟩ := checkBlock_coinbase hcheck
  rw [hvtx] at hfit ⊢
  cases undos with
  | nil => exact hfit.elim
  | cons u us =>
    have hlen := hfit.1
    rw [spendEvents, if_pos (by simp [CTransaction.isMint, hcb]), length_nil,
      length_eq_zero_iff] at hlen
    exact ⟨by rw [hlen, tail_cons], hfit.length_eq⟩

theorem checkBlock_txs
    (h : checkBlock params block = true) : ∀ tx ∈ block.vtx, checkTransaction params tx = true := by
  unfold checkBlock at h
  rw [Bool.and_eq_true, Bool.and_eq_true] at h
  exact all_eq_true.1 h.1.2

/-- The checks on a block make its writes `Ok`. -/
theorem blockEvents_ok {txs : List CTransaction}
    (h : ∀ tx ∈ txs, checkTransaction params tx = true) {nHeight : ℤ} (hpos : 0 < nHeight) :
    ∀ e ∈ blockEvents nHeight txs, e.Ok := by
  intro e he
  obtain ⟨tx, htx, he⟩ := mem_flatMap.1 he
  rcases mem_append.1 he with he | he
  · unfold spendEvents at he
    split_ifs at he
    · cases he
    · obtain ⟨i, -, rfl⟩ := mem_map.1 he
      exact trivial
  · rcases mem_cons.1 he with rfl | he
    · have hv := h tx htx
      simp only [checkTransaction, Bool.and_eq_true, all_eq_true, decide_eq_true_eq] at hv
      refine ⟨hpos, fun o ho hnull => ?_⟩
      have hval : 0 ≤ o.nValue := by simpa using hv.1.1.1 o ho
      rw [CTxOut.isNull, beq_iff_eq] at hnull
      omega
    · split_ifs at he
      · obtain rfl := mem_singleton.1 he
        exact hpos
      · cases he

/-- A block without shielded outputs leaves the Sapling tree alone. -/
theorem connectTxs_saplingTree {fScriptChecks : Bool} {v : ChainView T}
    {nHeight : ℤ} {txs : List CTransaction} (hno : ∀ tx ∈ txs, tx.vShieldedOutput = [])
    {st st' : ConnectState T} {undos : List CTxUndo}
    (h : connectTxs params fScriptChecks v nHeight txs st = some (st', undos)) :
    st'.saplingTree = st.saplingTree := by
  induction txs generalizing st undos with
  | nil =>
    cases h
    rfl
  | cons tx txs ih =>
    obtain ⟨st₁, u, us, h₁, h₂, rfl⟩ := connectTxs_cons h
    rw [ih (fun tx' h' => hno tx' (mem_cons_of_mem tx h')) h₂]
    unfold connectTx at h₁
    split_ifs at h₁
    split at h₁
    · cases h₁
    · split at h₁
      · rename_i sprout sapling _ hsap
        cases h₁
        rw [hno tx mem_cons_self] at hsap
        exact (Option.some.inj hsap).symm
      · cases h₁

/-- After `PushAnchor` the best anchor of the pool is the root of the tree, and
has a tree with that root. -/
theorem pushAnchor_best (v : ChainView T) (s : ShieldedType) (tree : T s)
    (hroot : ∀ t, v.anchors s (v.bestAnchor s) = some t → MerkleTree.root t = v.bestAnchor s) :
    (v.pushAnchor s tree).bestAnchor s = MerkleTree.root tree ∧
      ∀ t, (v.pushAnchor s tree).anchors s ((v.pushAnchor s tree).bestAnchor s) = some t →
        MerkleTree.root t = (v.pushAnchor s tree).bestAnchor s := by
  simp only [ChainView.pushAnchor]
  split_ifs with hsame
  · exact ⟨hsame, hroot⟩
  · simp only [update_self, Option.some.injEq, forall_eq', and_self]

/-- **`ConnectBlock` keeps views in order.**  Before the Sapling activation the
contextual checks admit no shielded outputs, and activation is not taken back. -/
theorem connectBlock_viewOk (hv : ViewOk params pprev v)
    (hmono : params.saplingActive pprev.nHeight → params.saplingActive (pprev.nHeight + 1))
    (hpre : ¬ params.saplingActive (pprev.nHeight + 1) →
      ∀ tx ∈ block.vtx, tx.vShieldedOutput = [])
    (h : connectBlock params v pprev block = some (v', undo)) :
    ViewOk params ⟨block.hash, pprev.nHeight + 1, block.hashFinalSaplingRoot⟩ v' := by
  obtain ⟨hcheck, -, -, sprout, sapling, st, undos, hsapling, htxs, rfl, hroot, -⟩ :=
    connectBlock_spec h
  obtain ⟨hall, -⟩ := connectTxs_spec (checkBlock_txs hcheck) htxs
  have hother := ({ v with toFlatView := st.map } : ChainView T).pushAnchor_other .sprout
    st.sproutTree
  have hsa := hother.2.2 .sapling (by decide)
  have hpush := pushAnchor_best (({ v with toFlatView := st.map } : ChainView T).pushAnchor .sprout
    st.sproutTree) .sapling st.saplingTree (by rw [hsa.1, hsa.2]; exact hv.saplingTree)
  refine ⟨?_, ?_, hpush.2⟩
  · simp only [v.pushAnchors_toFlatView]
    exact recordOk_applyAll (blockEvents_ok (checkBlock_txs hcheck) (by omega)) hv.records hall
  · refine hpush.1.trans ?_
    unfold oldSaplingRoot
    split_ifs with hact
    · exact (hroot hact).symm
    · -- Sapling is not active: the tree is still the empty one
      have hprev : ¬ params.saplingActive pprev.nHeight := fun hp => hact (hmono hp)
      rw [connectTxs_saplingTree (hpre hact) htxs, hv.saplingTree sapling hsapling, hv.sapling,
        oldSaplingRoot, if_neg hprev]

/-- **What `DisconnectBlock` leaves after `ConnectBlock`**, on any view with the
anchors and the best block that it left: the coins and the flag are those of
undoing the writes of the block, and the best anchors and the best block are
those before the block. -/
theorem disconnectBlock_spec (hv : ViewOk params pprev v)
    (hself : ∀ tx ∈ block.vtx, NoSelfBurn tx)
    (h : connectBlock params v pprev block = some (v', undo)) {w' : ChainView T}
    (hanch : w'.anchors = v'.anchors) (hbest : w'.bestAnchor = v'.bestAnchor)
    (hblock : w'.bestBlock = v'.bestBlock) :
    ∃ us w, applyAll (blockEvents (pprev.nHeight + 1 : ℕ) block.vtx) v.coins =
        some (v'.coins, us) ∧
      disconnectBlock params w' pprev block undo = some (w,
        (undoAll ((blockEvents (pprev.nHeight + 1 : ℕ) block.vtx).zip us) w'.coins).2) ∧
      w.coins = (undoAll ((blockEvents (pprev.nHeight + 1 : ℕ) block.vtx).zip us) w'.coins).1 ∧
      (w'.nullifiers = v'.nullifiers → w.nullifiers = v.nullifiers) ∧
      w.bestBlock = v.bestBlock ∧ w.bestAnchor = v.bestAnchor ∧
      (∀ s, w.anchors s (v.bestAnchor s) = v.anchors s (v.bestAnchor s)) ∧
      ((∀ s, v'.bestAnchor s ≠ v.bestAnchor s → v.anchors s (v'.bestAnchor s) = none) →
        w.anchors = v.anchors) := by
  obtain ⟨hcheck, hprev, -, sprout, sapling, st, undos, -, htxs, rfl, -, rfl⟩ :=
    connectBlock_spec h
  obtain ⟨hall, hfit, hnull, hnew⟩ := connectTxs_spec (checkBlock_txs hcheck) htxs
  obtain ⟨hundos, hlen⟩ := undos_tail hcheck hfit
  obtain ⟨m, hdis, hcoins, hnull'⟩ :=
    disconnectTxs_spec hself (pprev.nHeight + 1 : ℕ) hfit w'.toFlatView
  -- the anchors do not depend on the coins
  have hpush := fun m hash => v.pushAnchors_with m hash st.sproutTree st.saplingTree
  rw [hpush st.map v.bestBlock] at hanch hbest hblock ⊢
  let u : ChainView T := { v with toFlatView := m, bestBlock := block.hash }
  obtain ⟨w, hpop₁, hpop₂⟩ := u.popAnchors_pushAnchors st.sproutTree st.saplingTree
  rw [hpush] at hpop₁
  have herase := u.eraseAnchor_other .sprout (MerkleTree.root st.sproutTree)
  have herase' := (u.eraseAnchor .sprout (MerkleTree.root st.sproutTree)).eraseAnchor_other
    .sapling (MerkleTree.root st.saplingTree)
  have hflat := herase'.1.trans herase.1
  refine ⟨_, { (u.eraseAnchor .sprout (MerkleTree.root st.sproutTree)).eraseAnchor .sapling
    (MerkleTree.root st.saplingTree) with bestBlock := pprev.hash }, hall, ?_,
    (congrArg _ hflat).trans hcoins, fun hw => ?_, hprev.symm, herase'.2.1.trans herase.2.1,
    fun s => ?_, fun hfresh => ?_⟩
  · unfold disconnectBlock
    dsimp only [u] at hpop₁ hpop₂
    simp only [hblock, hanch, hbest, ne_eq, not_true_eq_false, if_false, hlen, hundos, hdis,
      hpop₁, ← hv.sapling, hpop₂]
    rfl
  · -- the nullifiers of the block were new, and are removed again
    funext s nf
    have hw' : w'.nullifiers s nf = st.map.nullifiers s nf := congrFun (congrFun hw s) nf
    dsimp only
    rw [hflat, hnull', hw', hnull]
    cases hr : revealed block.vtx s nf with
    | true => exact (hnew s nf hr).symm
    | false => rfl
  · have htree := herase'.2.2 s
    rw [herase.2.1] at htree
    exact htree.trans (herase.2.2 s)
  · have hsp := hfresh .sprout
    have hsa := hfresh .sapling
    have hother := (v.pushAnchor .sprout st.sproutTree).pushAnchor_other .sapling st.saplingTree
    simp only [(hother.2.2 .sprout (by decide)).1, ChainView.bestAnchor_pushAnchor] at hsp hsa
    rw [u.eraseAnchor_of_fresh .sprout _ hsp, u.eraseAnchor_of_fresh .sapling _ hsa]

/-- **What `DisconnectBlock` leaves after `ConnectBlock`.**  Nullifiers, best
anchors with their trees and best block are those before the block; the coins
and the flag are those of undoing the writes of the block. -/
theorem disconnectBlock_connectBlock (hv : ViewOk params pprev v)
    (hself : ∀ tx ∈ block.vtx, NoSelfBurn tx)
    (h : connectBlock params v pprev block = some (v', undo)) :
    ∃ us w, applyAll (blockEvents (pprev.nHeight + 1 : ℕ) block.vtx) v.coins =
        some (v'.coins, us) ∧
      disconnectBlock params v' pprev block undo = some (w,
        (undoAll ((blockEvents (pprev.nHeight + 1 : ℕ) block.vtx).zip us) v'.coins).2) ∧
      w.coins = (undoAll ((blockEvents (pprev.nHeight + 1 : ℕ) block.vtx).zip us) v'.coins).1 ∧
      ((∀ txid, w.coins txid ≈ v.coins txid) ↔ SameView w v) := by
  obtain ⟨us, w, hall, hdis, hcoins, hnull, hblock, hbest, htree, -⟩ :=
    disconnectBlock_spec hv hself h rfl rfl rfl
  exact ⟨us, w, hall, hdis, hcoins, fun hc => ⟨hc, fun s nf => by rw [hnull rfl],
    fun s => by rw [hbest], fun s => by rw [hbest, htree], hblock⟩, SameView.coins⟩

/-- **`DisconnectBlock` undoes `ConnectBlock` exactly when every blind write
found nothing to lose.**  On a view in order, for an accepted block whose imports
do not burn themselves, disconnecting with the undo data is clean and gives
the view back if and only if every record put by a transaction of the block, and
every tombstone put by an import, went into a pruned record or into one that
the block had last written a tombstone to. -/
theorem disconnectBlock_restores_iff (hv : ViewOk params pprev v)
    (hself : ∀ tx ∈ block.vtx, NoSelfBurn tx)
    (h : connectBlock params v pprev block = some (v', undo)) :
    (∃ w, disconnectBlock params v' pprev block undo = some (w, true) ∧ SameView w v) ↔
      Undoable (fun _ => false) v.coins (blockEvents (pprev.nHeight + 1 : ℕ) block.vtx) := by
  obtain ⟨us, w, hall, hdis, hcoins, hsame⟩ := disconnectBlock_connectBlock hv hself h
  have hok : ∀ e ∈ blockEvents (pprev.nHeight + 1 : ℕ) block.vtx, e.Ok :=
    blockEvents_ok (checkBlock_txs (connectBlock_spec h).1) (by omega)
  have hself' : Tracks (markAll (fun _ => false) (blockEvents (pprev.nHeight + 1 : ℕ) block.vtx))
      v'.coins v'.coins := fun _ => Or.inl (Setoid.refl _)
  constructor
  · rintro ⟨w', hdis', hsame'⟩
    obtain ⟨rfl, hclean⟩ := Prod.mk.inj (Option.some.inj (hdis.symm.trans hdis'))
    by_contra hnot
    rcases undoAll_of_not_undoable hok hv.records hall hnot hself' with hfalse | ⟨txid, -, hb, hm⟩
    · rw [hclean] at hfalse
      cases hfalse
    · rw [← hcoins] at hb
      exact hm (by rw [← CCoins.isPruned_congr (hsame'.coins txid)]; exact hb)
  · intro hu
    obtain ⟨hclean, htr⟩ := undoAll_of_undoable hok hv.records hall hu hself'
    refine ⟨w, by rw [hdis, hclean], hsame.1 fun txid => ?_⟩
    rcases htr txid with heqv | ⟨hg, -⟩
    · rw [hcoins]
      exact heqv
    · cases hg

/-! ### An import of a burn transaction that has a record -/

/-- Parameters under which every check outside the chain state passes. -/
def openParams : ConnectParams where
  saplingActive _ := false
  fExpensiveChecks _ := true
  checkTransactionRest _ := true
  checkBlockRest _ := true
  checkTxInputs _ _ := true
  verifyScript _ _ out := out.scriptPubKey != [OP_0]
  verifyCoinImport _ := true
  checkReward _ := true

/-- A view after block 9 with one record, under txid 100. -/
def viewWith (c : CCoins) : ChainView fun _ => List Uint256 where
  coins := Function.update (fun _ => {}) 100 c
  nullifiers _ _ := false
  anchors _ rt := if rt = 1 then some [] else none
  bestAnchor _ := 1
  bestBlock := 9

/-- The index entry of block 9. -/
def index9 : CBlockIndex := ⟨9, 9, 0⟩

/-- A coinbase. -/
def coinbaseTx : CTransaction where
  hash := 50
  vin := [{ prevout := ⟨0, 0xffffffff⟩, scriptSig := [0x01, 0x0a] }]
  vout := [⟨300000000, [0x51]⟩]

/-- An import of the burn transaction 100 that expires at `nExpiryHeight`. -/
def importTx (hash : Uint256) (nExpiryHeight : ℕ) : CTransaction where
  hash := hash
  nVersion := 4
  vin := [{ prevout := ⟨100, 1000000000⟩, scriptSig := [0x01, 0xe2] }]
  vout := [⟨700, [0x51]⟩, ⟨0, [OP_RETURN, 0xe2]⟩]
  nExpiryHeight := nExpiryHeight

/-- Block 10: a coinbase and an import of the burn transaction 100. -/
def importBlock : CBlock := ⟨10, [coinbaseTx, importTx 51 20], 0⟩

theorem viewOk_viewWith {c : CCoins} (hc : RecordOk c) :
    ViewOk openParams index9 (viewWith c) where
  records txid := by
    simp only [viewWith, update_apply]
    split_ifs
    · exact hc
    · exact ⟨rfl, fun o ho => absurd ho not_mem_nil, fun h => absurd rfl h⟩
  sapling := rfl
  saplingTree tree h := by
    obtain rfl : [] = tree := Option.some.inj h
    rfl

/-- The record an earlier import left: its tombstone. -/
def tombstoneRecord : CCoins := CCoins.addTombstone 5 {}

theorem recordOk_tombstoneRecord : RecordOk tombstoneRecord :=
  ⟨rfl, by decide, by decide⟩

/-- The hypotheses of `disconnectBlock_restores_iff` are satisfiable: an import
of a burn transaction without a record is accepted and undone. -/
theorem disconnectBlock_restores_iff_import :
    ViewOk openParams index9 (viewWith {}) ∧ (∀ tx ∈ importBlock.vtx, NoSelfBurn tx) ∧
      Undoable (fun _ => false) (viewWith {}).coins
        (blockEvents (index9.nHeight + 1 : ℕ) importBlock.vtx) ∧
      ∃ v' undo, connectBlock openParams (viewWith {}) index9 importBlock = some (v', undo) ∧
        ((∃ w, disconnectBlock openParams v' index9 importBlock undo = some (w, true) ∧
            SameView w (viewWith {})) ↔
          Undoable (fun _ => false) (viewWith {}).coins
            (blockEvents (index9.nHeight + 1 : ℕ) importBlock.vtx)) := by
  have hv : ViewOk openParams index9 (viewWith {}) :=
    viewOk_viewWith ⟨rfl, fun o ho => absurd ho List.not_mem_nil, fun h => absurd rfl h⟩
  have hself : ∀ tx ∈ importBlock.vtx, NoSelfBurn tx := by
    unfold NoSelfBurn
    decide
  exact ⟨hv, hself, by decide, _, _, rfl, disconnectBlock_restores_iff hv hself rfl⟩

/-- **An import of a burn transaction that has a record is not undone.**  The
record under txid 100 holds the tombstone of an earlier import of the same burn
transaction. The block with another import of it is accepted, and
`DisconnectBlock` reports a clean undo and leaves no record there. -/
theorem second_import_not_undone :
    ViewOk openParams index9 (viewWith tombstoneRecord) ∧
      (∀ tx ∈ importBlock.vtx, NoSelfBurn tx) ∧
      ∃ v' undo,
        connectBlock openParams (viewWith tombstoneRecord) index9 importBlock = some (v', undo) ∧
        ¬ ∃ w, disconnectBlock openParams v' index9 importBlock undo = some (w, true) ∧
          SameView w (viewWith tombstoneRecord) := by
  refine ⟨viewOk_viewWith recordOk_tombstoneRecord, by unfold NoSelfBurn; decide, _, _, rfl, ?_⟩
  rintro ⟨w, hdis, hsame⟩
  have hlost : (w.coins 100).isPruned = true := by
    obtain rfl : _ = w := congrArg Prod.fst (Option.some.inj hdis)
    rfl
  have hkept : (w.coins 100).isPruned = tombstoneRecord.isPruned :=
    CCoins.isPruned_congr (hsame.coins 100)
  rw [hlost] at hkept
  exact absurd hkept (by decide)

end Komodo
