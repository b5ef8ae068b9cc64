/-
# The segids of a hundred blocks

`komodo_segid` and `komodo_segids` of `src/src/komodo_bitcoind.cpp`.  The bytes of the hundred
blocks in front of a staked block are hashed with what is staked (`komodo_stake`).

`komodo_segid` stores what it finds in the index entry of a block, which does not change what it
finds (`komodoSegid_segid`).  `komodo_segids` keeps its last hundred bytes under their height alone:
it is a memo whose world is the active chain (`answers_eq_memo`), and gives the bytes of a chain that
is not active any more when the height comes again.  After a start it keeps a hundred zeros for height
0, where the byte of a height without a segid is 255.
-/

import Komodo.Lib.Memo
import Komodo.Script.Script

namespace Komodo
namespace Staking

/-- An entry of the active chain; `segid` is -2 until it is set. -/
structure BlockIndex where
  hash : Uint256
  nTime : ℕ
  segid : ℤ := -2
deriving DecidableEq

/-- A block as it is read from the disk. -/
structure StoredBlock where
  nTime : ℕ
  vtx : List CTransaction

/-- The active chain, and what else `komodo_segid` depends on. -/
structure World where
  /-- `chainActive`, from the genesis block on. -/
  chain : List BlockIndex
  /-- `komodo_blockload`. -/
  blockload : Uint256 → Option StoredBlock := fun _ => none
  /-- `komodo_newStakerActive`. -/
  newStakerActive : (height : ℤ) → (timestamp : ℕ) → Bool := fun _ _ => false
  /-- `komodo_txtime`: the value and the address of an output. -/
  txtime : COutPoint → ℤ × Bytes := fun _ => (0, [])
  /-- `ExtractDestination`, with the address as a string. -/
  extractDestination : CScript → Option Bytes := fun _ => none
  /-- `DecodeStakingOpRet` finds a merkle root. -/
  decodeStakingOpRet : CScript → Bool := fun _ => false
  /-- `komodo_segid32`. -/
  segid32 : Bytes → ℕ := fun _ => 0

variable (w : World)

/-- `komodo_hasOpRet`. -/
def World.hasOpRet (height : ℤ) (timestamp : ℕ) : ℕ := (w.newStakerActive height timestamp).toNat

/-- `komodo_chainactive`, where the height is positive. -/
def World.chainactive (height : ℤ) : Option BlockIndex := w.chain[height.toNat]?

/-- The segid of the address that a staking transaction pays, if it is one: it says so, or pays back
what it spends. -/
def World.stakedSegid (newStakerActive : Bool) (tx : CTransaction) (txin : CTxIn) (out : CTxOut) :
    ℤ :=
  let (value, destaddr) := w.txtime txin.prevout
  match w.extractDestination out.scriptPubKey with
  | none => -1
  | some voutaddr =>
    let decoded := tx.vout[1]?.any fun opret => w.decodeStakingOpRet opret.scriptPubKey
    if (newStakerActive ∧ tx.vout.length = 2 ∧ decoded)
        ∨ (¬ newStakerActive ∧ destaddr = voutaddr ∧ out.nValue = value) then
      (w.segid32 voutaddr % 64 : ℕ)
    else -1

/-- What `komodo_segid` finds in a block: its last transaction may be a staking transaction. -/
def World.blockSegid (height : ℤ) (pindex : BlockIndex) : ℤ :=
  match w.blockload pindex.hash with
  | none => -1
  | some block =>
    match block.vtx.getLast? with
    | none => -1
    | some tx =>
      match tx.vin, tx.vout with
      | [txin], out :: _ =>
        if 1 < block.vtx.length ∧ tx.vout.length = 1 + w.hasOpRet height pindex.nTime then
          w.stakedSegid (w.newStakerActive height block.nTime) tx txin out
        else -1
      | _, _ => -1

/-- The segid of an entry is set. -/
def World.setSegid (height : ℤ) (segid : ℤ) : World :=
  { w with chain := w.chain.modify height.toNat fun pindex => { pindex with segid } }

def World.komodoSegid (nocache : Bool) (height : ℤ) : ℤ × World :=
  if 0 < height then
    match w.chainactive height with
    | none => (-1, w)
    | some pindex =>
      if nocache = false ∧ -1 ≤ pindex.segid then (pindex.segid, w)
      else
        let segid := w.blockSegid height pindex
        (segid, if pindex.segid = -2 then w.setSegid height segid else w)
  else (-1, w)

/-- The cast to `uint8_t`. -/
def segidByte (segid : ℤ) : UInt8 := UInt8.ofNat (segid % 256).toNat

/-- The loop of `komodo_segids`. -/
def World.segidsLoop (w : World) : (n : ℕ) → (height : ℤ) → Bytes × World
  | 0, _ => ([], w)
  | n + 1, height =>
    let segid := w.komodoSegid false height
    let rest := World.segidsLoop segid.2 n (height + 1)
    (segidByte segid.1 :: rest.1, rest.2)

/-- A node with the static variables of `komodo_segids`. -/
structure Node where
  world : World
  prevheight : ℤ := 0
  prevhashbuf : Bytes := List.replicate 100 0

/-- `komodo_segids`: `hashbuf`. -/
def Node.komodoSegids (node : Node) (height : ℤ) (n : ℕ) : Bytes × Node :=
  if height = node.prevheight ∧ n = 100 then (node.prevhashbuf, node)
  else
    let filled := node.world.segidsLoop n height
    if n = 100 then
      (filled.1, { world := filled.2, prevheight := height, prevhashbuf := filled.1 })
    else (filled.1, { node with world := filled.2 })

/-! ### The segids of a chain -/

/-- The segid of the block at a height: the one that is set, or the one that is found in the block. -/
def World.segid (height : ℤ) : ℤ := (w.komodoSegid false height).1

/-- The bytes for a hundred blocks. -/
def segidBytes (segid : ℤ → ℤ) (height : ℤ) : Bytes :=
  (List.range 100).map fun i : ℕ => segidByte (segid (height + i))

variable {w : World} {height : ℤ}

theorem neg_one_le_blockSegid (w : World) (height : ℤ) (pindex : BlockIndex) :
    -1 ≤ w.blockSegid height pindex := by
  have hstaked : ∀ newStakerActive tx txin out,
      -1 ≤ w.stakedSegid newStakerActive tx txin out := by
    intro newStakerActive tx txin out
    unfold World.stakedSegid
    cases w.extractDestination out.scriptPubKey with
    | none => exact Int.le_refl _
    | some voutaddr =>
      simp only
      split_ifs <;> omega
  unfold World.blockSegid
  split
  · omega
  · split
    · omega
    · split
      · split_ifs
        · exact hstaked ..
        · omega
      · omega

/-- Setting a segid that has not been set does not change what is found. -/
theorem setSegid_segid {pindex : BlockIndex} (hpos : 0 < height)
    (hactive : w.chainactive height = some pindex) (hunset : pindex.segid = -2) :
    (w.setSegid height (w.blockSegid height pindex)).segid = w.segid := by
  have hset := neg_one_le_blockSegid w height pindex
  funext height'
  unfold World.segid World.komodoSegid
  by_cases hpos' : 0 < height'
  · rw [if_pos hpos', if_pos hpos']
    by_cases hsame : height' = height
    · subst hsame
      have hactive' : (w.setSegid height' (w.blockSegid height' pindex)).chainactive height'
          = some { pindex with segid := w.blockSegid height' pindex } := by
        show (w.chain.modify height'.toNat _)[height'.toNat]? = _
        rw [List.getElem?_modify, show w.chain[height'.toNat]? = some pindex from hactive]
        exact congrArg some (if_pos rfl)
      rw [hactive, hactive']
      simp only
      rw [if_pos ⟨trivial, hset⟩, if_neg fun h => absurd h.2 (by omega)]
    · have hother : (w.setSegid height (w.blockSegid height pindex)).chainactive height'
          = w.chainactive height' := by
        show (w.chain.modify height.toNat _)[height'.toNat]? = w.chain[height'.toNat]?
        rw [List.getElem?_modify]
        have hne : height.toNat ≠ height'.toNat := by omega
        simp only [if_neg hne, id_map']
      rw [hother]
      cases w.chainactive height' with
      | none => rfl
      | some pindex' =>
        simp only
        split_ifs <;> rfl
  · rw [if_neg hpos', if_neg hpos']

theorem komodoSegid_segid (w : World) (nocache : Bool) (height : ℤ) :
    (w.komodoSegid nocache height).2.segid = w.segid := by
  unfold World.komodoSegid
  by_cases hpos : 0 < height
  · rw [if_pos hpos]
    cases hactive : w.chainactive height with
    | none => rfl
    | some pindex =>
      simp only
      split_ifs with hset hunset
      · rfl
      · exact setSegid_segid hpos hactive hunset
      · rfl
  · rw [if_neg hpos]

theorem segidsLoop_eq (w : World) (n : ℕ) (height : ℤ) :
    (w.segidsLoop n height).1 = (List.range n).map (fun i : ℕ => segidByte (w.segid (height + i)))
      ∧ (w.segidsLoop n height).2.segid = w.segid := by
  induction n generalizing w height with
  | zero => exact ⟨rfl, rfl⟩
  | succ n ih =>
    obtain ⟨hbytes, hsegid⟩ := ih (w.komodoSegid false height).2 (height + 1)
    rw [komodoSegid_segid] at hbytes hsegid
    refine ⟨?_, hsegid⟩
    show segidByte (w.segid height)
      :: (World.segidsLoop (w.komodoSegid false height).2 n (height + 1)).1 = _
    rw [hbytes, List.range_succ_eq_map, List.map_cons, List.map_map,
      show height + ((0 : ℕ) : ℤ) = height by omega]
    congr 1
    refine List.map_congr_left fun i _ => ?_
    show _ = segidByte (w.segid (height + (i + 1 : ℕ)))
    rw [show height + ((i + 1 : ℕ) : ℤ) = height + 1 + i by omega]

/-! ### Runs -/

/-- What a node goes through.  The active chain changes when blocks are connected or disconnected,
or when one is found valid and its segid is set. -/
inductive Event
  | segids (height : ℤ) (n : ℕ)
  | segid (nocache : Bool) (height : ℤ)
  | chain (w : World)
  | restart (w : World)

/-- The answers of a run to calls for a hundred blocks, each with the bytes of the active chain. -/
def Node.answers : Node → List Event → List (Bytes × Bytes)
  | _, [] => []
  | node, .segids height n :: events =>
    let r := node.komodoSegids height n
    if n = 100 then (r.1, segidBytes node.world.segid height) :: Node.answers r.2 events
    else Node.answers r.2 events
  | node, .segid nocache height :: events =>
    Node.answers { node with world := (node.world.komodoSegid nocache height).2 } events
  | node, .chain world :: events => Node.answers { node with world } events
  | _, .restart world :: events => Node.answers { world } events

/-- What is kept after a start: a hundred zeros for height 0. -/
def kept : ℤ × Bytes := (0, List.replicate 100 0)

/-- The event of the memo: its world are the segids of the active chain. -/
def Event.memo : Event → Option (Memo.Event (ℤ → ℤ) ℤ)
  | .segids height n => if n = 100 then some (.ask height) else none
  | .segid _ _ => none
  | .chain w => some (.change w.segid)
  | .restart w => some (.restart w.segid)

/-- The node as a memo. -/
def Node.memo (node : Node) : Memo.State (ℤ → ℤ) ℤ Bytes where
  world := node.world.segid
  key := node.prevheight
  answer := node.prevhashbuf

theorem komodoSegids_memo (node : Node) (height : ℤ) :
    (node.komodoSegids height 100).1 = (node.memo.ask segidBytes height).1
      ∧ (node.komodoSegids height 100).2.memo = (node.memo.ask segidBytes height).2 := by
  have hbytes : (node.world.segidsLoop 100 height).1 = segidBytes node.world.segid height :=
    (segidsLoop_eq node.world 100 height).1
  have hsegid := (segidsLoop_eq node.world 100 height).2
  unfold Node.komodoSegids Memo.State.ask
  generalize node.world.segidsLoop 100 height = filled at hbytes hsegid ⊢
  by_cases hkey : height = node.prevheight
  · rw [if_pos ⟨hkey, rfl⟩, if_pos (show height = node.memo.key from hkey)]
    exact ⟨rfl, rfl⟩
  · rw [if_neg fun h => hkey h.1, if_neg (show ¬ height = node.memo.key from hkey)]
    refine ⟨hbytes, ?_⟩
    show Memo.State.mk filled.2.segid height filled.1 = _
    rw [hsegid, hbytes]
    rfl

theorem komodoSegids_other (node : Node) (height : ℤ) {n : ℕ} (hn : n ≠ 100) :
    (node.komodoSegids height n).2.memo = node.memo := by
  obtain ⟨-, hsegid⟩ := segidsLoop_eq node.world n height
  unfold Node.komodoSegids
  rw [if_neg fun h => hn h.2]
  simp only [if_neg hn]
  unfold Node.memo
  rw [hsegid]

/-- **The node is a memo of the segids.** -/
theorem answers_eq_memo (node : Node) (events : List Event) :
    node.answers events
      = Memo.answers segidBytes kept node.memo (events.filterMap Event.memo) := by
  induction events generalizing node with
  | nil => rfl
  | cons event events ih =>
    cases event with
    | segids height n =>
      unfold Node.answers
      by_cases hn : n = 100
      · subst hn
        obtain ⟨hanswer, hstate⟩ := komodoSegids_memo node height
        simp only [if_true]
        rw [ih, hanswer, hstate]
        rfl
      · simp only [if_neg hn]
        have hnone : Event.memo (.segids height n) = none := if_neg hn
        rw [ih, komodoSegids_other node height hn, List.filterMap_cons_none hnone]
    | segid nocache height =>
      unfold Node.answers
      rw [ih, List.filterMap_cons_none rfl]
      unfold Node.memo
      rw [komodoSegid_segid]
    | chain w => exact ih _
    | restart w => exact ih _

/-- Between two calls for the same height, with no other between them and no start, the segids of the
hundred blocks have not changed; and the first call after a start is not for a height whose bytes are
not those that are kept. -/
def SteadyRun (w : World) (events : List Event) : Prop :=
  Memo.Steady segidBytes kept kept w.segid (events.filterMap Event.memo)

/-- **The bytes of a run are those of the active chain if and only if the run is steady.** -/
theorem answers_right_iff (w : World) (events : List Event) :
    (∀ p ∈ ({ world := w } : Node).answers events, p.1 = p.2) ↔ SteadyRun w events := by
  rw [answers_eq_memo]
  exact Memo.right_iff_steady

/-- A reorganisation between two calls for the same height: the second gives the segid of the block
that has been disconnected. -/
theorem answers_stale : ¬ ∀ (w : World) (events : List Event),
    ∀ p ∈ ({ world := w } : Node).answers events, p.1 = p.2 := by
  intro h
  let genesis : BlockIndex := { hash := 0, nTime := 0, segid := -1 }
  let before : World := { chain := [genesis, { hash := 1, nTime := 60, segid := 5 }] }
  let behind : World := { chain := [genesis, { hash := 2, nTime := 61, segid := 6 }] }
  have hrun := h before [.segids 1 100, .chain behind, .segids 1 100]
  exact absurd hrun (by decide)

end Staking
end Komodo
