/-
# The root of the notarised roots

`CrossChain::CalculateProofRoot` and `ScanNotarisationsFromHeight` of `src/src/crosschain.cpp`.

A notarisation on KMD carries the root of the blocks that it notarises, the MoM. The root of a set
of such roots, the MoMoM, is computed for a chain at the height of one of its notarisations: the
scan goes backwards, begins to collect at the first block with a notarisation of that chain and
ends with the seventh notarisation of it. The other scan goes forwards, to the first
notarisation that passes a test; it stops before the block at the tip.

`scan_eq` and `mem_of_calculateProofRoot` say how the two fit together: the forward scan from the
block of a notarisation finds the next block of the target chain, and the root at that block covers
the notarisation, whenever it is defined.
-/

import Komodo.CrossChain.MerkleTree
import Komodo.CrossChain.NotarisationDB

namespace Komodo

open List

/-- What is read of a `CBlockIndex`. -/
structure NotarisedBlockIndex where
  phashBlock : Uint256
  nHeight : ℕ
  hashMerkleRoot : Uint256
  /-- `fHavePruned`, and the data of the block is not there. -/
  pruned : Bool := false
  /-- `ReadBlockFromDisk`: the transactions. The header that is read has the hash of the index. -/
  disk : Option (List CTransaction) := none

/-- A node with its chain and its databases. -/
structure CrossChainNode extends NotarisationEnv where
  chainName : Bytes
  /-- The blocks of the chain, by height. -/
  chainActive : List NotarisedBlockIndex
  pnotarisations : NotarisationDB
  mapBlockIndex : Uint256 → Option NotarisedBlockIndex
  /-- `GetTransaction`: the hash of the block, null for a transaction of the pool. -/
  getTransaction : Uint256 → Option Uint256
  /-- `Eval::GetTxUnconfirmed`, likewise. -/
  getTxUnconfirmed : Uint256 → Option Uint256

def NOTARISATION_SCAN_LIMIT_BLOCKS : ℕ := 1440

namespace CrossChainNode

variable (node : CrossChainNode)

/-- `chainActive.Height()` -/
def height : ℤ := node.chainActive.length - 1

/-- `GetBlockNotarisations` of the block at a height. -/
def notarisationsAt (h : ℕ) : Option (List Notarisation) :=
  (node.chainActive[h]?).bind fun block =>
    node.getBlockNotarisations node.pnotarisations block.phashBlock

/-! ### Forwards -/

/-- The loop of `ScanNotarisationsFromHeight`. -/
def scanLoop (f : Notarisation → Bool) : (turns h : ℕ) → Option (ℕ × Notarisation)
  | 0, _ => none
  | turns + 1, h =>
    match (node.notarisationsAt h).bind (List.find? f) with
    | some entry => some (h, entry)
    | none => scanLoop f turns (h + 1)

/-- `ScanNotarisationsFromHeight`: the height, which is 0 where nothing is found, and what is
found. -/
def scanNotarisationsFromHeight (nHeight : ℤ) (f : Notarisation → Bool) :
    Option (ℕ × Notarisation) :=
  let limit := min (nHeight + NOTARISATION_SCAN_LIMIT_BLOCKS) node.height
  let start := max nHeight 1
  node.scanLoop f (limit - start).toNat start.toNat

/-! ### Backwards -/

/-- The own notarisations of a block are counted: whether the seventh was met, where the scan ends,
and the number and the first of them so far. -/
def countOwn (symbol : Bytes) : List Notarisation → (seen : ℕ) → (dest : Uint256) →
    Bool × ℕ × Uint256
  | [], seen, dest => (false, seen, dest)
  | nota :: notarisations, seen, dest =>
    if nota.2.symbol = symbol then
      if seen + 1 = 1 then countOwn symbol notarisations (seen + 1) nota.1
      else if seen + 1 = 7 then (true, seen + 1, dest)
      else countOwn symbol notarisations (seen + 1) dest
    else countOwn symbol notarisations seen dest

/-- `std::set::insert`, in the order of the bytes. -/
def insertMoM (moms : List Uint256) (MoM : Uint256) : List Uint256 :=
  if MoM ∈ moms then moms
  else moms.orderedInsert (fun a b => uint256Bytes a ≤ uint256Bytes b) MoM

/-- A notarisation that goes into the set. -/
def collected (symbol : Bytes) (targetCCid : ℕ) (nota : Notarisation) : Bool :=
  node.getSymbolAuthority nota.2.symbol = node.getSymbolAuthority symbol
    && nota.2.ccId = targetCCid

/-- The loop of `CalculateProofRoot`: the set, and the first own notarisation, at the seventh. -/
def proofRootLoop (symbol : Bytes) (targetCCid kmdHeight : ℕ) : (turns i seen : ℕ) →
    (dest : Uint256) → (moms : List Uint256) → Option (List Uint256 × Uint256)
  | 0, _, _, _, _ => none
  | turns + 1, i, seen, dest, moms =>
    if i > kmdHeight then none
    else
      match node.notarisationsAt (kmdHeight - i) with
      | none => proofRootLoop symbol targetCCid kmdHeight turns (i + 1) seen dest moms
      | some notarisations =>
        let (ended, seen, dest) := countOwn symbol notarisations seen dest
        if ended then some (moms, dest)
        else
          let new := if seen ≥ 1 then notarisations.filter (node.collected symbol targetCCid) else []
          proofRootLoop symbol targetCCid kmdHeight turns (i + 1) seen dest
            ((new.map fun nota => nota.2.MoM).foldl insertMoM moms)

/-- `CalculateProofRoot`: the root, `moms` and `destNotarisationTxid`. -/
def calculateProofRoot (hash2 : Uint256 → Uint256 → Uint256) (symbol : Bytes) (targetCCid : ℕ)
    (kmdHeight : ℤ) : Uint256 × List Uint256 × Uint256 :=
  if targetCCid < 2 then (0, [], 0)
  else if kmdHeight < 0 ∨ kmdHeight > node.height then (0, [], 0)
  else
    match node.proofRootLoop symbol targetCCid kmdHeight.toNat NOTARISATION_SCAN_LIMIT_BLOCKS 0 0 0
      [] with
    | none => (0, [], 0)
    | some (moms, dest) => (computeMerkleRoot hash2 moms, moms, dest)

/-! ### The target chain -/

def isTarget (targetSymbol : Bytes) (nota : Notarisation) : Bool := nota.2.symbol = targetSymbol

/-- The number of notarisations of a chain in a block. -/
def ownAt (symbol : Bytes) (h : ℕ) : ℕ :=
  ((node.notarisationsAt h).getD []).countP (isTarget symbol)

/-- The first block from a height on with notarisations of the target chain, and it has few. -/
structure Follows (targetSymbol : Bytes) (kmdHeight T : ℕ) : Prop where
  le : kmdHeight ≤ T
  found : 0 < node.ownAt targetSymbol T
  few : node.ownAt targetSymbol T < 7
  first : ∀ h, kmdHeight ≤ h → h < T → node.ownAt targetSymbol h = 0

/-- The set after a block, once the scan collects. -/
def collectAt (symbol : Bytes) (targetCCid h : ℕ) (moms : List Uint256) : List Uint256 :=
  ((((node.notarisationsAt h).getD []).filter (node.collected symbol targetCCid)).map
    fun nota => nota.2.MoM).foldl insertMoM moms

section
variable {node} {symbol : Bytes} {targetCCid T turns i h seen : ℕ} {dest MoM : Uint256}
  {moms : List Uint256} {f : Notarisation → Bool}

theorem ownAt_eq_zero : node.ownAt symbol h = 0 ↔
    (node.notarisationsAt h).bind (find? (isTarget symbol)) = none := by
  unfold ownAt
  cases node.notarisationsAt h with
  | none => simp
  | some notarisations => simp [countP_eq_zero]

/-! ### The forward scan -/

theorem scanLoop_eq_some {entry : Notarisation} (hle : h ≤ T) (hlt : T < h + turns)
    (hnone : ∀ j, h ≤ j → j < T → (node.notarisationsAt j).bind (find? f) = none)
    (hsome : (node.notarisationsAt T).bind (find? f) = some entry) :
    node.scanLoop f turns h = some (T, entry) := by
  induction turns generalizing h with
  | zero => omega
  | succ turns ih =>
    rw [scanLoop]
    rcases Nat.eq_or_lt_of_le hle with rfl | hbefore
    · rw [hsome]
    · rw [hnone h le_rfl hbefore]
      exact ih hbefore (by omega) fun j hj => hnone j (by omega)

theorem scanLoop_eq_none
    (hnone : ∀ j, h ≤ j → j < h + turns → (node.notarisationsAt j).bind (find? f) = none) :
    node.scanLoop f turns h = none := by
  induction turns generalizing h with
  | zero => rfl
  | succ turns ih =>
    rw [scanLoop, hnone h le_rfl (by omega)]
    exact ih fun j hj hlt => hnone j (by omega) (by omega)

theorem lt_length_of_ownAt (h : 0 < node.ownAt symbol T) : T < node.chainActive.length := by
  by_contra hout
  have hnone : node.notarisationsAt T = none := by
    rw [notarisationsAt, getElem?_eq_none (by omega), Option.bind_none]
  rw [ownAt, hnone] at h
  simp at h

/-- The scan finds the block of the target chain that follows, unless it is the tip. -/
theorem scan_eq (h : node.Follows symbol i T) (hpos : 1 ≤ T)
    (hlimit : T < i + NOTARISATION_SCAN_LIMIT_BLOCKS) :
    ((node.scanNotarisationsFromHeight i (isTarget symbol)).map Prod.fst)
      = if (T : ℤ) < node.height then some T else none := by
  have hin := lt_length_of_ownAt h.found
  have hle := h.le
  have hnone : ∀ j, (max (i : ℤ) 1).toNat ≤ j → j < T →
      (node.notarisationsAt j).bind (find? (isTarget symbol)) = none := by
    intro j hj hlt
    exact ownAt_eq_zero.1 (h.first j (by omega) hlt)
  rw [scanNotarisationsFromHeight]
  split_ifs with htip
  · obtain ⟨entry, hentry⟩ := Option.ne_none_iff_exists'.1
      (mt ownAt_eq_zero.2 (Nat.pos_iff_ne_zero.1 h.found))
    rw [scanLoop_eq_some (by omega) (by omega) hnone hentry]
    rfl
  · rw [scanLoop_eq_none fun j hj hlt => hnone j hj ?_]
    · rfl
    · unfold height at htip hlt
      omega

/-! ### The backward scan -/

theorem countOwn_eq {notarisations : List Notarisation} (dest : Uint256)
    (hfew : seen + notarisations.countP (isTarget symbol) < 7) : ∃ dest',
      countOwn symbol notarisations seen dest
        = (false, seen + notarisations.countP (isTarget symbol), dest') := by
  induction notarisations generalizing seen dest with
  | nil => exact ⟨dest, rfl⟩
  | cons nota notarisations ih =>
    rw [countOwn]
    by_cases hown : nota.2.symbol = symbol
    · have hcount : (nota :: notarisations).countP (isTarget symbol)
          = notarisations.countP (isTarget symbol) + 1 :=
        countP_cons_of_pos (by simp [isTarget, hown])
      rw [hcount] at hfew ⊢
      rw [if_pos hown, if_neg (by omega : ¬ seen + 1 = 7)]
      have hsum : seen + (notarisations.countP (isTarget symbol) + 1)
          = seen + 1 + notarisations.countP (isTarget symbol) := by omega
      rw [hsum]
      split_ifs
      · exact ih nota.1 (by omega)
      · exact ih dest (by omega)
    · have hcount : (nota :: notarisations).countP (isTarget symbol)
          = notarisations.countP (isTarget symbol) :=
        countP_cons_of_neg (by simp [isTarget, hown])
      rw [hcount] at hfew ⊢
      rw [if_neg hown]
      exact ih dest hfew

/-- One block of the scan that does not end it. -/
theorem proofRootLoop_step (targetCCid turns : ℕ) (dest : Uint256) (moms : List Uint256)
    (hi : i ≤ T) (hfew : seen + node.ownAt symbol (T - i) < 7) :
    ∃ dest', node.proofRootLoop symbol targetCCid T (turns + 1) i seen dest moms
      = node.proofRootLoop symbol targetCCid T turns (i + 1) (seen + node.ownAt symbol (T - i)) dest'
        (if 1 ≤ seen + node.ownAt symbol (T - i) then node.collectAt symbol targetCCid (T - i) moms
          else moms) := by
  rw [proofRootLoop, if_neg (by omega)]
  unfold ownAt at hfew ⊢
  unfold collectAt
  cases hat : node.notarisationsAt (T - i) with
  | none => exact ⟨dest, by simp⟩
  | some notarisations =>
    rw [hat, Option.getD_some] at hfew
    obtain ⟨dest', hcount⟩ := countOwn_eq dest hfew
    refine ⟨dest', ?_⟩
    simp only [Option.getD_some]
    rw [hcount, if_neg Bool.false_ne_true]
    by_cases hseen : 1 ≤ seen + notarisations.countP (isTarget symbol)
    · rw [if_pos hseen, if_pos hseen]
    · rw [if_neg hseen, if_neg hseen]
      rfl

theorem proofRootLoop_eq_none (hseen : seen < 7)
    (hquiet : ∀ j, i ≤ j → j ≤ T → j < i + turns → node.ownAt symbol (T - j) = 0) :
    node.proofRootLoop symbol targetCCid T turns i seen dest moms = none := by
  induction turns generalizing i seen dest moms with
  | zero => rfl
  | succ turns ih =>
    rcases Nat.lt_or_ge T i with hout | hin
    · rw [proofRootLoop, if_pos hout]
    · have hnone := hquiet i le_rfl hin (by omega)
      obtain ⟨dest', hstep⟩ := proofRootLoop_step targetCCid turns dest moms hin
        (by omega : seen + node.ownAt symbol (T - i) < 7)
      rw [hstep]
      exact ih (by omega) fun j hj hT hlt => hquiet j (by omega) hT (by omega)

theorem mem_insertMoM {m : Uint256} : m ∈ insertMoM moms MoM ↔ m = MoM ∨ m ∈ moms := by
  unfold insertMoM
  split_ifs with hmem
  · exact ⟨Or.inr, fun h => h.elim (fun heq => heq ▸ hmem) id⟩
  · exact mem_orderedInsert _

theorem mem_foldl_insertMoM {m : Uint256} {new : List Uint256} :
    m ∈ new.foldl insertMoM moms ↔ m ∈ new ∨ m ∈ moms := by
  induction new generalizing moms with
  | nil => simp
  | cons MoM new ih =>
    rw [foldl_cons, ih, mem_insertMoM, mem_cons]
    tauto

variable {r : List Uint256 × Uint256}

/-- What is in the set stays. -/
theorem mem_of_proofRootLoop {m : Uint256} (hm : m ∈ moms)
    (h : node.proofRootLoop symbol targetCCid T turns i seen dest moms = some r) : m ∈ r.1 := by
  induction turns generalizing i seen dest moms with
  | zero => cases h
  | succ turns ih =>
    rw [proofRootLoop] at h
    split at h
    · cases h
    · split at h
      · exact ih hm h
      · simp only at h
        split at h
        · cases h
          exact hm
        · exact ih (mem_foldl_insertMoM.2 (Or.inr hm)) h

theorem proofRootLoop_quiet (hi : i ≤ T) (hseen : 1 ≤ seen ∧ seen < 7)
    (hquiet : node.ownAt symbol (T - i) = 0)
    (h : node.proofRootLoop symbol targetCCid T (turns + 1) i seen dest moms = some r) :
    ∃ dest', node.proofRootLoop symbol targetCCid T turns (i + 1) seen dest'
      (node.collectAt symbol targetCCid (T - i) moms) = some r := by
  obtain ⟨dest', hstep⟩ := proofRootLoop_step targetCCid turns dest moms hi
    (by omega : seen + node.ownAt symbol (T - i) < 7)
  rw [hstep, if_pos (by omega), hquiet] at h
  exact ⟨dest', h⟩

/-- The scan goes on over blocks without notarisations of the chain, down to a notarisation that it
collects. -/
theorem mem_of_reached {nota : Notarisation} {d : ℕ}
    (hseen : 1 ≤ seen ∧ seen < 7) (hle : i + d ≤ T) (hturns : d ≤ turns)
    (hquiet : ∀ j, i ≤ j → j ≤ i + d → node.ownAt symbol (T - j) = 0)
    (hnota : nota ∈ (node.notarisationsAt (T - (i + d))).getD [])
    (hcollected : node.collected symbol targetCCid nota = true)
    (h : node.proofRootLoop symbol targetCCid T (turns + 1) i seen dest moms = some r) :
    nota.2.MoM ∈ r.1 := by
  obtain ⟨dest', hrest⟩ := proofRootLoop_quiet (by omega) hseen (hquiet i le_rfl (by omega)) h
  induction d generalizing turns i dest dest' moms with
  | zero =>
    refine mem_of_proofRootLoop (mem_foldl_insertMoM.2 (Or.inl ?_)) hrest
    exact mem_map_of_mem (mem_filter.2 ⟨hnota, hcollected⟩)
  | succ d ih =>
    obtain ⟨turns, rfl⟩ := Nat.exists_eq_succ_of_ne_zero (by omega : turns ≠ 0)
    obtain ⟨dest'', hrest'⟩ := proofRootLoop_quiet (by omega) hseen
      (hquiet (i + 1) (by omega) (by omega)) hrest
    refine ih (by omega) (by omega) (fun j hj hd => ?_) ?_ hrest dest'' hrest'
    · exact hquiet j (by omega) (by omega)
    · rwa [Nat.add_right_comm]

/-- What a root that is not null says. -/
theorem calculateProofRoot_eq {hash2 : Uint256 → Uint256 → Uint256} {MoMoM : Uint256} {T : ℕ}
    (h : node.calculateProofRoot hash2 symbol targetCCid T = (MoMoM, moms, dest))
    (hdefined : MoMoM ≠ 0) : MoMoM = computeMerkleRoot hash2 moms ∧
      node.proofRootLoop symbol targetCCid T NOTARISATION_SCAN_LIMIT_BLOCKS 0 0 0 []
        = some (moms, dest) := by
  unfold calculateProofRoot at h
  split_ifs at h
  · exact absurd (congrArg Prod.fst h).symm hdefined
  · exact absurd (congrArg Prod.fst h).symm hdefined
  · rw [Int.toNat_natCast] at h
    split at h
    · exact absurd (congrArg Prod.fst h).symm hdefined
    · rename_i moms' dest' hloop
      obtain ⟨rfl, hrest⟩ := Prod.mk.inj h
      obtain ⟨rfl, rfl⟩ := Prod.mk.inj hrest
      exact ⟨rfl, hloop⟩

theorem Follows.step (h : node.Follows symbol i T) (targetCCid turns : ℕ) (dest : Uint256)
    (moms : List Uint256) : ∃ dest', node.proofRootLoop symbol targetCCid T (turns + 1) 0 0 dest moms
      = node.proofRootLoop symbol targetCCid T turns 1 (node.ownAt symbol T) dest'
        (node.collectAt symbol targetCCid T moms) := by
  have hfew := h.few
  have hfound := h.found
  obtain ⟨dest', hstep⟩ := proofRootLoop_step targetCCid turns dest moms (Nat.zero_le T)
    (by rw [Nat.sub_zero]; omega : 0 + node.ownAt symbol (T - 0) < 7)
  rw [Nat.sub_zero, if_pos (by omega), Nat.zero_add (node.ownAt symbol T)] at hstep
  exact ⟨dest', hstep⟩

theorem Follows.near (h : node.Follows symbol i T)
    (hloop : node.proofRootLoop symbol targetCCid T NOTARISATION_SCAN_LIMIT_BLOCKS 0 0 dest moms
      = some r) : 1 ≤ T ∧ T < i + NOTARISATION_SCAN_LIMIT_BLOCKS := by
  unfold NOTARISATION_SCAN_LIMIT_BLOCKS at hloop ⊢
  by_contra hfar
  obtain ⟨dest', hstep⟩ := h.step targetCCid 1439 dest moms
  rw [hstep, proofRootLoop_eq_none h.few fun j hj hT hlt => ?_] at hloop
  · cases hloop
  · exact h.first (T - j) (by omega) (by omega)

/-- **The root at the block of the target chain that follows a notarisation covers it.** -/
theorem mem_of_calculateProofRoot {nota : Notarisation}
    (h : node.Follows symbol i T)
    (hloop : node.proofRootLoop symbol targetCCid T NOTARISATION_SCAN_LIMIT_BLOCKS 0 0 dest moms
      = some r)
    (hnota : nota ∈ (node.notarisationsAt i).getD [])
    (hcollected : node.collected symbol targetCCid nota = true) : nota.2.MoM ∈ r.1 := by
  have hnear := (h.near hloop).2
  unfold NOTARISATION_SCAN_LIMIT_BLOCKS at hloop hnear
  obtain ⟨dest', hstep⟩ := h.step targetCCid 1439 dest moms
  rw [hstep] at hloop
  rcases Nat.eq_or_lt_of_le h.le with rfl | hlt
  · refine mem_of_proofRootLoop (mem_foldl_insertMoM.2 (Or.inl ?_)) hloop
    exact mem_map_of_mem (mem_filter.2 ⟨hnota, hcollected⟩)
  · have hat : T - (1 + (T - i - 1)) = i := by omega
    refine mem_of_reached ⟨h.found, h.few⟩ (by omega : 1 + (T - i - 1) ≤ T) (by omega)
      (fun j hj hd => ?_) (by rwa [hat]) hcollected hloop
    exact h.first (T - j) (by omega) (by omega)

end

end CrossChainNode

end Komodo
