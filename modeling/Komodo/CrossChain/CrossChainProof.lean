/-
# From a transaction to the root of roots

`CrossChain::GetAssetchainProof` and `CrossChain::GetCrossChainProof` of `src/src/crosschain.cpp`.

An asset chain proves that a transaction is in a block and the block under the MoM of a
notarisation: two branches, one on the other. KMD, which has the notarisation, adds the branch
from the MoM to the MoMoM that another chain will receive. `crossChain_proof_iff` follows a
transaction through the three trees. The proof exists exactly when the notarisation of the other
chain is not in the block at the tip of KMD, which `ScanNotarisationsFromHeight` leaves out.
-/

import Komodo.CrossChain.ProofRoot

namespace Komodo

open HashTree List

/-- The two branches of a proof of an asset chain, and what they start from. -/
structure AssetchainParts where
  /-- The notarisation on this chain. -/
  nota : Notarisation
  /-- The transactions of the block. -/
  txids : List Uint256
  /-- The index of the block among the leaves of the MoM. -/
  nIndex : ℕ
  branch : List Uint256
  nTxIndex : ℕ
  txBranch : List Uint256

namespace CrossChainNode

variable (node : CrossChainNode) (hash2 : Uint256 → Uint256 → Uint256)

/-! ### On the asset chain -/

/-- The leaves of the MoM: the roots of the blocks, from the notarised one downwards. A height that
is not in the chain is a null pointer. -/
def momLeaves (d : NotarisationData) : Option (List Uint256) :=
  (List.range d.MoMDepth).mapM fun i =>
    if i ≤ d.height then (node.chainActive[d.height - i]?).map NotarisedBlockIndex.hashMerkleRoot
    else none

/-- `GetAssetchainProof` up to the concatenation. -/
def assetchainParts (hash : Uint256) : Checked AssetchainParts := do
  let blockHash ← expect (node.getTransaction hash) "cannot find transaction"
  require (blockHash ≠ 0) "tx still in mempool"
  let blockIndex ← defined (node.mapBlockIndex blockHash)
  let (_, nota) ← expect (node.scanNotarisationsFromHeight blockIndex.nHeight fun nota =>
      nota.2.symbol = node.chainName && blockIndex.nHeight ≤ nota.2.height)
    "backnotarisation not yet confirmed"
  let nIndex := nota.2.height - blockIndex.nHeight
  let leaves ← defined (node.momLeaves nota.2)
  let branch := getMerkleBranch nIndex leaves.length (buildMerkleTree hash2 leaves)
  require (nota.2.MoM = safeCheckMerkleBranch hash2 blockIndex.hashMerkleRoot branch (toInt nIndex))
    "Failed merkle block->MoM"
  require (!blockIndex.pruned) "Block not available (pruned data)"
  let vtx ← expect blockIndex.disk "Can't read block from disk"
  let nTxIndex ← expect (vtx.findIdx? fun tx => tx.hash = hash) "Error locating tx in block"
  let txids := vtx.map CTransaction.hash
  let txBranch := getMerkleBranch nTxIndex txids.length (buildMerkleTree hash2 txids)
  require (blockIndex.hashMerkleRoot = checkMerkleBranch hash2 hash txBranch nTxIndex)
    "Failed merkle tx->block"
  pure ⟨nota, txids, nIndex, branch, nTxIndex, txBranch⟩

def getAssetchainProof (hash : Uint256) : Checked TxProof := do
  let p ← node.assetchainParts hash2 hash
  let shifted ← shiftLeft p.nIndex p.txBranch.length
  let nIndex := toInt (shifted + p.nTxIndex)
  let branch := p.txBranch ++ p.branch
  require (p.nota.2.MoM = checkMerkleBranch hash2 hash branch nIndex) "Failed validating MoM"
  pure (p.nota.2.txHash, ⟨nIndex, branch⟩)

/-! ### On KMD -/

/-- `Eval::GetTxConfirmed`: the block of the transaction. -/
def getTxConfirmed (hash : Uint256) : Option NotarisedBlockIndex := do
  let hashBlock ← node.getTxUnconfirmed hash
  guard (hashBlock ≠ 0)
  node.mapBlockIndex hashBlock

/-- `GetCrossChainProof`. The fake transactions of the source are the roots themselves. -/
def getCrossChainProof (txid : Uint256) (targetSymbol : Bytes) (targetCCid : ℕ)
    (assetChainProof : TxProof) (offset : ℤ) : Checked TxProof := do
  let MoM := assetChainProof.2.exec hash2 txid
  let blockIdx ← expect (node.getTxConfirmed assetChainProof.1) "Notarisation not found"
  let (kmdHeight, _) ← expect
    (node.scanNotarisationsFromHeight blockIdx.nHeight (isTarget targetSymbol))
    "Cannot find notarisation for target inclusive of source"
  let (MoMoM, moms, targetChainNotarisationTxid) :=
    node.calculateProofRoot hash2 targetSymbol targetCCid (kmdHeight + offset)
  require (MoMoM ≠ 0) "No MoMs found"
  let nIndex ← expect (moms.findIdx? fun mom => mom = MoM) "Couldn't find MoM within MoMoM set"
  let vBranch := getMerkleBranch nIndex moms.length (buildMerkleTree hash2 moms)
  let newBranch ← assetChainProof.2.append ⟨nIndex, vBranch⟩
  require (newBranch.exec hash2 txid = MoMoM) "Proof check failed"
  pure (targetChainNotarisationTxid, newBranch)

/-- The notarisation of a proof is recorded on KMD at a height: its transaction is in that block,
and the block has it in the database, with its root, for a chain that can be imported from. -/
structure Records (proof : TxProof) (MoM : Uint256) (targetSymbol : Bytes) (targetCCid S : ℕ) :
    Prop where
  confirmed : (node.getTxConfirmed proof.1).map NotarisedBlockIndex.nHeight = some S
  listed : ∃ nota ∈ (node.notarisationsAt S).getD [], nota.1 = proof.1 ∧ nota.2.MoM = MoM ∧
    node.collected targetSymbol targetCCid nota = true

section
variable {node} {hash2} {txid MoM MoMoM dest : Uint256} {proof : TxProof} {p : AssetchainParts}
  {targetSymbol : Bytes} {targetCCid S T : ℕ} {moms : List Uint256}

/-! ### The two branches of the asset chain -/

theorem first_of_findIdx? {l : List Uint256} {a : Uint256} {i : ℕ}
    (h : l.findIdx? (fun b => b = a) = some i) :
    i < l.length ∧ l.getD i 0 = a ∧ First l i := by
  obtain ⟨hi, heq, hbefore⟩ := findIdx?_eq_some_iff_getElem.1 h
  have hat : l.getD i 0 = a := by
    rw [getD_eq_getElem _ _ hi]
    exact of_decide_eq_true heq
  refine ⟨hi, hat, fun q hq heq' => hbefore q hq ?_⟩
  rw [decide_eq_true_eq, ← hat, ← getD_eq_getElem l 0 (by omega)]
  exact heq'

theorem length_of_mapM {f : ℕ → Option Uint256} {l : List ℕ} {l' : List Uint256}
    (h : l.mapM f = some l') : l'.length = l.length := by
  induction l generalizing l' with
  | nil =>
    cases h
    rfl
  | cons k l ih =>
    rw [mapM_cons] at h
    simp only [Option.bind_eq_bind, Option.bind_eq_some_iff, Option.pure_def,
      Option.some.injEq] at h
    obtain ⟨b, -, rest, hrest, rfl⟩ := h
    rw [length_cons, ih hrest, length_cons]

/-- What the parts of a proof have passed. -/
structure PartsOk (node : CrossChainNode) (hash2 : Uint256 → Uint256 → Uint256) (txid : Uint256)
    (p : AssetchainParts) (hashMerkleRoot : Uint256) : Prop where
  branch : ∃ leaves : List Uint256, leaves.length = p.nota.2.MoMDepth ∧
    p.branch = path hash2 leaves p.nIndex
  block : p.nota.2.MoM = safeCheckMerkleBranch hash2 hashMerkleRoot p.branch (toInt p.nIndex)
  tx : p.txids.findIdx? (fun b => b = txid) = some p.nTxIndex
  txBranch : p.txBranch = getMerkleBranch p.nTxIndex p.txids.length (buildMerkleTree hash2 p.txids)
  root : hashMerkleRoot = climb hash2 txid p.txBranch p.nTxIndex

theorem partsOk_of_assetchainParts (h : node.assetchainParts hash2 txid = .ok p) :
    ∃ hashMerkleRoot, PartsOk node hash2 txid p hashMerkleRoot := by
  simp only [assetchainParts, Checked.bind_eq_ok, Checked.pure_eq_ok, expect_eq_ok, defined_eq_ok,
    require_eq_ok, decide_eq_true_eq, Prod.exists, exists_const] at h
  obtain ⟨blockHash, -, -, blockIndex, -, h, notaHash, data, -, leaves, hleaves, hblock, -, vtx, -,
    nTxIndex, hfound, hroot, rfl⟩ := h
  refine ⟨blockIndex.hashMerkleRoot, ⟨leaves, ?_, getMerkleBranch_eq leaves _⟩, hblock, ?_, rfl, ?_⟩
  · rw [length_of_mapM hleaves, length_range]
  · rw [findIdx?_map]
    exact hfound
  · rwa [checkMerkleBranch_eq] at hroot

/-- **The proof of the asset chain leads from the transaction to the MoM.** -/
theorem leads_getAssetchainProof (hnull : ∀ x y, hash2 x y ≠ 0)
    (hparts : node.assetchainParts hash2 txid = .ok p)
    (hproof : node.getAssetchainProof hash2 txid = .ok proof)
    (hcovered : p.nIndex < p.nota.2.MoMDepth)
    (hfree : CollisionFree hash2 (buildMerkleTree hash2 p.txids))
    (hlen : proof.2.branch.length < 32) : proof.2.Leads hash2 txid p.nota.2.MoM := by
  obtain ⟨hashMerkleRoot, hok⟩ := partsOk_of_assetchainParts hparts
  obtain ⟨leaves, hleaves, hbranch⟩ := hok.branch
  obtain ⟨hin, hat, hfirst⟩ := first_of_findIdx? hok.tx
  simp only [getAssetchainProof, hparts, Checked.bind_eq_ok, Checked.pure_eq_ok, require_eq_ok,
    decide_eq_true_eq, exists_const, Except.ok.injEq, exists_eq_left'] at hproof
  obtain ⟨shifted, hshift, hcheck, rfl⟩ := hproof
  rw [length_append] at hlen
  -- The transaction under the block.
  have htx : MerkleBranch.Leads hash2 ⟨p.nTxIndex, p.txBranch⟩ txid hashMerkleRoot := by
    have hleads := leads_getMerkleBranch hin hfirst hfree
    rw [← hok.txBranch, hat] at hleads
    exact ⟨hleads.nonneg, hleads.lt, hleads.canonical, hok.root.symm⟩
  -- The index of the whole branch.
  have hlt : p.nIndex < 2 ^ p.branch.length := by
    rw [hbranch]
    exact lt_two_pow_length_path (by omega)
  have hsmall : p.nIndex < 2 ^ 31 :=
    lt_of_lt_of_le hlt (Nat.pow_le_pow_right (by decide) (by omega))
  have hglued := toInt_shifted_add htx.index_lt hlt hlen hshift
  -- The block under the MoM: what both checks have computed.
  have hclimb : climb hash2 hashMerkleRoot p.branch p.nIndex = p.nota.2.MoM := by
    rw [hglued, checkMerkleBranch_eq, climb_append htx.index_lt, ← hok.root] at hcheck
    exact hcheck.symm
  have hcanonical : Canonical hash2 hashMerkleRoot p.branch p.nIndex := by
    refine canonical_of_safeCheck hnull (Eq.trans ?_ hclimb.symm)
    rw [hok.block, toInt_of_range (by omega) (by exact_mod_cast hsmall)]
  have hblock : MerkleBranch.Leads hash2 ⟨p.nIndex, p.branch⟩ hashMerkleRoot p.nota.2.MoM := by
    have hindex : (p.nIndex : ℤ) < 2 ^ p.branch.length := by exact_mod_cast hlt
    exact ⟨Int.natCast_nonneg _, hindex, hcanonical, hclimb⟩
  have hjoined := htx.join hblock
  show MerkleBranch.Leads hash2 ⟨toInt (shifted + p.nTxIndex), p.txBranch ++ p.branch⟩ _ _
  rw [hglued]
  push_cast
  exact hjoined

/-! ### The branch of KMD -/

theorem leads_moms (hmem : MoM ∈ moms) (hfree : CollisionFree hash2 (buildMerkleTree hash2 moms)) :
    ∃ i, moms.findIdx? (fun mom => mom = MoM) = some i ∧ i = moms.findIdx (fun mom => mom = MoM) ∧
      MerkleBranch.Leads hash2
        ⟨i, getMerkleBranch i moms.length (buildMerkleTree hash2 moms)⟩ MoM
        (computeMerkleRoot hash2 moms) := by
  have hsome : moms.findIdx? (fun mom => mom = MoM) = some (moms.findIdx fun mom => mom = MoM) :=
    findIdx?_eq_some_of_exists ⟨MoM, hmem, decide_eq_true rfl⟩
  obtain ⟨hin, hat, hfirst⟩ := first_of_findIdx? hsome
  have hleads := leads_getMerkleBranch hin hfirst hfree
  rw [hat] at hleads
  exact ⟨_, hsome, rfl, hleads⟩

theorem getCrossChainProof_eq_ok {r : TxProof} {offset : ℤ} :
    node.getCrossChainProof hash2 txid targetSymbol targetCCid proof offset = .ok r ↔
      ∃ blockIdx, node.getTxConfirmed proof.1 = some blockIdx ∧ ∃ kmdHeight entry,
        node.scanNotarisationsFromHeight blockIdx.nHeight (isTarget targetSymbol)
          = some (kmdHeight, entry) ∧
        let root := node.calculateProofRoot hash2 targetSymbol targetCCid (kmdHeight + offset)
        root.1 ≠ 0 ∧ ∃ i,
          root.2.1.findIdx? (fun mom => mom = proof.2.exec hash2 txid) = some i ∧ ∃ b,
            proof.2.append
              ⟨i, getMerkleBranch i root.2.1.length (buildMerkleTree hash2 root.2.1)⟩ = .ok b ∧
            b.exec hash2 txid = root.1 ∧ (root.2.2, b) = r := by
  simp only [getCrossChainProof, Checked.bind_eq_ok, Checked.pure_eq_ok, expect_eq_ok,
    require_eq_ok, decide_eq_true_eq, Prod.exists, exists_const]

/-- **KMD completes a proof exactly when it has a block above the notarisation of the target.** -/
theorem getCrossChainProof_iff (hleads : proof.2.Leads hash2 txid MoM)
    (hlen : proof.2.branch.length < 32)
    (hrecords : node.Records proof MoM targetSymbol targetCCid S)
    (hfollows : node.Follows targetSymbol S T)
    (hroot : node.calculateProofRoot hash2 targetSymbol targetCCid T = (MoMoM, moms, dest))
    (hdefined : MoMoM ≠ 0) (hfree : CollisionFree hash2 (buildMerkleTree hash2 moms))
    (hfits : proof.2.nIndex
      + (moms.findIdx fun mom => mom = MoM : ℕ) * 2 ^ proof.2.branch.length < 2 ^ 31) :
    (∃ b, node.getCrossChainProof hash2 txid targetSymbol targetCCid proof 0 = .ok (dest, b) ∧
      b.exec hash2 txid = MoMoM) ↔ (T : ℤ) < node.height := by
  obtain ⟨hMoMoM, hloop⟩ := calculateProofRoot_eq hroot hdefined
  obtain ⟨hpos, hnear⟩ := hfollows.near hloop
  obtain ⟨blockIdx, hconfirmed, hS⟩ := Option.map_eq_some_iff.1 hrecords.confirmed
  have hscan := scan_eq hfollows hpos hnear
  constructor
  · rintro ⟨b, hok, -⟩
    obtain ⟨blockIdx', hconfirmed', kmdHeight, entry, hfound, -⟩ := getCrossChainProof_eq_ok.1 hok
    obtain rfl := Option.some.inj (hconfirmed.symm.trans hconfirmed')
    by_contra htip
    rw [if_neg htip, Option.map_eq_none_iff, ← hS, hfound] at hscan
    cases hscan
  · intro htip
    rw [if_pos htip, Option.map_eq_some_iff, ← hS] at hscan
    obtain ⟨⟨kmdHeight, entry⟩, hfound, hT⟩ := hscan
    obtain rfl : kmdHeight = T := hT
    obtain ⟨nota, hlisted, -, hMoM, hcollected⟩ := hrecords.listed
    have hmem : MoM ∈ moms := hMoM ▸ mem_of_calculateProofRoot hfollows hloop hlisted hcollected
    obtain ⟨i, hi, hidx, hbranch⟩ := leads_moms hmem hfree
    rw [← hidx] at hfits
    obtain ⟨b, happend, hb⟩ := hleads.append hbranch hlen hfits
    rw [← hMoMoM] at hb
    refine ⟨b, getCrossChainProof_eq_ok.2 ⟨blockIdx, hconfirmed, kmdHeight, entry, hfound, ?_⟩,
      hb.exec⟩
    simp only [Int.add_zero, hroot, hleads.exec]
    exact ⟨hdefined, i, hi, b, happend, hb.exec, rfl⟩

end

/-- **A transaction is proved through three trees.** The proof of the asset chain leads to the MoM.
On every KMD that records the notarisation, with a block of few target notarisations that follows
and a root that is defined there, the proof is completed, and leads to that root, exactly when this
block is not the tip. No hash is null, the trees have no collisions, the block is among those that
are notarised, and the index of the whole branch is an `int`. -/
theorem crossChain_proof_iff (asset : CrossChainNode) (hash2 : Uint256 → Uint256 → Uint256)
    (hnull : ∀ x y, hash2 x y ≠ 0) (txid : Uint256) (p : AssetchainParts) (proof : TxProof)
    (hparts : asset.assetchainParts hash2 txid = .ok p)
    (hproof : asset.getAssetchainProof hash2 txid = .ok proof)
    (hcovered : p.nIndex < p.nota.2.MoMDepth)
    (hfree : CollisionFree hash2 (buildMerkleTree hash2 p.txids))
    (hlen : proof.2.branch.length < 32) :
    proof.2.exec hash2 txid = p.nota.2.MoM ∧
      ∀ (kmd : CrossChainNode) (targetSymbol : Bytes) (targetCCid S T : ℕ) (MoMoM : Uint256)
        (moms : List Uint256) (dest : Uint256),
        kmd.Records proof p.nota.2.MoM targetSymbol targetCCid S →
        kmd.Follows targetSymbol S T →
        kmd.calculateProofRoot hash2 targetSymbol targetCCid T = (MoMoM, moms, dest) →
        MoMoM ≠ 0 →
        CollisionFree hash2 (buildMerkleTree hash2 moms) →
        proof.2.nIndex + (moms.findIdx fun mom => mom = p.nota.2.MoM : ℕ)
          * 2 ^ proof.2.branch.length < 2 ^ 31 →
        ((∃ b, kmd.getCrossChainProof hash2 txid targetSymbol targetCCid proof 0 = .ok (dest, b) ∧
          b.exec hash2 txid = MoMoM) ↔ (T : ℤ) < kmd.height) := by
  have hleads := leads_getAssetchainProof hnull hparts hproof hcovered hfree hlen
  refine ⟨hleads.exec, ?_⟩
  intro kmd targetSymbol targetCCid S T MoMoM moms dest hrecords hfollows hroot hdefined hmoms hfits
  exact getCrossChainProof_iff hleads hlen hrecords hfollows hroot hdefined hmoms hfits

/-! ### A transaction on its way -/

namespace CrossChainSample

/-- `AAA` -/
def sourceSymbol : Bytes := [65, 65, 65]

/-- `BBB` -/
def targetSymbol : Bytes := [66, 66, 66]

/-- The root of the transactions 11 and 12. -/
def blockRoot : Uint256 := 0x40e750327c1ddb8abe9434097698fcac5aa3745f9d6cd2ed681629c50aebbd12

/-- The root of the blocks with the roots 21 and `blockRoot`. -/
def mom : Uint256 := 0xd83de353f035f0628123273df83762669e069e8d9fef2001ec3ef1728f869d85

/-- The root of the roots 31 and `mom`. -/
def momom : Uint256 := 0xe3a361395141bbf36877eab7140ae7a69f4b78d7aa64e3ee47904e1c23e06f19

/-- The double SHA-256 of the pairs that occur, and another number for each other pair. -/
def sha256d (a b : Uint256) : Uint256 :=
  if a = 11 ∧ b = 12 then blockRoot
  else if a = 21 ∧ b = blockRoot then mom
  else if a = 31 ∧ b = mom then momom
  else a * 2 ^ 256 + b + 1

/-- A notarisation of the source chain on KMD. -/
def sourceNotarisation : NotarisationData :=
  { blockHash := 202, height := 2, symbol := sourceSymbol, MoM := mom, MoMDepth := 2, ccId := 2 }

/-- A notarisation of the target chain. -/
def targetNotarisation : NotarisationData :=
  { blockHash := 401, height := 9, symbol := targetSymbol, MoM := 31, MoMDepth := 1, ccId := 2 }

/-- The notarisations of the blocks, by the hash of the block. -/
def stored (lists : List (Uint256 × List Notarisation)) : NotarisationDB :=
  fun h => (lists.lookup h).map (listBytes notarisationBytes)

/-- The block of the transaction. -/
def sourceBlock : NotarisedBlockIndex where
  phashBlock := 201
  nHeight := 1
  hashMerkleRoot := blockRoot
  disk := some [{ hash := 11, vin := [], vout := [] }, { hash := 12, vin := [], vout := [] }]

/-- The asset chain, with the back-notarisation in the block at height 3. -/
def assetNode : CrossChainNode where
  toNotarisationEnv := NotarisedSample.env
  chainName := sourceSymbol
  chainActive := [{ phashBlock := 200, nHeight := 0, hashMerkleRoot := 20 }, sourceBlock,
    { phashBlock := 202, nHeight := 2, hashMerkleRoot := 21 },
    { phashBlock := 203, nHeight := 3, hashMerkleRoot := 22 },
    { phashBlock := 204, nHeight := 4, hashMerkleRoot := 23 }]
  pnotarisations := stored [(203, [(90, { sourceNotarisation with txHash := 77 })])]
  mapBlockIndex h := if h = 201 then some sourceBlock else none
  getTransaction h := if h = 12 then some 201 else none
  getTxUnconfirmed _ := none

/-- The block of KMD with the notarisation of the source. -/
def notarisedBlock : NotarisedBlockIndex where
  phashBlock := 102
  nHeight := 2
  hashMerkleRoot := 42

/-- KMD up to the block with a notarisation of the target, and further blocks. -/
def kmdNode (further : List NotarisedBlockIndex) : CrossChainNode where
  toNotarisationEnv := { NotarisedSample.env with isKMD := true }
  chainName := []
  chainActive := [{ phashBlock := 100, nHeight := 0, hashMerkleRoot := 40 },
    { phashBlock := 101, nHeight := 1, hashMerkleRoot := 41 }, notarisedBlock,
    { phashBlock := 103, nHeight := 3, hashMerkleRoot := 43 }] ++ further
  pnotarisations := stored [(101, (List.range 6).map fun i => (80 + i, targetNotarisation)),
    (102, [(77, sourceNotarisation)]), (103, [(88, targetNotarisation)])]
  mapBlockIndex h := if h = 102 then some notarisedBlock else none
  getTransaction _ := none
  getTxUnconfirmed h := if h = 77 then some 102 else none

/-- The block at height 4. -/
def tip : NotarisedBlockIndex where
  phashBlock := 104
  nHeight := 4
  hashMerkleRoot := 44

/-- The branches of the asset chain. -/
def parts : AssetchainParts where
  nota := (90, { sourceNotarisation with txHash := 77 })
  txids := [11, 12]
  nIndex := 1
  branch := [21]
  nTxIndex := 1
  txBranch := [11]

/-- The proof of the asset chain. -/
def assetProof : TxProof := (77, ⟨3, [11, 21]⟩)

theorem sha256d_ne_zero (a b : Uint256) : sha256d a b ≠ 0 := by
  unfold sha256d
  split_ifs
  · decide
  · decide
  · decide
  · exact Nat.succ_ne_zero _

theorem nodes_pair (a b : Uint256) :
    buildMerkleTree sha256d [a, b] = [a, b, sha256d a b] := by
  rw [buildMerkleTree_eq]
  simp [nodes, nextLevel]

theorem branch_second (a b : Uint256) :
    getMerkleBranch 1 2 (buildMerkleTree sha256d [a, b]) = [a] := by
  refine (getMerkleBranch_eq [a, b] 1).trans ?_
  simp [path, nextLevel]

theorem root_pair (a b : Uint256) : computeMerkleRoot sha256d [a, b] = sha256d a b := by
  rw [computeMerkleRoot_eq]
  simp [HashTree.root, nextLevel]

theorem parts_eq : assetNode.assetchainParts sha256d 12 = .ok parts := by
  have hscan : assetNode.scanNotarisationsFromHeight 1 (fun nota =>
      nota.2.symbol = assetNode.chainName && sourceBlock.nHeight ≤ nota.2.height)
      = some (3, 90, { sourceNotarisation with txHash := 77 }) := by decide +kernel
  have hleaves : assetNode.momLeaves { sourceNotarisation with txHash := 77 }
      = some [21, blockRoot] := rfl
  simp only [assetchainParts, Checked.bind_eq_ok, Checked.pure_eq_ok, expect_eq_ok, defined_eq_ok,
    require_eq_ok, decide_eq_true_eq, Prod.exists, exists_const]
  refine ⟨201, rfl, by decide, sourceBlock, rfl, 3, 90, _, hscan, _, hleaves, ?_, rfl, _, rfl, 1,
    rfl, ?_, ?_⟩
  · rw [show (length [21, blockRoot]) = 2 from rfl, show (sourceNotarisation.height
      - sourceBlock.nHeight) = 1 from rfl, branch_second]
    decide
  · rw [show map CTransaction.hash _ = [11, 12] from rfl,
      show (length [11, 12]) = 2 from rfl, branch_second]
    decide
  · rw [show map CTransaction.hash _ = [11, 12] from rfl, show (length [11, 12]) = 2 from rfl,
      branch_second, show (length [21, blockRoot]) = 2 from rfl,
      show (sourceNotarisation.height - sourceBlock.nHeight) = 1 from rfl, branch_second]
    rfl

theorem assetProof_eq : assetNode.getAssetchainProof sha256d 12 = .ok assetProof := by
  simp only [getAssetchainProof, parts_eq, Checked.bind_eq_ok, Checked.pure_eq_ok, require_eq_ok,
    decide_eq_true_eq, exists_const]
  exact ⟨parts, rfl, 2, by decide, by decide, by decide⟩

theorem collisionFree_pair {a b : Uint256} (h : ∀ x ∈ [a, b, sha256d a b],
    ∀ y ∈ [a, b, sha256d a b], ∀ z ∈ [a, b, sha256d a b], ∀ w ∈ [a, b, sha256d a b],
      sha256d x y = sha256d z w → x = z ∧ y = w) :
    CollisionFree sha256d (buildMerkleTree sha256d [a, b]) := by
  rw [nodes_pair]
  exact h

theorem records_sample (further : List NotarisedBlockIndex)
    (hfound : (kmdNode further).notarisationsAt 2 = some [(77, sourceNotarisation)]) :
    (kmdNode further).Records assetProof mom targetSymbol 2 2 := by
  refine ⟨rfl, (77, sourceNotarisation), ?_, rfl, rfl, rfl⟩
  rw [hfound]
  exact mem_singleton.2 rfl

theorem follows_sample (further : List NotarisedBlockIndex)
    (hnone : (kmdNode further).ownAt targetSymbol 2 = 0)
    (hone : (kmdNode further).ownAt targetSymbol 3 = 1) :
    (kmdNode further).Follows targetSymbol 2 3 := by
  refine ⟨by omega, by omega, by omega, fun h hle hlt => ?_⟩
  obtain rfl : h = 2 := by omega
  exact hnone

theorem calculateProofRoot_sample (further : List NotarisedBlockIndex)
    (hheight : (3 : ℤ) ≤ (kmdNode further).height)
    (hloop : (kmdNode further).proofRootLoop targetSymbol 2 3 NOTARISATION_SCAN_LIMIT_BLOCKS 0 0 0 []
      = some ([31, mom], 88)) :
    (kmdNode further).calculateProofRoot sha256d targetSymbol 2 (3 : ℕ)
      = (momom, [31, mom], 88) := by
  have hin : ¬ (((3 : ℕ) : ℤ) < 0 ∨ ((3 : ℕ) : ℤ) > (kmdNode further).height) :=
    not_or.2 ⟨by decide, not_lt.2 hheight⟩
  rw [calculateProofRoot, if_neg (by decide), if_neg hin, Int.toNat_natCast, hloop]
  show (computeMerkleRoot sha256d [31, mom], _) = _
  rw [root_pair]
  decide

end CrossChainSample

open CrossChainSample

/-- The hypotheses of `crossChain_proof_iff` are satisfiable: with a block above the notarisation of
the target, the transaction 12 is proved to KMD. -/
theorem crossChain_proof_sample : assetProof.2.exec sha256d 12 = mom ∧
    ∃ b, (kmdNode [tip]).getCrossChainProof sha256d 12 targetSymbol 2 assetProof 0 = .ok (88, b) ∧
      b.exec sha256d 12 = momom := by
  obtain ⟨hexec, hall⟩ := crossChain_proof_iff assetNode sha256d sha256d_ne_zero 12 parts assetProof
    parts_eq assetProof_eq (by decide) (collisionFree_pair (by decide)) (by decide)
  refine ⟨hexec, (hall (kmdNode [tip]) targetSymbol 2 2 3 momom [31, mom] 88 ?_ ?_ ?_ ?_ ?_ ?_).2 ?_⟩
  · exact records_sample [tip] (by decide)
  · exact follows_sample [tip] (by decide) (by decide)
  · exact calculateProofRoot_sample [tip] (by decide) (by decide +kernel)
  · decide
  · exact collisionFree_pair (by decide)
  · decide
  · decide

/-- **At the tip the notarisation is not found.** All is as the proof needs it, and the root is
defined at the block of the target; but there is no block above it. -/
theorem crossChain_proof_missed : assetNode.getAssetchainProof sha256d 12 = .ok assetProof ∧
    (kmdNode []).Records assetProof mom targetSymbol 2 2 ∧
    (kmdNode []).Follows targetSymbol 2 3 ∧
    (kmdNode []).calculateProofRoot sha256d targetSymbol 2 (3 : ℕ) = (momom, [31, mom], 88) ∧
    (kmdNode []).getCrossChainProof sha256d 12 targetSymbol 2 assetProof 0
      = .error (.invalid "Cannot find notarisation for target inclusive of source") := by
  refine ⟨assetProof_eq, ?_, ?_, ?_, ?_⟩
  · exact records_sample [] (by decide)
  · exact follows_sample [] (by decide) (by decide)
  · exact calculateProofRoot_sample [] (by decide) (by decide +kernel)
  · have hscan : (kmdNode []).scanNotarisationsFromHeight (2 : ℕ) (isTarget targetSymbol) = none := by
      decide +kernel
    unfold getCrossChainProof
    refine Checked.bind_eq_error.2 (Or.inr ⟨notarisedBlock, rfl, ?_⟩)
    refine Checked.bind_eq_error.2 (Or.inl ?_)
    show expect ((kmdNode []).scanNotarisationsFromHeight (2 : ℕ) (isTarget targetSymbol)) _ = _
    rw [hscan]
    rfl

end CrossChainNode

end Komodo
