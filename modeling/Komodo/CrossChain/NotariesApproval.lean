/-
# Approval of a burn by the notaries

`CrossChain::CheckNotariesApproval` of `src/src/crosschain.cpp` and `komodo_notaries` of
`src/src/komodo_notary.cpp`.

An import may name transactions of notaries that carry a proof of the burn.  Five of them, signed by
different notaries, stand in for a root of the notarised blocks.

A proof is refused only where its root is that of the header and the burn is not among its txids: the
comparison with the root has the wrong sign, so that every proof with another root passes.  All 64
keys of the array are compared with the signer, whether `komodo_notaries` has written them or not.
`approvalSound_iff` says when the approval is right for all that.
-/

import Komodo.CC.ImportCoin
import Komodo.Lib.Quorum
import Komodo.NSPV.Client

namespace Komodo
namespace CrossChain

open Quorum

/-- `uint8_t pubkeys[64][33]`. -/
abbrev NotaryKeys := ℕ → CPubKey

/-- `knotaries_entry`: the notaries of a height, by their ids. -/
structure NotariesEntry where
  numnotaries : ℕ
  Notaries : List (ℕ × CPubKey)

/-- The notaries with legal ids. -/
def NotariesEntry.legal (entry : NotariesEntry) : List (ℕ × CPubKey) :=
  entry.Notaries.filter fun kp => kp.1 < entry.numnotaries

def KOMODO_NOTARIES_HARDCODED : ℤ := 180000

def NUM_KMD_NOTARIES : ℕ := 64

/-- What the approval asks of the node besides what an import does. -/
structure ApprovalEnv extends ImportEnv where
  /-- The height at which Sapling is active. -/
  saplinght : ℤ
  /-- `chainName.isKMD()`. -/
  isKMD : Bool
  /-- `is_STAKED(chainName.symbol())` is not zero. -/
  isStaked : Bool
  /-- `komodo_heightstamp`. -/
  heightstamp : ℤ → ℤ
  getkmdseason : (height : ℤ) → ℕ
  getacseason : (timestamp : ℤ) → ℕ
  /-- `kmd_pubkeys[season - 1]`. -/
  kmd_pubkeys : (season : ℕ) → NotaryKeys
  /-- `numStakedNotaries` in the era of `STAKED_era`: the number, and the keys. -/
  stakedNotaries : (timestamp : ℤ) → ℕ × NotaryKeys
  /-- `Pubkeys[ht_index_from_height(height)]`. -/
  pubkeysAt : (height : ℤ) → NotariesEntry

/-- The loop of `HASH_ITER`, which copies the key of every notary. -/
def writeKeys : List (ℕ × CPubKey) → NotaryKeys → NotaryKeys
  | [], pubkeys => pubkeys
  | kp :: notaries, pubkeys => writeKeys notaries (Function.update pubkeys kp.1 kp.2)

namespace ApprovalEnv

variable (env : ApprovalEnv)

/-! ### The notaries of a block -/

/-- `memcpy` of the first `n` keys. -/
def copyKeys (n : ℕ) (keys pubkeys : NotaryKeys) : NotaryKeys := fun i =>
  if i < n then keys i else pubkeys i

/-- The end of `komodo_notaries`, which reads the table of the elections.  The `mask` has the bits of
all notaries. -/
def electedNotaries (pubkeys : NotaryKeys) (height : ℤ) : ℤ × NotaryKeys :=
  let entry := env.pubkeysAt height
  let pubkeys := writeKeys entry.legal pubkeys
  if entry.numnotaries ≤ 64 ∧ ∀ i < entry.numnotaries, i ∈ entry.legal.map Prod.fst then
    (entry.numnotaries, pubkeys)
  else (-1, pubkeys)

/-- The keys of the season, or of the era on a staked chain; `none` where the elections decide. -/
def hardcodedNotaries (height timestamp : ℤ) : Option (ℕ × NotaryKeys) :=
  let timestamp := if env.isKMD then 0 else if timestamp = 0 then env.heightstamp height
    else timestamp
  if env.isStaked then
    if timestamp ≠ 0 then some (env.stakedNotaries timestamp) else none
  else
    let kmd_season := if env.isKMD then
        if KOMODO_NOTARIES_HARDCODED ≤ height then env.getkmdseason height else 0
      else env.getacseason timestamp
    if kmd_season ≠ 0 then some (NUM_KMD_NOTARIES, env.kmd_pubkeys kmd_season) else none

/-- `komodo_notaries`: what it returns, and the array that it leaves. -/
def komodoNotaries (pubkeys : NotaryKeys) (height timestamp : ℤ) : ℤ × NotaryKeys :=
  match env.hardcodedNotaries height timestamp with
  | some (n, keys) => (n, copyKeys n keys pubkeys)
  | none => env.electedNotaries pubkeys height

/-- The keys of the notaries at a block. -/
def notarySet (block : BlockTime) : List CPubKey :=
  let notaries := env.komodoNotaries (fun _ => []) block.nHeight block.nTime
  (List.range notaries.1.toNat).map notaries.2

/-! ### The approval -/

def getTxConfirmed (txid : Uint256) : Option (CTransaction × BlockTime) :=
  match env.getTransaction txid with
  | none => none
  | some (tx, hashBlock) =>
    if hashBlock = 0 then none else (env.blockIndex hashBlock).map fun block => (tx, block)

/-- The `merkleBlock` of the opreturn. -/
def merkleBlockOf (notarytx : CTransaction) :
    Option (BlockIndexDB.CBlockHeader × CPartialMerkleTree) :=
  (Unserialize.unmarshal (lastOpReturn notarytx) Unserialize.vector).bind fun txoutproof =>
    Unserialize.unmarshal txoutproof NSPV.Client.unserializeMerkleBlock

/-- `txn.ExtractMatches(prooftxids)`; the second call finds what the first has found. -/
def extract (merkleBlock : BlockIndexDB.CBlockHeader × CPartialMerkleTree) :
    Uint256 × List Uint256 :=
  merkleBlock.2.extractMatches env.hash2 env.saplinght

/-- The test of the proof, as it is written. -/
def proofPasses (burntxid : Uint256)
    (merkleBlock : BlockIndexDB.CBlockHeader × CPartialMerkleTree) : Bool :=
  (env.extract merkleBlock).1 ≠ merkleBlock.1.hashMerkleRoot
    ∨ burntxid ∈ (env.extract merkleBlock).2

/-- The transaction of a notary and its block, where its proof passes. -/
def readApproval (burntxid notarytxid : Uint256) : Option (CTransaction × BlockTime) :=
  (env.getTxConfirmed notarytxid).filter fun approval =>
    (merkleBlockOf approval.1).any (env.proofPasses burntxid)

/-- A round of the loop: `notaries_pubkeys` and `alreadySigned`, of which `count` is the length. -/
def checkNotaryTx (burntxid : Uint256) (st : NotaryKeys × List CPubKey) (notarytxid : Uint256) :
    NotaryKeys × List CPubKey :=
  match env.readApproval burntxid notarytxid with
  | none => st
  | some (notarytx, block) =>
    let (n, pubkeys) := env.komodoNotaries st.1 block.nHeight block.nTime
    if 0 ≤ n then
      match ((List.range 64).map pubkeys).find? fun key =>
          env.checkVinPubKey notarytx key && decide (key ∉ st.2) with
      | some key => (pubkeys, st.2 ++ [key])
      | none => (pubkeys, st.2)
    else (pubkeys, st.2)

/-- `CheckNotariesApproval`; `initial` is what the memory of the array holds. -/
def notariesApproval (initial : NotaryKeys) (burntxid : Uint256) (notaryTxids : List Uint256) :
    Bool :=
  5 ≤ (notaryTxids.foldl (env.checkNotaryTx burntxid) (initial, [])).2.length

/-! ### What it is to approve -/

/-- The transaction is confirmed, its proof has the root of the header and contains the burn, and it
is signed by a notary of its block. -/
def Approves (burntxid notarytxid : Uint256) (key : CPubKey) : Prop :=
  ∃ notarytx block merkleBlock, env.getTxConfirmed notarytxid = some (notarytx, block)
    ∧ merkleBlockOf notarytx = some merkleBlock
    ∧ (env.extract merkleBlock).1 = merkleBlock.1.hashMerkleRoot
    ∧ burntxid ∈ (env.extract merkleBlock).2
    ∧ key ∈ env.notarySet block ∧ env.checkVinPubKey notarytx key = true

/-- An approval is of five different transactions by five different keys. -/
def Sound (initial : NotaryKeys) (burntxid : Uint256) (notaryTxids : List Uint256) : Prop :=
  env.notariesApproval initial burntxid notaryTxids = true →
    Signed (env.Approves burntxid) 5 notaryTxids.dedup

/-- The array after a round. -/
def keysAfter (burntxid : Uint256) (pubkeys : NotaryKeys) (notarytxid : Uint256) : NotaryKeys :=
  match env.readApproval burntxid notarytxid with
  | none => pubkeys
  | some (_, block) => (env.komodoNotaries pubkeys block.nHeight block.nTime).2

/-- The listed transactions, each with what the array holds before its round. -/
def ballots (burntxid : Uint256) : NotaryKeys → List Uint256 → List (Uint256 × NotaryKeys)
  | _, [] => []
  | pubkeys, notarytxid :: notaryTxids =>
    (notarytxid, pubkeys) :: ballots burntxid (env.keysAfter burntxid pubkeys notarytxid) notaryTxids

/-- The transaction passes the tests as they are written, under a key that stands anywhere in the
array: its root is another one, or it contains the burn. -/
def Passes (burntxid : Uint256) (ballot : Uint256 × NotaryKeys) (key : CPubKey) : Prop :=
  ∃ notarytx block merkleBlock, env.getTxConfirmed ballot.1 = some (notarytx, block)
    ∧ merkleBlockOf notarytx = some merkleBlock
    ∧ ((env.extract merkleBlock).1 ≠ merkleBlock.1.hashMerkleRoot
      ∨ burntxid ∈ (env.extract merkleBlock).2)
    ∧ 0 ≤ (env.komodoNotaries ballot.2 block.nHeight block.nTime).1
    ∧ (∃ i < 64, (env.komodoNotaries ballot.2 block.nHeight block.nTime).2 i = key)
    ∧ env.checkVinPubKey notarytx key = true

/-- No transaction is signed by two keys of the array: they have different addresses. -/
def OneSigner (burntxid : Uint256) (votes : List (Uint256 × NotaryKeys)) : Prop :=
  ∀ ballot ∈ votes, ∀ key, env.Passes burntxid ballot key →
    ∀ key', env.Passes burntxid ballot key' → key = key'

/-- Where five different keys sign listed transactions that pass, five of them approve the burn. -/
def Met (initial : NotaryKeys) (burntxid : Uint256) (notaryTxids : List Uint256) : Prop :=
  Signed (env.Passes burntxid) 5 (env.ballots burntxid initial notaryTxids) →
    Signed (env.Approves burntxid) 5 notaryTxids.dedup

/-- The keys that a round may count. -/
def signersOf (burntxid : Uint256) (ballot : Uint256 × NotaryKeys) : List CPubKey :=
  match env.readApproval burntxid ballot.1 with
  | none => []
  | some (notarytx, block) =>
    let (n, pubkeys) := env.komodoNotaries ballot.2 block.nHeight block.nTime
    if 0 ≤ n then ((List.range 64).map pubkeys).filter (env.checkVinPubKey notarytx) else []

variable {env} {burntxid notarytxid : Uint256} {pubkeys : NotaryKeys} {notaryTxids : List Uint256}

/-! ### The rounds -/

theorem readApproval_eq_some {notarytx : CTransaction} {block : BlockTime} :
    env.readApproval burntxid notarytxid = some (notarytx, block)
      ↔ env.getTxConfirmed notarytxid = some (notarytx, block)
        ∧ ∃ merkleBlock, merkleBlockOf notarytx = some merkleBlock
          ∧ env.proofPasses burntxid merkleBlock = true := by
  unfold readApproval
  rw [Option.filter_eq_some_iff, Option.any_eq_true]

theorem mem_signersOf {ballot : Uint256 × NotaryKeys} {key : CPubKey} :
    key ∈ env.signersOf burntxid ballot ↔ env.Passes burntxid ballot key := by
  unfold signersOf Passes
  constructor
  · intro h
    cases hread : env.readApproval burntxid ballot.1 with
    | none => simp [hread] at h
    | some approval =>
      obtain ⟨notarytx, block⟩ := approval
      obtain ⟨hconfirmed, merkleBlock, hproof, hpasses⟩ := readApproval_eq_some.1 hread
      simp only [hread] at h
      split_ifs at h with hn
      · obtain ⟨hmem, hsigned⟩ := List.mem_filter.1 h
        obtain ⟨i, hi, hkey⟩ := List.mem_map.1 hmem
        exact ⟨notarytx, block, merkleBlock, hconfirmed, hproof, of_decide_eq_true hpasses, hn,
          ⟨i, List.mem_range.1 hi, hkey⟩, hsigned⟩
      · cases h
  · rintro ⟨notarytx, block, merkleBlock, hconfirmed, hproof, hpasses, hn, ⟨i, hi, hkey⟩, hsigned⟩
    have hread := readApproval_eq_some.2 ⟨hconfirmed, merkleBlock, hproof,
      decide_eq_true (p := _ ∨ _) hpasses⟩
    simp only [hread, if_pos hn]
    exact List.mem_filter.2 ⟨List.mem_map.2 ⟨i, List.mem_range.2 hi, hkey⟩, hsigned⟩

theorem checkNotaryTx_eq (used : List CPubKey) :
    env.checkNotaryTx burntxid (pubkeys, used) notarytxid =
      (env.keysAfter burntxid pubkeys notarytxid,
        count (env.signersOf burntxid (notarytxid, pubkeys)) used) := by
  unfold checkNotaryTx keysAfter signersOf
  cases env.readApproval burntxid notarytxid with
  | none => rfl
  | some approval =>
    by_cases hn : 0 ≤ (env.komodoNotaries pubkeys approval.2.nHeight approval.2.nTime).1
    · simp only [if_pos hn, count, List.find?_filter, decide_eq_true_eq, Bool.decide_and,
        Bool.decide_eq_true]
      split <;> simp only [*]
    · simp only [if_neg hn, count, List.find?_nil]

theorem ballots_cons : env.ballots burntxid pubkeys (notarytxid :: notaryTxids) =
    (notarytxid, pubkeys)
      :: env.ballots burntxid (env.keysAfter burntxid pubkeys notarytxid) notaryTxids := rfl

/-- **The loop counts as `tally` does.** -/
theorem foldl_checkNotaryTx (used : List CPubKey) :
    (notaryTxids.foldl (env.checkNotaryTx burntxid) (pubkeys, used)).2 =
      tally (env.signersOf burntxid) (env.ballots burntxid pubkeys notaryTxids) used := by
  induction notaryTxids generalizing pubkeys used with
  | nil => rfl
  | cons notarytxid notaryTxids ih =>
    rw [List.foldl_cons, checkNotaryTx_eq, ih, ballots_cons, tally_cons]

theorem notariesApproval_iff {initial : NotaryKeys} :
    env.notariesApproval initial burntxid notaryTxids = true ↔
      5 ≤ (tally (env.signersOf burntxid) (env.ballots burntxid initial notaryTxids) []).length := by
  unfold notariesApproval
  rw [decide_eq_true_eq, foldl_checkNotaryTx]

theorem signersOf_eq : (fun ballot key => key ∈ env.signersOf burntxid ballot)
    = env.Passes burntxid := by
  funext ballot key
  exact propext mem_signersOf

theorem sound_of_met {initial : NotaryKeys} (hmet : env.Met initial burntxid notaryTxids) :
    env.Sound initial burntxid notaryTxids := by
  intro happroved
  have hsigned := Signed.of_tally (notariesApproval_iff.1 happroved)
  rw [signersOf_eq] at hsigned
  exact hmet hsigned

/-- **An approval is right if five listed transactions approve the burn wherever five different keys
sign ones that pass.**  Where no transaction has two signers that is the only case. -/
theorem approvalSound_iff (env : ApprovalEnv) (initial : NotaryKeys) (burntxid : Uint256)
    (notaryTxids : List Uint256) :
    (env.Met initial burntxid notaryTxids → env.Sound initial burntxid notaryTxids)
      ∧ (env.OneSigner burntxid (env.ballots burntxid initial notaryTxids) →
        (env.Sound initial burntxid notaryTxids ↔ env.Met initial burntxid notaryTxids)) := by
  refine ⟨sound_of_met, fun hone => ⟨fun hsound hpasses => hsound ?_, sound_of_met⟩⟩
  rw [← signersOf_eq] at hpasses
  refine notariesApproval_iff.2 (hpasses.le_tally fun ballot hballot key hkey key' hkey' => ?_)
  exact hone ballot hballot key (mem_signersOf.1 hkey) key' (mem_signersOf.1 hkey')

end ApprovalEnv
/-! ### A burn that never happened -/

namespace ApprovalSample

/-- A block header with the root 1 over a tree without transactions. -/
def emptyProof : Bytes :=
  List.replicate 36 0 ++ 1 :: List.replicate 110 0

/-- An approval by a notary, which spends an output of the notary. -/
def approvalTx (notary : ℕ) : CTransaction where
  hash := notary
  vin := [⟨⟨100, notary⟩, [], 0⟩]
  vout := [⟨0, OP_RETURN :: pushData (vectorBytes emptyProof)⟩]

/-- The outputs of the notaries. -/
def fundingTx : CTransaction where
  hash := 100
  vin := []
  vout := (List.range 64).map fun i => ⟨10000, payToPubkey [UInt8.ofNat i]⟩

/-- A node that has seen an approval by each notary of the season. -/
def env : ApprovalEnv where
  conditionBinary _ := []
  readFulfillmentBinary _ := none
  anonPublicKey _ := []
  anonHasCode _ _ := false
  solver _ := none
  hash160 b := b
  getscriptaddress script := some (String.singleton (Char.ofNat (script.getD 1 0).toNat))
  getTransaction txid := if txid = 100 then some (fundingTx, 7) else some (approvalTx txid, 7)
  blockIndex _ := some ⟨200000, 1700000000⟩
  tip := ⟨200100, 1700006000⟩
  lastNotarizedHeight := 0
  sha256 b := b
  assetchainsSymbol := []
  assetchainsCC := 777
  selfImport := []
  beamPort := 0
  codaPort := 0
  overridePubkey33 := []
  marshalImportData _ _ := []
  unmarshalImportData _ := none
  unmarshalTokenProof _ := none
  serializeHash _ := 0
  newTransaction := { hash := 0, vin := [], vout := [] }
  getHash tx := tx.hash
  hash2 a _ := a
  checkMoMoM _ _ := false
  checkNotariesApproval _ _ := false
  checkCODAimport _ _ _ _ := false
  checkGATEWAYimport _ _ _ _ _ := false
  saplinght := 1
  isKMD := true
  isStaked := false
  heightstamp _ := 0
  getkmdseason _ := 1
  getacseason _ := 0
  kmd_pubkeys _ i := [UInt8.ofNat i]
  stakedNotaries _ := (0, fun _ => [])
  pubkeysAt _ := ⟨0, []⟩

theorem otherRoot_approvalTx (notary : ℕ) :
    (ApprovalEnv.merkleBlockOf (approvalTx notary)).all (fun merkleBlock =>
      (env.extract merkleBlock).1 ≠ merkleBlock.1.hashMerkleRoot) = true := by
  have hsame : ApprovalEnv.merkleBlockOf (approvalTx notary) =
      ApprovalEnv.merkleBlockOf (approvalTx 0) := rfl
  rw [hsame]
  decide +kernel

end ApprovalSample

open ApprovalSample in
/-- **Five notaries approve a burn that none of their proofs contains.** -/
theorem unproven_burn_approved : ¬ ∀ (env : ApprovalEnv) (initial : NotaryKeys) (burntxid : Uint256)
    (notaryTxids : List Uint256), env.Sound initial burntxid notaryTxids := by
  intro hall
  have happroved : env.notariesApproval (fun _ => []) 9 [1, 2, 3, 4, 5] = true := by
    decide +kernel
  obtain ⟨signed, hsub, hlong, -, happroves⟩ := hall env (fun _ => []) 9 [1, 2, 3, 4, 5] happroved
  obtain ⟨p, hp⟩ := List.exists_mem_of_length_pos (Nat.lt_of_lt_of_le (by decide) hlong)
  obtain ⟨notarytx, block, merkleBlock, hconfirmed, hproof, hroot, -⟩ := happroves p hp
  have hlisted : p.1 ∈ [1, 2, 3, 4, 5] :=
    List.mem_dedup.1 (hsub.subset (List.mem_map_of_mem hp))
  have hother : p.1 ≠ 100 := by
    rintro heq
    rw [heq] at hlisted
    exact absurd hlisted (by decide)
  obtain rfl : approvalTx p.1 = notarytx := by
    simp [ApprovalEnv.getTxConfirmed, env, hother] at hconfirmed
    exact hconfirmed.1
  have hwrong := otherRoot_approvalTx p.1
  rw [hproof] at hwrong
  exact of_decide_eq_true hwrong hroot

end CrossChain
end Komodo
