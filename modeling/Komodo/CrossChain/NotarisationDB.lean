/-
# The notarisation database

`src/src/notarisationdb.cpp` with `ConnectNotarisations` and `DisconnectNotarisations` of
`src/src/main.cpp`.

The database has two kinds of entries behind one kind of key: the hash of a block leads to the
list of the notarisations of the block, and the id of a notarisation on KMD to the
back-notarisation that names it. Connecting a block writes both, in one batch. Disconnecting it
looks up the list of the block and erases what the list names; what an entry was before the
block is not kept.

A key that several blocks write is erased when the first of them is disconnected.
`notarisations_restored_iff` says which databases are restored by a run of blocks that is
connected and then disconnected.
-/

import Komodo.CrossChain.NotarisationData

namespace Komodo

open Streams Unserialize List

/-! ### Batches -/

/-- `CDBWrapper`: serialised values by key. -/
abbrev NotarisationDB := Uint256 → Option Bytes

/-- `CDBBatch`: writes, and erasures as `none`, in order. -/
abbrev CDBBatch := List (Uint256 × Option Bytes)

def NotarisationDB.writeBatch (db : NotarisationDB) (batch : CDBBatch) : NotarisationDB :=
  batch.foldl (fun db op => Function.update db op.1 op.2) db

namespace NotarisationDB

theorem writeBatch_cons (db : NotarisationDB) (op : Uint256 × Option Bytes) (batch : CDBBatch) :
    db.writeBatch (op :: batch) = writeBatch (Function.update db op.1 op.2) batch := rfl

theorem writeBatch_of_notMem {db : NotarisationDB} {batch : CDBBatch} {k : Uint256}
    (h : k ∉ batch.map Prod.fst) : db.writeBatch batch k = db k := by
  induction batch generalizing db with
  | nil => rfl
  | cons op batch ih =>
    rw [map_cons, mem_cons, not_or] at h
    rw [writeBatch_cons, ih h.2, Function.update_of_ne h.1]

theorem writeBatch_erase (db : NotarisationDB) (keys : List Uint256) (k : Uint256) :
    db.writeBatch (keys.map fun key => (key, none)) k = if k ∈ keys then none else db k := by
  induction keys generalizing db with
  | nil => rfl
  | cons key keys ih =>
    rw [map_cons, writeBatch_cons, ih]
    rcases eq_or_ne k key with rfl | hne
    · simp
    · simp [hne]

end NotarisationDB

/-! ### Notarisations of a block -/

/-- `Notarisation`: the id of the transaction and its data. -/
abbrev Notarisation := Uint256 × NotarisationData

/-- `ss << n`. -/
def notarisationBytes (n : Notarisation) : Bytes := uint256Bytes n.1 ++ n.2.bytes

/-- What is read of a block. -/
structure NotarisedBlock where
  hash : Uint256
  nTime : ℕ
  vtx : List CTransaction
deriving DecidableEq, Repr

inductive CrosschainType
  | CROSSCHAIN_KOMODO
  | CROSSCHAIN_TXSCL
  | CROSSCHAIN_STAKED
deriving DecidableEq, Repr

/-- The chain and the lists of notaries. -/
structure NotarisationEnv where
  /-- `chainName.isKMD()`. -/
  isKMD : Bool
  isStaked : Bytes → ℕ
  stakedEra : ℕ → ℤ
  checkNotaryInputs : CTransaction → ℤ → ℕ → Bool
  /-- `CheckTxAuthority` with `Choose_auth_STAKED` of the era. -/
  checkTxAuthority : CTransaction → ℤ → Bool

namespace NotarisationEnv

/-- `GetSymbolAuthority`: `TXSCL` at the front, or a staked chain. -/
def getSymbolAuthority (env : NotarisationEnv) (symbol : Bytes) : CrosschainType :=
  if symbol.take 5 = [84, 88, 83, 67, 76] then .CROSSCHAIN_TXSCL
  else if env.isStaked symbol ≠ 0 then .CROSSCHAIN_STAKED
  else .CROSSCHAIN_KOMODO

/-- The signers of a notarisation are notaries. For a staked chain the test whether it is banned
stands behind a `continue`. -/
def authorised (env : NotarisationEnv) (tx : CTransaction) (symbol : Bytes) (nHeight : ℤ)
    (nTime : ℕ) : Bool :=
  match env.getSymbolAuthority symbol with
  | .CROSSCHAIN_KOMODO => env.checkNotaryInputs tx nHeight nTime
  | .CROSSCHAIN_STAKED =>
    env.stakedEra nTime ≠ 0 && env.checkTxAuthority tx (env.stakedEra nTime)
  | .CROSSCHAIN_TXSCL => true

/-- `ScanBlockNotarisations`. What is not parsed has the empty symbol. -/
def scanBlockNotarisations (env : NotarisationEnv) (block : NotarisedBlock) (nHeight : ℤ) :
    List Notarisation :=
  block.vtx.filterMap fun tx => do
    let data ← NotarisationData.parseNotarisationOpReturn env.isKMD tx
    guard (data.symbol ≠ [])
    guard (env.authorised tx data.symbol nHeight block.nTime)
    pure (tx.hash, data)

/-- `ss >> n`. -/
def readNotarisation (env : NotarisationEnv) : Unserialize Notarisation := do
  let hash ← uint256
  let data ← NotarisationData.unserialize env.isKMD
  pure (hash, data)

/-- `GetBlockNotarisations`: an entry is read from its front. -/
def getBlockNotarisations (env : NotarisationEnv) (db : NotarisationDB) (blockHash : Uint256) :
    Option (List Notarisation) :=
  (db blockHash).bind fun v => (vectorOf env.readNotarisation v).map Prod.fst

end NotarisationEnv

/-! ### Connecting and disconnecting -/

/-- The notarisations on KMD that are named. -/
def backKeys (notarisations : List Notarisation) : List Uint256 :=
  (notarisations.map fun n => n.2.txHash).filter (· ≠ 0)

def writeBackNotarisations (notarisations : List Notarisation) : CDBBatch :=
  (notarisations.filter fun n => n.2.txHash ≠ 0).map fun n =>
    (n.2.txHash, some (notarisationBytes n))

def eraseBackNotarisations (notarisations : List Notarisation) : CDBBatch :=
  (notarisations.filter fun n => n.2.txHash ≠ 0).map fun n => (n.2.txHash, none)

namespace NotarisationEnv

/-- `ConnectNotarisations`, of a block with its height. -/
def connectNotarisations (env : NotarisationEnv) (db : NotarisationDB)
    (block : NotarisedBlock × ℤ) : NotarisationDB :=
  let notarisations := env.scanBlockNotarisations block.1 block.2
  if notarisations.length > 0 then
    db.writeBatch ((block.1.hash, some (listBytes notarisationBytes notarisations))
      :: writeBackNotarisations notarisations)
  else db

def disconnectNotarisations (env : NotarisationEnv) (db : NotarisationDB)
    (block : NotarisedBlock) : NotarisationDB :=
  match env.getBlockNotarisations db block.hash with
  | some nibs => db.writeBatch ((block.hash, none) :: eraseBackNotarisations nibs)
  | none => db

/-- Blocks are connected. -/
def connectAll (env : NotarisationEnv) (db : NotarisationDB) (blocks : List (NotarisedBlock × ℤ)) :
    NotarisationDB :=
  blocks.foldl env.connectNotarisations db

/-- They are disconnected, the last one first. -/
def disconnectAll (env : NotarisationEnv) (db : NotarisationDB)
    (blocks : List (NotarisedBlock × ℤ)) : NotarisationDB :=
  blocks.reverse.foldl (fun db block => env.disconnectNotarisations db block.1) db

/-- What connecting a block writes. -/
def writtenKeys (env : NotarisationEnv) (block : NotarisedBlock × ℤ) : List Uint256 :=
  let notarisations := env.scanBlockNotarisations block.1 block.2
  if notarisations = [] then [] else block.1.hash :: backKeys notarisations

/-- The hash of a block is its own: no other block of the run has it, no back-notarisation names
it; and the notarisations can be read back. -/
structure Regular (env : NotarisationEnv) (blocks : List (NotarisedBlock × ℤ)) : Prop where
  hashes : (blocks.map fun block => block.1.hash).Nodup
  apart : ∀ block ∈ blocks, ∀ block' ∈ blocks,
    block.1.hash ∉ backKeys (env.scanBlockNotarisations block'.1 block'.2)
  size : ∀ block ∈ blocks, block.1.vtx.length ≤ maxSize
  txids : ∀ block ∈ blocks, ∀ tx ∈ block.1.vtx, tx.hash < 2 ^ 256
  readable : ∀ block ∈ blocks, ∀ n ∈ env.scanBlockNotarisations block.1 block.2,
    n.2.Readable env.isKMD

section
variable {env : NotarisationEnv} {db : NotarisationDB} {block : NotarisedBlock × ℤ}
  {blocks : List (NotarisedBlock × ℤ)} {k : Uint256}

/-! ### One block -/

theorem scan_wellFormed {n : Notarisation}
    (h : n ∈ env.scanBlockNotarisations block.1 block.2) :
    n.2.WellFormed ∧ ∃ tx ∈ block.1.vtx, n.1 = tx.hash := by
  obtain ⟨tx, htx, hn⟩ := mem_filterMap.1 h
  simp only [Option.bind_eq_bind, Option.bind_eq_some_iff, Option.pure_def, Option.some.injEq] at hn
  obtain ⟨data, hparse, -, -, -, -, rfl⟩ := hn
  exact ⟨NotarisationData.wellFormed_of_parsed hparse, tx, htx, rfl⟩

theorem reads_notarisations (h : env.Regular blocks) (hmem : block ∈ blocks) :
    Reads (vectorOf env.readNotarisation)
      (listBytes notarisationBytes (env.scanBlockNotarisations block.1 block.2))
      (env.scanBlockNotarisations block.1 block.2) := by
  refine reads_vectorOf ?_ fun n hn => ?_
  · exact (length_filterMap_le _ _).trans (h.size block hmem)
  · obtain ⟨hwf, tx, htx, htxid⟩ := scan_wellFormed hn
    have hhash : n.1 < 2 ^ 256 := htxid ▸ h.txids block hmem tx htx
    have hdata := (NotarisationData.roundTrips_iff hwf).2 (h.readable block hmem n hn)
    have hread := (reads_uint256 hhash).bind (f := fun hash =>
      NotarisationData.unserialize env.isKMD >>= fun data => pure (hash, data))
      (hdata.bind (reads_pure n))
    rwa [append_nil] at hread

theorem writeBackNotarisations_keys (ns : List Notarisation) :
    (writeBackNotarisations ns).map Prod.fst = backKeys ns := by
  simp [writeBackNotarisations, backKeys, filter_map, Function.comp_def]

theorem eraseBackNotarisations_eq (ns : List Notarisation) :
    eraseBackNotarisations ns = (backKeys ns).map fun key => (key, none) := by
  simp [eraseBackNotarisations, backKeys, filter_map, Function.comp_def]

theorem mem_writtenKeys : k ∈ env.writtenKeys block ↔
    env.scanBlockNotarisations block.1 block.2 ≠ [] ∧
      (k = block.1.hash ∨ k ∈ backKeys (env.scanBlockNotarisations block.1 block.2)) := by
  show (k ∈ if env.scanBlockNotarisations block.1 block.2 = [] then [] else _) ↔ _
  split_ifs with hnil
  · simp [hnil]
  · simp [hnil]

theorem connect_of_notMem (h : k ∉ env.writtenKeys block) :
    env.connectNotarisations db block k = db k := by
  unfold connectNotarisations
  split_ifs with hpos
  · rw [writtenKeys, if_neg (ne_nil_of_length_pos hpos)] at h
    refine NotarisationDB.writeBatch_of_notMem ?_
    rwa [map_cons, writeBackNotarisations_keys]
  · rfl

theorem connect_hash (hne : env.scanBlockNotarisations block.1 block.2 ≠ [])
    (h : block.1.hash ∉ backKeys (env.scanBlockNotarisations block.1 block.2)) :
    env.connectNotarisations db block block.1.hash
      = some (listBytes notarisationBytes (env.scanBlockNotarisations block.1 block.2)) := by
  unfold connectNotarisations
  rw [if_pos (length_pos_of_ne_nil hne), NotarisationDB.writeBatch_cons,
    NotarisationDB.writeBatch_of_notMem (by rwa [writeBackNotarisations_keys]),
    Function.update_self]

theorem disconnect_of_some {b : NotarisedBlock} {nibs : List Notarisation}
    (h : env.getBlockNotarisations db b.hash = some nibs) (k : Uint256) :
    env.disconnectNotarisations db b k = if k ∈ b.hash :: backKeys nibs then none else db k := by
  rw [disconnectNotarisations, h]
  show db.writeBatch _ k = _
  rw [eraseBackNotarisations_eq, ← NotarisationDB.writeBatch_erase, map_cons]

theorem disconnect_of_none {b : NotarisedBlock} (h : env.getBlockNotarisations db b.hash = none) :
    env.disconnectNotarisations db b = db := by
  rw [disconnectNotarisations, h]

theorem disconnect_eq_or (env : NotarisationEnv) (db : NotarisationDB) (b : NotarisedBlock)
    (k : Uint256) : env.disconnectNotarisations db b k = db k ∨
      env.disconnectNotarisations db b k = none := by
  cases h : env.getBlockNotarisations db b.hash with
  | none => exact Or.inl (by rw [disconnect_of_none h])
  | some nibs =>
    rw [disconnect_of_some h]
    split_ifs
    · exact Or.inr rfl
    · exact Or.inl rfl

/-! ### A run of blocks -/

theorem Regular.tail (h : env.Regular (block :: blocks)) : env.Regular blocks where
  hashes := (nodup_cons.1 h.hashes).2
  apart b hb b' hb' := h.apart b (List.mem_cons_of_mem _ hb) b' (List.mem_cons_of_mem _ hb')
  size b hb := h.size b (List.mem_cons_of_mem _ hb)
  txids b hb := h.txids b (List.mem_cons_of_mem _ hb)
  readable b hb := h.readable b (List.mem_cons_of_mem _ hb)

variable {b : NotarisedBlock × ℤ}

theorem Regular.hash_notMem (h : env.Regular (block :: blocks))
    (hb : b ∈ blocks) : block.1.hash ∉ env.writtenKeys b := by
  rw [mem_writtenKeys]
  rintro ⟨-, hhash | hback⟩
  · exact (nodup_cons.1 h.hashes).1 (mem_map.2 ⟨b, hb, hhash.symm⟩)
  · exact h.apart block mem_cons_self b (mem_cons_of_mem _ hb) hback

theorem connectAll_of_notMem (h : ∀ b ∈ blocks, k ∉ env.writtenKeys b) :
    env.connectAll db blocks k = db k := by
  induction blocks generalizing db with
  | nil => rfl
  | cons b blocks ih =>
    obtain ⟨hb, hrest⟩ := forall_mem_cons.1 h
    show env.connectAll (env.connectNotarisations db b) blocks k = db k
    rw [ih hrest, connect_of_notMem hb]

theorem connectAll_hash (h : env.Regular blocks) (hb : b ∈ blocks)
    (hne : env.scanBlockNotarisations b.1 b.2 ≠ []) :
    env.connectAll db blocks b.1.hash
      = some (listBytes notarisationBytes (env.scanBlockNotarisations b.1 b.2)) := by
  induction blocks generalizing db with
  | nil => cases hb
  | cons block blocks ih =>
    show env.connectAll (env.connectNotarisations db block) blocks b.1.hash = _
    rcases mem_cons.1 hb with rfl | hmem
    · rw [connectAll_of_notMem fun b' hb' => h.hash_notMem hb']
      exact connect_hash hne (h.apart b hb b hb)
    · exact ih h.tail hmem

theorem disconnectAll_cons (env : NotarisationEnv) (db : NotarisationDB)
    (block : NotarisedBlock × ℤ) (blocks : List (NotarisedBlock × ℤ)) :
    env.disconnectAll db (block :: blocks)
      = env.disconnectNotarisations (env.disconnectAll db blocks) block.1 := by
  rw [disconnectAll, disconnectAll, reverse_cons, foldl_append]
  rfl

theorem disconnectAll_eq_or (env : NotarisationEnv) (db : NotarisationDB)
    (blocks : List (NotarisedBlock × ℤ)) (k : Uint256) :
    env.disconnectAll db blocks k = db k ∨ env.disconnectAll db blocks k = none := by
  induction blocks with
  | nil => exact Or.inl rfl
  | cons b blocks ih =>
    rw [disconnectAll_cons]
    rcases disconnect_eq_or env (env.disconnectAll db blocks) b.1 k with heq | hnone
    · rwa [heq]
    · exact Or.inr hnone

theorem getBlockNotarisations_congr {db' : NotarisationDB} (h : db k = db' k) :
    env.getBlockNotarisations db k = env.getBlockNotarisations db' k := by
  rw [getBlockNotarisations, h, ← getBlockNotarisations]

/-- A list that is found under the hash of a block is erased, whoever wrote it. -/
theorem disconnectAll_of_some (hb : b ∈ blocks) {nibs : List Notarisation}
    (h : env.getBlockNotarisations db b.1.hash = some nibs) :
    env.disconnectAll db blocks b.1.hash = none := by
  induction blocks with
  | nil => cases hb
  | cons block blocks ih =>
    rw [disconnectAll_cons]
    rcases mem_cons.1 hb with rfl | hmem
    · rcases disconnectAll_eq_or env db blocks b.1.hash with heq | hnone
      · rw [disconnect_of_some ((getBlockNotarisations_congr heq).trans h)]
        exact if_pos mem_cons_self
      · rcases disconnect_eq_or env (env.disconnectAll db blocks) b.1 b.1.hash with heq | hnone'
        · rwa [heq]
        · exact hnone'
    · rcases disconnect_eq_or env (env.disconnectAll db blocks) block.1 b.1.hash with heq | hnone
      · rw [heq, ih hmem]
      · exact hnone

/-- A run is disconnected from a database that holds the list of each of its blocks, and nothing
that reads as a list for the blocks without notarisations. -/
theorem disconnectAll_apply (h : env.Regular blocks)
    (hnone : ∀ b ∈ blocks, env.scanBlockNotarisations b.1 b.2 = [] →
      env.getBlockNotarisations db b.1.hash = none)
    (hsome : ∀ b ∈ blocks, env.scanBlockNotarisations b.1 b.2 ≠ [] → db b.1.hash
      = some (listBytes notarisationBytes (env.scanBlockNotarisations b.1 b.2))) (k : Uint256) :
    env.disconnectAll db blocks k
      = if ∃ b ∈ blocks, k ∈ env.writtenKeys b then none else db k := by
  induction blocks generalizing k with
  | nil => simp [disconnectAll]
  | cons block blocks ih =>
    obtain ⟨hnone₀, hnone⟩ := forall_mem_cons.1 hnone
    obtain ⟨hsome₀, hsome⟩ := forall_mem_cons.1 hsome
    have hrest := ih h.tail hnone hsome
    have hown : env.disconnectAll db blocks block.1.hash = db block.1.hash := by
      rw [hrest, if_neg]
      rintro ⟨b, hb, hmem⟩
      exact h.hash_notMem hb hmem
    rw [disconnectAll_cons]
    simp only [mem_cons, exists_eq_or_imp]
    rcases eq_or_ne (env.scanBlockNotarisations block.1 block.2) [] with hnil | hne
    · have hget := (getBlockNotarisations_congr hown).trans (hnone₀ hnil)
      have hkeys : k ∉ env.writtenKeys block := fun hk => (mem_writtenKeys.1 hk).1 hnil
      rw [disconnect_of_none hget, hrest]
      simp only [hkeys, false_or]
    · have hget : env.getBlockNotarisations (env.disconnectAll db blocks) block.1.hash
          = some (env.scanBlockNotarisations block.1 block.2) := by
        rw [getBlockNotarisations, hown, hsome₀ hne, Option.bind_some,
          (reads_notarisations h mem_cons_self).apply]
        rfl
      have hkeys : env.writtenKeys block
          = block.1.hash :: backKeys (env.scanBlockNotarisations block.1 block.2) := if_neg hne
      rw [disconnect_of_some hget, hrest, ← hkeys]
      by_cases hk : k ∈ env.writtenKeys block
      · simp only [hk, if_true, true_or]
      · simp only [hk, if_false, false_or]

/-- Nothing is recorded under the keys that the blocks write, and no list under the hash of a
block without notarisations. -/
structure Unrecorded (env : NotarisationEnv) (db : NotarisationDB)
    (blocks : List (NotarisedBlock × ℤ)) : Prop where
  written : ∀ b ∈ blocks, ∀ k ∈ env.writtenKeys b, db k = none
  without : ∀ b ∈ blocks, env.scanBlockNotarisations b.1 b.2 = [] →
    env.getBlockNotarisations db b.1.hash = none

theorem connectAll_without (h : env.Regular blocks) (hb : b ∈ blocks)
    (hnil : env.scanBlockNotarisations b.1 b.2 = []) :
    env.connectAll db blocks b.1.hash = db b.1.hash := by
  refine connectAll_of_notMem fun b' hb' hmem => ?_
  obtain ⟨hne, heq | hback⟩ := mem_writtenKeys.1 hmem
  · have hsame : b = b' := inj_on_of_nodup_map h.hashes hb hb' heq
    exact hne (hsame ▸ hnil)
  · exact h.apart b hb b' hb' hback

end

/-- **A run of blocks is undone when nothing of it was recorded before.** The blocks may write
the same keys as each other, and a block a key twice; but an entry from before the run, of an
earlier block, is lost. -/
theorem notarisations_restored_iff (env : NotarisationEnv) (db : NotarisationDB)
    (blocks : List (NotarisedBlock × ℤ)) (h : env.Regular blocks) :
    env.disconnectAll (env.connectAll db blocks) blocks = db ↔ env.Unrecorded db blocks := by
  have happly : (∀ b ∈ blocks, env.scanBlockNotarisations b.1 b.2 = [] →
      env.getBlockNotarisations db b.1.hash = none) → ∀ k,
      env.disconnectAll (env.connectAll db blocks) blocks k
        = if ∃ b ∈ blocks, k ∈ env.writtenKeys b then none else env.connectAll db blocks k := by
    intro hwithout
    refine disconnectAll_apply h (fun b hb hnil => ?_) fun b hb hne => connectAll_hash h hb hne
    rw [getBlockNotarisations_congr (connectAll_without h hb hnil)]
    exact hwithout b hb hnil
  constructor
  · intro hrestored
    have hwithout : ∀ b ∈ blocks, env.scanBlockNotarisations b.1 b.2 = [] →
        env.getBlockNotarisations db b.1.hash = none := by
      intro b hb hnil
      by_contra hsome
      obtain ⟨nibs, hnibs⟩ := Option.ne_none_iff_exists'.1 hsome
      have hlost := disconnectAll_of_some hb
        ((getBlockNotarisations_congr (connectAll_without h hb hnil)).trans hnibs)
      rw [hrestored] at hlost
      rw [getBlockNotarisations, hlost] at hnibs
      cases hnibs
    refine ⟨fun b hb k hk => ?_, hwithout⟩
    have hfinal := happly hwithout k
    rwa [hrestored, if_pos ⟨b, hb, hk⟩] at hfinal
  · rintro ⟨hwritten, hwithout⟩
    funext k
    rw [happly hwithout]
    split_ifs with hk
    · obtain ⟨b, hb, hmem⟩ := hk
      exact (hwritten b hb k hmem).symm
    · exact connectAll_of_notMem fun b hb hmem => hk ⟨b, hb, hmem⟩

end NotarisationEnv

/-! ### Two blocks that name one notarisation -/

open NotarisationData.NotarisationSample

namespace NotarisedSample

/-- An asset chain. -/
def env : NotarisationEnv where
  isKMD := false
  isStaked _ := 0
  stakedEra _ := 0
  checkNotaryInputs _ _ _ := true
  checkTxAuthority _ _ := false

/-- A block that brings the back-notarisation. -/
def firstBlock : NotarisedBlock × ℤ :=
  ({ hash := 101, nTime := 0, vtx := [carrier backNotarisation] }, 50)

/-- The next block brings it again. -/
def secondBlock : NotarisedBlock × ℤ :=
  ({ hash := 102, nTime := 0, vtx := [{ carrier backNotarisation with hash := 10 }] }, 51)

theorem regular_blocks : env.Regular [firstBlock, secondBlock] where
  hashes := by decide
  apart := by decide +kernel
  size := by decide
  txids := by decide
  readable := by decide +kernel

end NotarisedSample

open NotarisedSample

/-- The hypothesis of `notarisations_restored_iff` is satisfiable: both blocks come and go. -/
theorem notarisations_restored_both :
    env.disconnectAll (env.connectAll (fun _ => none) [firstBlock, secondBlock])
      [firstBlock, secondBlock] = fun _ => none :=
  (env.notarisations_restored_iff (fun _ => none) _ regular_blocks).2
    ⟨fun _ _ _ _ => rfl, fun _ _ _ => rfl⟩

/-- **The first block loses its entry.** It stays connected; the second comes and goes. -/
theorem back_notarisation_lost :
    let db := env.connectAll (fun _ => none) [firstBlock]
    (db backNotarisation.txHash).isSome ∧
      env.disconnectAll (env.connectAll db [secondBlock]) [secondBlock] ≠ db ∧
      env.disconnectAll (env.connectAll db [secondBlock]) [secondBlock]
        backNotarisation.txHash = none := by
  have hfound : (env.connectAll (fun _ => none) [firstBlock] backNotarisation.txHash).isSome := by
    decide +kernel
  have hlost : env.disconnectAll (env.connectAll (env.connectAll (fun _ => none) [firstBlock])
      [secondBlock]) [secondBlock] backNotarisation.txHash = none := by
    decide +kernel
  refine ⟨hfound, fun heq => ?_, hlost⟩
  rw [heq] at hlost
  rw [hlost] at hfound
  cases hfound

end Komodo
