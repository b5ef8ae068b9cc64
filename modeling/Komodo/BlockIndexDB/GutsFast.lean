/-
# The block index read by several threads

`CBlockTreeDB::LoadBlockIndexGutsFast` of `src/src/txdb.cpp`: the main thread reads the records and
queues them, and worker threads put them into `mapBlockIndex`, each record under a lock
(`Komodo.Lib.WorkQueue`).

Records of different blocks can be put in in any order, so the map is the one that
`LoadBlockIndexGuts` builds as long as there is a worker at all.  Where
`std::thread::hardware_concurrency()` reports 0 there is none: nothing is put in, what is queued is
dropped, and the function still returns true.
-/

import Komodo.BlockIndexDB.LoadGuts

namespace Komodo
namespace BlockIndexDB

open WorkQueue Option

def MAX_LOADING_GUTS_THREADS : ℕ := 4

/-- The number of worker threads. -/
def numThreads (hardwareConcurrency : ℕ) : ℕ := min MAX_LOADING_GUTS_THREADS hardwareConcurrency

/-- The record that the main thread queues next, or what it returns. -/
def nextRecord : List CursorEntry → Except Bool (CDiskBlockIndex × List CursorEntry)
  | [] => .error true
  | e :: pcursor =>
    match e.record with
    | .error r => .error r
    | .ok diskindex => .ok (diskindex, pcursor)

/-- `LoadBlockIndexGutsFast` can return `r` and leave the map `m`. -/
def LoadBlockIndexGutsFast (getHash : CBlockHeader → Uint256) (hardwareConcurrency : ℕ)
    (pcursor : List CursorEntry) (r : Bool) (m : BlockMap) : Prop :=
  ∃ p, Relation.ReflTransGen (Step nextRecord (insertRecord getHash))
      (start (numThreads hardwareConcurrency) pcursor ∅) p ∧ p.Finished r ∧ p.state = m

/-- The records up to the end of the block index, when all of them can be read. -/
def readRecords : List CursorEntry → Option (List CDiskBlockIndex)
  | [] => some []
  | e :: pcursor =>
    match e.record with
    | .error r => if r then some [] else none
    | .ok diskindex => (readRecords pcursor).map (diskindex :: ·)

variable {getHash : CBlockHeader → Uint256}

variable {ds : List CDiskBlockIndex}

/-- The main thread queues the records, and returns true when it has read all. -/
theorem produced_iff {pcursor : List CursorEntry} :
    Produced nextRecord pcursor ds true ↔ readRecords pcursor = some ds := by
  induction pcursor generalizing ds with
  | nil =>
    have hnext : nextRecord [] = .error true := rfl
    rw [produced_of_error hnext, readRecords, some_inj, eq_comm (a := [])]
    exact and_iff_left rfl
  | cons e pcursor ih =>
    unfold readRecords
    cases he : e.record with
    | error r =>
      have hnext : nextRecord (e :: pcursor) = .error r := by rw [nextRecord, he]
      rw [produced_of_error hnext]
      cases r <;> simp [eq_comm]
    | ok d =>
      have hnext : nextRecord (e :: pcursor) = .ok (d, pcursor) := by rw [nextRecord, he]
      rw [produced_of_ok hnext]
      simp only [ih, map_eq_some_iff]
      exact exists_congr fun rest => by rw [and_comm, eq_comm (a := ds)]

/-- `LoadBlockIndexGuts` puts the records in one after the other. -/
theorem loadBlockIndexGuts_eq {pcursor : List CursorEntry}
    (h : readRecords pcursor = some ds) (count : ℕ) (m : BlockMap) :
    loadBlockIndexGuts getHash (fun _ => false) count pcursor m =
      (doAll (insertRecord getHash) ds m).map fun m' => (true, m') := by
  induction pcursor generalizing ds count m with
  | nil =>
    cases h
    rfl
  | cons e pcursor ih =>
    unfold readRecords at h
    unfold loadBlockIndexGuts
    cases he : e.record with
    | error r =>
      rw [he] at h
      dsimp only at h
      split_ifs at h with hr
      cases h
      rw [hr]
      rfl
    | ok d =>
      rw [he] at h
      obtain ⟨rest, hrest, rfl⟩ := map_eq_some_iff.mp h
      simp only [Bool.false_eq_true, if_false]
      have hcons : doAll (insertRecord getHash) (d :: rest) m =
          (insertRecord getHash d m).bind (doAll (insertRecord getHash) rest) := rfl
      rw [hcons]
      cases insertRecord getHash d m with
      | none => rfl
      | some m₁ => exact ih hrest (count + 1) m₁

/-! ### The order of the records -/

/-- Records of one block agree. -/
def Agree (getHash : CBlockHeader → Uint256) (ds : List CDiskBlockIndex) : Prop :=
  ∀ d ∈ ds, ∀ d' ∈ ds, d.getBlockHash getHash = d'.getBlockHash getHash →
    d.assignTo {} = d'.assignTo {}

theorem lastRecord_eq_none {h : Uint256} :
    lastRecord getHash ds h = none ↔ ∀ d ∈ ds, d.getBlockHash getHash ≠ h := by
  simp [lastRecord]

theorem lastRecord_eq_some {h : Uint256} {d : CDiskBlockIndex}
    (hd : lastRecord getHash ds h = some d) : d ∈ ds ∧ d.getBlockHash getHash = h := by
  have hmem := List.mem_of_find?_eq_some hd
  have hhash := List.find?_some hd
  exact ⟨List.mem_reverse.mp hmem, by simpa using hhash⟩

/-- Records that agree can be put in in any order. -/
theorem entryOf_perm {ds ds' : List CDiskBlockIndex} (hperm : ds'.Perm ds) (h : Agree getHash ds)
    (hash : Uint256) : entryOf getHash ds' hash = entryOf getHash ds hash := by
  unfold entryOf
  cases hd : lastRecord getHash ds hash with
  | none =>
    have hnone : lastRecord getHash ds' hash = none :=
      lastRecord_eq_none.mpr fun d hmem => lastRecord_eq_none.mp hd d (hperm.mem_iff.mp hmem)
    rw [hnone]
    simp only [hperm.mem_iff]
  | some d =>
    obtain ⟨hmem, hhash⟩ := lastRecord_eq_some hd
    cases hd' : lastRecord getHash ds' hash with
    | none => exact absurd hhash (lastRecord_eq_none.mp hd' d (hperm.mem_iff.mpr hmem))
    | some d' =>
      obtain ⟨hmem', hhash'⟩ := lastRecord_eq_some hd'
      exact congrArg some (h d' (hperm.mem_iff.mp hmem') d hmem (hhash'.trans hhash.symm))

theorem doAll_perm {ds ds' : List CDiskBlockIndex} (hperm : ds'.Perm ds) (h : Agree getHash ds)
    {m : BlockMap} (hm : doAll (insertRecord getHash) ds' ∅ = some m) :
    doAll (insertRecord getHash) ds ∅ = some m := by
  have hne : ∀ d ∈ ds, d.getBlockHash getHash ≠ 0 := by
    have hsome := (doAll_isSome ds' ∅).mp (isSome_of_eq_some hm)
    exact fun d hd => hsome d (hperm.mem_iff.mpr hd)
  obtain ⟨m', hm'⟩ := isSome_iff_exists.mp ((doAll_isSome ds ∅).mpr hne)
  rw [hm']
  refine congrArg some (Finmap.ext_lookup fun hash => ?_)
  rw [lookup_doAll hm', lookup_doAll hm, entryOf_perm hperm h]

/-- Where two records of one block differ, one of them put in last gives another map. -/
theorem exists_other_order (hne : ∀ d ∈ ds, d.getBlockHash getHash ≠ 0)
    (h : ¬ Agree getHash ds) {m : BlockMap} (hm : doAll (insertRecord getHash) ds ∅ = some m) :
    ∃ pre d post m', ds = pre ++ d :: post ∧
      doAll (insertRecord getHash) (pre ++ post ++ [d]) ∅ = some m' ∧ m' ≠ m := by
  simp only [Agree, not_forall] at h
  obtain ⟨d₁, hd₁, d₂, hd₂, hhash, hdiff⟩ := h
  obtain ⟨l, hl⟩ : ∃ l, lastRecord getHash ds (d₁.getBlockHash getHash) = some l := by
    rw [← isSome_iff_exists, isSome_iff_ne_none, Ne, lastRecord_eq_none]
    exact fun hnone => hnone d₁ hd₁ rfl
  -- one of the two is not the last
  obtain ⟨d, hd, hdhash, hdl⟩ : ∃ d ∈ ds, d.getBlockHash getHash = d₁.getBlockHash getHash ∧
      d.assignTo {} ≠ l.assignTo {} := by
    by_cases h₁ : d₁.assignTo {} = l.assignTo {}
    · exact ⟨d₂, hd₂, hhash.symm, fun h₂ => hdiff (h₁.trans h₂.symm)⟩
    · exact ⟨d₁, hd₁, rfl, h₁⟩
  obtain ⟨pre, post, rfl⟩ := List.append_of_mem hd
  have hperm : (pre ++ post ++ [d]).Perm (pre ++ d :: post) := by
    rw [List.append_assoc]
    exact List.Perm.append_left _ (List.perm_append_singleton d post)
  obtain ⟨m', hm'⟩ := isSome_iff_exists.mp
    ((@doAll_isSome getHash (pre ++ post ++ [d]) ∅).mpr fun x hx => hne x (hperm.mem_iff.mp hx))
  refine ⟨pre, d, post, m', rfl, hm', ?_⟩
  rintro rfl
  have hentry := (lookup_doAll hm' (d₁.getBlockHash getHash)).symm.trans
    (lookup_doAll hm (d₁.getBlockHash getHash))
  rw [entryOf, entryOf, lastRecord_append, if_pos hdhash, hl] at hentry
  exact hdl (some.inj hentry)

/-! ### The two loaders -/

/-- There is a worker or nothing to do, and where two workers may differ in their order the records
of one block agree. -/
def GutsFastOk (getHash : CBlockHeader → Uint256) (hardwareConcurrency : ℕ)
    (ds : List CDiskBlockIndex) : Prop :=
  (numThreads hardwareConcurrency = 0 → ds = []) ∧
    (2 ≤ numThreads hardwareConcurrency → (∀ d ∈ ds, d.getBlockHash getHash ≠ 0) → Agree getHash ds)

/-- **The fast loader builds the map of the other one**, in whatever order its workers come, exactly
when there is a worker or no record, and the records of one block agree or one worker takes them
all. -/
theorem gutsFast_iff (getHash : CBlockHeader → Uint256) (hardwareConcurrency : ℕ)
    (pcursor : List CursorEntry) :
    (∀ m, LoadBlockIndexGutsFast getHash hardwareConcurrency pcursor true m →
        loadBlockIndexGuts getHash (fun _ => false) 0 pcursor ∅ = some (true, m)) ↔
      ∀ ds, readRecords pcursor = some ds → GutsFastOk getHash hardwareConcurrency ds := by
  constructor
  · intro h ds hds
    have hproduced := produced_iff.mpr hds
    have hguts := fun m hm => (@loadBlockIndexGuts_eq getHash _ _ hds 0 ∅).symm.trans (h m hm)
    refine ⟨fun hzero => ?_, fun htwo hne => ?_⟩
    · -- no worker: the map stays empty
      obtain ⟨p, hrun, hfin, hstate⟩ :=
        @exists_idle _ _ _ _ (insertRecord getHash) _ ∅ _ _ hproduced
      have hmap := hguts ∅ ⟨p, hzero ▸ hrun, hfin, hstate⟩
      obtain ⟨m, hm, hpair⟩ := Option.map_eq_some_iff.mp hmap
      obtain rfl := congrArg Prod.snd hpair
      cases ds with
      | nil => rfl
      | cons d ds =>
        have hlook := lookup_doAll hm (d.getBlockHash getHash)
        obtain ⟨l, hl⟩ : ∃ l, lastRecord getHash (d :: ds) (d.getBlockHash getHash) = some l := by
          rw [← Option.isSome_iff_exists, Option.isSome_iff_ne_none, Ne, lastRecord_eq_none]
          exact fun hnone => hnone d List.mem_cons_self rfl
        rw [entryOf, hl, Finmap.lookup_empty] at hlook
        cases hlook
    · by_contra hdiff
      obtain ⟨m, hm⟩ := Option.isSome_iff_exists.mp ((doAll_isSome ds ∅).mpr hne)
      obtain ⟨pre, d, post, m', rfl, hm', hother⟩ := exists_other_order hne hdiff hm
      obtain ⟨p, hrun, hfin, hstate⟩ := exists_delayed htwo hproduced hm'
      have hmap := hguts m' ⟨p, hrun, hfin, hstate⟩
      rw [hm] at hmap
      exact hother (congrArg Prod.snd (Option.some.inj hmap)).symm
  · rintro h m ⟨p, hrun, hfin, rfl⟩
    by_cases hzero : numThreads hardwareConcurrency = 0
    · -- without a worker the report is that of a cursor without records
      rw [hzero] at hrun
      obtain ⟨hlength, log, ds, hinv⟩ := inv_run hrun
      have hds := produced_iff.mp ⟨p.input, hinv.pushed, hinv.done hfin.1⟩
      obtain rfl := (h ds hds).1 hzero
      have hworkers : p.workers = [] := List.length_eq_zero_iff.mp hlength
      have hlog : log = [] := by
        have hperm := hinv.perm.eq_nil
        exact (List.append_eq_nil_iff.mp (List.append_eq_nil_iff.mp hperm).1).1
      have hempty : doAll (insertRecord getHash) [] ∅ = some p.state := hlog ▸ hinv.did
      rw [loadBlockIndexGuts_eq hds, hempty]
      rfl
    · obtain ⟨ds, log, hproduced, hperm, hone, hlog⟩ := finished_spec hzero hrun hfin
      have hds := produced_iff.mp hproduced
      rw [loadBlockIndexGuts_eq hds]
      suffices hall : doAll (insertRecord getHash) ds ∅ = some p.state by rw [hall]; rfl
      by_cases h1 : numThreads hardwareConcurrency = 1
      · rw [← hone h1]
        exact hlog
      · have hne : ∀ d ∈ ds, d.getBlockHash getHash ≠ 0 := by
          have hsome := (doAll_isSome log ∅).mp (Option.isSome_of_eq_some hlog)
          exact fun d hd => hsome d (hperm.mem_iff.mpr hd)
        exact doAll_perm hperm ((h ds hds).2 (by omega) hne) hlog

/-- One record, and no worker: the map stays empty where the other loader finds the block. -/
theorem not_gutsFast :
    let getHash := fun header : CBlockHeader => header.nTime
    let pcursor := [(⟨some (DB_BLOCK_INDEX, 7), some { nTime := 7 }⟩ : CursorEntry)]
    LoadBlockIndexGutsFast getHash 0 pcursor true ∅ ∧
      ∀ m, loadBlockIndexGuts getHash (fun _ => false) 0 pcursor ∅ = some (true, m) → m ≠ ∅ := by
  intro getHash pcursor
  have hproduced : Produced nextRecord pcursor [{ nTime := 7 }] true := produced_iff.mpr rfl
  refine ⟨exists_idle hproduced, ?_⟩
  rintro m hm rfl
  have hseven : loadBlockIndexGuts getHash (fun _ => false) 0 pcursor ∅ =
      some (true, (∅ : BlockMap).insert 7 {} |>.insert 7 { nTime := 7 }) := rfl
  have hmem := congrArg (fun r => (r.map fun p => (p.2.lookup 7).isSome)) (hm.symm.trans hseven)
  simp at hmem

end BlockIndexDB
end Komodo
