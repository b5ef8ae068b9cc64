/-
# What a search finds after an update

`komodo_kvupdate` and `komodo_kvsearch` of `src/src/komodo_kv.cpp`, for a key without a record that
has not expired.

`komodo_kvupdate` passes the variable of its flags to the search, which sets it to zero before it
looks for the key, and stores what it finds there afterwards.  So the record of a new key has the
flags zero, whatever the update states and has paid for: it expires after a day and is not
protected.  A search returns the flags of the update, up to the last height that they give, if and
only if they are zero and that height is an `int32_t` (`searches_iff`).
-/

import Komodo.KV.Store

namespace Komodo
namespace KV

/-- Every search for the key of an update, up to the last height of the update, returns its value,
flags and height, and leaves the store alone. -/
def Searches (opret : Bytes) (u : KvUpdate) (kv : KvStore) : Prop :=
  ∀ current_height : ℤ, -2 ^ 31 ≤ current_height → current_height < 2 ^ 31 →
    current_height ≤ u.height + kvduration (flagsOf opret) →
    ∃ rec, kvsearch kv current_height u.key = (some rec, kv) ∧
      rec.value = u.value ∧ rec.flags = flagsOf opret ∧ rec.height = u.height

theorem wrap32_of_range {n : ℤ} (hlow : -2 ^ 31 ≤ n) (hhigh : n < 2 ^ 31) : wrap32 n = n :=
  Int.bmod_eq_of_le (by omega) (by omega)

theorem wrap32_range (n : ℤ) : -2 ^ 31 ≤ wrap32 n ∧ wrap32 n < 2 ^ 31 := by
  unfold wrap32 Int.bmod
  dsimp only
  split <;> omega

/-- The height of an update is an `int32_t`. -/
theorem readUpdate_height {opret : Bytes} {u : KvUpdate} (h : readUpdate opret = some u) :
    -2 ^ 31 ≤ u.height ∧ u.height < 2 ^ 31 := by
  unfold readUpdate at h
  dsimp only at h
  split at h
  · have hheight : u.height = wrap32 (fromLE ((opret.drop 5).take 4)) := by
      rw [← Option.some.inj h]
    rw [hheight]
    exact wrap32_range _
  · cases h

theorem kvduration_nonneg (flags : ℕ) : 0 ≤ kvduration flags := by
  have hdays : 0 ≤ kvnumdays flags := by
    unfold kvnumdays
    dsimp only
    split <;> omega
  exact Int.mul_nonneg hdays (by decide)

namespace KvEnv

variable {env : KvEnv} {opret : Bytes} {value : ℕ} {kv : KvStore} {u : KvUpdate} {fee : ℤ}

theorem applyUpdate_new (hnew : ∀ rec, kv u.key = some rec → rec.expired u.height) :
    env.applyUpdate u kv = .ok (Function.update kv u.key (some (env.written u none))) := by
  cases hrec : kv u.key with
  | none =>
    unfold applyUpdate kvsearch
    rw [hrec]
  | some rec => rw [applyUpdate_of_some hrec, if_pos (hnew rec hrec)]

theorem kvupdate_of_paid (hread : readUpdate opret = some u)
    (hfee : kvfee (flagsOf opret) opret.length (keylenOf opret) = some fee) (hpaid : fee ≤ value) :
    env.kvupdate opret value kv = env.applyUpdate u kv := by
  have hlong : ¬ opret.length < keylenOf opret + 13 := by
    unfold readUpdate at hread
    dsimp only at hread
    split at hread
    · rename_i hsize
      unfold coresizeOf at hsize
      omega
    · cases hread
  unfold kvupdate
  rw [if_neg hlong, hfee]
  simp only [if_neg (Int.not_lt.2 hpaid), hread]

theorem kvsearch_written (current_height : ℤ) :
    kvsearch (Function.update kv u.key (some (env.written u none))) current_height u.key =
      if (env.written u none).expired current_height then (none, Function.update kv u.key none)
      else (some (env.written u none), Function.update kv u.key (some (env.written u none))) := by
  unfold kvsearch
  rw [Function.update_self, Function.update_idem]

theorem expired_written (current_height : ℤ) :
    (env.written u none).expired current_height ↔ wrap32 (u.height + 1440) < current_height := by
  have hday : kvduration 0 = 1440 := by decide
  rw [← hday]
  rfl

/-- **After an update of a new key every search up to its last height returns its
flags**, if and only if they are zero and the last height is an `int32_t`. -/
theorem searches_iff (env : KvEnv) {opret : Bytes} {value : ℕ} {kv : KvStore} {u : KvUpdate}
    {fee : ℤ} (hread : readUpdate opret = some u)
    (hfee : kvfee (flagsOf opret) opret.length (keylenOf opret) = some fee) (hpaid : fee ≤ value)
    (hnew : ∀ rec, kv u.key = some rec → rec.expired u.height) :
    (∃ kv', env.kvupdate opret value kv = .ok kv' ∧ Searches opret u kv') ↔
      flagsOf opret = 0 ∧ u.height + 1440 < 2 ^ 31 := by
  obtain ⟨hlow, hhigh⟩ := readUpdate_height hread
  rw [kvupdate_of_paid hread hfee hpaid, applyUpdate_new hnew]
  simp only [Except.ok.injEq, exists_eq_left']
  unfold Searches
  simp only [kvsearch_written, expired_written]
  constructor
  · intro hsearch
    have hlast := kvduration_nonneg (flagsOf opret)
    obtain ⟨rec, hrec, -, hflags, -⟩ := hsearch u.height hlow hhigh (by omega)
    split at hrec
    · cases hrec
    · rename_i hexpired
      obtain rfl := Option.some.inj (Prod.mk.inj hrec).1
      refine ⟨hflags.symm, Int.not_le.1 fun hover => hexpired ?_⟩
      -- a height behind the last `int32_t` is negative
      have hwrap : wrap32 (u.height + 1440) = u.height + 1440 - 2 ^ 32 := by
        unfold wrap32
        rw [← Int.sub_bmod_right]
        exact Int.bmod_eq_of_le (by omega) (by omega)
      omega
  · rintro ⟨hflags, hlast⟩ current_height - - hle
    have hduration : kvduration (flagsOf opret) = 1440 := by
      rw [hflags]
      rfl
    rw [hduration] at hle
    rw [wrap32_of_range (by omega) hlast, if_neg (Int.not_lt.2 hle)]
    exact ⟨_, rfl, rfl, hflags.symm, rfl⟩

end KvEnv

/-- An update of the key `A` to the value 2 at height 1000, with the flags given. -/
def exampleOpret (flags : UInt8) : Bytes :=
  [0x4b, 1, 0, 1, 0] ++ [232, 3, 0, 0] ++ [flags, 0, 0, 0] ++ [0x41] ++ [2]

/-- What is read of it. -/
def exampleUpdate : KvUpdate :=
  { key := [0x41], value := [2], height := 1000, pubkey := 0, sig := none, rest := [2] }

/-- A node without keys. -/
def exampleEnv : KvEnv := { sha256 := fun _ => [], curve25519_shared := fun _ _ => 0 }

/-- With the flags zero it is found for a day. -/
theorem searches_day :
    ∃ kv', exampleEnv.kvupdate (exampleOpret 0) 100000 (fun _ => none) = .ok kv' ∧
      Searches (exampleOpret 0) exampleUpdate kv' := by
  have hfee : kvfee (flagsOf (exampleOpret 0)) (exampleOpret 0).length (keylenOf (exampleOpret 0))
      = some 100000 := by decide
  exact (KvEnv.searches_iff exampleEnv (by decide) hfee (by decide) (fun _ h => by cases h)).2
    (by decide)

/-- **Two days that are paid for are not stored.** -/
theorem not_searches_two_days : ¬ ∀ (env : KvEnv) (opret : Bytes) (value : ℕ) (kv : KvStore)
    (u : KvUpdate) (fee : ℤ), readUpdate opret = some u →
    kvfee (flagsOf opret) opret.length (keylenOf opret) = some fee → fee ≤ value →
    (∀ rec, kv u.key = some rec → rec.expired u.height) →
    ∃ kv', env.kvupdate opret value kv = .ok kv' ∧ Searches opret u kv' := by
  intro hall
  obtain ⟨kv', hkv', hsearches⟩ := hall exampleEnv (exampleOpret 4) 100000 (fun _ => none)
    exampleUpdate 100000 (by decide) (by decide) (by decide) fun _ h => by cases h
  have hread : readUpdate (exampleOpret 4) = some exampleUpdate := by decide
  have hfee : kvfee (flagsOf (exampleOpret 4)) (exampleOpret 4).length (keylenOf (exampleOpret 4))
      = some 100000 := by decide
  rw [KvEnv.kvupdate_of_paid hread hfee (by decide),
    KvEnv.applyUpdate_new fun _ h => by cases h] at hkv'
  obtain rfl := Except.ok.inj hkv'
  obtain ⟨rec, hrec, -, hflags, -⟩ := hsearches 1000 (by decide) (by decide) (by decide)
  rw [KvEnv.kvsearch_written, if_neg (by decide)] at hrec
  obtain rfl := Option.some.inj (Prod.mk.inj hrec).1
  exact absurd hflags (by decide)

end KV
end Komodo
