/-
# The key-value store

`komodo_kvsigverify`, `komodo_kvduration`, `komodo_kvfee`, `komodo_kvsearch` and `komodo_kvupdate` of
`src/src/komodo_kv.cpp`, and `komodo_eventadd_opreturn` of `src/src/komodo_events.cpp`, on a chain
other than KMD.

A record belongs to a public key.  Until it expires it is changed by an update that its key has
signed, over the key of the record and the value that is stored.  Whether it has expired is found by
`komodo_kvsearch` from a `current_height`, and `komodo_kvupdate` passes the height that the update
itself states: an update that states a height behind the expiry deletes the record and writes its
own.  `kept_iff` says when a record is kept.  An update without a signature is checked against the
null signature.
-/

import Komodo.StateFile.Events

namespace Komodo
namespace KV

open StateFile Function

/-- `struct komodo_kv` without its key; a `valuesize` is that of the value. -/
structure KvRecord where
  pubkey : Uint256
  value : Bytes
  height : ℤ
  flags : ℕ
deriving DecidableEq

/-- `KOMODO_KV`. -/
abbrev KvStore := Bytes → Option KvRecord

/-- How a step ends the process or leaves it without a meaning. -/
inductive KvStop
  /-- The division by a `keylen` of zero. -/
  | divisionByZero
  /-- The value that is found does not fit `keyvalue`. -/
  | overflow
deriving DecidableEq

/-- What the store calls, and the bytes that stand in memory behind an opreturn. -/
structure KvEnv where
  /-- `vcalc_sha256`. -/
  sha256 : Bytes → Bytes
  curve25519_shared : (privkey : Bytes) → (otherpub : Uint256) → Uint256
  behind : Bytes := []

def KOMODO_KVDURATION : ℤ := 1440

def KOMODO_KVPROTECTED : ℕ := 1

def IGUANA_MAXSCRIPTSIZE : ℕ := 10001

/-- `komodo_kvnumdays`. -/
def kvnumdays (flags : ℕ) : ℤ :=
  let numdays : ℤ := (flags / 4 % 0x400 : ℕ) + 1
  if 365 < numdays then 365 else numdays

/-- `komodo_kvduration`. -/
def kvduration (flags : ℕ) : ℤ := kvnumdays flags * KOMODO_KVDURATION

/-- An `int32_t`. -/
def wrap32 (n : ℤ) : ℤ := n.bmod (2 ^ 32)

/-- `komodo_kvfee`; `none` for the division by zero. -/
def kvfee (flags : ℕ) (opretlen keylen : ℤ) : Option ℤ :=
  let k := if 32 < keylen then 32 else keylen
  if k = 0 then none
  else
    let fee := wrap32 (kvnumdays flags * (wrap32 (opretlen * opretlen)).tdiv k) % 2 ^ 64
    some (if fee < 100000 then 100000 else fee)

/-- The last height of a record. -/
def KvRecord.expiry (rec : KvRecord) : ℤ := rec.height + kvduration rec.flags

/-- Whether `komodo_kvsearch` takes a record for expired; the sum is an `int32_t`. -/
def KvRecord.expired (rec : KvRecord) (current_height : ℤ) : Prop :=
  wrap32 rec.expiry < current_height

instance (rec : KvRecord) (current_height : ℤ) : Decidable (rec.expired current_height) :=
  inferInstanceAs (Decidable (_ < _))

/-- `komodo_kvsearch`: a record that has expired is deleted. -/
def kvsearch (kv : KvStore) (current_height : ℤ) (key : Bytes) : Option KvRecord × KvStore :=
  match kv key with
  | none => (none, kv)
  | some rec =>
    if rec.expired current_height then (none, Function.update kv key none) else (some rec, kv)

/-- What `komodo_kvupdate` reads of an opreturn.  `rest` are the bytes from the value to the end, and
the public key is null where there is none. -/
structure KvUpdate where
  key : Bytes
  value : Bytes
  height : ℤ
  pubkey : Uint256
  sig : Option Uint256
  rest : Bytes
deriving DecidableEq

/-- `keylen`. -/
def keylenOf (opret : Bytes) : ℕ := fromLE ((opret.drop 1).take 2)

/-- `valuesize`. -/
def valuesizeOf (opret : Bytes) : ℕ := fromLE ((opret.drop 3).take 2)

/-- `flags`. -/
def flagsOf (opret : Bytes) : ℕ := fromLE ((opret.drop 9).take 4)

/-- `coresize`. -/
def coresizeOf (opret : Bytes) : ℕ := 13 + keylenOf opret + valuesizeOf opret

/-- The update of an opreturn of one of the three sizes. -/
def readUpdate (opret : Bytes) : Option KvUpdate :=
  let keylen := keylenOf opret
  let coresize := coresizeOf opret
  if opret.length = coresize ∨ opret.length = coresize + 32 ∨ opret.length = coresize + 64 then
    some {
      key := (opret.drop 13).take keylen
      value := (opret.drop (13 + keylen)).take (valuesizeOf opret)
      height := wrap32 (fromLE ((opret.drop 5).take 4))
      pubkey := fromLE ((opret.drop coresize).take 32)
      sig := if opret.length = coresize + 64 then some (fromLE ((opret.drop (coresize + 32)).take 32))
        else none
      rest := opret.drop (13 + keylen) }
  else none

def unhex (c : UInt8) : Option UInt8 :=
  if 0x30 ≤ c ∧ c ≤ 0x39 then some (c - 0x30)
  else if 0x61 ≤ c ∧ c ≤ 0x66 then some (c - 0x61 + 10)
  else if 0x41 ≤ c ∧ c ≤ 0x46 then some (c - 0x41 + 10)
  else none

/-- The bytes of a hex string. -/
def decodeHex : List UInt8 → Bytes
  | a :: b :: digits => (a * 16 + b) :: decodeHex digits
  | _ => []

/-- The key that a value `transfer:` with 64 hex digits names, which may stand in the bytes behind
the value; its digits begin with the highest byte. -/
def transferOf (memory : Bytes) : Option Uint256 :=
  if memory.take 9 = "transfer:".toList.map (fun c => UInt8.ofNat c.toNat) then
    let digits := ((memory.drop 9).map unhex).takeWhile Option.isSome
    if digits.length = 64 then some (fromLE (decodeHex (digits.filterMap id)).reverse) else none
  else none

namespace KvEnv

variable (env : KvEnv)

/-- `komodo_kvsigverify`. -/
def kvsigverify (buf : Bytes) (pubkey sig : Uint256) : Bool :=
  pubkey ≠ 0 ∧ env.curve25519_shared (env.sha256 buf) pubkey = sig

/-- What `komodo_kvupdate` writes for its key, where `komodo_kvsearch` has found a record or none.
The flags are those that the search has returned. -/
def written (u : KvUpdate) : Option KvRecord → KvRecord
  | none => { pubkey := u.pubkey, value := u.value, height := u.height, flags := 0 }
  | some rec => {
      pubkey := (transferOf (u.rest ++ env.behind)).getD u.pubkey
      value := if rec.flags &&& KOMODO_KVPROTECTED = 0 then u.value else rec.value
      height := u.height
      flags := rec.flags }

/-- Whether the update passes for the record that is found; a signature that the update does not have
is null. -/
def passes (u : KvUpdate) (rec : KvRecord) : Bool :=
  rec.pubkey = 0 ∨ env.kvsigverify (u.key ++ rec.value) rec.pubkey (u.sig.getD 0)

/-- `komodo_kvupdate` from the search on. -/
def applyUpdate (u : KvUpdate) (kv : KvStore) : Except KvStop KvStore :=
  match kvsearch kv u.height u.key with
  | (none, kv) => .ok (Function.update kv u.key (some (env.written u none)))
  | (some rec, kv) =>
    if IGUANA_MAXSCRIPTSIZE * 8 < u.key.length + rec.value.length then .error .overflow
    else if env.passes u rec then .ok (Function.update kv u.key (some (env.written u (some rec))))
    else .ok kv

/-- `komodo_kvupdate`.  In an opreturn of fewer than 13 bytes `keylen + 13` is above the length
whatever the bytes behind it are. -/
def kvupdate (opret : Bytes) (value : ℕ) (kv : KvStore) : Except KvStop KvStore :=
  if opret.length < keylenOf opret + 13 then .ok kv
  else match kvfee (flagsOf opret) opret.length (keylenOf opret) with
    | none => .error .divisionByZero
    | some fee =>
      if value < fee then .ok kv
      else match readUpdate opret with
        | none => .ok kv
        | some u => env.applyUpdate u kv

/-- `komodo_eventadd_opreturn`, without the list of the events. -/
def eventaddOpreturn (evt : OpreturnEvent) (kv : KvStore) : Except KvStop KvStore :=
  if evt.opret.head? = some 0x4b ∧ evt.opret.length ≠ 40 then env.kvupdate evt.opret evt.value kv
  else .ok kv

/-! ### Who may change a record -/

/-- The update carries a signature of the owner. -/
def Signed (u : KvUpdate) (key : Bytes) (rec : KvRecord) : Prop :=
  ∃ sig, u.sig = some sig ∧ env.kvsigverify (key ++ rec.value) rec.pubkey sig = true

/-- A record with an owner that has not expired at the height of the event. -/
def Owned (evt : OpreturnEvent) (rec : KvRecord) : Prop :=
  rec.pubkey ≠ 0 ∧ evt.height ≤ rec.expiry

/-- The records that have an owner are left as they are, unless the owner has signed. -/
def Kept (evt : OpreturnEvent) (kv : KvStore) : Prop :=
  env.eventaddOpreturn evt kv ≠ .error .overflow ∧
    ∀ kv', env.eventaddOpreturn evt kv = .ok kv' →
      ∀ key rec, kv key = some rec → Owned evt rec →
        kv' key = some rec ∨ ∃ u, readUpdate evt.opret = some u ∧ env.Signed u key rec

/-- The update that an event brings: of an opreturn with a `K` that pays its fee. -/
def update (evt : OpreturnEvent) : Option KvUpdate :=
  if evt.opret.head? = some 0x4b ∧ evt.opret.length ≠ 40
      ∧ keylenOf evt.opret + 13 ≤ evt.opret.length
      ∧ (kvfee (flagsOf evt.opret) evt.opret.length (keylenOf evt.opret)).any
        fun fee => fee ≤ (evt.value : ℤ) then
    readUpdate evt.opret
  else none

/-- An update that states a height at which the record it is for has not expired, and does not pass
with a null signature. -/
structure Harmless (evt : OpreturnEvent) (u : KvUpdate) (rec : KvRecord) : Prop where
  fits : ¬ rec.expired u.height → u.key.length + rec.value.length ≤ IGUANA_MAXSCRIPTSIZE * 8
  owner : Owned evt rec → ¬ env.Signed u u.key rec →
    if rec.expired u.height then env.written u none = rec
    else (u.sig = none → env.kvsigverify (u.key ++ rec.value) rec.pubkey 0 = true →
      env.written u (some rec) = rec)

variable {env} {evt : OpreturnEvent} {kv : KvStore} {u : KvUpdate}

/-- An event without an update changes nothing, or ends the process. -/
theorem eventaddOpreturn_of_none (h : update evt = none) :
    env.eventaddOpreturn evt kv = .ok kv ∨ env.eventaddOpreturn evt kv = .error .divisionByZero := by
  unfold eventaddOpreturn kvupdate
  by_cases hletter : evt.opret.head? = some 0x4b ∧ evt.opret.length ≠ 40
  · rw [if_pos hletter]
    by_cases hshort : evt.opret.length < keylenOf evt.opret + 13
    · exact .inl (if_pos hshort)
    · rw [if_neg hshort]
      cases hfee : kvfee (flagsOf evt.opret) evt.opret.length (keylenOf evt.opret) with
      | none => exact .inr rfl
      | some fee =>
        by_cases hpaid : (evt.value : ℤ) < fee
        · exact .inl (if_pos hpaid)
        · unfold update at h
          rw [if_pos ⟨hletter.1, hletter.2, Nat.le_of_not_lt hshort, by
            rw [hfee]; simpa using hpaid⟩] at h
          simp only [if_neg hpaid, h]
          exact .inl trivial
  · exact .inl (if_neg hletter)

theorem eventaddOpreturn_of_some (h : update evt = some u) :
    readUpdate evt.opret = some u ∧ env.eventaddOpreturn evt kv = env.applyUpdate u kv := by
  unfold update at h
  split_ifs at h with hupdate
  obtain ⟨hletter, hlength, hlong, hpaid⟩ := hupdate
  refine ⟨h, ?_⟩
  unfold eventaddOpreturn kvupdate
  rw [if_pos ⟨hletter, hlength⟩, if_neg (Nat.not_lt.2 hlong)]
  cases hfee : kvfee (flagsOf evt.opret) evt.opret.length (keylenOf evt.opret) with
  | none => simp [hfee] at hpaid
  | some fee =>
    rw [hfee, Option.any_some, decide_eq_true_eq] at hpaid
    simp only [if_neg (Int.not_lt.2 hpaid), h]

variable {rec : KvRecord}

theorem applyUpdate_of_some (hrec : kv u.key = some rec) :
    env.applyUpdate u kv =
      if rec.expired u.height then .ok (Function.update kv u.key (some (env.written u none)))
      else if IGUANA_MAXSCRIPTSIZE * 8 < u.key.length + rec.value.length then .error .overflow
      else if env.passes u rec then
        .ok (Function.update kv u.key (some (env.written u (some rec))))
      else .ok kv := by
  unfold applyUpdate kvsearch
  rw [hrec]
  by_cases hexpired : rec.expired u.height
  · simp only [if_pos hexpired, update_idem]
  · simp only [if_neg hexpired]

theorem applyUpdate_other {kv' : KvStore} {key : Bytes} (h : env.applyUpdate u kv = .ok kv')
    (hkey : key ≠ u.key) : kv' key = kv key := by
  cases hrec : kv u.key with
  | none =>
    unfold applyUpdate kvsearch at h
    rw [hrec] at h
    rw [← Except.ok.inj h, update_of_ne hkey]
  | some rec =>
    rw [applyUpdate_of_some hrec] at h
    split_ifs at h
    · rw [← Except.ok.inj h, update_of_ne hkey]
    · rw [← Except.ok.inj h, update_of_ne hkey]
    · rw [← Except.ok.inj h]

theorem passes_iff (howner : rec.pubkey ≠ 0) (hsigned : ¬ env.Signed u u.key rec) :
    env.passes u rec = true
      ↔ u.sig = none ∧ env.kvsigverify (u.key ++ rec.value) rec.pubkey 0 = true := by
  unfold passes
  rw [decide_eq_true_eq, or_iff_right howner]
  cases hsig : u.sig with
  | none => simp
  | some sig => simpa using fun hverify => hsigned ⟨sig, hsig, hverify⟩

/-- An update that is harmless for the record of its key fits the buffer. -/
theorem applyUpdate_ne_overflow (hfits : ∀ rec, kv u.key = some rec → ¬ rec.expired u.height →
      u.key.length + rec.value.length ≤ IGUANA_MAXSCRIPTSIZE * 8) :
    env.applyUpdate u kv ≠ .error .overflow := by
  cases hrec : kv u.key with
  | none =>
    unfold applyUpdate kvsearch
    rw [hrec]
    nofun
  | some rec =>
    rw [applyUpdate_of_some hrec]
    split_ifs with hexpired hlong
    · nofun
    · exact absurd (hfits rec hrec hexpired) (Nat.not_le.2 hlong)
    · nofun
    · nofun

theorem Harmless.kept {kv' : KvStore} (h : env.Harmless evt u rec)
    (hrec : kv u.key = some rec) (howned : Owned evt rec) (hsigned : ¬ env.Signed u u.key rec)
    (happly : env.applyUpdate u kv = .ok kv') : kv' u.key = some rec := by
  have howner := h.owner howned hsigned
  rw [applyUpdate_of_some hrec] at happly
  split_ifs at happly with hexpired hlong hpasses
  · rw [if_pos hexpired] at howner
    rw [← Except.ok.inj happly, update_self, howner]
  · rw [if_neg hexpired] at howner
    obtain ⟨hsig, hverify⟩ := (passes_iff howned.1 hsigned).1 hpasses
    rw [← Except.ok.inj happly, update_self, howner hsig hverify]
  · rw [← Except.ok.inj happly, hrec]

/-- An event keeps a record that its update is harmless for and that its owner has not signed away. -/
theorem kept_step {kv' : KvStore} {key : Bytes}
    (hstep : env.eventaddOpreturn evt kv = .ok kv') (hrec : kv key = some rec)
    (howned : Owned evt rec)
    (hharmless : ∀ u, update evt = some u → u.key = key →
      env.Harmless evt u rec ∧ ¬ env.Signed u key rec) : kv' key = some rec := by
  cases hupdate : update evt with
  | none =>
    have hnone : env.eventaddOpreturn evt kv = .ok kv ∨ _ := eventaddOpreturn_of_none hupdate
    rcases hnone with heq | heq
    · rw [heq] at hstep
      rw [← Except.ok.inj hstep, hrec]
    · rw [heq] at hstep
      cases hstep
  | some u =>
    rw [(eventaddOpreturn_of_some hupdate).2] at hstep
    by_cases hkey : key = u.key
    · subst hkey
      obtain ⟨hu, hsigned⟩ := hharmless u hupdate rfl
      exact hu.kept hrec howned hsigned hstep
    · exact (applyUpdate_other hstep hkey).trans hrec

/-- What is left where every record is kept. -/
theorem harmless_of_kept (hrec : kv u.key = some rec)
    (hfits : env.applyUpdate u kv ≠ .error .overflow)
    (hkept : ∀ kv', env.applyUpdate u kv = .ok kv' → Owned evt rec →
      ¬ env.Signed u u.key rec → kv' u.key = some rec) : env.Harmless evt u rec := by
  rw [applyUpdate_of_some hrec] at hfits hkept
  have hlong : ¬ rec.expired u.height →
      u.key.length + rec.value.length ≤ IGUANA_MAXSCRIPTSIZE * 8 := by
    intro hexpired
    rw [if_neg hexpired] at hfits
    exact Nat.not_lt.1 fun hlong => hfits (if_pos hlong)
  refine ⟨hlong, fun howned hsigned => ?_⟩
  split_ifs with hexpired
  · have hsame := hkept _ (if_pos hexpired) howned hsigned
    rwa [update_self, Option.some.injEq] at hsame
  · intro hsig hverify
    have hpasses := (passes_iff howned.1 hsigned).2 ⟨hsig, hverify⟩
    rw [if_neg hexpired, if_neg (Nat.not_lt.2 (hlong hexpired)), if_pos hpasses] at hkept
    have hsame := hkept _ rfl howned hsigned
    rwa [update_self, Option.some.injEq] at hsame

/-- **A record is kept if and only if an update for it is harmless.** -/
theorem kept_iff (env : KvEnv) (evt : OpreturnEvent) (kv : KvStore) :
    env.Kept evt kv
      ↔ ∀ u rec, update evt = some u → kv u.key = some rec → env.Harmless evt u rec := by
  unfold Kept
  cases hupdate : update evt with
  | none =>
    refine ⟨fun _ u rec h => (nomatch h), fun _ => ?_⟩
    have hnone : env.eventaddOpreturn evt kv = .ok kv ∨ _ := eventaddOpreturn_of_none hupdate
    rcases hnone with heq | heq
    · rw [heq]
      refine ⟨nofun, fun kv' h key rec hrec _ => .inl ?_⟩
      rw [← Except.ok.inj h, hrec]
    · rw [heq]
      exact ⟨nofun, nofun⟩
  | some u =>
    obtain ⟨hread, heq⟩ : _ ∧ env.eventaddOpreturn evt kv = _ := eventaddOpreturn_of_some hupdate
    rw [heq]
    constructor
    · rintro ⟨hfits, hkept⟩ _ rec ⟨⟩ hrec
      refine harmless_of_kept hrec hfits fun kv' happly howned hsigned => ?_
      refine (hkept kv' happly u.key rec hrec howned).resolve_right ?_
      rintro ⟨_, hread', hsigned'⟩
      obtain rfl := Option.some.inj (hread.symm.trans hread')
      exact hsigned hsigned'
    · intro hharmless
      refine ⟨applyUpdate_ne_overflow fun rec hrec => (hharmless u rec rfl hrec).fits,
        fun kv' happly key rec hrec howned => ?_⟩
      by_cases hsigned : env.Signed u key rec
      · exact .inr ⟨u, hread, hsigned⟩
      · refine .inl (kept_step (heq.trans happly) hrec howned fun u' hu' hkey => ?_)
        obtain rfl := Option.some.inj (hupdate.symm.trans hu')
        exact ⟨hharmless u rec rfl (hkey ▸ hrec), hsigned⟩

end KvEnv

/-- The record of an owner, for the key `A`. -/
def ownedRecord : KvRecord := { pubkey := 7, value := [1], height := 1000, flags := 0 }

/-- An update of the record without a signature, which states the height 3000. -/
def unsignedUpdate : Bytes :=
  [0x4b, 1, 0, 1, 0] ++ [184, 11, 0, 0] ++ [0, 0, 0, 0] ++ [0x41] ++ [2]

/-- **The record of another is taken over** 1440 blocks before it expires. -/
theorem taken_over : ¬ ∀ (env : KvEnv) (evt : OpreturnEvent) (kv : KvStore), env.Kept evt kv := by
  intro hall
  let env : KvEnv := { sha256 := fun _ => [], curve25519_shared := fun _ _ => 1 }
  let evt : OpreturnEvent := { height := 1000, value := 100000, opret := unsignedUpdate }
  let u : KvUpdate :=
    { key := [0x41], value := [2], height := 3000, pubkey := 0, sig := none, rest := [2] }
  have hupdate : KvEnv.update evt = some u := by decide
  obtain ⟨hread, hstep⟩ : _ ∧ env.eventaddOpreturn evt (fun _ => some ownedRecord) = _ :=
    KvEnv.eventaddOpreturn_of_some hupdate
  rw [KvEnv.applyUpdate_of_some rfl, if_pos (by decide)] at hstep
  rcases (hall env evt _).2 _ hstep [0x41] ownedRecord rfl ⟨by decide, by decide⟩ with
    hsame | ⟨u', hread', sig, hsig, -⟩
  · rw [Function.update_self, Option.some.injEq] at hsame
    exact absurd hsame (by decide)
  · obtain rfl := Option.some.inj (hread.symm.trans hread')
    cases hsig

end KV
end Komodo
