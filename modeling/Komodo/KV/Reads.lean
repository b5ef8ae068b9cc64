/-
# What an update reads of its payload

`komodo_kvupdate` of `src/src/komodo_kv.cpp` with every byte that it reads of the opreturn,
`is_hexstr` of `src/src/hex.c` with it, and the arithmetic of `komodo_kvfee`.

The fixed fields are read before the length is looked at, so 13 bytes have to be there.  A `keylen`
of zero divides by zero.  All other reads are behind the check of the three sizes, but for the test
whether a value is a transfer: where the key has a record, `strncmp` and `is_hexstr` read on until
the bytes differ from `transfer:` and from hex digits, and the line that is logged for a transfer
reads up to a zero.  `RestOverreads` says which values run out of the payload there.

`kvupdateReads_eq` connects this run with `kvupdate` of `KV.Store`, to which the bytes behind the
payload are known.
-/

import Komodo.KV.Search
import Komodo.Lib.Completes
import Mathlib.Data.FinEnum
import Mathlib.Data.List.TakeWhile

namespace Komodo
namespace KV

open Runs List Option

/-- How a run stops. -/
inductive KvFault
  | stop (s : KvStop)
  /-- A byte outside of the payload is read. -/
  | outside
deriving DecidableEq

/-- `n` bytes of a buffer. -/
def bytesAt (buf : Bytes) (i n : ℕ) : Except KvFault Bytes :=
  if i + n ≤ buf.length then .ok ((buf.drop i).take n) else .error .outside

/-- `iguana_rwnum`, reading. -/
def iguanaRwnum (serialized : Bytes) (i len : ℕ) : Except KvFault ℕ :=
  fromLE <$> bytesAt serialized i len

/-- Whether `strncmp` finds all of `tstr`; the first byte that differs is the last that it reads. -/
def strncmp : (tstr valueptr : Bytes) → Except KvFault Bool
  | [], _ => .ok true
  | _ :: _, [] => .error .outside
  | c :: tstr, b :: valueptr => if c = b then strncmp tstr valueptr else .ok false

/-- `unhex` finds a digit. -/
def isHex (b : UInt8) : Bool := (unhex b).isSome

/-- `is_hexstr` for `n` zero. -/
def isHexstr : (str : Bytes) → Except KvFault ℕ
  | [] => .error .outside
  | b :: str => if b ≠ 0 ∧ isHex b then (· + 1) <$> isHexstr str else .ok 0

/-- A string that is logged, up to its zero. -/
def logString : (str : Bytes) → Except KvFault Bytes
  | [] => .error .outside
  | b :: str => if b = 0 then .ok [] else (b :: ·) <$> logString str

def tstr : Bytes := "transfer:".toList.map fun c => UInt8.ofNat c.toNat

/-- The test for a transfer: the key that `pubkey` is overwritten with. -/
def transferReads (key valueptr : Bytes) : Except KvFault (Option Uint256) := do
  if ← strncmp tstr valueptr then
    let transferpubstr := valueptr.drop tstr.length
    if (← isHexstr transferpubstr) = 64 then
      let _ ← logString key
      let _ ← logString transferpubstr
      let digits ← bytesAt transferpubstr 0 64
      return some (fromLE (decodeHex (digits.filterMap unhex)).reverse)
    else return none
  else return none

/-- A key that the payload has, or the null key. -/
def keyAt (opret : Bytes) (i : ℕ) (present : Bool) : Except KvFault Uint256 :=
  if present then fromLE <$> bytesAt opret i 32 else .ok 0

namespace KvEnv

variable (env : KvEnv)

/-- `komodo_kvupdate` from the search on; `key` and `valueptr` are the bytes from there to the end
of the payload. -/
def applyReads (key valueptr : Bytes) (keylen valuesize : ℕ) (height : ℤ) (pubkey sig : Uint256)
    (kv : KvStore) : Except KvFault KvStore := do
  let keyvalue ← bytesAt key 0 keylen
  match kvsearch kv height keyvalue with
  | (some rec, kv) =>
    if IGUANA_MAXSCRIPTSIZE * 8 < keylen + rec.value.length then .error (.stop .overflow)
    else if rec.pubkey ≠ 0 ∧ env.kvsigverify (keyvalue ++ rec.value) rec.pubkey sig = false then
      .ok kv
    else do
      let transfer ← transferReads key valueptr
      let newvalue ← if rec.flags &&& KOMODO_KVPROTECTED = 0 then bytesAt valueptr 0 valuesize
        else .ok rec.value
      .ok (Function.update kv keyvalue (some {
        pubkey := transfer.getD pubkey, value := newvalue, height := height, flags := rec.flags }))
  | (none, kv) => do
    let newvalue ← bytesAt valueptr 0 valuesize
    .ok (Function.update kv keyvalue (some {
      pubkey := pubkey, value := newvalue, height := height, flags := 0 }))

/-- `komodo_kvupdate`. -/
def kvupdateReads (opret : Bytes) (value : ℕ) (kv : KvStore) : Except KvFault KvStore := do
  let keylen ← iguanaRwnum opret 1 2
  let valuesize ← iguanaRwnum opret 3 2
  let height ← iguanaRwnum opret 5 4
  let flags ← iguanaRwnum opret 9 4
  let key := opret.drop 13
  if opret.length < keylen + 13 then .ok kv
  else match kvfee flags opret.length keylen with
    | none => .error (.stop .divisionByZero)
    | some fee =>
      let coresize := 4 + 4 + 2 + 2 + keylen + valuesize + 1
      if value < fee then .ok kv
      else if opret.length = coresize ∨ opret.length = coresize + 32
          ∨ opret.length = coresize + 2 * 32 then do
        let pubkey ← keyAt opret coresize (coresize + 32 ≤ opret.length)
        let sig ← keyAt opret (coresize + 32) (opret.length = coresize + 2 * 32)
        env.applyReads key (key.drop keylen) keylen valuesize (wrap32 height) pubkey sig kv
      else .ok kv

end KvEnv

/-! ### The test for a transfer -/

/-- The values at which the test for a transfer reads on behind the payload: what there is of
`transfer:` before the end, hex digits up to the end, or 64 of them and no zero. -/
def RestOverreads (rest : Bytes) : Prop :=
  (rest <+: tstr ∧ rest ≠ tstr) ∨
    (tstr <+: rest ∧
      ((∀ b ∈ rest.drop tstr.length, isHex b) ∨
        (((rest.drop tstr.length).takeWhile isHex).length = 64 ∧ 0 ∉ rest.drop tstr.length)))

theorem bytesAt_ok {buf : Bytes} {i n : ℕ} (h : i + n ≤ buf.length) :
    bytesAt buf i n = .ok ((buf.drop i).take n) := if_pos h

theorem iguanaRwnum_ok {buf : Bytes} {i n : ℕ} (h : i + n ≤ buf.length) :
    iguanaRwnum buf i n = .ok (fromLE ((buf.drop i).take n)) := by
  rw [iguanaRwnum, bytesAt_ok h]
  rfl

theorem iguanaRwnum_error {buf : Bytes} {i n : ℕ} (h : buf.length < i + n) :
    iguanaRwnum buf i n = .error .outside := by
  rw [iguanaRwnum, bytesAt, if_neg (Nat.not_le.2 h)]
  rfl

theorem strncmp_eq (pattern valueptr : Bytes) :
    strncmp pattern valueptr =
      if valueptr <+: pattern ∧ valueptr ≠ pattern then .error .outside
      else .ok (pattern.isPrefixOf valueptr) := by
  induction pattern generalizing valueptr with
  | nil =>
    rw [if_neg fun h => h.2 (prefix_nil.1 h.1)]
    rfl
  | cons c pattern ih =>
    cases valueptr with
    | nil => exact (if_pos ⟨List.nil_prefix, nofun⟩).symm
    | cons b valueptr =>
      unfold strncmp
      by_cases hc : c = b
      · subst hc
        rw [if_pos rfl, ih]
        simp only [cons_prefix_cons, true_and, ne_eq, cons.injEq,
          isPrefixOf_cons_cons, beq_self_eq_true, Bool.true_and]
      · rw [if_neg hc, if_neg fun h => hc (cons_prefix_cons.1 h.1).1.symm,
          isPrefixOf_cons_cons, beq_eq_false_iff_ne.2 hc]
        rfl

theorem isHexstr_eq (str : Bytes) :
    isHexstr str = if ∀ b ∈ str, isHex b then .error .outside
      else .ok (str.takeWhile isHex).length := by
  induction str with
  | nil => exact (if_pos nofun).symm
  | cons b str ih =>
    have hcons : (∀ c ∈ b :: str, isHex c) ↔ isHex b ∧ ∀ c ∈ str, isHex c := forall_mem_cons
    unfold isHexstr
    by_cases hb : isHex b
    · have hzero : b ≠ 0 := by
        rintro rfl
        exact absurd hb (by decide)
      rw [if_pos ⟨hzero, hb⟩, ih, takeWhile_cons_of_pos hb]
      by_cases hall : ∀ b ∈ str, isHex b
      · rw [if_pos hall, if_pos (hcons.2 ⟨hb, hall⟩)]
        rfl
      · rw [if_neg hall, if_neg fun h => hall (hcons.1 h).2]
        rfl
    · rw [if_neg fun h => hb h.2, if_neg fun h => hb (hcons.1 h).1, takeWhile_cons_of_neg hb]
      rfl

theorem logString_eq (str : Bytes) :
    logString str = if 0 ∈ str then .ok (str.takeWhile (· ≠ 0)) else .error .outside := by
  induction str with
  | nil => rfl
  | cons b str ih =>
    unfold logString
    by_cases hb : b = 0
    · subst hb
      rfl
    · have hmem : 0 ∈ b :: str ↔ 0 ∈ str := by simp [Ne.symm hb]
      rw [if_neg hb, ih, takeWhile_cons_of_pos (by simpa using hb)]
      simp only [hmem]
      split <;> rfl

theorem takeWhile_isHex_append {str behind : Bytes} (h : ¬ ∀ b ∈ str, isHex b) :
    (str ++ behind).takeWhile isHex = str.takeWhile isHex := by
  rw [takeWhile_append, if_neg]
  intro hlength
  have hsame := (List.takeWhile_prefix isHex).eq_of_length hlength
  exact h (takeWhile_eq_self_iff.1 hsame)

theorem transferOf_eq (memory : Bytes) :
    transferOf memory = if tstr <+: memory then
      if ((memory.drop 9).takeWhile isHex).length = 64 then
        some (fromLE (decodeHex ((memory.drop 9).takeWhile isHex |>.filterMap unhex)).reverse)
      else none
    else none := by
  have hlength : tstr.length = 9 := rfl
  have hstart : memory.take 9 = tstr ↔ tstr <+: memory := by
    rw [prefix_iff_eq_take, hlength]
    exact eq_comm
  simp only [transferOf, takeWhile_map, length_map, filterMap_map]
  exact if_congr hstart rfl rfl

theorem transferReads_eq {key rest : Bytes} (hsuffix : rest <:+ key) (behind : Bytes)
    (hreads : ¬ RestOverreads rest) :
    transferReads key rest = .ok (transferOf (rest ++ behind)) := by
  have hlength : tstr.length = 9 := rfl
  unfold transferReads
  rw [RestOverreads, not_or] at hreads
  obtain ⟨hshort, hdigits⟩ := hreads
  rw [strncmp_eq, if_neg hshort, transferOf_eq]
  by_cases htstr : tstr <+: rest
  · obtain ⟨t, rfl⟩ := htstr
    have hdrop : (tstr ++ t).drop tstr.length = t := drop_left
    have hdrop' : (tstr ++ t ++ behind).drop 9 = t ++ behind := by
      rw [append_assoc, ← hlength, drop_left]
    rw [hdrop] at hdigits
    simp only [not_and, not_or] at hdigits
    obtain ⟨hstop, hzero⟩ := hdigits (prefix_append tstr t)
    rw [if_pos ((prefix_append tstr t).trans (prefix_append _ behind)), hdrop',
      takeWhile_isHex_append hstop, isPrefixOf_iff_prefix.2 (prefix_append tstr t)]
    show (do
      if (← isHexstr ((tstr ++ t).drop tstr.length)) = 64 then _ else _) = _
    rw [hdrop, isHexstr_eq, if_neg hstop]
    show (if (t.takeWhile isHex).length = 64 then _ else _) = _
    by_cases h64 : (t.takeWhile isHex).length = 64
    · have hmem : 0 ∈ t := not_not.1 (hzero h64)
      have hdigits : bytesAt t 0 64 = .ok (t.takeWhile isHex) := by
        have hprefix := takeWhile_prefix (p := isHex) (l := t)
        rw [bytesAt_ok (by have := hprefix.length_le; omega), drop_zero,
          prefix_iff_eq_take.1 hprefix, h64]
      have hkey : 0 ∈ key := hsuffix.subset (mem_append_right _ hmem)
      rw [if_pos h64, if_pos h64, logString_eq, if_pos hkey, logString_eq, if_pos hmem, hdigits]
      rfl
    · rw [if_neg h64, if_neg h64]
      rfl
  · rw [Bool.eq_false_iff.2 (mt isPrefixOf_iff_prefix.1 htstr), if_neg]
    · rfl
    · intro hmemory
      rcases prefix_or_prefix_of_prefix hmemory (prefix_append rest behind) with h | h
      · exact htstr h
      · exact hshort ⟨h, fun heq => htstr (heq ▸ prefix_rfl)⟩

theorem transferReads_error {key rest : Bytes} (hreads : RestOverreads rest) :
    transferReads key rest = .error .outside := by
  unfold transferReads
  rw [strncmp_eq]
  rcases hreads with hshort | ⟨⟨t, rfl⟩, hdigits⟩
  · rw [if_pos hshort]
    rfl
  · have hdrop : (tstr ++ t).drop tstr.length = t := drop_left
    rw [if_neg fun h => h.2 (h.1.eq_of_length_le (by simp)),
      isPrefixOf_iff_prefix.2 (prefix_append tstr t)]
    show (do
      if (← isHexstr ((tstr ++ t).drop tstr.length)) = 64 then _ else _) = _
    rw [hdrop] at hdigits ⊢
    rw [isHexstr_eq]
    rcases hdigits with hall | ⟨h64, hzero⟩
    · rw [if_pos hall]
      rfl
    · by_cases hall : ∀ b ∈ t, isHex b
      · rw [if_pos hall]
        rfl
      · rw [if_neg hall]
        show (if (t.takeWhile isHex).length = 64 then _ else _) = _
        rw [if_pos h64, logString_eq, logString_eq, if_neg hzero]
        split <;> rfl


namespace KvEnv

variable {env : KvEnv} {opret : Bytes} {value : ℕ} {kv : KvStore}

/-- The updates that read on behind the payload, all of them of a key with a record: they pay their
fee and pass for the record, and their value runs out in the test for a transfer. -/
def Overreads (env : KvEnv) (opret : Bytes) (value : ℕ) (kv : KvStore) : Prop :=
  ∃ fee u rec, kvfee (flagsOf opret) opret.length (keylenOf opret) = some fee ∧ fee ≤ value ∧
    readUpdate opret = some u ∧ kv u.key = some rec ∧ ¬ rec.expired u.height ∧
    u.key.length + rec.value.length ≤ IGUANA_MAXSCRIPTSIZE * 8 ∧ env.passes u rec = true ∧
    RestOverreads u.rest

theorem kvupdateReads_short (h : opret.length < 13) :
    env.kvupdateReads opret value kv = .error .outside := by
  unfold kvupdateReads
  by_cases h2 : opret.length < 1 + 2
  · rw [iguanaRwnum_error h2]
    rfl
  rw [iguanaRwnum_ok (by omega)]
  by_cases h4 : opret.length < 3 + 2
  · rw [iguanaRwnum_error h4]
    rfl
  rw [iguanaRwnum_ok (by omega)]
  by_cases h8 : opret.length < 5 + 4
  · rw [iguanaRwnum_error h8]
    rfl
  rw [iguanaRwnum_ok (by omega), iguanaRwnum_error (show opret.length < 9 + 4 by omega)]
  rfl

theorem kvupdateReads_long (h : 13 ≤ opret.length) :
    env.kvupdateReads opret value kv =
      if opret.length < keylenOf opret + 13 then .ok kv
      else match kvfee (flagsOf opret) opret.length (keylenOf opret) with
        | none => .error (.stop .divisionByZero)
        | some fee =>
          let coresize := 4 + 4 + 2 + 2 + keylenOf opret + valuesizeOf opret + 1
          if value < fee then .ok kv
          else if opret.length = coresize ∨ opret.length = coresize + 32
              ∨ opret.length = coresize + 2 * 32 then do
            let pubkey ← keyAt opret coresize (coresize + 32 ≤ opret.length)
            let sig ← keyAt opret (coresize + 32) (opret.length = coresize + 2 * 32)
            env.applyReads (opret.drop 13) ((opret.drop 13).drop (keylenOf opret)) (keylenOf opret)
              (valuesizeOf opret) (wrap32 (fromLE ((opret.drop 5).take 4))) pubkey sig kv
          else .ok kv := by
  unfold kvupdateReads
  rw [iguanaRwnum_ok (by omega), iguanaRwnum_ok (by omega), iguanaRwnum_ok (by omega),
    iguanaRwnum_ok (by omega)]
  rfl

theorem keyAt_pubkey {coresize : ℕ} (hsize : opret.length = coresize
    ∨ opret.length = coresize + 32 ∨ opret.length = coresize + 2 * 32) :
    keyAt opret coresize (coresize + 32 ≤ opret.length)
      = .ok (fromLE ((opret.drop coresize).take 32)) := by
  unfold keyAt
  by_cases h32 : coresize + 32 ≤ opret.length
  · rw [if_pos (decide_eq_true h32), bytesAt_ok h32]
    rfl
  · rw [if_neg (by simpa using h32), drop_eq_nil_of_le (by omega)]
    rfl

theorem keyAt_sig (opret : Bytes) (coresize : ℕ) :
    keyAt opret (coresize + 32) (opret.length = coresize + 2 * 32)
      = .ok ((if opret.length = coresize + 64 then
          some (fromLE ((opret.drop (coresize + 32)).take 32)) else none).getD 0) := by
  unfold keyAt
  by_cases h64 : opret.length = coresize + 64
  · rw [if_pos (decide_eq_true h64), if_pos h64, bytesAt_ok (by omega)]
    rfl
  · rw [if_neg (by simpa using h64), if_neg h64]
    rfl

/-- The part of the run behind the check of the sizes. -/
theorem kvupdateReads_of_paid {fee : ℤ} {u : KvUpdate} (hread : readUpdate opret = some u)
    (hfee : kvfee (flagsOf opret) opret.length (keylenOf opret) = some fee) (hpaid : fee ≤ value) :
    env.kvupdateReads opret value kv =
      match kvsearch kv u.height u.key with
      | (some rec, kv) =>
        if IGUANA_MAXSCRIPTSIZE * 8 < u.key.length + rec.value.length then
          .error (.stop .overflow)
        else if env.passes u rec then do
          let transfer ← transferReads (opret.drop 13) u.rest
          .ok (Function.update kv u.key (some {
            pubkey := transfer.getD u.pubkey
            value := if rec.flags &&& KOMODO_KVPROTECTED = 0 then u.value else rec.value
            height := u.height, flags := rec.flags }))
        else .ok kv
      | (none, kv) => .ok (Function.update kv u.key (some (env.written u none))) := by
  unfold readUpdate at hread
  dsimp only at hread
  split at hread
  · rename_i hsize
    have hcore : coresizeOf opret = 13 + keylenOf opret + valuesizeOf opret := rfl
    have hkey : bytesAt (opret.drop 13) 0 (keylenOf opret) =
        .ok ((opret.drop 13).take (keylenOf opret)) :=
      bytesAt_ok (by rw [length_drop]; omega)
    have hlength : ((opret.drop 13).take (keylenOf opret)).length = keylenOf opret := by
      rw [length_take, length_drop]
      omega
    have hvalue : bytesAt (opret.drop (13 + keylenOf opret)) 0 (valuesizeOf opret) =
        .ok ((opret.drop (13 + keylenOf opret)).take (valuesizeOf opret)) :=
      bytesAt_ok (by rw [length_drop]; omega)
    have hcoresize : 4 + 4 + 2 + 2 + keylenOf opret + valuesizeOf opret + 1 = coresizeOf opret := by
      omega
    rw [kvupdateReads_long (by omega), if_neg (by omega), hfee]
    dsimp only
    rw [if_neg (Int.not_lt.2 hpaid), hcoresize, if_pos hsize, bind_of_eq_ok (keyAt_pubkey hsize),
      bind_of_eq_ok (keyAt_sig opret _), drop_drop, applyReads, bind_of_eq_ok hkey, hvalue]
    have hpasses : ∀ rec, (rec.pubkey ≠ 0 ∧ env.kvsigverify (u.key ++ rec.value) rec.pubkey
        ((if opret.length = coresizeOf opret + 64 then
          some (fromLE ((opret.drop (coresizeOf opret + 32)).take 32)) else none).getD 0) = false) ↔
        ¬ env.passes u rec = true := by
      intro rec
      rw [passes, decide_eq_true_eq, not_or, Bool.not_eq_true, ← some.inj hread]
    have hlength' : u.key.length = keylenOf opret := by
      rw [← some.inj hread, hlength]
    rw [show (opret.drop (13 + keylenOf opret)).take (valuesizeOf opret) = u.value by
        rw [← some.inj hread],
      show (opret.drop 13).take (keylenOf opret) = u.key by rw [← some.inj hread],
      show wrap32 (fromLE ((opret.drop 5).take 4)) = u.height by rw [← some.inj hread],
      show fromLE ((opret.drop (coresizeOf opret)).take 32) = u.pubkey by
        rw [← some.inj hread],
      show opret.drop (13 + keylenOf opret) = u.rest by rw [← some.inj hread]]
    rcases kvsearch kv u.height u.key with ⟨_ | rec, kv'⟩
    · exact bind_of_eq_ok rfl
    · simp only [hlength', hpasses, ite_not]
      split
      · rfl
      split
      · cases transferReads (opret.drop 13) u.rest with
        | error e => rfl
        | ok transfer =>
          by_cases hprotected : rec.flags &&& KOMODO_KVPROTECTED = 0
          · simp only [if_pos hprotected]
            rfl
          · simp only [if_neg hprotected]
            rfl
      · rfl
  · cases hread

theorem rest_suffix {u : KvUpdate} (hread : readUpdate opret = some u) :
    u.rest <:+ opret.drop 13 := by
  unfold readUpdate at hread
  dsimp only at hread
  split at hread
  · rw [← some.inj hread, ← drop_drop]
    exact drop_suffix _ _
  · cases hread

theorem kvsearch_eq_some {current_height : ℤ} {key : Bytes} {rec : KvRecord} {kv' : KvStore} :
    kvsearch kv current_height key = (some rec, kv') ↔
      (kv key = some rec ∧ ¬ rec.expired current_height) ∧ kv' = kv := by
  unfold kvsearch
  cases kv key with
  | none => simp
  | some found =>
    dsimp only
    by_cases hexpired : found.expired current_height
    · rw [if_pos hexpired]
      refine ⟨nofun, fun h => absurd hexpired ?_⟩
      rw [some.inj h.1.1]
      exact h.1.2
    · rw [if_neg hexpired, Prod.mk.injEq, some.injEq]
      constructor
      · rintro ⟨rfl, rfl⟩
        exact ⟨⟨rfl, hexpired⟩, rfl⟩
      · rintro ⟨⟨rfl, -⟩, rfl⟩
        exact ⟨rfl, rfl⟩

/-- **The run with all its reads is that of the store**, unless a value runs out. -/
theorem kvupdateReads_eq (h : 13 ≤ opret.length) :
    (Overreads env opret value kv → env.kvupdateReads opret value kv = .error .outside) ∧
    (¬ Overreads env opret value kv →
      env.kvupdateReads opret value kv = (env.kvupdate opret value kv).mapError .stop) := by
  constructor
  · rintro ⟨fee, u, rec, hfee, hpaid, hread, hrec, hexpired, hfits, hpasses, hreads⟩
    rw [kvupdateReads_of_paid hread hfee hpaid, kvsearch_eq_some.2 ⟨⟨hrec, hexpired⟩, rfl⟩]
    simp only [if_neg (Nat.not_lt.2 hfits), hpasses, if_true, transferReads_error hreads]
    rfl
  · intro hreads
    cases hfee : kvfee (flagsOf opret) opret.length (keylenOf opret) with
    | none =>
      rw [kvupdateReads_long h, kvupdate, hfee]
      split <;> rfl
    | some fee =>
      cases hread : readUpdate opret with
      | none =>
        rw [kvupdateReads_long h, kvupdate, hfee, hread]
        dsimp only
        split
        · rfl
        split
        · rfl
        · rw [if_neg fun hsize => ?_]
          · rfl
          · rw [readUpdate, if_pos] at hread
            · cases hread
            · unfold coresizeOf
              omega
      | some u =>
        by_cases hpaid : fee ≤ value
        · rw [kvupdateReads_of_paid hread hfee hpaid, kvupdate_of_paid hread hfee hpaid,
            applyUpdate]
          rcases hsearch : kvsearch kv u.height u.key with ⟨_ | rec, kv'⟩
          · rfl
          · obtain ⟨⟨hrec, hexpired⟩, rfl⟩ := kvsearch_eq_some.1 hsearch
            dsimp only
            split
            · rfl
            · rename_i hfits
              by_cases hpasses : env.passes u rec = true
              · rw [if_pos hpasses, if_pos hpasses,
                  transferReads_eq (rest_suffix hread) env.behind fun hrest =>
                    hreads ⟨fee, u, rec, hfee, hpaid, hread, hrec, hexpired,
                      Nat.not_lt.1 hfits, hpasses, hrest⟩]
                rfl
              · rw [if_neg hpasses, if_neg hpasses]
                rfl
        · rw [kvupdateReads_long h, kvupdate, hfee]
          dsimp only
          rw [if_pos (Int.not_le.1 hpaid), if_pos (Int.not_le.1 hpaid)]
          split <;> rfl

theorem kvfee_eq_none_iff {flags keylen : ℕ} {opretlen : ℤ} :
    kvfee flags opretlen keylen = none ↔ keylen = 0 := by
  have hmin : (if (32 : ℤ) < keylen then 32 else (keylen : ℤ)) = 0 ↔ keylen = 0 := by
    split <;> omega
  unfold kvfee
  dsimp only
  by_cases hzero : keylen = 0
  · rw [if_pos (hmin.2 hzero)]
    exact ⟨fun _ => hzero, fun _ => rfl⟩
  · rw [if_neg (mt hmin.1 hzero)]
    exact ⟨nofun, fun h => absurd h hzero⟩

/-- `komodo_kvupdate` divides by zero for an empty key only. -/
theorem kvupdate_divides_iff (h : 13 ≤ opret.length) :
    env.kvupdate opret value kv = .error .divisionByZero ↔ keylenOf opret = 0 := by
  unfold kvupdate
  cases hfee : kvfee (flagsOf opret) opret.length (keylenOf opret) with
  | none =>
    have hkeylen := kvfee_eq_none_iff.1 hfee
    rw [if_neg (by omega)]
    exact ⟨fun _ => hkeylen, fun _ => rfl⟩
  | some fee =>
    have hkeylen : keylenOf opret ≠ 0 := fun hzero => by
      rw [kvfee_eq_none_iff.2 hzero] at hfee
      cases hfee
    refine ⟨fun hdivides => ?_, fun hzero => absurd hzero hkeylen⟩
    dsimp only at hdivides
    split at hdivides
    · cases hdivides
    split at hdivides
    · cases hdivides
    split at hdivides
    · cases hdivides
    · unfold applyUpdate at hdivides
      split at hdivides
      · cases hdivides
      · split_ifs at hdivides
        cases hdivides

/-- An update that reads no byte outside of its payload, and does not divide by zero. -/
def ReadsInside (env : KvEnv) (opret : Bytes) (value : ℕ) (kv : KvStore) : Prop :=
  env.kvupdateReads opret value kv ≠ .error .outside ∧
    env.kvupdateReads opret value kv ≠ .error (.stop .divisionByZero)

theorem readsInside_iff : ReadsInside env opret value kv ↔
    13 ≤ opret.length ∧ keylenOf opret ≠ 0 ∧ ¬ Overreads env opret value kv := by
  unfold ReadsInside
  by_cases hlong : 13 ≤ opret.length
  · obtain ⟨hoverreads, hfits⟩ := @kvupdateReads_eq env opret value kv hlong
    by_cases hreads : Overreads env opret value kv
    · rw [hoverreads hreads]
      exact ⟨fun h => absurd rfl h.1, fun h => absurd hreads h.2.2⟩
    · have hdivides := @kvupdate_divides_iff env opret value kv hlong
      rw [hfits hreads, ne_eq (keylenOf opret), ← hdivides]
      cases env.kvupdate opret value kv with
      | error s => simp [Except.mapError, hlong, hreads]
      | ok kv' => simp [Except.mapError, hlong, hreads]
  · rw [kvupdateReads_short (Nat.not_le.1 hlong)]
    exact ⟨fun h => absurd rfl h.1, fun h => absurd h.1 hlong⟩

end KvEnv

/-! ### The fee -/

theorem kvnumdays_bounds (flags : ℕ) : 1 ≤ kvnumdays flags ∧ kvnumdays flags ≤ 365 := by
  unfold kvnumdays
  dsimp only
  split <;> omega

/-- The fee in unbounded integers. -/
def exactFee (flags : ℕ) (opretlen keylen : ℕ) : ℤ :=
  max 100000 (kvnumdays flags * (opretlen ^ 2 / min keylen 32 : ℕ))

theorem kvfee_exact_iff {flags opretlen keylen : ℕ} (hkeylen : 1 ≤ keylen)
    (hlen : opretlen ≤ 10001) :
    kvfee flags opretlen keylen = some (exactFee flags opretlen keylen) ↔
      kvnumdays flags * (opretlen ^ 2 / min keylen 32 : ℕ) < 2 ^ 31 := by
  obtain ⟨hlow, hhigh⟩ := kvnumdays_bounds flags
  have hsquare : opretlen ^ 2 ≤ 10001 ^ 2 := Nat.pow_le_pow_left hlen 2
  have hk : (if (32 : ℤ) < keylen then 32 else (keylen : ℤ)) = (min keylen 32 : ℕ) := by
    split <;> omega
  have hwrap : wrap32 ((opretlen : ℤ) * opretlen) = (opretlen ^ 2 : ℕ) := by
    rw [show (opretlen : ℤ) * opretlen = (opretlen ^ 2 : ℕ) by push_cast; ring]
    exact wrap32_of_range (by omega) (by omega)
  have hquotient : opretlen ^ 2 / min keylen 32 ≤ opretlen ^ 2 := Nat.div_le_self _ _
  unfold kvfee exactFee
  dsimp only
  rw [hk, if_neg (by omega), hwrap, Int.tdiv_eq_ediv_of_nonneg (by omega), ← Int.natCast_ediv]
  generalize opretlen ^ 2 / min keylen 32 = q at hquotient ⊢
  have hprod : kvnumdays flags * q ≤ 365 * q := Int.mul_le_mul_of_nonneg_right hhigh (by omega)
  have hpos : 0 ≤ kvnumdays flags * q := Int.mul_nonneg (by omega) (by omega)
  generalize kvnumdays flags * (q : ℤ) = n at hprod hpos ⊢
  rw [some.injEq]
  constructor
  · intro heq
    by_contra hover
    have hrange := wrap32_range n
    have hne : wrap32 n % 2 ^ 64 ≠ n := by omega
    split at heq <;> omega
  · intro hlt
    rw [wrap32_of_range (by omega) hlt]
    split <;> omega

/-- **An update reads inside its payload and divides by no zero** if and only if the payload has 13
bytes, its key is not empty and its value does not run out in the test for a transfer; **the fee is
that of unbounded integers** if and only if the product is an `int32_t`. -/
theorem reads_and_fee_iff (env : KvEnv) (opret : Bytes) (value : ℕ) (kv : KvStore)
    (flags opretlen keylen : ℕ) :
    (opret.head? = some 0x4b → opret.length ≠ 40 →
      (env.ReadsInside opret value kv ↔
        13 ≤ opret.length ∧ keylenOf opret ≠ 0 ∧ ¬ env.Overreads opret value kv)) ∧
    (1 ≤ keylen → keylen ≤ 65535 → opretlen ≤ 10001 →
      (kvfee flags opretlen keylen = some (exactFee flags opretlen keylen) ↔
        kvnumdays flags * (opretlen ^ 2 / min keylen 32 : ℕ) < 2 ^ 31)) :=
  ⟨fun _ _ => KvEnv.readsInside_iff, fun hkeylen _ hlen => kvfee_exact_iff hkeylen hlen⟩

/-- An update of the key `A` in a store without records. -/
theorem reads_and_fee_day : exampleEnv.ReadsInside (exampleOpret 0) 100000 (fun _ => none) ∧
    kvfee 4 15 1 = some (exactFee 4 15 1) := by
  have hboth := reads_and_fee_iff exampleEnv (exampleOpret 0) 100000 (fun _ => none) 4 15 1
  refine ⟨(hboth.1 (by decide) (by decide)).2 ⟨by decide, by decide, ?_⟩,
    (hboth.2 (by decide) (by decide) (by decide)).2 (by decide)⟩
  rintro ⟨-, u, rec, -, -, -, hrec, -⟩
  cases hrec

/-- **An empty key divides by zero**, and a payload of 10001 bytes for a year costs less than it
should. -/
theorem update_divides_by_zero :
    ¬ exampleEnv.ReadsInside (0x4b :: List.replicate 40 0) 100000 (fun _ => none) ∧
    kvfee 2000 10001 1 ≠ some (exactFee 2000 10001 1) := by
  refine ⟨fun h => absurd (KvEnv.readsInside_iff.1 h).2.1 (by decide), by decide⟩

end KV
end Komodo
