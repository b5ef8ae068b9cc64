/-
# Conditions and their types

The functions that `CC_ThresholdType`, `CC_Secp256k1Type`, … point to
(`src/src/cryptoconditions/src/threshold.c`, `secp256k1.c`, `ed25519.c`,
`eval.c`, `prefix.c`, `preimage.c`, `anon.c`) and the dispatch over them in
`cryptoconditions.c`: cost, subtypes, fingerprint, the ASN.1 condition of a
tree, the fulfillment of a tree and the tree of a fulfillment.

Three places of this code take values from outside the object at hand: `memcpy`
of a fixed number of bytes out of an octet string, `costs[i]` for `i` up to the
threshold, and `1 << i` beyond the width of an `int`. `Beyond` says what is found
there; nothing is assumed about it.

`hashFingerprintContents` encodes into 4096 bytes. When they do not suffice, it
leaves the fingerprint as it was allocated: 32 zeros.
-/

import Komodo.CryptoConditions.Asn

namespace Komodo

open Der List

/-! ### What is taken from outside -/

/-- What the code reads where it leaves the object at hand. -/
structure Beyond where
  /-- The byte at this offset, past the end of a string. -/
  byte : Bytes → ℕ → UInt8
  /-- `costs[i]` past the end of the array. -/
  cost : List ℕ → ℕ → ℕ
  /-- `1 << i` for `i` of 32 or more. -/
  shifted : ℕ → UInt32

/-- A comparison function as `qsort` wants it, on the elements of `l`. -/
structure Consistent {α : Type} (cmp : α → α → ℤ) (l : List α) : Prop where
  symm : ∀ a ∈ l, ∀ b ∈ l, cmp a b < 0 ↔ 0 < cmp b a
  trans : ∀ a ∈ l, ∀ b ∈ l, ∀ c ∈ l, cmp a b ≤ 0 → cmp b c ≤ 0 → cmp a c ≤ 0

/-- What `CheckCryptoCondition` and the library under it call. -/
structure CryptoEnv where
  sha256 : Bytes → Bytes
  sha256_length : ∀ b, (sha256 b).length = 32
  /-- `qsort`. It only moves elements; a comparison that is consistent on them
  puts them in order. -/
  qsort : {α : Type} → (α → α → ℤ) → List α → List α
  qsort_perm : ∀ {α : Type} (cmp : α → α → ℤ) (l : List α), (qsort cmp l).Perm l
  qsort_sorted : ∀ {α : Type} (cmp : α → α → ℤ) (l : List α), Consistent cmp l →
    (qsort cmp l).Pairwise fun a b => cmp a b ≤ 0
  /-- `ber_decode` of a `Fulfillment`; `none` unless it returns `RC_OK`. -/
  berDecode : Bytes → Option Fulfillment
  /-- `secp256k1_ec_pubkey_parse`. -/
  pubkeyParse : Bytes → Bool
  /-- `secp256k1_ecdsa_signature_parse_compact` and `secp256k1_ecdsa_verify` of a
  signature, a message and a key. -/
  ecdsaVerify : Bytes → Bytes → Bytes → Bool
  /-- `ed25519_verify` of a signature, a message and a key. -/
  ed25519Verify : Bytes → Bytes → Bytes → Bool
  /-- `SignatureHash` of this input for a script and a hash type; `none` when it
  throws. -/
  signatureHash : CScript → UInt8 → Option Bytes
  /-- `CheckEvalCondition` of an eval code. -/
  checkEvalCondition : Bytes → Bool
  /-- What lies outside the objects. -/
  beyond : Beyond

/-! ### Type numbers -/

/-- `CCType::typeId`. -/
def CCTypeId.number : CCTypeId → UInt32
  | preimage => 0
  | prefixed => 1
  | threshold => 2
  | ed25519 => 4
  | secp256k1 => 5
  | eval => 15

def CCTypeId.asnType : CCTypeId → ConditionPR
  | preimage => .preimageSha256
  | prefixed => .prefixSha256
  | threshold => .thresholdSha256
  | ed25519 => .ed25519Sha256
  | secp256k1 => .secp256k1Sha256
  | eval => .evalSha256

/-- `getTypeByAsnEnum`: RSA is in the schema and not in the registry. -/
def getTypeByAsnEnum : ConditionPR → Option CCTypeId
  | .preimageSha256 => some .preimage
  | .prefixSha256 => some .prefixed
  | .thresholdSha256 => some .threshold
  | .rsaSha256 => none
  | .ed25519Sha256 => some .ed25519
  | .secp256k1Sha256 => some .secp256k1
  | .evalSha256 => some .eval

@[simp] theorem getTypeByAsnEnum_asnType (t : CCTypeId) : getTypeByAsnEnum t.asnType = some t := by
  cases t <;> rfl

theorem CCTypeId.asnType_inj {s t : CCTypeId} (h : s.asnType = t.asnType) : s = t := by
  have := congrArg getTypeByAsnEnum h
  simpa using this

/-- `1 << typeId`. -/
def CCTypeId.bit (t : CCTypeId) : UInt32 := 1 <<< t.number

/-! ### Subtypes -/

/-- The bits of `mask` that are set, in ascending order. -/
def setBits (mask : UInt32) : List ℕ :=
  (List.range 32).filter fun i => mask &&& (1 <<< UInt32.ofNat i) ≠ 0

/-- `asnSubtypes`: bit `i` of the mask is bit `7 - i % 8` of byte `i / 8`. -/
def asnSubtypes (mask : UInt32) : BitString :=
  let maxId := (setBits mask).getLastD 0
  let buf := (setBits mask).foldl
    (fun buf i => buf.modify (i / 8) (· ||| UInt8.ofNat (2 ^ (7 - i % 8)))) [0, 0, 0, 0]
  ⟨buf.take (1 + maxId / 8), 7 - maxId % 8⟩

/-- Whether bit `i` of a bit string is set. -/
def BitString.testBit (types : BitString) (i : ℕ) : Bool :=
  types.buf.getD (i / 8) 0 &&& UInt8.ofNat (2 ^ (7 - i % 8)) ≠ 0

namespace CryptoEnv

variable (env : CryptoEnv)

/-- `fromAsnSubtypes`, over every bit of the string. -/
def fromAsnSubtypes (types : BitString) : UInt32 :=
  (List.range (types.buf.length * 8)).foldl
    (fun mask i =>
      if types.testBit i then
        mask ||| (if i < 32 then 1 <<< UInt32.ofNat i else env.beyond.shifted i)
      else mask) 0

/-- In four bytes or less no shift leaves the width of an `int`. -/
theorem fromAsnSubtypes_eq {env : CryptoEnv} {types : BitString} (h : types.buf.length ≤ 4) :
    env.fromAsnSubtypes types = (range (types.buf.length * 8)).foldl
      (fun mask i => if types.testBit i then mask ||| 1 <<< UInt32.ofNat i else mask) 0 := by
  unfold fromAsnSubtypes
  refine foldl_ext _ _ _ ?_
  intro mask i hi
  have hlt : i < 32 := by
    have := mem_range.1 hi
    omega
  simp only [hlt, if_true]

end CryptoEnv

namespace CC

/-- `cc_typeId`; an anonymous node answers with the type it stands for. -/
def typeId : CC → CCTypeId
  | preimage _ => .preimage
  | prefixed _ _ _ => .prefixed
  | threshold _ _ _ => .threshold
  | ed25519 _ _ => .ed25519
  | secp256k1 _ _ => .secp256k1
  | eval _ => .eval
  | anon conditionType _ _ _ => conditionType

mutual

def getSubtypes : CC → UInt32
  | threshold _ size subs =>
    ((typeMasks subs).take size.toNat).foldl (· ||| ·) 0 &&& ~~~CCTypeId.threshold.bit
  | prefixed _ _ sub => (sub.typeId.bit ||| getSubtypes sub) &&& ~~~CCTypeId.prefixed.bit
  | anon _ _ subtypes _ => subtypes
  | _ => 0

/-- `cc_typeMask` of each subcondition. -/
def typeMasks : List CC → List UInt32
  | [] => []
  | sub :: subs => (sub.typeId.bit ||| getSubtypes sub) :: typeMasks subs

end

/-- `cc_typeMask`. -/
def typeMask (cond : CC) : UInt32 := cond.typeId.bit ||| cond.getSubtypes

@[simp] theorem typeMasks_eq_map (subs : List CC) : typeMasks subs = subs.map typeMask := by
  induction subs with
  | nil => rfl
  | cons sub subs ih => rw [typeMasks, ih, map_cons, typeMask]

theorem induct {P : CC → Prop} (preimage : ∀ p, P (preimage p))
    (prefixed : ∀ pre len sub, P sub → P (prefixed pre len sub))
    (threshold : ∀ t size subs, (∀ sub ∈ subs, P sub) → P (threshold t size subs))
    (ed25519 : ∀ pk sig, P (ed25519 pk sig)) (secp256k1 : ∀ pk sig, P (secp256k1 pk sig))
    (eval : ∀ code, P (eval code)) (anon : ∀ type fp st cost, P (anon type fp st cost)) :
    ∀ cond, P cond := by
  refine @CC.rec P (fun subs => ∀ sub ∈ subs, P sub) preimage prefixed threshold ed25519
    secp256k1 eval anon (by simp) ?_
  intro sub subs hsub hsubs
  simpa using ⟨hsub, hsubs⟩

end CC

namespace CryptoEnv

/-! ### Cost -/

/-- `cmpCostDesc`: the difference of two `unsigned long`, cut to an `int`. -/
def cmpCostDesc (a b : ℕ) : ℤ := Int.bmod ((b : ℤ) - a) (2 ^ 32)

variable (env : CryptoEnv)

/-- `thresholdCost`, from the costs of the subconditions. -/
def thresholdCost (threshold : ℕ) (size : UInt8) (subcosts : List ℕ) : ℕ :=
  let costs := env.qsort cmpCostDesc (subcosts.take size.toNat)
  (((List.range threshold).map fun i => costs.getD i (env.beyond.cost costs i)).sum
    + 1024 * size.toNat) % 2 ^ 64

mutual

/-- `cc_getCost`. -/
def getCost : CC → ℕ
  | .preimage preimage => preimage.length
  | .prefixed pre maxMessageLength sub =>
    (1024 + pre.length + maxMessageLength + getCost sub) % 2 ^ 64
  | .threshold threshold size subs => env.thresholdCost threshold size (getCosts subs)
  | .ed25519 _ _ => 131072
  | .secp256k1 _ _ => 131072
  | .eval _ => 1048576
  | .anon _ _ _ cost => cost

/-- `cc_getCost` of each subcondition. -/
def getCosts : List CC → List ℕ
  | [] => []
  | sub :: subs => getCost sub :: getCosts subs

end

@[simp] theorem getCosts_eq_map (subs : List CC) : env.getCosts subs = subs.map env.getCost := by
  induction subs with
  | nil => rfl
  | cons sub subs ih => rw [getCosts, ih, map_cons]

/-! ### Fingerprints -/

def BUF_SIZE : ℕ := 4096

/-- `hashFingerprintContents`: the hash of the encoded contents; the 32 zeros of
a fresh fingerprint stay when the contents do not fit the buffer. -/
def hashFingerprintContents (contents : Bytes) : Bytes :=
  if contents.length ≤ BUF_SIZE then env.sha256 contents else List.replicate 32 0

theorem length_hashFingerprintContents (contents : Bytes) :
    (env.hashFingerprintContents contents).length = 32 := by
  unfold hashFingerprintContents
  split
  · exact env.sha256_length contents
  · exact length_replicate

/-- `cmpConditionBin`: nonzero only when one encoding begins the other. -/
def cmpConditionBin (a b : AsnCondition) : ℤ :=
  let commonLen := min a.der.length b.der.length
  if a.der.take commonLen = b.der.take commonLen then
    if a.der.length < b.der.length then -1 else 1
  else 0

mutual

def fingerprint : CC → Bytes
  | .preimage preimage => env.sha256 preimage
  | .prefixed pre maxMessageLength sub =>
    env.hashFingerprintContents (derPrefixContents pre maxMessageLength
      ⟨sub.typeId.asnType, fingerprint sub, env.getCost sub, asnSubtypes sub.getSubtypes⟩)
  | .threshold threshold size subs =>
    env.hashFingerprintContents (derThresholdContents threshold
      (env.qsort cmpConditionBin ((asnConditions subs).take size.toNat)))
  | .ed25519 publicKey _ => env.hashFingerprintContents (derPublicKeyContents publicKey)
  | .secp256k1 publicKey _ => env.hashFingerprintContents (derPublicKeyContents publicKey)
  | .eval code => env.sha256 code
  | .anon _ fingerprint _ _ => fingerprint

/-- `asnConditionNew` of each subcondition. -/
def asnConditions : List CC → List AsnCondition
  | [] => []
  | sub :: subs =>
    ⟨sub.typeId.asnType, fingerprint sub, env.getCost sub, asnSubtypes sub.getSubtypes⟩
      :: asnConditions subs

end

def asnCondition (cond : CC) : AsnCondition :=
  ⟨cond.typeId.asnType, env.fingerprint cond, env.getCost cond, asnSubtypes cond.getSubtypes⟩

@[simp] theorem asnConditions_eq_map (subs : List CC) :
    env.asnConditions subs = subs.map env.asnCondition := by
  induction subs with
  | nil => rfl
  | cons sub subs ih => rw [asnConditions, ih, map_cons, asnCondition]

/-- `cc_conditionBinary`, into 1000 bytes. -/
def conditionBinary (cond : CC) : Bytes :=
  let der := (env.asnCondition cond).der
  if der.length ≤ 1000 then der else []

/-! ### From fulfillments to trees -/

/-- `memcpy` of `n` bytes out of a string. -/
def memcpy (buf : Bytes) (n : ℕ) : Bytes :=
  (List.range n).map fun i => buf.getD i (env.beyond.byte buf i)

theorem length_memcpy (buf : Bytes) (n : ℕ) : (env.memcpy buf n).length = n := by
  simp [memcpy]

theorem memcpy_eq_take {buf : Bytes} {n : ℕ} (h : n ≤ buf.length) : env.memcpy buf n = buf.take n := by
  apply ext_getElem
  · simp [memcpy, h]
  · intro i hi hi'
    have hlt : i < buf.length := by
      rw [length_memcpy] at hi
      omega
    simp [memcpy, hlt]

def mkAnon (asnCond : AsnCondition) : Option CC :=
  match getTypeByAsnEnum asnCond.present with
  | none => none
  | some realType =>
    some (.anon realType (env.memcpy asnCond.fingerprint 32)
      (env.fromAsnSubtypes asnCond.subtypes) asnCond.cost)

/-- `cc_secp256k1Condition` on the octet strings of a fulfillment. -/
def secp256k1FromFulfillment (publicKey signature : Bytes) : Option CC :=
  let pk := env.memcpy publicKey 33
  if env.pubkeyParse pk then some (.secp256k1 pk (some (env.memcpy signature 64))) else none

mutual

def fulfillmentToCC : Fulfillment → Option CC
  | .preimage preimage => some (.preimage preimage)
  | .prefixed pre maxMessageLength sub =>
    (fulfillmentToCC sub).map (.prefixed pre maxMessageLength)
  | .threshold subfulfillments subconditions =>
    match fulfillmentsToCC subfulfillments, subconditions.mapM env.mkAnon with
    | some revealed, some hidden =>
      some (.threshold subfulfillments.length
        (UInt8.ofNat (subfulfillments.length + subconditions.length)) (revealed ++ hidden))
    | _, _ => none
  | .rsa _ _ => none
  | .ed25519 publicKey signature =>
    some (.ed25519 (env.memcpy publicKey 32) (some (env.memcpy signature 64)))
  | .secp256k1 publicKey signature => env.secp256k1FromFulfillment publicKey signature
  | .eval code => some (.eval code)

/-- `fulfillmentToCC` of each subfulfillment. -/
def fulfillmentsToCC : List Fulfillment → Option (List CC)
  | [] => some []
  | f :: fs =>
    match fulfillmentToCC f, fulfillmentsToCC fs with
    | some cond, some conds => some (cond :: conds)
    | _, _ => none

end

/-! ### From trees to fulfillments -/

def cmpConditionCost (a b : CC) : ℤ :=
  let out := Int.bmod ((env.getCost a : ℤ) - env.getCost b) (2 ^ 32)
  if out ≠ 0 then out else cmpConditionBin (env.asnCondition a) (env.asnCondition b)

/-- The loop of `thresholdToFulfillment` over the sorted subconditions, each with
its fulfillment if it has one: what is still needed at the end, the fulfillments
taken and the conditions of the others. -/
def pickFulfillments : ℕ → List (CC × Option Fulfillment) →
    ℕ × List Fulfillment × List AsnCondition
  | needed, [] => (needed, [], [])
  | needed + 1, (_, some fulfillment) :: rest =>
    let (n, fs, cs) := pickFulfillments needed rest
    (n, fulfillment :: fs, cs)
  | needed, (sub, _) :: rest =>
    let (n, fs, cs) := pickFulfillments needed rest
    (n, fs, env.asnCondition sub :: cs)

mutual

/-- `asnFulfillmentNew`. -/
def toFulfillment : CC → Option Fulfillment
  | .preimage preimage => some (.preimage preimage)
  | .prefixed pre maxMessageLength sub =>
    (toFulfillment sub).map (.prefixed pre maxMessageLength)
  | .threshold threshold size subs =>
    match env.pickFulfillments threshold
      (env.qsort (fun a b => env.cmpConditionCost a.1 b.1)
        ((withFulfillments subs).take size.toNat)) with
    | (0, fs, cs) => some (.threshold fs cs)
    | _ => none
  | .ed25519 publicKey signature => signature.map (.ed25519 publicKey)
  | .secp256k1 publicKey signature => signature.map (.secp256k1 publicKey)
  | .eval code => some (.eval code)
  | .anon _ _ _ _ => none

/-- The subconditions, each with its fulfillment. -/
def withFulfillments : List CC → List (CC × Option Fulfillment)
  | [] => []
  | sub :: subs => (sub, toFulfillment sub) :: withFulfillments subs

end

@[simp] theorem withFulfillments_eq_map (subs : List CC) :
    env.withFulfillments subs = subs.map fun sub => (sub, env.toFulfillment sub) := by
  induction subs with
  | nil => rfl
  | cons sub subs ih => rw [withFulfillments, ih, map_cons]

end CryptoEnv

/-! ### Fulfilled trees -/

namespace CC

/-- The loop of `thresholdIsFulfilled`, entered with `nFulfilled`. -/
def countFulfilled (threshold : ℕ) : ℕ → List Bool → Bool
  | _, [] => false
  | nFulfilled, fulfilled :: rest =>
    let n := if fulfilled then nFulfilled + 1 else nFulfilled
    if n = threshold then true else countFulfilled threshold n rest

mutual

/-- `cc_isFulfilled`. -/
def isFulfilled : CC → Bool
  | preimage _ => true
  | prefixed _ _ sub => isFulfilled sub
  | threshold t size subs => countFulfilled t 0 ((areFulfilled subs).take size.toNat)
  | ed25519 _ signature => signature.isSome
  | secp256k1 _ signature => signature.isSome
  | eval _ => true
  | anon _ _ _ _ => false

/-- `cc_isFulfilled` of each subcondition. -/
def areFulfilled : List CC → List Bool
  | [] => []
  | sub :: subs => isFulfilled sub :: areFulfilled subs

end

@[simp] theorem areFulfilled_eq_map (subs : List CC) :
    areFulfilled subs = subs.map isFulfilled := by
  induction subs with
  | nil => rfl
  | cons sub subs ih => rw [areFulfilled, ih, map_cons]

end CC

end Komodo
