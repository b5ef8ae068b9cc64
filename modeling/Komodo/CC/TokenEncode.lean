/-
# Token opreturns, written and read back

`EncodeTokenCreateOpRet` and `EncodeTokenOpRet` of `src/src/cc/CCtokenutils.cpp`,
with `CPubKey::Serialize` of `src/src/pubkey.h`.

`DecodeTokenOpRet` first tries to read a transfer as one of the old style, with a
single byte vector where the blobs with their ids now stand. The id of the first
blob is then taken for the size of that vector. `tokenOpRet_roundTrip` says
exactly which opreturns survive: those whose blobs do not pass for old data and
whose sizes the reader accepts. `blob_read_as_rogue` is one that does not.
-/

import Komodo.CC.TokenOpRet
import Komodo.Script.Serialize

namespace Komodo

open Streams Unserialize List

/-! ### The encoders -/

/-- `CPubKey::Serialize`: the key as a byte vector. -/
def CPubKey.serialize (pk : CPubKey) : Bytes := vectorBytes pk

/-- The loop `for (auto o : oprets) { if (o.first != 0) { ss << o.first; ss << o.second; } }`. -/
def opretBlobsBytes : Oprets → Bytes
  | [] => []
  | (id, blob) :: oprets =>
    if id ≠ 0 then id :: vectorBytes blob ++ opretBlobsBytes oprets else opretBlobsBytes oprets

/-- The payload of `EncodeTokenCreateOpRet`; the function id it is given is
overridden. -/
def tokenCreatePayload (origpubkey name description : Bytes) (oprets : Oprets) : Bytes :=
  [EVAL_TOKENS, fid 'c'] ++ vectorBytes origpubkey ++ vectorBytes name ++ vectorBytes description
    ++ opretBlobsBytes oprets

def encodeTokenCreateOpRet (origpubkey name description : Bytes) (oprets : Oprets) : CScript :=
  opReturnScript (tokenCreatePayload origpubkey name description oprets)

/-- The fields of a transfer before its blobs: the number of keys, `0` if it is
not supported, and the keys. -/
def transferHeadBytes (tokenid : Uint256) (voutPubkeys : List CPubKey) : Bytes :=
  let ccType := if voutPubkeys.length ≤ 2 then voutPubkeys.length else 0
  [EVAL_TOKENS, fid 't'] ++ uint256Bytes (revuint256 tokenid) ++ [UInt8.ofNat ccType]
    ++ ((voutPubkeys.take ccType).map CPubKey.serialize).flatten

/-- The payload of `EncodeTokenOpRet`. -/
def tokenPayload (tokenid : Uint256) (voutPubkeys : List CPubKey) (oprets : Oprets) : Bytes :=
  transferHeadBytes tokenid voutPubkeys ++ opretBlobsBytes oprets

def encodeTokenOpRet (tokenid : Uint256) (voutPubkeys : List CPubKey) (oprets : Oprets) :
    CScript :=
  opReturnScript (tokenPayload tokenid voutPubkeys oprets)

/-! ### Keys and token ids -/

namespace CPubKey

/-- A valid key: its header byte announces the bytes that it has. -/
def Valid : CPubKey → Prop
  | [] => False
  | h :: pk => getLen h = pk.length + 1

variable {pk : CPubKey}

theorem Valid.ofBuffer_eq (h : pk.Valid) : ofBuffer pk = pk := by
  match pk with
  | x :: rest =>
    have hlen : getLen x = (x :: rest).length := h
    rw [CPubKey.ofBuffer, hlen, take_left]

theorem Valid.length_le (h : pk.Valid) : pk.length ≤ 65 := by
  match pk with
  | x :: rest =>
    have hlen : getLen x = (x :: rest).length := h
    rw [← hlen, getLen]
    split_ifs <;> omega

theorem Valid.isValid (h : pk.Valid) : pk.isValid = true := by
  match pk with
  | x :: rest => rfl

theorem Valid.reads (h : pk.Valid) : Reads unserialize pk.serialize pk := by
  have hlen := h.length_le
  have hmax : pk.length ≤ maxSize := hlen.trans (by decide)
  refine (reads_compactSize hmax).bind fun s => ?_
  rw [bind_apply, reads_bytes pk]
  show some (if pk.length ≤ 65 then ofBuffer pk else [], s) = _
  rw [if_pos hlen, h.ofBuffer_eq]

theorem extensible_unserialize : Extensible unserialize :=
  extensible_compactSize.bind fun _ =>
    (extensible_bytes _).bind fun _ => extensible_pure _

end CPubKey

theorem uint256Bytes_fromLE {bs : Bytes} (h : bs.length = 32) : uint256Bytes (fromLE bs) = bs := by
  have := leBytes_fromLE bs
  rwa [h] at this

theorem revuint256_revuint256 {h : Uint256} (hlt : h < 2 ^ 256) : revuint256 (revuint256 h) = h := by
  rw [revuint256, revuint256, uint256Bytes_fromLE (by simp), reverse_reverse,
    fromLE_uint256Bytes hlt]

theorem revuint256_lt (h : Uint256) : revuint256 h < 2 ^ 256 := by
  have := fromLE_lt (uint256Bytes h).reverse
  rw [length_reverse, length_uint256Bytes] at this
  exact this.trans_le (by norm_num)

/-! ### Blobs -/

theorem opretBlobsLoop_nil (fuel : ℕ) : opretBlobsLoop fuel [] = some ([], []) := by
  cases fuel <;> rfl

theorem opretBlobsLoop_cons (fuel : ℕ) (id : UInt8) (s : Bytes) :
    opretBlobsLoop (fuel + 1) (id :: s) =
      if s = [] then some ([], []) else (vector s).bind fun p =>
        (opretBlobsLoop fuel p.2).map fun q => ((id, p.1) :: q.1, q.2) := by
  have heof : eof (id :: s) = some (false, id :: s) := rfl
  rw [opretBlobsLoop, bind_apply, heof]
  simp only [Option.bind_some, Bool.false_eq_true, if_false]
  rw [bind_apply, uint8_cons]
  simp only [Option.bind_some]
  cases s with
  | nil => rfl
  | cons b s =>
    have heof' : eof (b :: s) = some (false, b :: s) := rfl
    rw [bind_apply, heof', if_neg (cons_ne_nil b s)]
    simp only [Option.bind_some, Bool.false_eq_true, if_false]
    rw [bind_apply]
    refine congrArg _ (funext fun p => ?_)
    rw [bind_apply]
    cases opretBlobsLoop fuel p.2 <;> rfl

variable {oprets : Oprets}

/-- Blobs that are not too long are read back. -/
theorem opretBlobsLoop_bytes (hid : ∀ p ∈ oprets, p.1 ≠ 0)
    (hlen : ∀ p ∈ oprets, p.2.length ≤ maxSize) {fuel : ℕ}
    (hfuel : oprets.length ≤ fuel) :
    opretBlobsLoop fuel (opretBlobsBytes oprets) = some (oprets, []) := by
  induction oprets generalizing fuel with
  | nil => exact opretBlobsLoop_nil fuel
  | cons p oprets ih =>
    obtain ⟨id, blob⟩ := p
    obtain ⟨fuel, rfl⟩ : ∃ k, fuel = k + 1 := ⟨fuel - 1, by rw [length_cons] at hfuel; omega⟩
    have hread := reads_vector (hlen (id, blob) (by simp)) (opretBlobsBytes oprets)
    have hne : vectorBytes blob ++ opretBlobsBytes oprets ≠ [] := by
      intro h
      rw [h] at hread
      cases hread
    have hrest : opretBlobsLoop fuel (opretBlobsBytes oprets) = some (oprets, []) :=
      ih (fun p hp => hid p (by simp [hp])) (fun p hp => hlen p (by simp [hp]))
        (by rw [length_cons] at hfuel; omega)
    rw [opretBlobsBytes, if_pos (hid (id, blob) (by simp)), cons_append, opretBlobsLoop_cons,
      if_neg hne, hread]
    simp only [Option.bind_some, hrest, Option.map_some]

/-- Blobs are read only from bytes at least as many as are written for them, and
none of them is too long. An id at the end without a blob is passed over. -/
theorem opretBlobsLoop_exact {fuel : ℕ} {s : Bytes}
    (h : opretBlobsLoop fuel s = some (oprets, [])) :
    (opretBlobsBytes oprets).length ≤ s.length ∧
      ∀ p ∈ oprets, p.2.length ≤ maxSize := by
  induction fuel generalizing s oprets with
  | zero =>
    cases h
    exact ⟨le_rfl, by simp⟩
  | succ fuel ih =>
    cases s with
    | nil =>
      rw [opretBlobsLoop_nil] at h
      cases h
      exact ⟨le_rfl, by simp⟩
    | cons id s =>
      rw [opretBlobsLoop_cons] at h
      split_ifs at h with hs
      · cases h
        exact ⟨Nat.zero_le _, by simp⟩
      · obtain ⟨⟨blob, s'⟩, hvector, hmap⟩ := Option.bind_eq_some_iff.1 h
        obtain ⟨⟨rest, s''⟩, hrest, heq⟩ := Option.map_eq_some_iff.1 hmap
        obtain ⟨rfl, rfl⟩ := Prod.mk.inj heq
        obtain ⟨rfl, hblob⟩ := vector_exact hvector
        have hrest' : opretBlobsLoop fuel s' = some (rest, []) := hrest
        obtain ⟨hlen, hall⟩ := ih hrest'
        refine ⟨?_, forall_mem_cons.2 ⟨hblob, hall⟩⟩
        rw [opretBlobsBytes]
        split_ifs <;> simp only [length_append, length_cons] <;> omega

/-! ### The head of a transfer -/

/-- `ccType` and the two keys as the reader finds them. -/
def headKeys : List CPubKey → UInt8 × CPubKey × CPubKey
  | [] => (0, [], [])
  | [pk] => (1, pk, [])
  | pk :: pk' :: _ => (2, pk, pk')

theorem extensible_transferHead : Extensible transferHead := by
  refine extensible_uint8.bind fun _ => extensible_uint8.bind fun _ =>
    (extensible_uint 32).bind fun _ => extensible_uint8.bind fun ccType => ?_
  have hkey := CPubKey.extensible_unserialize
  have hnone : Extensible (pure [] : Unserialize CPubKey) := extensible_pure _
  split_ifs
  · exact hkey.bind fun _ => hkey.bind fun _ => extensible_pure _
  · exact hnone.bind fun _ => hkey.bind fun _ => extensible_pure _
  · exact hkey.bind fun _ => hnone.bind fun _ => extensible_pure _
  · exact hnone.bind fun _ => hnone.bind fun _ => extensible_pure _

/-- The keys of a transfer, after `ccType`. -/
def transferKeys (tokenid : Uint256) (ccType : UInt8) :
    Unserialize (Uint256 × UInt8 × CPubKey × CPubKey) :=
  (if 1 ≤ ccType then CPubKey.unserialize else pure []) >>= fun voutPubkey1 =>
    (if ccType = 2 then CPubKey.unserialize else pure []) >>= fun voutPubkey2 =>
      pure (tokenid, ccType, voutPubkey1, voutPubkey2)

theorem transferHead_apply {h : Uint256} (hlt : h < 2 ^ 256) (e f ccType : UInt8) (s : Bytes) :
    transferHead (e :: f :: (uint256Bytes h ++ ccType :: s)) = transferKeys h ccType s := by
  rw [transferHead, bind_apply, uint8_cons]
  simp only [Option.bind_some]
  rw [bind_apply, uint8_cons]
  simp only [Option.bind_some]
  rw [bind_apply, reads_uint256 hlt]
  simp only [Option.bind_some]
  rw [bind_apply, uint8_cons]
  simp only [Option.bind_some, transferKeys]
  split_ifs <;> rfl

variable {pks : List CPubKey}

theorem reads_transferKeys (h : Uint256) (hpks : pks.length ≤ 2)
    (hvalid : ∀ pk ∈ pks, pk.Valid) :
    Reads (transferKeys h (UInt8.ofNat pks.length)) (pks.map CPubKey.serialize).flatten
      (h, headKeys pks) := by
  have hnone : Reads (pure [] : Unserialize CPubKey) [] [] := reads_pure _
  match pks with
  | [] => exact hnone.bind (hnone.bind (reads_pure _))
  | [pk] =>
    exact (hvalid pk (by simp)).reads.bind (hnone.bind (reads_pure _))
  | [pk, pk'] =>
    exact (hvalid pk (by simp)).reads.bind ((hvalid pk' (by simp)).reads.bind (reads_pure _))

variable {tokenid : Uint256}

theorem reads_transferHead (hpks : pks.length ≤ 2)
    (hvalid : ∀ pk ∈ pks, pk.Valid) :
    Reads transferHead (transferHeadBytes tokenid pks) (revuint256 tokenid, headKeys pks) := by
  intro s
  rw [transferHeadBytes]
  simp only [if_pos hpks, take_length, cons_append, nil_append, append_assoc]
  rw [transferHead_apply (revuint256_lt tokenid)]
  exact reads_transferKeys _ hpks hvalid s

theorem filter_headKeys (hpks : pks.length ≤ 2)
    (hvalid : ∀ pk ∈ pks, pk.Valid) :
    [(headKeys pks).2.1, (headKeys pks).2.2].filter CPubKey.isValid = pks := by
  match pks with
  | [] => rfl
  | [pk] =>
    show [pk, []].filter CPubKey.isValid = [pk]
    rw [filter_cons_of_pos (hvalid pk (by simp)).isValid]
    rfl
  | [pk, pk'] =>
    show [pk, pk'].filter CPubKey.isValid = [pk, pk']
    rw [filter_cons_of_pos (hvalid pk (by simp)).isValid,
      filter_cons_of_pos (hvalid pk' (by simp)).isValid]
    rfl

theorem headKeys_ccType (pks : List CPubKey) : (headKeys pks).1 ≤ 2 := by
  match pks with
  | [] => exact (by decide : (0 : UInt8) ≤ 2)
  | [_] => exact (by decide : (1 : UInt8) ≤ 2)
  | _ :: _ :: _ => exact (by decide : (2 : UInt8) ≤ 2)

/-! ### Transfers -/

/-- The blobs that the first attempt makes of the bytes after the head. -/
def oldstyleBlobs (s : Bytes) : Option Oprets :=
  (unmarshal s vector).bind fun v => (oldstyleId v).map fun id => [(id, v)]

/-- The blobs that `DecodeTokenOpRet` finds in the bytes after the head. -/
def transferOprets (s : Bytes) : Option Oprets :=
  (oldstyleBlobs s).or (unmarshal s opretBlobs)

section transfer
variable {tokenid : Uint256} {pks : List CPubKey}

theorem transferOldstyle_append (hpks : pks.length ≤ 2) (hvalid : ∀ pk ∈ pks, pk.Valid)
    (s : Bytes) : transferOldstyle (transferHeadBytes tokenid pks ++ s) =
      (oldstyleBlobs s).map fun oprets => ((revuint256 tokenid, headKeys pks), oprets) := by
  rw [transferOldstyle, unmarshal, bind_apply, reads_transferHead hpks hvalid]
  simp only [Option.bind_some]
  rw [bind_apply, eof, oldstyleBlobs, unmarshal]
  simp only [Option.bind_some]
  cases s with
  | nil => rfl
  | cons b s =>
    simp only [isEmpty_cons, Bool.false_eq_true, if_false]
    rw [bind_apply]
    rcases vector (b :: s) with _ | ⟨v, _ | ⟨x, t⟩⟩
    · rfl
    · simp only [Option.bind_some, pure_apply]
      cases h : oldstyleId v <;> simp [h]
    · rfl

theorem transferBlobs_append (hpks : pks.length ≤ 2) (hvalid : ∀ pk ∈ pks, pk.Valid) (s : Bytes) :
    transferBlobs (transferHeadBytes tokenid pks ++ s) =
      (unmarshal s opretBlobs).map
        fun oprets => ((revuint256 tokenid, headKeys pks), oprets) := by
  rw [transferBlobs, unmarshal, bind_apply, reads_transferHead hpks hvalid]
  simp only [Option.bind_some]
  rw [bind_apply, unmarshal]
  rcases opretBlobs s with _ | ⟨oprets, _ | ⟨x, t⟩⟩ <;> rfl

/-- What is decoded from a payload that starts with the head of a transfer. -/
theorem decodeTokenOpRet_append (hid : tokenid < 2 ^ 256) (hpks : pks.length ≤ 2)
    (hvalid : ∀ pk ∈ pks, pk.Valid) {script : CScript} {s : Bytes}
    (hscript : getOpReturnData script = transferHeadBytes tokenid pks ++ s) :
    decodeTokenOpRet script =
      (transferOprets s).map fun oprets => ⟨fid 't', EVAL_TOKENS, tokenid, pks, oprets⟩ := by
  have hlen : 2 < (transferHeadBytes tokenid pks ++ s).length := by
    simp only [transferHeadBytes, length_append, length_uint256Bytes]
    omega
  have h₀ : (transferHeadBytes tokenid pks ++ s)[0]? = some EVAL_TOKENS := rfl
  have h₁ : (transferHeadBytes tokenid pks ++ s)[1]? = some (fid 't') := rfl
  have hc : some (fid 't') ≠ some (fid 'c') := by decide
  rw [decodeTokenOpRet]
  simp only [hscript, h₀, h₁, hlen, true_and, if_true, if_neg hc,
    transferOldstyle_append hpks hvalid, transferBlobs_append hpks hvalid]
  rw [← Option.map_or, ← transferOprets]
  cases transferOprets s with
  | none => rfl
  | some oprets =>
    show (if 2 < (headKeys pks).1 then none else some (⟨fid 't', EVAL_TOKENS,
      revuint256 (revuint256 tokenid),
      [(headKeys pks).2.1, (headKeys pks).2.2].filter CPubKey.isValid, oprets⟩ : TokenOpRet)) = _
    rw [if_neg (UInt8.not_lt.2 (headKeys_ccType pks)), revuint256_revuint256 hid,
      filter_headKeys hpks hvalid]
    rfl

/-- Nothing is decoded from a strict beginning of the head. -/
theorem decodeTokenOpRet_of_prefix (hpks : pks.length ≤ 2) (hvalid : ∀ pk ∈ pks, pk.Valid)
    {script : CScript} {after : Bytes}
    (hscript : getOpReturnData script ++ after = transferHeadBytes tokenid pks)
    (hafter : after ≠ []) : decodeTokenOpRet script = none := by
  generalize hd : getOpReturnData script = d at hscript
  have hhead : transferHead d = none := by
    by_contra hne
    obtain ⟨⟨a, s'⟩, hs⟩ := Option.ne_none_iff_exists'.1 hne
    have hreads : Reads transferHead (transferHeadBytes tokenid pks)
        (revuint256 tokenid, headKeys pks) := reads_transferHead hpks hvalid
    rw [← hscript] at hreads
    exact hafter (hreads.eq_nil_of_prefix extensible_transferHead hs)
  have hold : transferOldstyle d = none := by
    rw [transferOldstyle, unmarshal, bind_apply, hhead]
    rfl
  have hblobs : transferBlobs d = none := by
    rw [transferBlobs, unmarshal, bind_apply, hhead]
    rfl
  rw [decodeTokenOpRet, hd]
  simp only [hold, hblobs, Option.or_none]
  split_ifs with hlen hc
  · -- the second byte is that of a transfer
    obtain ⟨x, y, z, rest, rfl⟩ : ∃ x y z rest, d = x :: y :: z :: rest := by
      match d, hlen.1 with
      | x :: y :: z :: rest, _ => exact ⟨x, y, z, rest, rfl⟩
    have hy : some y = some (fid 'c') := hc
    have hy' : y = fid 't' := (cons.inj (cons.inj hscript).2).1
    rw [hy'] at hy
    exact absurd hy (by decide)
  · rfl
  · rfl
  · rfl

end transfer

/-! ### Round trips -/

/-- The blobs pass for data of the old style: their bytes are those of one vector
that starts like rogue or assets data. -/
def PassesForOld (oprets : Oprets) : Prop :=
  ∃ v id, unmarshal (opretBlobsBytes oprets) vector = some v ∧
    oldstyleId v = some id

/-- No blob is longer than the reader accepts. -/
def BlobsFit (oprets : Oprets) : Prop := ∀ p ∈ oprets, p.2.length ≤ maxSize

theorem oldstyleBlobs_eq_none :
    oldstyleBlobs (opretBlobsBytes oprets) = none ↔ ¬ PassesForOld oprets := by
  unfold oldstyleBlobs PassesForOld
  cases unmarshal (opretBlobsBytes oprets) vector with
  | none => simp
  | some v => cases h : oldstyleId v <;> simp [h]

theorem length_le_opretBlobsBytes (hid : ∀ p ∈ oprets, p.1 ≠ 0) :
    oprets.length ≤ (opretBlobsBytes oprets).length := by
  induction oprets with
  | nil => exact le_rfl
  | cons p oprets ih =>
    have hrest := ih fun q hq => hid q (by simp [hq])
    rw [opretBlobsBytes, if_pos (hid p (by simp))]
    simp only [length_append, length_cons]
    omega

theorem unmarshal_opretBlobs (hid : ∀ p ∈ oprets, p.1 ≠ 0)
    (hfit : BlobsFit oprets) :
    unmarshal (opretBlobsBytes oprets) opretBlobs = some oprets :=
  unmarshal_eq_some.2 (opretBlobsLoop_bytes hid hfit (length_le_opretBlobsBytes hid))

/-- When a transfer opreturn is read back. -/
theorem decode_encodeTokenOpRet (hid : tokenid < 2 ^ 256)
    (hpks : pks.length ≤ 2) (hvalid : ∀ pk ∈ pks, pk.Valid)
    (hids : ∀ p ∈ oprets, p.1 ≠ 0) :
    decodeTokenOpRet (encodeTokenOpRet tokenid pks oprets) =
        some ⟨fid 't', EVAL_TOKENS, tokenid, pks, oprets⟩ ↔
      ¬ PassesForOld oprets ∧ BlobsFit oprets ∧
        (tokenPayload tokenid pks oprets).length < 2 ^ 32 := by
  have hscript := getOpReturnData_opReturnScript (tokenPayload tokenid pks oprets)
  rw [← encodeTokenOpRet] at hscript
  constructor
  · intro h
    -- the bytes that are left of the payload
    obtain ⟨n, hn, htake⟩ : ∃ n, n = (tokenPayload tokenid pks oprets).length % 2 ^ 32 ∧
        getOpReturnData (encodeTokenOpRet tokenid pks oprets) =
          (tokenPayload tokenid pks oprets).take n := ⟨_, rfl, hscript⟩
    rw [tokenPayload] at htake
    rw [tokenPayload, length_append] at hn ⊢
    by_cases hlen : n < (transferHeadBytes tokenid pks).length
    · rw [take_append_of_le_length hlen.le] at htake
      have hnone := decodeTokenOpRet_of_prefix hpks hvalid
        (by rw [htake]; exact take_append_drop n _) (by simpa using hlen)
      rw [hnone] at h
      cases h
    · rw [take_append, take_of_length_le (by omega)] at htake
      rw [decodeTokenOpRet_append hid hpks hvalid htake] at h
      obtain ⟨found, hfound, heq⟩ := Option.map_eq_some_iff.1 h
      obtain rfl : found = oprets := congrArg TokenOpRet.oprets heq
      have hcut := length_take_le (n - (transferHeadBytes tokenid pks).length)
        (opretBlobsBytes found)
      rcases Option.or_eq_some_iff.1 hfound with hold | ⟨hnew, hblobs⟩
      · -- read as one vector, the blob would be a byte shorter than it was written
        obtain ⟨v, hv, hmap⟩ := Option.bind_eq_some_iff.1 hold
        obtain ⟨id, -, rfl⟩ := Option.map_eq_some_iff.1 hmap
        obtain ⟨hbytes, -⟩ := vector_exact (unmarshal_eq_some.1 hv)
        have hbytes' := congrArg length hbytes
        have hwritten : (opretBlobsBytes [(id, v)]).length = (vectorBytes v).length + 1 := by
          rw [opretBlobsBytes, if_pos (hids (id, v) (by simp))]
          simp [opretBlobsBytes]
        rw [append_nil, length_take] at hbytes'
        omega
      · obtain ⟨hbytes, hfit⟩ := opretBlobsLoop_exact (unmarshal_eq_some.1 hblobs)
        rw [length_take] at hbytes
        rw [take_of_length_le (by omega)] at hnew
        exact ⟨oldstyleBlobs_eq_none.1 hnew, hfit, by omega⟩
  · rintro ⟨hold, hfit, hlen⟩
    rw [Nat.mod_eq_of_lt hlen, take_length, tokenPayload] at hscript
    rw [decodeTokenOpRet_append hid hpks hvalid hscript, transferOprets,
      oldstyleBlobs_eq_none.2 hold, unmarshal_opretBlobs hids hfit]
    rfl

/-- The fields of a creation, one after the other. -/
theorem decodeTokenCreateOpRet_eq_some {script : CScript} {s origpubkey name description : Bytes}
    (hscript : getOpReturnData script = EVAL_TOKENS :: fid 'c' :: s) :
    decodeTokenCreateOpRet script = some ⟨fid 'c', origpubkey, name, description, oprets⟩ ↔
      ∃ s₁ s₂ s₃, vector s = some (origpubkey, s₁) ∧
        vector s₁ = some (name, s₂) ∧ vector s₂ = some (description, s₃) ∧
        opretBlobs s₃ = some (oprets, []) := by
  have h₀ : (EVAL_TOKENS :: fid 'c' :: s)[0]? = some EVAL_TOKENS := rfl
  have h₁ : (EVAL_TOKENS :: fid 'c' :: s)[1]? = some (fid 'c') := rfl
  rw [decodeTokenCreateOpRet]
  simp only [hscript, h₀, h₁, and_true]
  constructor
  · intro h
    split_ifs at h with hlen
    have hread := unmarshal_eq_some.1 h
    rw [bind_apply, uint8_cons] at hread
    simp only [Option.bind_some] at hread
    rw [bind_apply, uint8_cons] at hread
    simp only [Option.bind_some] at hread
    rw [bind_apply] at hread
    obtain ⟨⟨o, s₁⟩, ho, hread⟩ := Option.bind_eq_some_iff.1 hread
    rw [bind_apply] at hread
    obtain ⟨⟨n, s₂⟩, hn, hread⟩ := Option.bind_eq_some_iff.1 hread
    rw [bind_apply] at hread
    obtain ⟨⟨d, s₃⟩, hd, hread⟩ := Option.bind_eq_some_iff.1 hread
    rw [bind_apply] at hread
    obtain ⟨⟨os, s₄⟩, hos, hread⟩ := Option.bind_eq_some_iff.1 hread
    obtain ⟨hrec, rfl⟩ := Prod.mk.inj (Option.some.inj hread)
    injection hrec with _ h₁ h₂ h₃ h₄
    subst h₁ h₂ h₃ h₄
    exact ⟨s₁, s₂, s₃, ho, hn, hd, hos⟩
  · rintro ⟨s₁, s₂, s₃, ho, hn, hd, hos⟩
    have hne : s ≠ [] := by
      rintro rfl
      cases ho
    have hlen : 2 < (EVAL_TOKENS :: fid 'c' :: s).length := by
      have := length_pos_iff.2 hne
      simp only [length_cons]
      omega
    rw [if_pos hlen]
    apply unmarshal_eq_some.2
    rw [bind_apply, uint8_cons]
    simp only [Option.bind_some]
    rw [bind_apply, uint8_cons]
    simp only [Option.bind_some]
    rw [bind_apply, ho]
    simp only [Option.bind_some]
    rw [bind_apply, hn]
    simp only [Option.bind_some]
    rw [bind_apply, hd]
    simp only [Option.bind_some]
    rw [bind_apply, hos]
    rfl

/-- When a creation opreturn is read back. -/
theorem decode_encodeTokenCreateOpRet (origpubkey name description : Bytes)
    (hids : ∀ p ∈ oprets, p.1 ≠ 0) :
    decodeTokenCreateOpRet (encodeTokenCreateOpRet origpubkey name description oprets) =
        some ⟨fid 'c', origpubkey, name, description, oprets⟩ ↔
      (∀ v ∈ [origpubkey, name, description], v.length ≤ maxSize) ∧ BlobsFit oprets ∧
        (tokenCreatePayload origpubkey name description oprets).length < 2 ^ 32 := by
  have hscript := getOpReturnData_opReturnScript
    (tokenCreatePayload origpubkey name description oprets)
  rw [← encodeTokenCreateOpRet] at hscript
  obtain ⟨fields, hfields⟩ : ∃ fields, fields = vectorBytes origpubkey ++ (vectorBytes name ++
      (vectorBytes description ++ opretBlobsBytes oprets)) := ⟨_, rfl⟩
  have hpayload : tokenCreatePayload origpubkey name description oprets =
      EVAL_TOKENS :: fid 'c' :: fields := by
    rw [hfields, tokenCreatePayload]
    simp only [append_assoc]
    rfl
  rw [hpayload] at hscript ⊢
  constructor
  · intro h
    obtain ⟨n, hn⟩ : ∃ n, n = (EVAL_TOKENS :: fid 'c' :: fields).length % 2 ^ 32 := ⟨_, rfl⟩
    rw [← hn] at hscript
    match n with
    | 0 | 1 =>
      rw [decodeTokenCreateOpRet, hscript] at h
      simp at h
    | n + 2 =>
      obtain ⟨s₁, s₂, s₃, ho, hname, hd, hos⟩ := (decodeTokenCreateOpRet_eq_some hscript).1 h
      obtain ⟨hbytes, hlo⟩ := vector_exact ho
      obtain ⟨rfl, hln⟩ := vector_exact hname
      obtain ⟨rfl, hld⟩ := vector_exact hd
      obtain ⟨hblobs, hfit⟩ := opretBlobsLoop_exact hos
      have hcut := congrArg length hbytes
      rw [hfields, length_take] at hcut
      rw [hfields] at hn ⊢
      simp only [length_append, length_cons] at hcut hn ⊢
      refine ⟨?_, hfit, by omega⟩
      simp only [forall_mem_cons, not_mem_nil, false_imp_iff, implies_true, and_true]
      exact ⟨hlo, hln, hld⟩
  · rintro ⟨hsizes, hfit, hlen⟩
    simp only [forall_mem_cons, not_mem_nil, false_imp_iff, implies_true, and_true]
      at hsizes
    rw [Nat.mod_eq_of_lt hlen, take_length] at hscript
    rw [hfields] at hscript
    exact (decodeTokenCreateOpRet_eq_some hscript).2
      ⟨_, _, _, reads_vector hsizes.1 _, reads_vector hsizes.2.1 _, reads_vector hsizes.2.2 _,
        unmarshal_eq_some.1 (unmarshal_opretBlobs hids hfit)⟩

/-- **Which token opreturns are read back.** `DecodeTokenOpRet` undoes
`EncodeTokenOpRet` exactly if the blobs do not pass for data of the old style and
the sizes stay within what the reader and a push accept; `DecodeTokenCreateOpRet`
undoes `EncodeTokenCreateOpRet` exactly if the sizes do. -/
theorem tokenOpRet_roundTrip (hid : tokenid < 2 ^ 256)
    (hpks : pks.length ≤ 2) (hvalid : ∀ pk ∈ pks, pk.Valid)
    (hids : ∀ p ∈ oprets, p.1 ≠ 0) (origpubkey name description : Bytes) :
    (decodeTokenOpRet (encodeTokenOpRet tokenid pks oprets) =
        some ⟨fid 't', EVAL_TOKENS, tokenid, pks, oprets⟩ ↔
      ¬ PassesForOld oprets ∧ BlobsFit oprets ∧
        (tokenPayload tokenid pks oprets).length < 2 ^ 32) ∧
    (decodeTokenCreateOpRet (encodeTokenCreateOpRet origpubkey name description oprets) =
        some ⟨fid 'c', origpubkey, name, description, oprets⟩ ↔
      (∀ v ∈ [origpubkey, name, description], v.length ≤ maxSize) ∧ BlobsFit oprets ∧
        (tokenCreatePayload origpubkey name description oprets).length < 2 ^ 32) :=
  ⟨decode_encodeTokenOpRet hid hpks hvalid hids,
    decode_encodeTokenCreateOpRet origpubkey name description hids⟩

namespace TokenSample

/-- An assets blob of 17 bytes that starts with `'R'`. -/
def blob : Bytes := fid 'R' :: List.replicate 16 0

theorem not_passesForOld : ¬ PassesForOld [(OPRETID_GATEWAYSDATA, blob)] := by
  rintro ⟨v, id, hv, -⟩
  have hnone : unmarshal (opretBlobsBytes [(OPRETID_GATEWAYSDATA, blob)])
      vector = none := by decide
  rw [hnone] at hv
  cases hv

end TokenSample

/-- The hypotheses of `tokenOpRet_roundTrip` are satisfiable: a transfer to the
tokens contract with a gateways blob, read back. -/
theorem tokenOpRet_roundTrip_gateways :
    decodeTokenOpRet (encodeTokenOpRet 7 [tokensUnspendablePk]
        [(OPRETID_GATEWAYSDATA, TokenSample.blob)]) =
      some ⟨fid 't', EVAL_TOKENS, 7, [tokensUnspendablePk],
        [(OPRETID_GATEWAYSDATA, TokenSample.blob)]⟩ := by
  refine (tokenOpRet_roundTrip (by norm_num) (by simp) ?_ ?_ [] [] []).1.2
    ⟨TokenSample.not_passesForOld, ?_, by decide⟩
  · intro pk hpk
    obtain rfl := mem_singleton.1 hpk
    exact (rfl : CPubKey.getLen 3 = 33)
  · intro p hp
    obtain rfl := mem_singleton.1 hp
    decide
  · intro p hp
    obtain rfl := mem_singleton.1 hp
    decide

/-- The same blob under the id of assets data is read as rogue data of 18 bytes. -/
theorem blob_read_as_rogue :
    decodeTokenOpRet (encodeTokenOpRet 7 [] [(OPRETID_ASSETSDATA, TokenSample.blob)]) =
      some ⟨fid 't', EVAL_TOKENS, 7, [], [(OPRETID_ROGUEGAMEDATA, 17 :: TokenSample.blob)]⟩ ∧
    decodeTokenOpRet (encodeTokenOpRet 7 [] [(OPRETID_ASSETSDATA, TokenSample.blob)]) ≠
      some ⟨fid 't', EVAL_TOKENS, 7, [], [(OPRETID_ASSETSDATA, TokenSample.blob)]⟩ := by
  decide

end Komodo
