/-
# An import taken apart again

`MakeImportCoinTransaction` and `UnmarshalImportTx` of `src/src/importcoin.cpp`, with the bytes that
`Komodo.CC.ImportCoin` leaves open, and `CreateNewContextualCMutableTransaction` of
`src/src/main.cpp`.

The import data of coins are an output of their own behind the payouts.  Those of tokens are spliced
into the creation opreturn, the last payout, as one more blob (`putImportData`), and cut out of it
again (`takeImportData`).  Of an opreturn that is too long only a beginning is read, which is a
beginning of its blobs (`opretBlobsLoop_take`); an import whose opreturn is cut is not taken apart.
-/

import Komodo.CC.ImportBytes

namespace Komodo

open Streams List

/-! ### A creation opreturn that is cut short -/

namespace Unserialize

theorem extensible_vector : Extensible vector := codec_vector.extensible

/-- A size that is too large is not read. -/
theorem compactSize_large {n : ℕ} (h : maxSize < n) (s : Bytes) :
    compactSize (compactSizeBytes n ++ s) = none := by
  have hmax : maxSize = 0x02000000 := rfl
  have hwide : ∀ (b : UInt8) (k low : ℕ), sizeTail b.toNat = uintFrom k low →
      (∀ p, uintFrom k low (leBytes k n ++ s) = some p → maxSize < p.1) →
      compactSize (b :: leBytes k n ++ s) = none := by
    intro b k low htail hlarge
    rw [cons_append, compactSize_cons, htail]
    exact Option.bind_eq_none_iff.2 fun p hp => if_neg (Nat.not_le.2 (hlarge p hp))
  unfold compactSizeBytes
  rw [if_neg (by omega), if_neg (by omega)]
  split_ifs with hfour
  · refine hwide 254 4 0x10000 rfl fun p hp => ?_
    rw [uintFrom_leBytes (by omega) (by omega)] at hp
    cases hp
    exact h
  · refine hwide 255 8 0x100000000 rfl fun p hp => ?_
    have hlow := (uintFrom_exact hp).2.1
    omega

theorem vector_vectorBytes (v s : Bytes) :
    vector (vectorBytes v ++ s) = if v.length ≤ maxSize then some (v, s) else none := by
  split_ifs with h
  · exact reads_vector h s
  · rw [vectorBytes, append_assoc, vector, bind_apply, compactSize_large (Nat.not_le.1 h)]
    rfl

theorem vector_take {v w t s : Bytes} {k : ℕ}
    (h : vector ((vectorBytes v ++ t).take k) = some (w, s)) :
    w = v ∧ v.length ≤ maxSize ∧ (vectorBytes v).length ≤ k ∧
      s = t.take (k - (vectorBytes v).length) := by
  have hwhole := extensible_vector _ _ _ h ((vectorBytes v ++ t).drop k)
  rw [take_append_drop, vector_vectorBytes] at hwhole
  split_ifs at hwhole with hfits
  obtain ⟨rfl, -⟩ := Prod.mk.inj (Option.some.inj hwhole)
  obtain ⟨hbytes, -⟩ := vector_exact h
  have hlen := congrArg length hbytes
  rw [length_take, length_append, length_append] at hlen
  have hk : (vectorBytes v).length ≤ k := by omega
  rw [take_append, take_of_length_le hk] at hbytes
  exact ⟨rfl, hfits, hk, (append_cancel_left hbytes).symm⟩

end Unserialize

/-- From a beginning of some blobs, a beginning of them is read. -/
theorem opretBlobsLoop_take {oprets found : Oprets} (hids : ∀ p ∈ oprets, p.1 ≠ 0) {fuel k : ℕ}
    (h : opretBlobsLoop fuel ((opretBlobsBytes oprets).take k) = some (found, [])) :
    found <+: oprets := by
  induction oprets generalizing fuel k found with
  | nil =>
    rw [opretBlobsBytes, take_nil, opretBlobsLoop_nil] at h
    cases h
    exact prefix_rfl
  | cons p oprets ih =>
    obtain ⟨id, blob⟩ := p
    obtain ⟨hid, hrests⟩ := forall_mem_cons.1 hids
    cases fuel with
    | zero =>
      obtain ⟨rfl, -⟩ := Prod.mk.inj (Option.some.inj h)
      exact nil_prefix
    | succ fuel =>
      cases k with
      | zero =>
        rw [take_zero, opretBlobsLoop_nil] at h
        cases h
        exact nil_prefix
      | succ k =>
        rw [opretBlobsBytes, if_pos hid, cons_append, take_succ_cons, opretBlobsLoop_cons] at h
        split_ifs at h with hend
        · cases h
          exact nil_prefix
        · obtain ⟨⟨v, s⟩, hvector, hmap⟩ := Option.bind_eq_some_iff.1 h
          obtain ⟨⟨rest, s'⟩, hrest, heq⟩ := Option.map_eq_some_iff.1 hmap
          obtain ⟨rfl, rfl⟩ := Prod.mk.inj heq
          obtain ⟨rfl, -, -, rfl⟩ := Unserialize.vector_take hvector
          exact cons_prefix_cons.2 ⟨rfl, ih hrests hrest⟩

/-- The blobs with an id; the others are not written. -/
def writtenBlobs (oprets : Oprets) : Oprets := oprets.filter fun p => p.1 ≠ 0

theorem opretBlobsBytes_writtenBlobs (oprets : Oprets) :
    opretBlobsBytes (writtenBlobs oprets) = opretBlobsBytes oprets := by
  induction oprets with
  | nil => rfl
  | cons p oprets ih =>
    rw [writtenBlobs] at ih ⊢
    by_cases hid : p.1 = 0
    · rw [filter_cons_of_neg (by simpa using hid), ih, opretBlobsBytes, if_neg (by simpa using hid)]
    · rw [filter_cons_of_pos (by simpa using hid), opretBlobsBytes, if_pos hid, ih,
        opretBlobsBytes, if_pos hid]

theorem opretBlobsBytes_append (oprets oprets' : Oprets) :
    opretBlobsBytes (oprets ++ oprets') = opretBlobsBytes oprets ++ opretBlobsBytes oprets' := by
  induction oprets with
  | nil => rfl
  | cons p oprets ih =>
    rw [cons_append, opretBlobsBytes, opretBlobsBytes, ih]
    split_ifs
    · rw [cons_append, append_assoc]
      rfl
    · rfl

theorem decodeTokenCreateOpRet_funcid {script : CScript} {c : TokenCreateOpRet}
    (h : decodeTokenCreateOpRet script = some c) : c.funcid = fid 'c' := by
  rw [decodeTokenCreateOpRet] at h
  split_ifs at h with hhead
  obtain ⟨hlen, -, hkind⟩ := hhead
  have hread := Unserialize.unmarshal_eq_some.1 h
  rcases hdata : getOpReturnData script with _ | ⟨x, _ | ⟨y, rest⟩⟩
  · rw [hdata] at hlen
    simp at hlen
  · rw [hdata] at hlen
    simp at hlen
  · rw [hdata] at hread hkind
    rw [bind_apply, Unserialize.uint8_cons] at hread
    simp only [Option.bind_some] at hread
    rw [bind_apply, Unserialize.uint8_cons] at hread
    simp only [Option.bind_some, bind_apply, Option.bind_eq_some_iff, pure_apply, Option.some.injEq,
      Prod.mk.injEq] at hread
    obtain ⟨-, -, -, -, -, -, -, -, rfl, -⟩ := hread
    exact Option.some.inj hkind

section creation
variable {origpubkey name description : Bytes} {oprets : Oprets}

/-- What is decoded from a beginning of the payload of a creation: its fields, and a beginning of
its blobs that is no longer than what there is. -/
theorem decodeTokenCreateOpRet_take (hids : ∀ p ∈ oprets, p.1 ≠ 0) {script : CScript} {k : ℕ}
    (hscript : getOpReturnData script =
      (tokenCreatePayload origpubkey name description oprets).take k) {c : TokenCreateOpRet}
    (h : decodeTokenCreateOpRet script = some c) :
    ∃ found, c = ⟨fid 'c', origpubkey, name, description, found⟩ ∧ found <+: oprets ∧
      (∀ v ∈ [origpubkey, name, description], v.length ≤ Unserialize.maxSize) ∧ BlobsFit found ∧
      (tokenCreatePayload origpubkey name description found).length ≤ k := by
  have hpayload : tokenCreatePayload origpubkey name description oprets =
      EVAL_TOKENS :: fid 'c' :: (vectorBytes origpubkey ++ (vectorBytes name ++
        (vectorBytes description ++ opretBlobsBytes oprets))) := by
    rw [tokenCreatePayload]
    simp only [append_assoc]
    rfl
  rw [hpayload] at hscript
  rcases k with _ | _ | k
  · rw [decodeTokenCreateOpRet, hscript] at h
    simp at h
  · rw [decodeTokenCreateOpRet, hscript] at h
    simp at h
  · have hfunc := decodeTokenCreateOpRet_funcid h
    obtain ⟨funcid, o, n, d, found⟩ := c
    obtain rfl : funcid = fid 'c' := hfunc
    obtain ⟨s₁, s₂, s₃, ho, hn, hd, hblobs⟩ := (decodeTokenCreateOpRet_eq_some hscript).1 h
    obtain ⟨rfl, hlo, hk₁, rfl⟩ := Unserialize.vector_take ho
    obtain ⟨rfl, hln, hk₂, rfl⟩ := Unserialize.vector_take hn
    obtain ⟨rfl, hld, hk₃, rfl⟩ := Unserialize.vector_take hd
    obtain ⟨hlen, hfit⟩ := opretBlobsLoop_exact hblobs
    refine ⟨found, rfl, opretBlobsLoop_take hids hblobs, ?_, hfit, ?_⟩
    · simp only [forall_mem_cons, not_mem_nil, false_imp_iff, implies_true, and_true]
      exact ⟨hlo, hln, hld⟩
    · rw [length_take] at hlen
      rw [tokenCreatePayload]
      simp only [length_append, length_cons, length_nil]
      omega

end creation

/-! ### Import data among the payouts -/

/-- The outputs that `MakeImportCoinTransaction` makes of the payouts: the import data become a blob
of the creation opreturn in the last of them, or an output of their own. -/
def putImportData (importData : Bytes) (vout : List CTxOut) : List CTxOut :=
  let opret := vout.getLast?.elim [] CTxOut.scriptPubKey
  if getOpReturnData opret ≠ [] then
    match decodeTokenCreateOpRet opret with
    | some c => vout.dropLast ++ [⟨0, encodeTokenCreateOpRet c.origpubkey c.name c.description
        (c.oprets ++ [(OPRETID_IMPORTDATA, importData)])⟩]
    | none => vout
  else vout ++ [⟨0, opReturnScript importData⟩]

/-- `vImportData` and `payouts` of `UnmarshalImportTx`. -/
def takeImportData (vout : List CTxOut) : Option (Bytes × List CTxOut) :=
  let opret := vout.getLast?.elim [] CTxOut.scriptPubKey
  if (getOpReturnData opret).head? = some EVAL_TOKENS then
    (decodeTokenCreateOpRet opret).map fun c =>
      (getOpretBlob c.oprets OPRETID_IMPORTDATA, vout.dropLast ++
        [⟨0, encodeTokenCreateOpRet c.origpubkey c.name c.description
          (c.oprets.eraseP fun p => p.1 = OPRETID_IMPORTDATA)⟩])
  else if getOpReturnData opret = [] then none
  else some (getOpReturnData opret, vout.dropLast)

namespace ImportEnv

variable (env : ImportEnv)

end ImportEnv

/-- An output that is not an `OP_RETURN` has no data. -/
theorem getOpReturnData_of_head_ne {s : CScript} (h : s.head? ≠ some OP_RETURN) :
    getOpReturnData s = [] := by
  rw [getOpReturnData]
  cases s with
  | nil => rfl
  | cons opcode pc =>
    have hop : opcode ≠ OP_RETURN := fun heq => h (congrArg some heq)
    rw [getOp]
    split_ifs with hpush
    · cases hsize : pushSize opcode pc with
      | none => rfl
      | some p =>
        cases hsplit : splitBytes p.1 p.2 with
        | none => simp [hsplit]
        | some q => simp [hsplit, hop]
    · simp [hop]

section put
variable {importData : Bytes} {payouts : List CTxOut}

theorem putImportData_coins {out : CTxOut} (hout : getOpReturnData out.scriptPubKey = []) :
    putImportData importData (payouts ++ [out]) =
      payouts ++ [out] ++ [⟨0, opReturnScript importData⟩] := by
  simp only [putImportData, getLast?_concat, Option.elim_some, hout, ne_eq, not_true_eq_false,
    if_false]

theorem takeImportData_coins (hhead : importData.head? = some EVAL_IMPORTCOIN) :
    takeImportData (payouts ++ [⟨0, opReturnScript importData⟩]) =
      if importData.length % 2 ^ 32 = 0 then none
      else some (importData.take (importData.length % 2 ^ 32), payouts) := by
  obtain ⟨data, rfl⟩ := head?_eq_some_iff.1 hhead
  simp only [takeImportData, getLast?_concat, Option.elim_some, getOpReturnData_opReturnScript,
    dropLast_concat]
  cases (EVAL_IMPORTCOIN :: data).length % 2 ^ 32 with
  | zero => rfl
  | succ k =>
    have hkind : some EVAL_IMPORTCOIN ≠ some EVAL_TOKENS := by decide
    rw [take_succ_cons, head?_cons, if_neg hkind, if_neg (cons_ne_nil _ _),
      if_neg (Nat.succ_ne_zero k)]

end put

/-- The sizes that a creation opreturn is read back with. -/
def CreationFits (origpubkey name description : Bytes) (oprets : Oprets) : Prop :=
  (∀ v ∈ [origpubkey, name, description], v.length ≤ Unserialize.maxSize) ∧
    BlobsFit (writtenBlobs oprets) ∧
    (tokenCreatePayload origpubkey name description oprets).length < 2 ^ 32

section tokens
variable {importData : Bytes} {payouts : List CTxOut} {origpubkey name description : Bytes}
  {oprets : Oprets}

theorem length_pushData (b : Bytes) :
    b.length < (pushData b).length ∧ (pushData b).length ≤ b.length + 5 := by
  unfold pushData
  dsimp only
  split_ifs <;> simp only [length_cons, length_append, length_map, length_range]
    <;> omega

theorem mem_writtenBlobs {p : UInt8 × Bytes} (h : p ∈ writtenBlobs oprets) :
    p.1 ≠ 0 ∧ p ∈ oprets := by
  have hp := mem_filter.1 h
  exact ⟨by simpa using hp.2, hp.1⟩

theorem tokenCreatePayload_append (oprets' : Oprets) :
    tokenCreatePayload origpubkey name description (oprets ++ oprets') =
      tokenCreatePayload origpubkey name description oprets ++ opretBlobsBytes oprets' := by
  simp only [tokenCreatePayload, opretBlobsBytes_append, append_assoc]

theorem getOpretBlob_append (h : ∀ p ∈ oprets, p.1 ≠ OPRETID_IMPORTDATA) :
    getOpretBlob (oprets ++ [(OPRETID_IMPORTDATA, importData)]) OPRETID_IMPORTDATA = importData ∧
      ((oprets ++ [(OPRETID_IMPORTDATA, importData)]).eraseP fun p => p.1 = OPRETID_IMPORTDATA) =
        oprets := by
  constructor
  · have hnone : (oprets.find? fun p => p.1 == OPRETID_IMPORTDATA) = none :=
      find?_eq_none.2 fun p hp => by simpa using h p hp
    rw [getOpretBlob, find?_append, hnone]
    rfl
  · rw [eraseP_append_right _ fun p hp => by simpa using h p hp]
    simp

theorem getOpretBlob_eq_nil (h : ∀ p ∈ oprets, p.1 ≠ OPRETID_IMPORTDATA) :
    getOpretBlob oprets OPRETID_IMPORTDATA = [] := by
  have hnone : (oprets.find? fun p => p.1 == OPRETID_IMPORTDATA) = none :=
    find?_eq_none.2 fun p hp => by simpa using h p hp
  rw [getOpretBlob, hnone]
  rfl

theorem prefix_importData {found : Oprets} (h : ∀ p ∈ oprets, p.1 ≠ OPRETID_IMPORTDATA)
    (hfound : found <+: oprets ++ [(OPRETID_IMPORTDATA, importData)])
    (hdata : getOpretBlob found OPRETID_IMPORTDATA ≠ []) :
    found = oprets ++ [(OPRETID_IMPORTDATA, importData)] := by
  rcases prefix_concat_iff.1 hfound with heq | hshort
  · exact heq
  · exact absurd (getOpretBlob_eq_nil fun p hp => h p (hshort.subset hp)) hdata

theorem takeImportData_tokens {script : CScript} {payload : Bytes} {k : ℕ}
    (hscript : getOpReturnData script = (EVAL_TOKENS :: payload).take k) (hk : k ≠ 0) :
    takeImportData (payouts ++ [⟨0, script⟩]) = (decodeTokenCreateOpRet script).map fun c =>
      (getOpretBlob c.oprets OPRETID_IMPORTDATA, payouts ++
        [⟨0, encodeTokenCreateOpRet c.origpubkey c.name c.description
          (c.oprets.eraseP fun p => p.1 = OPRETID_IMPORTDATA)⟩]) := by
  obtain ⟨k, rfl⟩ := Nat.exists_eq_succ_of_ne_zero hk
  simp only [takeImportData, getLast?_concat, Option.elim_some, dropLast_concat, hscript,
    take_succ_cons, head?_cons, if_true]

theorem takeImportData_of_nil {script : CScript} (hscript : getOpReturnData script = []) :
    takeImportData (payouts ++ [⟨0, script⟩]) = none := by
  simp only [takeImportData, getLast?_concat, Option.elim_some, hscript, head?_nil,
    reduceCtorEq, if_false, if_true]

theorem writtenBlobs_eq_self (hids : ∀ p ∈ oprets, p.1 ≠ 0) : writtenBlobs oprets = oprets :=
  filter_eq_self.2 fun p hp => by simpa using hids p hp

theorem decode_of_creationFits (hids : ∀ p ∈ oprets, p.1 ≠ 0)
    (h : CreationFits origpubkey name description oprets) :
    decodeTokenCreateOpRet (encodeTokenCreateOpRet origpubkey name description oprets) =
      some ⟨fid 'c', origpubkey, name, description, oprets⟩ := by
  obtain ⟨hsizes, hblobs, hlen⟩ := h
  rw [writtenBlobs_eq_self hids] at hblobs
  exact (decode_encodeTokenCreateOpRet origpubkey name description hids).2 ⟨hsizes, hblobs, hlen⟩

theorem encode_writtenBlobs :
    encodeTokenCreateOpRet origpubkey name description (writtenBlobs oprets) =
      encodeTokenCreateOpRet origpubkey name description oprets := by
  rw [encodeTokenCreateOpRet, tokenCreatePayload, opretBlobsBytes_writtenBlobs]
  rfl

theorem creationFits_writtenBlobs {oprets' : Oprets} :
    CreationFits origpubkey name description (writtenBlobs oprets ++ oprets') ↔
      CreationFits origpubkey name description (oprets ++ oprets') := by
  have hblobs :
      writtenBlobs (writtenBlobs oprets ++ oprets') = writtenBlobs (oprets ++ oprets') := by
    simp only [writtenBlobs, filter_append, filter_filter, Bool.and_self]
  rw [CreationFits, CreationFits, hblobs, tokenCreatePayload_append, tokenCreatePayload_append,
    tokenCreatePayload, opretBlobsBytes_writtenBlobs]
  rfl

theorem CreationFits.of_append {oprets' : Oprets}
    (h : CreationFits origpubkey name description (oprets ++ oprets')) :
    CreationFits origpubkey name description oprets := by
  obtain ⟨hsizes, hblobs, hlen⟩ := h
  rw [tokenCreatePayload_append, length_append] at hlen
  rw [writtenBlobs, filter_append] at hblobs
  exact ⟨hsizes, fun p hp => hblobs p (mem_append_left _ hp), by omega⟩

/-- A beginning of the blobs that is encoded like all of them is all of them. -/
theorem eq_of_encode_eq {found : Oprets} (hids : ∀ p ∈ oprets, p.1 ≠ 0) (hfound : found <+: oprets)
    (heq : encodeTokenCreateOpRet origpubkey name description found =
      encodeTokenCreateOpRet origpubkey name description oprets)
    (hlen : (tokenCreatePayload origpubkey name description found).length < 2 ^ 32)
    (hcut : (tokenCreatePayload origpubkey name description found).length ≤
      (tokenCreatePayload origpubkey name description oprets).length % 2 ^ 32) :
    found = oprets := by
  obtain ⟨rest, rfl⟩ := hfound
  -- a payload of 2^32 bytes or more has a longer script
  have hscript := congrArg length heq
  simp only [encodeTokenCreateOpRet, opReturnScript, length_cons] at hscript
  have hleft := length_pushData (tokenCreatePayload origpubkey name description found)
  have hright := length_pushData (tokenCreatePayload origpubkey name description (found ++ rest))
  have hdata := congrArg getOpReturnData heq
  simp only [encodeTokenCreateOpRet, getOpReturnData_opReturnScript] at hdata
  rw [Nat.mod_eq_of_lt hlen, take_length] at hdata
  have hpayload := congrArg length hdata
  rw [length_take] at hpayload
  rw [tokenCreatePayload_append] at hscript hcut hright hpayload
  rw [length_append] at hcut hright hpayload
  have hnil : (opretBlobsBytes rest).length = 0 := by omega
  have hcount := length_le_opretBlobsBytes fun p hp => hids p (mem_append_right found hp)
  rw [hnil, Nat.le_zero, length_eq_zero_iff] at hcount
  rw [hcount, append_nil]

theorem importBlob_ids (hids : ∀ p ∈ oprets, p.1 ≠ 0) :
    ∀ p ∈ oprets ++ [(OPRETID_IMPORTDATA, importData)], p.1 ≠ 0 := by
  intro p hp
  rcases mem_append.1 hp with hp | hp
  · exact hids p hp
  · rw [mem_singleton.1 hp]
    exact (by decide : OPRETID_IMPORTDATA ≠ 0)

theorem putImportData_tokens {script : CScript} (hscript : getOpReturnData script ≠ []) :
    putImportData importData (payouts ++ [⟨0, script⟩]) =
      match decodeTokenCreateOpRet script with
      | some c => payouts ++ [⟨0, encodeTokenCreateOpRet c.origpubkey c.name c.description
          (c.oprets ++ [(OPRETID_IMPORTDATA, importData)])⟩]
      | none => payouts ++ [⟨0, script⟩] := by
  simp only [putImportData, getLast?_concat, Option.elim_some, dropLast_concat, hscript,
    ne_eq, not_false_eq_true, if_true]

/-- Import data are cut out of a creation opreturn only whole, from behind all the other blobs. -/
theorem takeImportData_spliced (hids : ∀ p ∈ oprets, p.1 ≠ 0)
    (hkinds : ∀ p ∈ oprets, p.1 ≠ OPRETID_IMPORTDATA) {blob : Bytes} (hblob : blob ≠ [])
    {outs : List CTxOut} :
    takeImportData (payouts ++ [⟨0, encodeTokenCreateOpRet origpubkey name description
        (oprets ++ [(OPRETID_IMPORTDATA, importData)])⟩]) = some (blob, outs) ↔
      (blob = importData ∧
        outs = payouts ++ [⟨0, encodeTokenCreateOpRet origpubkey name description oprets⟩]) ∧
      CreationFits origpubkey name description (oprets ++ [(OPRETID_IMPORTDATA, importData)]) := by
  have hids' : ∀ p ∈ oprets ++ [(OPRETID_IMPORTDATA, importData)], p.1 ≠ 0 := importBlob_ids hids
  have hread := getOpReturnData_opReturnScript (tokenCreatePayload origpubkey name description
    (oprets ++ [(OPRETID_IMPORTDATA, importData)]))
  rw [← encodeTokenCreateOpRet] at hread
  constructor
  · intro h
    have hk : (tokenCreatePayload origpubkey name description
        (oprets ++ [(OPRETID_IMPORTDATA, importData)])).length % 2 ^ 32 ≠ 0 := by
      intro hzero
      rw [hzero, take_zero] at hread
      rw [takeImportData_of_nil hread] at h
      cases h
    rw [takeImportData_tokens hread hk] at h
    obtain ⟨c, hc, heq⟩ := Option.map_eq_some_iff.1 h
    obtain ⟨found, rfl, hfront, hsizes, hfit, hcut⟩ := decodeTokenCreateOpRet_take hids' hread hc
    obtain ⟨hfound, houts⟩ := Prod.mk.inj heq
    simp only at hfound houts
    obtain rfl := prefix_importData hkinds hfront (by rw [hfound]; exact hblob)
    rw [(getOpretBlob_append hkinds).1] at hfound
    rw [(getOpretBlob_append hkinds).2] at houts
    exact ⟨⟨hfound.symm, houts.symm⟩, hsizes, by rwa [writtenBlobs_eq_self hids'],
      hcut.trans_lt (Nat.mod_lt _ (by decide))⟩
  · rintro ⟨⟨rfl, rfl⟩, hfits⟩
    have hk : (tokenCreatePayload origpubkey name description
        (oprets ++ [(OPRETID_IMPORTDATA, blob)])).length % 2 ^ 32 ≠ 0 := by
      rw [Nat.mod_eq_of_lt hfits.2.2, tokenCreatePayload]
      simp
    rw [takeImportData_tokens hread hk, decode_of_creationFits hids' hfits, Option.map_some]
    simp only [(getOpretBlob_append hkinds).1, (getOpretBlob_append hkinds).2]

/-- **Import data that are spliced into a creation opreturn are cut out of it again, and the payouts
are left, exactly when the fields and the blobs of the opreturn and the import data fit.** -/
theorem takeImportData_putImportData (hids : ∀ p ∈ oprets, p.1 ≠ 0)
    (hkinds : ∀ p ∈ oprets, p.1 ≠ OPRETID_IMPORTDATA)
    (hdata : getOpReturnData (encodeTokenCreateOpRet origpubkey name description oprets) ≠ [])
    {blob : Bytes} (hblob : blob ≠ []) :
    takeImportData (putImportData importData
        (payouts ++ [⟨0, encodeTokenCreateOpRet origpubkey name description oprets⟩])) =
      some (blob, payouts ++ [⟨0, encodeTokenCreateOpRet origpubkey name description oprets⟩]) ↔
      blob = importData ∧ CreationFits origpubkey name description
        (oprets ++ [(OPRETID_IMPORTDATA, importData)]) := by
  rw [putImportData_tokens hdata]
  constructor
  · intro h
    have hread := getOpReturnData_opReturnScript
      (tokenCreatePayload origpubkey name description oprets)
    rw [← encodeTokenCreateOpRet] at hread
    cases hdecode : decodeTokenCreateOpRet
        (encodeTokenCreateOpRet origpubkey name description oprets) with
    | none =>
      -- the payouts have stayed as they were, and are not decoded the second time either
      rw [hdecode] at h
      simp only at h
      have hk : (tokenCreatePayload origpubkey name description oprets).length % 2 ^ 32 ≠ 0 := by
        intro hzero
        rw [hzero, take_zero] at hread
        exact hdata hread
      rw [takeImportData_tokens hread hk, hdecode] at h
      cases h
    | some c =>
      -- a beginning of the blobs has been decoded; encoded alone it has to be the payout
      obtain ⟨found, rfl, hfront, -, -, hcut⟩ := decodeTokenCreateOpRet_take hids hread hdecode
      rw [hdecode] at h
      simp only at h
      rw [takeImportData_spliced (fun p hp => hids p (hfront.subset hp))
        (fun p hp => hkinds p (hfront.subset hp)) hblob] at h
      obtain ⟨⟨hfound, houts⟩, hfits⟩ := h
      have hencode := (CTxOut.mk.inj (cons.inj (append_cancel_left houts)).1).2
      obtain rfl := eq_of_encode_eq hids hfront hencode.symm hfits.of_append.2.2 hcut
      exact ⟨hfound, hfits⟩
  · rintro ⟨rfl, hfits⟩
    rw [decode_of_creationFits hids hfits.of_append]
    simp only
    exact (takeImportData_spliced hids hkinds hblob).2 ⟨⟨rfl, rfl⟩, hfits⟩

end tokens

/-! ### The import transaction -/

namespace Wire

open CMutableTransaction

/-- What `CreateNewContextualCMutableTransaction` asks of the node: whether it is a superlite one,
which upgrades are active at the next height, and when Sapling becomes so. -/
structure NextBlock where
  superlite : Bool
  overwinter : Bool
  sapling : Bool
  nHeight : ℕ
  expiryDelta : ℕ
  saplingActivationHeight : ℤ

def createNewContextualCMutableTransaction (next : NextBlock) : CMutableTransaction :=
  if next.superlite then
    { fOverwintered := true
      nExpiryHeight := 0
      nVersionGroupId := SAPLING_VERSION_GROUP_ID
      nVersion := 4 }
  else if next.overwinter then
    let nExpiryHeight := (next.nHeight + next.expiryDelta) % 2 ^ 32
    if next.sapling then
      { fOverwintered := true
        nExpiryHeight := nExpiryHeight
        nVersionGroupId := SAPLING_VERSION_GROUP_ID
        nVersion := 4 }
    else
      { fOverwintered := true
        nVersionGroupId := OVERWINTER_VERSION_GROUP_ID
        nVersion := 3
        nExpiryHeight :=
          min nExpiryHeight ((next.saplingActivationHeight - 1) % 2 ^ 32).toNat }
  else {}

/-- The transaction of `MakeImportCoinTransaction` before its outputs. -/
def newImportTransaction (next : NextBlock) (burnTx : CTransaction) (nExpiryHeightOverride : ℕ) :
    CMutableTransaction :=
  let mtx := createNewContextualCMutableTransaction next
  let mtx := if mtx.fOverwintered then { mtx with nExpiryHeight := 0 } else mtx
  let mtx := { mtx with
    vin := mtx.vin ++ [⟨⟨burnTx.hash, importPrevoutN⟩, importScriptSig, 0xffffffff⟩] }
  if nExpiryHeightOverride ≠ 0 then { mtx with nExpiryHeight := nExpiryHeightOverride } else mtx

section roundTrip
variable (sha256d : Bytes → Uint256)

/-- `MakeImportCoinTransaction`; `none` when the burn transaction cannot be written. -/
def makeImportCoinTransaction (next : NextBlock) (proof : ImportProof) (burnTx : CTransaction)
    (payouts : List CTxOut) (nExpiryHeightOverride : ℕ) : Option CTransaction :=
  if payouts = [] then
    let mtx := createNewContextualCMutableTransaction next
    CTransaction.ofMutable sha256d
      (if mtx.fOverwintered then { mtx with nExpiryHeight := 0 } else mtx)
  else do
    let importData ← marshalImportData proof burnTx
    CTransaction.ofMutable sha256d { newImportTransaction next burnTx nExpiryHeightOverride with
      vout := putImportData importData payouts }

/-- `UnmarshalImportTx`, into the object `burnTx`. -/
def unmarshalImportTx (burnTx importTx : CTransaction) :
    Option (ImportProof × CTransaction × List CTxOut) :=
  if importTx.vin.map CTxIn.scriptSig = [importScriptSig] then
    (takeImportData importTx.vout).bind fun (vImportData, payouts) =>
      (unmarshalImportData sha256d burnTx vImportData).map fun (proof, burnTx) =>
        (proof, burnTx, payouts)
  else none

/-- `UnmarshalImportTx`, into the object `into`, gives back what `MakeImportCoinTransaction` put into
the transaction. -/
def RoundTrip (next : NextBlock) (into : CTransaction) (proof : ImportProof)
    (burnTx : CTransaction) (payouts : List CTxOut) (nExpiryHeightOverride : ℕ) : Prop :=
  ∃ importTx,
    makeImportCoinTransaction sha256d next proof burnTx payouts nExpiryHeightOverride =
      some importTx ∧
    unmarshalImportTx sha256d into importTx = some (proof, burnTx, payouts)

variable {sha256d} {next : NextBlock} {into burnTx : CTransaction} {proof : ImportProof}
  {payouts : List CTxOut} {nExpiryHeightOverride : ℕ}

/-- A transaction without JoinSplits whose format is known can be written. -/
theorem exists_ofMutable (sha256d : Bytes → Uint256) {m : CMutableTransaction}
    (hformat : ¬ unknownFormat m.fOverwintered m.nVersionGroupId m.nVersion)
    (hjoinsplits : m.vjoinsplit = []) :
    ∃ tx, CTransaction.ofMutable sha256d m = some tx ∧ tx.vin = m.vin ∧ tx.vout = m.vout := by
  have hbytes : m.joinSplitBytes = some [] := by
    rw [joinSplitBytes, hjoinsplits]
    split_ifs <;> rfl
  obtain ⟨bytes, hserialize⟩ : ∃ bytes, m.serialize = some bytes := by
    rw [serialize, hbytes]
    simp only [guard, hformat]
    exact ⟨_, rfl⟩
  refine ⟨⟨m, sha256d bytes⟩, ?_, rfl, rfl⟩
  show (m.serialize.bind fun bytes => some (⟨m, sha256d bytes⟩ : CTransaction)) = _
  rw [hserialize]
  rfl

theorem createNewContextualCMutableTransaction_format (next : NextBlock) :
    let mtx := createNewContextualCMutableTransaction next
    ¬ unknownFormat mtx.fOverwintered mtx.nVersionGroupId mtx.nVersion ∧ mtx.vjoinsplit = [] ∧
      mtx.vin = [] := by
  unfold createNewContextualCMutableTransaction
  split_ifs <;> exact ⟨by simp [unknownFormat, isOverwinterV3, isSaplingV4], rfl, rfl⟩

theorem newImportTransaction_eq (next : NextBlock) (burnTx : CTransaction)
    (nExpiryHeightOverride : ℕ) : ∃ nExpiryHeight,
    newImportTransaction next burnTx nExpiryHeightOverride =
      { createNewContextualCMutableTransaction next with
        vin := (createNewContextualCMutableTransaction next).vin ++
          [⟨⟨burnTx.hash, importPrevoutN⟩, importScriptSig, 0xffffffff⟩]
        nExpiryHeight := nExpiryHeight } := by
  unfold newImportTransaction
  dsimp only
  split_ifs <;> exact ⟨_, rfl⟩

/-- The import is taken apart as its outputs are. -/
theorem roundTrip_iff (hpayouts : payouts ≠ []) :
    RoundTrip sha256d next into proof burnTx payouts nExpiryHeightOverride ↔
      ∃ importData, marshalImportData proof burnTx = some importData ∧
        ∃ vImportData, takeImportData (putImportData importData payouts) =
            some (vImportData, payouts) ∧
          unmarshalImportData sha256d into vImportData = some (proof, burnTx) := by
  have hmake : ∀ importData, marshalImportData proof burnTx = some importData →
      ∃ importTx,
        makeImportCoinTransaction sha256d next proof burnTx payouts nExpiryHeightOverride =
          some importTx ∧
        importTx.vin.map CTxIn.scriptSig = [importScriptSig] ∧
        importTx.vout = putImportData importData payouts := by
    intro importData hdata
    obtain ⟨hformat, hjoinsplits, hvin⟩ := createNewContextualCMutableTransaction_format next
    obtain ⟨nExpiryHeight, hnew⟩ := newImportTransaction_eq next burnTx nExpiryHeightOverride
    rw [makeImportCoinTransaction, if_neg hpayouts, hdata, hnew, hvin]
    obtain ⟨importTx, htx, hin, hout⟩ := exists_ofMutable sha256d
      (m := { createNewContextualCMutableTransaction next with
        vin := [] ++ [⟨⟨burnTx.hash, importPrevoutN⟩, importScriptSig, 0xffffffff⟩]
        nExpiryHeight := nExpiryHeight
        vout := putImportData importData payouts }) hformat hjoinsplits
    exact ⟨importTx, htx, by rw [hin]; rfl, hout⟩
  constructor
  · rintro ⟨importTx, htx, hparts⟩
    have hwritten : ∃ importData, marshalImportData proof burnTx = some importData := by
      rw [makeImportCoinTransaction, if_neg hpayouts] at htx
      obtain ⟨importData, hdata, -⟩ := Option.bind_eq_some_iff.1 htx
      exact ⟨importData, hdata⟩
    obtain ⟨importData, hdata⟩ := hwritten
    obtain ⟨importTx', htx', hin, hout⟩ := hmake importData hdata
    obtain rfl := Option.some.inj (htx.symm.trans htx')
    rw [unmarshalImportTx, if_pos hin, hout] at hparts
    obtain ⟨⟨vImportData, outs⟩, htake, hmap⟩ := Option.bind_eq_some_iff.1 hparts
    obtain ⟨⟨p, tx⟩, hread, heq⟩ := Option.map_eq_some_iff.1 hmap
    obtain ⟨rfl, hrest⟩ := Prod.mk.inj heq
    obtain ⟨rfl, rfl⟩ := Prod.mk.inj hrest
    exact ⟨importData, hdata, vImportData, htake, hread⟩
  · rintro ⟨importData, hdata, vImportData, htake, hread⟩
    obtain ⟨importTx, htx, hin, hout⟩ := hmake importData hdata
    refine ⟨importTx, htx, ?_⟩
    rw [unmarshalImportTx, if_pos hin, hout, htake, Option.bind_some]
    simp only [hread, Option.map_some]

theorem marshalImportData_head {data : Bytes} (h : marshalImportData proof burnTx = some data) :
    data.head? = some EVAL_IMPORTCOIN := by
  obtain ⟨bytes, -, heq⟩ := Option.bind_eq_some_iff.1 h
  cases heq
  rfl

/-- The payouts of coins: no opreturn, or one without data. -/
theorem roundTrip_coins {out : CTxOut} (hout : getOpReturnData out.scriptPubKey = []) :
    RoundTrip sha256d next into proof burnTx (payouts ++ [out]) nExpiryHeightOverride ↔
      ImportFits sha256d into proof burnTx ∧ (importBytes proof burnTx).length < 2 ^ 32 := by
  rw [roundTrip_iff (by simp)]
  constructor
  · rintro ⟨data, hdata, v, htake, hread⟩
    rw [putImportData_coins hout, takeImportData_coins (marshalImportData_head hdata)] at htake
    split_ifs at htake with hzero
    cases htake
    obtain ⟨hfits, hlen⟩ := (unmarshalImportData_take hdata _).1 hread
    obtain rfl := Option.some.inj (hdata.symm.trans hfits.marshal)
    exact ⟨hfits, hlen.trans_lt (Nat.mod_lt _ (by decide))⟩
  · rintro ⟨hfits, hlen⟩
    refine ⟨_, hfits.marshal, importBytes proof burnTx, ?_, ?_⟩
    · rw [putImportData_coins hout, takeImportData_coins (marshalImportData_head hfits.marshal),
        Nat.mod_eq_of_lt hlen, take_length, if_neg (by rw [importBytes]; simp)]
    · have hread := (unmarshalImportData_take hfits.marshal _).2 ⟨hfits, le_rfl⟩
      rwa [take_length] at hread

/-- The payouts of tokens, with a creation opreturn that has data. -/
theorem roundTrip_tokens {origpubkey name description : Bytes} {oprets : Oprets}
    (hkinds : ∀ p ∈ oprets, p.1 ≠ OPRETID_IMPORTDATA)
    (hdata : getOpReturnData (encodeTokenCreateOpRet origpubkey name description oprets) ≠ []) :
    RoundTrip sha256d next into proof burnTx
        (payouts ++ [⟨0, encodeTokenCreateOpRet origpubkey name description oprets⟩])
        nExpiryHeightOverride ↔
      ImportFits sha256d into proof burnTx ∧ CreationFits origpubkey name description
        (oprets ++ [(OPRETID_IMPORTDATA, importBytes proof burnTx)]) := by
  have hids : ∀ p ∈ writtenBlobs oprets, p.1 ≠ 0 := fun p hp => (mem_writtenBlobs hp).1
  have hkinds' : ∀ p ∈ writtenBlobs oprets, p.1 ≠ OPRETID_IMPORTDATA := fun p hp =>
    hkinds p (mem_writtenBlobs hp).2
  rw [← encode_writtenBlobs] at hdata ⊢
  rw [← creationFits_writtenBlobs, roundTrip_iff (by simp)]
  constructor
  · rintro ⟨data, hmarshal, v, htake, hread⟩
    have hv : v ≠ [] := by
      rintro rfl
      cases hread
    obtain ⟨rfl, hfits⟩ := (takeImportData_putImportData hids hkinds' hdata hv).1 htake
    rw [← take_length (l := v)] at hread
    obtain ⟨himport, -⟩ := (unmarshalImportData_take hmarshal _).1 hread
    obtain rfl := Option.some.inj (hmarshal.symm.trans himport.marshal)
    exact ⟨himport, hfits⟩
  · rintro ⟨himport, hfits⟩
    refine ⟨_, himport.marshal, importBytes proof burnTx,
      (takeImportData_putImportData hids hkinds' hdata (cons_ne_nil _ _)).2 ⟨rfl, hfits⟩, ?_⟩
    have hread := (unmarshalImportData_take himport.marshal _).2 ⟨himport, le_rfl⟩
    rwa [take_length] at hread

/-- **Which imports are taken apart again.**  Payouts of coins, the last of which is no `OP_RETURN`
or one without data, come back with the proof and the burn transaction exactly when these fit and
the import data can be pushed; payouts of tokens, the last of which is a creation opreturn that has
no import data, exactly when its fields and blobs, with the import data among them, fit as well. -/
theorem import_roundTrip (sha256d : Bytes → Uint256) (next : NextBlock) (into : CTransaction)
    (proof : ImportProof) (burnTx : CTransaction) (payouts : List CTxOut)
    (nExpiryHeightOverride : ℕ) :
    (∀ out : CTxOut,
      out.scriptPubKey.head? ≠ some OP_RETURN ∨ getOpReturnData out.scriptPubKey = [] →
      (RoundTrip sha256d next into proof burnTx (payouts ++ [out]) nExpiryHeightOverride ↔
        ImportFits sha256d into proof burnTx ∧ (importBytes proof burnTx).length < 2 ^ 32)) ∧
    ∀ (origpubkey name description : Bytes) (oprets : Oprets),
      (∀ p ∈ oprets, p.1 ≠ OPRETID_IMPORTDATA) →
      getOpReturnData (encodeTokenCreateOpRet origpubkey name description oprets) ≠ [] →
      (RoundTrip sha256d next into proof burnTx
          (payouts ++ [⟨0, encodeTokenCreateOpRet origpubkey name description oprets⟩])
          nExpiryHeightOverride ↔
        ImportFits sha256d into proof burnTx ∧ CreationFits origpubkey name description
          (oprets ++ [(OPRETID_IMPORTDATA, importBytes proof burnTx)])) := by
  refine ⟨fun out hout => ?_, fun origpubkey name description oprets hkinds hdata => ?_⟩
  · have hnone : getOpReturnData out.scriptPubKey = [] := hout.elim getOpReturnData_of_head_ne id
    exact roundTrip_coins hnone
  · exact roundTrip_tokens hkinds hdata

end roundTrip

namespace RoundTripSample

/-- A block after Sapling. -/
def next : NextBlock := ⟨false, true, true, 1000, 200, 100⟩

/-- A burn of 20000. -/
def burn : CTransaction := CTransaction.hashed (fun _ => 7) { vout := [⟨20000, [OP_RETURN]⟩] }

/-- A proof by a branch, from the leaf with the index. -/
def byBranch (nIndex : ℤ) : ImportProof := .merkleBranch (5, ⟨nIndex, [6]⟩)

/-- Payouts of coins. -/
def coins : List CTxOut := [⟨9000, [0x51]⟩]

theorem importFits {nIndex : ℤ} (h : 0 ≤ nIndex ∧ nIndex < 2 ^ 31) :
    ImportFits (fun _ => 7) {} (byBranch nIndex) burn := by
  refine ⟨⟨by simp, h, by simp [Unserialize.maxSize], by simp⟩, ?_, rfl⟩
  exact {
    nVersion := by simp [burn, CTransaction.hashed]
    nVersionGroupId := rfl
    format := by decide
    vin := by simp [burn, CTransaction.hashed]
    vout := by simp [burn, CTransaction.hashed, CTxOut.Fits, IntRange, Unserialize.maxSize]
    nLockTime := by simp [burn, CTransaction.hashed]
    nExpiryHeight := rfl
    valueBalance := rfl
    vShieldedSpend := rfl
    vShieldedOutput := rfl
    vjoinsplit := rfl
    joinSplitPubKey := rfl
    joinSplitSig := rfl
    bindingSig := rfl }

end RoundTripSample

open RoundTripSample in
/-- Coins, and a token called `A`. -/
theorem import_roundTrip_coins_and_token :
    RoundTrip (fun _ => 7) next {} (byBranch 3) burn (coins ++ [⟨1000, [0x52]⟩]) 0 ∧
      RoundTrip (fun _ => 7) next {} (byBranch 3) burn
        (coins ++ [⟨0, encodeTokenCreateOpRet [2] [65] [] []⟩]) 0 := by
  have hfits : ImportFits (fun _ => 7) {} (byBranch 3) burn := importFits (by decide)
  have h := import_roundTrip (fun _ => 7) next {} (byBranch 3) burn coins 0
  refine ⟨(h.1 ⟨1000, [0x52]⟩ (Or.inl (by decide))).2 ⟨hfits, by decide⟩,
    (h.2 [2] [65] [] [] (by simp) (by decide)).2 ⟨hfits, by decide, ?_, by decide⟩⟩
  intro p hp
  obtain rfl := mem_singleton.1 hp
  exact (by decide : (importBytes (byBranch 3) burn).length ≤ Unserialize.maxSize)

open RoundTripSample in
/-- The index `-1` comes back as 127. -/
theorem negative_index_lost :
    ((makeImportCoinTransaction (fun _ => 7) next (byBranch (-1)) burn coins 0).bind
      (unmarshalImportTx (fun _ => 7) {})) = some (byBranch 127, burn, coins) ∧
    byBranch 127 ≠ byBranch (-1) := by
  decide

end Wire

end Komodo
