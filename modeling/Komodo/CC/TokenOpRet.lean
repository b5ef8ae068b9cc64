/-
# Token opreturns

`src/src/cc/CCtokenutils.cpp` (`DecodeTokenCreateOpRet`, `DecodeTokenOpRet`),
`GetOpretBlob` of `src/src/cc/CCinclude.h` and, of `src/src/cc/CCtokens.cpp`,
the functions that only read an opreturn: `FilterOutNonCCOprets`,
`FilterOutTokensUnspendablePk`, `ValidateTokenOpret`.

A decoder that returns the function id `0` is `none` here, and the ids are the
character codes `fid 'c'`, `fid 't'`, `fid 'i'`.
-/

import Komodo.CC.Contract

namespace Komodo

open Unserialize

/-- The byte of a function id written as a character. -/
def fid (c : Char) : UInt8 := UInt8.ofNat c.toNat

def OPRETID_NONFUNGIBLEDATA : UInt8 := 0x11
def OPRETID_ASSETSDATA : UInt8 := 0x12
def OPRETID_GATEWAYSDATA : UInt8 := 0x13
def OPRETID_ROGUEGAMEDATA : UInt8 := 0x16
def OPRETID_FIRSTNONCCDATA : UInt8 := 0x80

/-- `std::vector<std::pair<uint8_t, vscript_t>>`: blobs with their ids. -/
abbrev Oprets := List (UInt8 × Bytes)

/-- `GetOpretBlob`: the first blob with the id; empty if there is none. -/
def getOpretBlob (oprets : Oprets) (id : UInt8) : Bytes :=
  ((oprets.find? fun p => p.1 == id).map Prod.snd).getD []

/-- `FilterOutNonCCOprets`: the first blob of a contract. -/
def filterOutNonCCOprets (oprets : Oprets) : Bytes :=
  ((oprets.find? fun p => p.1 < OPRETID_FIRSTNONCCDATA).map Prod.snd).getD []

/-! ### The decoders -/

/-- The loop `while (!ss.eof()) { ss >> opretId; if (!ss.eof()) { ss >> vblob; … } }`.
`fuel` bounds the rounds by the bytes left: every round reads one. -/
def opretBlobsLoop : (fuel : ℕ) → Unserialize Oprets
  | 0 => pure []
  | fuel + 1 => do
    if ← eof then pure []
    else
      let opretId ← uint8
      if ← eof then pure []
      else
        let vblob ← vector
        let oprets ← opretBlobsLoop fuel
        pure ((opretId, vblob) :: oprets)

/-- The blobs up to the end of the stream. -/
def opretBlobs : Unserialize Oprets := fun s => opretBlobsLoop s.length s

/-- What `DecodeTokenCreateOpRet` returns. -/
structure TokenCreateOpRet where
  funcid : UInt8
  origpubkey : Bytes
  name : Bytes
  description : Bytes
  oprets : Oprets
deriving DecidableEq, Repr

def decodeTokenCreateOpRet (scriptPubKey : CScript) : Option TokenCreateOpRet :=
  let vopret := getOpReturnData scriptPubKey
  if 2 < vopret.length ∧ vopret[0]? = some EVAL_TOKENS ∧ vopret[1]? = some (fid 'c') then
    unmarshal vopret do
      let _ ← uint8
      let funcid ← uint8
      let origpubkey ← vector
      let name ← vector
      let description ← vector
      let oprets ← opretBlobs
      pure ⟨funcid, origpubkey, name, description, oprets⟩
  else none

/-- What `DecodeTokenOpRet` returns. -/
structure TokenOpRet where
  funcid : UInt8
  evalCodeTokens : UInt8
  tokenid : Uint256
  voutPubkeys : List CPubKey
  oprets : Oprets
deriving DecidableEq, Repr

/-- The fields of a `'t'` opreturn before its blobs: the token id as it is
serialised, `ccType`, and the one or two keys. -/
def transferHead : Unserialize (Uint256 × UInt8 × CPubKey × CPubKey) := do
  let _ ← uint8
  let _ ← uint8
  let tokenid ← uint256
  let ccType ← uint8
  let voutPubkey1 ← if 1 ≤ ccType then CPubKey.unserialize else pure []
  let voutPubkey2 ← if ccType = 2 then CPubKey.unserialize else pure []
  pure (tokenid, ccType, voutPubkey1, voutPubkey2)

/-- The id restored for data written before blobs had ids: `EVAL_ROGUE` is
`0x11`; `none` when the data is not of that style. -/
def oldstyleId (voldstyledata : Bytes) : Option UInt8 :=
  match voldstyledata with
  | code :: funcid :: _ =>
    if code = 0x11 ∧ funcid ∈ "RHQKG".toList.map fid then some OPRETID_ROGUEGAMEDATA
    else if code = EVAL_ASSETS ∧ funcid ∈ "sbSBxo".toList.map fid then some OPRETID_ASSETSDATA
    else none
  | _ => none

/-- The first attempt at a `'t'` opreturn: one vector of old-style data. -/
def transferOldstyle (vopret : Bytes) :
    Option ((Uint256 × UInt8 × CPubKey × CPubKey) × Oprets) := do
  let (head, voldstyledata) ← unmarshal vopret do
    let head ← transferHead
    if ← eof then pure (head, []) else pure (head, ← vector)
  let id ← oldstyleId voldstyledata
  pure (head, [(id, voldstyledata)])

/-- The second attempt: blobs with ids. -/
def transferBlobs (vopret : Bytes) :
    Option ((Uint256 × UInt8 × CPubKey × CPubKey) × Oprets) :=
  unmarshal vopret do
    let head ← transferHead
    let oprets ← opretBlobs
    pure (head, oprets)

/-- `DecodeTokenOpRet`. A creation opreturn leaves the token id null. -/
def decodeTokenOpRet (scriptPubKey : CScript) : Option TokenOpRet :=
  let vopret := getOpReturnData scriptPubKey
  if 2 < vopret.length ∧ vopret[0]? = some EVAL_TOKENS then
    if vopret[1]? = some (fid 'c') then
      (decodeTokenCreateOpRet scriptPubKey).map fun c => ⟨c.funcid, EVAL_TOKENS, 0, [], c.oprets⟩
    else if vopret[1]? = some (fid 't') then
      match (transferOldstyle vopret).or (transferBlobs vopret) with
      | some ((tokenid, ccType, voutPubkey1, voutPubkey2), oprets) =>
        if 2 < ccType then none
        else some ⟨fid 't', EVAL_TOKENS, revuint256 tokenid,
          [voutPubkey1, voutPubkey2].filter CPubKey.isValid, oprets⟩
      | none => none
    else none
  else none

/-- The opreturn of a transaction is its last output. -/
def tokenOpRet (tx : CTransaction) : Option TokenOpRet :=
  tx.vout.getLast?.bind fun out => decodeTokenOpRet out.scriptPubKey

/-- `ValidateTokenOpret`: the function id, if the opreturn is one of the token. -/
def validateTokenOpret (tx : CTransaction) (tokenid : Uint256) : Option UInt8 :=
  match tokenOpRet tx with
  | none => none
  | some d =>
    if d.funcid = fid 'c' then
      if tokenid ≠ 0 ∧ tokenid = tx.hash then some d.funcid else none
    else if d.funcid = fid 'i' then
      if tokenid ≠ 0 ∧ tokenid = tx.hash then some d.funcid else none
    else if d.funcid = fid 't' then
      if tokenid ≠ 0 ∧ tokenid = d.tokenid then some d.funcid else none
    else none

/-- The public key of the tokens contract, `TokensCChexstr`. -/
def tokensUnspendablePk : CPubKey :=
  [0x03, 0xe6, 0x19, 0x1c, 0x70, 0xc9, 0xc9, 0xa2, 0x8f, 0x9f, 0xd8, 0x70, 0x89, 0xb9, 0x48,
   0x8d, 0x0e, 0x6c, 0x02, 0xfb, 0x62, 0x9d, 0xf6, 0x49, 0x79, 0xc9, 0xcd, 0xb6, 0xb2, 0xb4,
   0xa6, 0x8d, 0x95]

def filterOutTokensUnspendablePk (sourcePubkeys : List CPubKey) : List CPubKey :=
  sourcePubkeys.filter (· ≠ tokensUnspendablePk)

/-- The `'dead'` key to which tokens are burned, `CC_BURNPUBKEY`. -/
def ccBurnPubkey : CPubKey := 0x02 :: (List.replicate 16 [0xde, 0xad]).flatten

end Komodo
