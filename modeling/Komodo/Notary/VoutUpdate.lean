/-
# How an output changes the state of a chain

`komodo_voutupdate` of `src/src/komodo.cpp`, and what it calls: `CheckChainNameInScript`,
`GetChainNameFromScript`, `komodo_validate_chain`, `komodo_stateupdate` as far as it adds a
notarization, `komodo_eventadd_notarized` of `src/src/komodo_events.cpp` and
`komodo_notarized_update` of `src/src/komodo_notary.cpp`.

A read of `scriptbuf` at an index that is not below `scriptlen` ends the call (`BadRead`).  Offsets
into the script are natural numbers; the number of pairs and what is computed with it are `int32_t`,
which wrap around.
-/

import Komodo.Notary.Checkpoints
import Komodo.StateFile.Readers

namespace Komodo
namespace Notary

open StateFile (NotarizedEvent int32Of)

/-! ### Reading the script -/

/-- A read of `scriptbuf` at an index that is not below `scriptlen`. -/
structure BadRead where
  index : ℕ
deriving DecidableEq

/-- `scriptbuf[i]`. -/
def byteAt (scriptbuf : Bytes) (i : ℕ) : Except BadRead UInt8 :=
  match scriptbuf[i]? with
  | some b => pure b
  | none => throw ⟨i⟩

/-- `memcpy`, `memcmp`, `iguana_rwnum` and `iguana_rwbignum` at `&scriptbuf[i]`. -/
def bytesAt (scriptbuf : Bytes) (i n : ℕ) : Except BadRead Bytes :=
  if i + n ≤ scriptbuf.length then pure ((scriptbuf.drop i).take n)
  else throw ⟨max i scriptbuf.length⟩

/-- `std::equal`, which stops at the first difference. -/
def equalAt (scriptbuf : Bytes) : (pattern : Bytes) → (i : ℕ) → Except BadRead Bool
  | [], _ => pure true
  | c :: pattern, i => do
    if (← byteAt scriptbuf i) = c then equalAt scriptbuf pattern (i + 1) else pure false

def checkChainNameInScript (chainPattern scriptbuf : Bytes) (offsetInScript : ℕ) :
    Except BadRead Bool :=
  if offsetInScript + chainPattern.length < scriptbuf.length then do
    if ← equalAt scriptbuf chainPattern offsetInScript then
      pure ((← byteAt scriptbuf (offsetInScript + chainPattern.length)) = 0)
    else pure false
  else pure false

/-- The loop of `GetChainNameFromScript`, with the room that is left in the name. -/
def chainNameLoop (scriptbuf : Bytes) : (room : ℕ) → (offsetInScript : ℕ) → Except BadRead Bytes
  | 0, _ => pure []
  | room + 1, offsetInScript =>
    if offsetInScript < scriptbuf.length then do
      let c ← byteAt scriptbuf offsetInScript
      if c = 0 then pure []
      else
        let chainPattern ← chainNameLoop scriptbuf room (offsetInScript + 1)
        pure (c :: chainPattern)
    else pure []

def getChainNameFromScript (scriptbuf : Bytes) (offsetInScript : ℕ) : Except BadRead Bytes :=
  chainNameLoop scriptbuf 65 offsetInScript

/-- The push behind `OP_RETURN`: where its data begins and how long it is said to be. -/
def pushHeader (scriptbuf : Bytes) : Except BadRead (Option (ℕ × ℤ)) :=
  if scriptbuf.length < 1 + 1 then pure none
  else do
    let opcode ← byteAt scriptbuf 1
    if opcode < OP_PUSHDATA1 then pure (some (2, opcode.toNat))
    else if opcode = OP_PUSHDATA1 then
      if scriptbuf.length < 2 + 1 then pure none
      else
        let x ← byteAt scriptbuf 2
        pure (some (3, x.toNat))
    else if opcode = OP_PUSHDATA2 then
      if scriptbuf.length < 2 + 2 then pure none
      else
        let x ← bytesAt scriptbuf 2 2
        pure (some (4, fromLE x))
    else if opcode = OP_PUSHDATA4 then
      if scriptbuf.length < 2 + 4 then pure none
      else
        let x ← bytesAt scriptbuf 2 4
        pure (some (6, int32Of x))
    else pure none

/-! ### The node -/

/-- What a call depends on besides its arguments. -/
structure Node where
  /-- `chainName.symbol()`, which is empty for KMD. -/
  symbol : Bytes
  /-- The constructor of `assetchain` cuts a longer symbol off. -/
  symbol_length : symbol.length ≤ 64 := by decide
  /-- `IS_KOMODO_NOTARY`. -/
  isNotary : Bool := false
  /-- `komodo_verifynotarization`. -/
  verifynotarization : NotarizedEvent → ℤ := fun _ => 0
  /-- `komodo_chosennotary`: the notary's number, where the result is not negative. -/
  chosennotary : (height : ℤ) → (pubkey33 : Bytes) → (timestamp : ℕ) → Option ℤ := fun _ _ _ => none
  /-- `IsInitialBlockDownload`. -/
  initialBlockDownload : Bool := false
  /-- `komodo_getblockindex`: the height of the block. -/
  getblockindex : Uint256 → Option ℤ := fun _ => none
  /-- Whether the state file is open. -/
  fp : Bool := true

variable (node : Node)

/-- `chainName.isKMD()`. -/
def Node.isKMD : Bool := node.symbol = []

/-- The characters of a string. -/
def ascii (s : String) : Bytes := s.toList.map Char.toUInt8

/-- `chainName.ToString()`. -/
def Node.chainName : Bytes := if node.symbol = [] then ascii "KMD" else node.symbol

/-- `komodo_nameset`: `symbol` and `dest`. -/
def Node.nameset : Bytes × Bytes :=
  if node.symbol = [] then (ascii "KMD", ascii "BTC") else (node.symbol, ascii "KMD")

/-- `komodo_validate_chain`. -/
def Node.validateChain (srchash : Uint256) (notarized_height : ℤ) : Bool :=
  node.initialBlockDownload || node.getblockindex srchash = some notarized_height

def KOMODO_MINRATIFY (height : ℤ) : ℕ := if height < 90000 then 7 else 11

def bitweight (x : UInt64) : ℕ := (List.range 64).countP fun i => x.toNat.testBit i

/-! ### Adding a notarization -/

/-- `komodo_notarized_update`. -/
def notarizedUpdate (sp : KomodoState) (nHeight notarized_height : ℤ)
    (notarized_hash notarized_desttxid MoM : Uint256) (MoMdepth : ℤ) : KomodoState :=
  if nHeight ≤ notarized_height then sp
  else sp.addCheckpoint
    { nHeight, notarized_height, notarized_hash, notarized_desttxid, MoM, MoMdepth }

/-- `komodo_eventadd_notarized`. -/
def Node.eventaddNotarized (sp : KomodoState) (symbol : Bytes) (height : ℤ) (ntz : NotarizedEvent) :
    KomodoState :=
  if node.isNotary ∧ node.verifynotarization ntz < 0 then sp
  else if symbol = node.symbol ∨ (node.isKMD ∧ symbol = ascii "KMD") then
    notarizedUpdate sp height ntz.notarizedheight ntz.blockhash ntz.desttxid ntz.MoM ntz.MoMdepth
  else sp

/-- `komodo_stateupdate` with nothing but a height: the last notarization is added. -/
def Node.stateupdate (sp : KomodoState) (height : ℤ) : KomodoState :=
  if height ≤ 0 ∨ node.fp = false then sp
  else
    let evt : NotarizedEvent := { NotarizedEvent.ofHeight height node.nameset.2 with
      blockhash := sp.last.notarized_hash
      desttxid := sp.last.notarized_desttxid
      notarizedheight := sp.last.notarized_height
      MoM := sp.last.MoM
      MoMdepth := sp.last.MoMdepth }
    node.eventaddNotarized sp node.nameset.1 height evt

/-! ### The call -/

/-- The arguments that stay as they are. -/
structure VoutArgs where
  fJustCheck : Bool := false
  scriptbuf : Bytes
  height : ℤ
  i : ℕ
  j : ℕ
  notarized : Bool
  signedmask : UInt64
  timestamp : ℕ := 0

/-- The state and the arguments that are changed; the result is a `notaryid`. -/
structure VoutState where
  sp : KomodoState
  notaryid : ℤ := -1
  isratification : Bool := false
  voutmask : UInt64 := 0
  specialtx : Bool := false
  notarizedheight : ℤ := 0
deriving DecidableEq

/-- `CRYPTO777_PUBSECPSTR`. -/
def crypto777 : Bytes :=
  [0x02, 0x0e, 0x46, 0xe7, 0x9a, 0x2a, 0x8d, 0x12, 0xb9, 0xb5, 0xd1, 0x2c, 0x7a, 0x91, 0xad, 0xb4,
   0xe4, 0x54, 0xed, 0xfa, 0xe4, 0x3c, 0x0a, 0x0c, 0xb8, 0x05, 0x42, 0x7d, 0x2a, 0xc7, 0x61, 0x3f,
   0xd9]

variable (a : VoutArgs) (s : VoutState)

/-- A payment to a public key: to everybody (`crypto777`) or to a notary. -/
def payToPubkey : Except BadRead VoutState :=
  if a.scriptbuf.length = 35 then do
    if (← byteAt a.scriptbuf 0) = 33 ∧ (← byteAt a.scriptbuf 34) = 0xac then
      let pubkey33 ← bytesAt a.scriptbuf 1 33
      if pubkey33 = crypto777 then pure { s with specialtx := true }
      else
        match node.chosennotary a.height pubkey33 a.timestamp with
        | none => pure s
        | some nid =>
          let voted := s.voutmask ||| ((1 : UInt64) <<< UInt64.ofNat a.j)
          if 64 ≤ s.notaryid then pure s
          else if s.notaryid < 0 then pure { s with notaryid := nid, voutmask := voted }
          else if s.notaryid ≠ nid then pure { s with notaryid := 64, voutmask := 0 }
          else pure { s with voutmask := voted }
    else pure s
  else pure s

/-- A MoM as it is decoded, and the pairs that are allocated and filled. -/
structure MoMRecord where
  MoM : Uint256 := 0
  MoMdepth : ℤ := 0
  pairs : ℕ := 0
deriving DecidableEq

/-- `n` pairs from `len` on. -/
def readPairs (scriptbuf : Bytes) : (n : ℕ) → (len : ℕ) → Except BadRead Unit
  | 0, _ => pure ()
  | n + 1, len => do
    let _ ← bytesAt scriptbuf len 4
    let _ ← bytesAt scriptbuf (len + 4) 4
    readPairs scriptbuf n (len + 8)

/-- The pairs, if they are what is left of the data.  A negative number of them cannot be
allocated, and none is read. -/
def readCounted (opoffset : ℕ) (opretlen : ℤ) (len : ℕ) (numpairs : ℤ) : Except BadRead ℕ :=
  if (len + numpairs * 8 - opoffset).bmod (2 ^ 32) = opretlen then do
    readPairs a.scriptbuf numpairs.toNat len
    pure numpairs.toNat
  else pure 0

/-- The MoMoM of this chain, with its pairs. -/
def readMoMoM (opoffset : ℕ) (opretlen : ℤ) (len : ℕ) : Except BadRead ℕ := do
  let _kmdstarti ← bytesAt a.scriptbuf len 4
  let _kmdendi ← bytesAt a.scriptbuf (len + 4) 4
  let _MoMoM ← bytesAt a.scriptbuf (len + 8) 32
  let _MoMoMdepth ← bytesAt a.scriptbuf (len + 40) 4
  let numpairs ← bytesAt a.scriptbuf (len + 44) 4
  readCounted a opoffset opretlen (len + 48) (int32Of numpairs)

/-- The number behind the MoM, and a MoMoM where this chain is named. -/
def readCCid (name : Bytes) (opoffset : ℕ) (opretlen : ℤ) (len : ℕ) : Except BadRead ℕ :=
  if (len : ℤ) + 4 - opoffset ≤ opretlen then do
    let _CCid ← bytesAt a.scriptbuf len 4
    if node.isKMD then pure 0
    else if (len : ℤ) + 4 + 48 - opoffset ≤ opretlen ∧ name = node.symbol then
      readMoMoM a opoffset opretlen (len + 4)
    else pure 0
  else pure 0

/-- The MoM behind the name, where there is one.  It counts as none when it is zero or deeper than
the chain. -/
def readMoM (name : Bytes) (notarizedheight : ℤ) (opoffset : ℕ) (opretlen : ℤ) (len : ℕ) :
    Except BadRead MoMRecord :=
  if (len : ℤ) + 36 - opoffset ≤ opretlen then do
    let MoM := fromLE (← bytesAt a.scriptbuf len 32)
    let MoMdepth := int32Of (← bytesAt a.scriptbuf (len + 32) 4)
    let pairs ← readCCid node a name opoffset opretlen (len + 36)
    if MoM = 0 ∨ notarizedheight < MoMdepth % 65536 then pure { pairs }
    else pure { MoM, MoMdepth, pairs }
  else pure {}

/-- The hashes of a notarization and the height that is notarized. -/
structure Notarisation where
  srchash : Uint256
  notarizedheight : ℤ
  desttxid : Uint256 := 0
deriving DecidableEq

/-- The beginning of the data; a notarization of another chain has no `desttxid`. -/
def readNotarisation (matched : Bool) (opoffset : ℕ) : Except BadRead Notarisation := do
  let srchash ← bytesAt a.scriptbuf opoffset 32
  let notarizedheight ← bytesAt a.scriptbuf (opoffset + 32) 4
  let ntz := { srchash := fromLE srchash, notarizedheight := int32Of notarizedheight }
  if matched then
    let desttxid ← bytesAt a.scriptbuf (opoffset + 36) 32
    pure { ntz with desttxid := fromLE desttxid }
  else pure ntz

/-- A notarization that is above the last one and below the block becomes the last one, and is
added.  A MoM that is zero or of depth zero is not taken over. -/
def recordNotarisation (sp : KomodoState) (matched : Bool) (ntz : Notarisation) (m : MoMRecord) :
    KomodoState :=
  if matched ∧ sp.last.notarized_height < ntz.notarizedheight ∧ ntz.notarizedheight < a.height then
    let last := { sp.last with
      notarized_height := ntz.notarizedheight
      notarized_hash := ntz.srchash
      notarized_desttxid := ntz.desttxid }
    let last :=
      if m.MoM ≠ 0 ∧ 0 < m.MoMdepth % 65536 then { last with MoM := m.MoM, MoMdepth := m.MoMdepth }
      else last
    node.stateupdate { sp with last } a.height
  else sp

/-- Whether a notarization counts: it has been signed, or is one of another chain and signed by as
many as are needed, or is of a chain that needs none. -/
def counts (matched : Bool) (name : Bytes) : Bool :=
  a.notarized
    || (!matched && a.signedmask ≠ 0 && KOMODO_MINRATIFY a.height ≤ bitweight a.signedmask)
    || name = ascii "PIZZA" || name = ascii "BEER" || name.take 5 = ascii "TXSCL"

/-- A notarization, with the number of pairs behind it. -/
def notarisation (matched : Bool) (name : Bytes) (opoffset : ℕ) (opretlen : ℤ) :
    Except BadRead (VoutState × ℕ) := do
  let ntz ← readNotarisation a matched opoffset
  let s := { s with notarizedheight := ntz.notarizedheight }
  if a.fJustCheck ∧ matched then pure ({ s with notaryid := -2 }, 0)
  else if counts a matched name
      ∧ (matched → node.validateChain ntz.srchash ntz.notarizedheight) then
    let len := opoffset + (if matched then 68 else 36) + (name.length + 1)
    let m ← readMoM node a name ntz.notarizedheight opoffset opretlen len
    pure ({ s with sp := recordNotarisation node a s.sp matched ntz m }, m.pairs)
  else pure (s, 0)

/-- The first byte among `n` that is not zero ends the loop. -/
def allZero (scriptbuf : Bytes) : (n : ℕ) → (i : ℕ) → Except BadRead Bool
  | 0, _ => pure true
  | n + 1, i => do
    if (← byteAt scriptbuf i) ≠ 0 then pure false else allZero scriptbuf n (i + 1)

/-- A notarization of nothing names new notaries. -/
def ratification (opoffset : ℕ) (opretlen : ℤ) : Except BadRead VoutState := do
  if 68 ≤ opretlen ∧ (← checkChainNameInScript node.chainName a.scriptbuf (opoffset + 68)) then
    if ← allZero a.scriptbuf 32 opoffset then pure { s with isratification := true } else pure s
  else pure s

/-- What is done with the data of an `OP_RETURN`. -/
def opReturnData (opoffset : ℕ) (opretlen : ℤ) : Except BadRead (VoutState × ℕ) := do
  let matched ← checkChainNameInScript node.chainName a.scriptbuf (opoffset + 68)
  let offset := if matched then 68 else 36
  let name ← getChainNameFromScript a.scriptbuf (opoffset + offset)
  if name = [] then pure (s, 0)
  else if a.j = 1 ∧ (offset : ℤ) ≤ opretlen then
    notarisation node a s matched name opoffset opretlen
  else if matched ∧ a.i = 0 ∧ a.j = 1 ∧ opretlen = 149 then pure (s, 0)
  else if matched then return (← ratification node a s opoffset opretlen, 0)
  else pure (s, 0)

/-- An `OP_RETURN` whose data is there and is not too short. -/
def opReturn : Except BadRead (VoutState × ℕ) := do
  match ← pushHeader a.scriptbuf with
  | none => pure (s, 0)
  | some (len, opretlen) =>
    if a.scriptbuf.length < len
        ∨ ((a.scriptbuf.length - len : ℕ) : ℤ) < opretlen % 2 ^ 32 then pure (s, 0)
    else if opretlen < 34 then pure (s, 0)
    else opReturnData node a s len opretlen

/-- `komodo_voutupdate`, and the number of pairs that it allocates and fills. -/
def voutupdate : Except BadRead (VoutState × ℕ) := do
  let s ← payToPubkey node a s
  if (← byteAt a.scriptbuf 0) = 0x6a then opReturn node a s else pure (s, 0)

end Notary
end Komodo
