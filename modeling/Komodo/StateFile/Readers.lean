/-
# The two readers of the state file

`komodo_parsestatefiledata`, which reads the file from memory with the functions of
`src/src/mem_read.h`, and `komodo_parsestatefile`, which reads it with `fread` and `fgetc`, from
`src/src/komodo.cpp`, and the constructors of the events in `src/src/komodo_structs.cpp`.

Each is called again until it returns a negative value.  A record that cannot be read ends the
reading with a `parse_error`; keys that do not fit into their array end it as well (`overflow`).

Events `U`, `D` and `B` are read and dropped.  What the other events change is left out: an event is
applied when its function `komodo_eventadd_...` is called.
-/

import Komodo.Lib.Buffer
import Komodo.StateFile.Events

namespace Komodo
namespace StateFile

open Buffers

/-- What ends the reading of a record. -/
inductive Fault
  | parseError (what : String)
  /-- A write behind the end of an array. -/
  | overflow
deriving DecidableEq

abbrev FileReader := BufReader Fault UInt8

/-- An `int32_t` in memory. -/
def int32Of (bs : Bytes) : ℤ := (fromLE bs : ℤ).bmod (2 ^ 32)

/-- Bytes in front of an array that is clear. -/
def fill (n : ℕ) (bs : Bytes) : ByteArr n :=
  ⟨(bs ++ List.replicate n 0).take n, by simp⟩

/-! ### Reading from memory -/

/-- `mem_read` and `mem_nread`. -/
def memRead (n : ℕ) : FileReader Bytes := fun filedata fpos =>
  if fpos + n ≤ filedata.length then .ok ((filedata.drop fpos).take n, fpos + n)
  else .error (.parseError ("Invalid size: " ++ toString n))

/-- `data[pos++]`; `behind` is the byte behind the data. -/
def memByte (behind : UInt8) : FileReader UInt8 := fun filedata fpos =>
  .ok ((filedata[fpos]?).getD behind, fpos + 1)

/-- A move over `n` bytes, whether they are there or not. -/
def memSkip (n : ℕ) : FileReader Unit := fun _ fpos => .ok ((), fpos + n)

/-- `event_pubkeys(data, pos, data_len, height)`. -/
def pubkeysOfData (behind : UInt8) (height : ℤ) : FileReader PubkeysEvent := do
  let num ← memByte behind
  if 64 < num.toNat then
    throw (.parseError ("Illegal number of keys: " ++ toString num.toNat))
  else
    let pubkeys ← memRead (33 * num.toNat)
    pure { height, num := num.toNat, pubkeys := fill (64 * 33) pubkeys }

/-- `event_notarized(data, pos, data_len, height, dest, includeMoM)`. -/
def notarizedOfData (height : ℤ) (dest : Bytes) (includeMoM : Bool) :
    FileReader NotarizedEvent := do
  let notarizedheight ← memRead 4
  let blockhash ← memRead 32
  let desttxid ← memRead 32
  let evt := { NotarizedEvent.ofHeight height dest with
    notarizedheight := int32Of notarizedheight
    blockhash := fromLE blockhash
    desttxid := fromLE desttxid }
  if includeMoM then
    let MoM ← memRead 32
    let MoMdepth ← memRead 4
    pure { evt with MoM := fromLE MoM, MoMdepth := int32Of MoMdepth }
  else pure evt

/-- `event_u(data, pos, data_len, height)`. -/
def uOfData (height : ℤ) : FileReader UEvent := do
  let n ← memRead 1
  let nid ← memRead 1
  let mask ← memRead 8
  let hash ← memRead 32
  pure { height, n := UInt8.ofNat (fromLE n), nid := UInt8.ofNat (fromLE nid)
         mask := fill 8 mask, hash := fill 32 hash }

/-- `event_kmdheight(data, pos, data_len, height, includeTimestamp)`. -/
def kmdheightOfData (height : ℤ) (includeTimestamp : Bool) : FileReader KmdheightEvent := do
  let kheight ← memRead 4
  if includeTimestamp then
    let timestamp ← memRead 4
    pure { height, kheight := int32Of kheight, timestamp := fromLE timestamp }
  else pure { height, kheight := int32Of kheight }

/-- How many bytes there are behind the position. -/
def bytesLeft : FileReader ℕ := fun filedata fpos => .ok (filedata.length - fpos, fpos)

/-- `event_opreturn(data, pos, data_len, height)`: a payload that is longer than what is left is
not read. -/
def opreturnOfData (height : ℤ) : FileReader OpreturnEvent := do
  let txid ← memRead 32
  let vout ← memRead 2
  let value ← memRead 8
  let oplen ← memRead 2
  let evt : OpreturnEvent :=
    { height, txid := fromLE txid, vout := fromLE vout, value := fromLE value }
  if fromLE oplen ≤ (← bytesLeft) then
    let opret ← memRead (fromLE oplen)
    pure { evt with opret }
  else pure evt

/-- `event_pricefeed(data, pos, data_len, height)`: any other number of prices than 35 is passed
over. -/
def pricefeedOfData (height : ℤ) : FileReader PricefeedEvent := do
  let num ← memRead 1
  if fromLE num = 35 then
    let prices ← memRead (4 * fromLE num)
    pure { height, num := fromLE num, prices }
  else
    memSkip (4 * fromLE num)
    pure { height, num := fromLE num }

/-- The record of a letter, behind its height. -/
def recordOfData (behind : UInt8) (dest : Bytes) (func : Bytes) (ht : ℤ) :
    FileReader (Option Event) :=
  if func = ['P'.toUInt8] then some <$> Event.pubkeys <$> pubkeysOfData behind ht
  else if func = ['N'.toUInt8] then some <$> Event.notarized <$> notarizedOfData ht dest false
  else if func = ['M'.toUInt8] then some <$> Event.notarized <$> notarizedOfData ht dest true
  else if func = ['U'.toUInt8] then some <$> Event.u <$> uOfData ht
  else if func = ['K'.toUInt8] then some <$> Event.kmdheight <$> kmdheightOfData ht false
  else if func = ['T'.toUInt8] then some <$> Event.kmdheight <$> kmdheightOfData ht true
  else if func = ['R'.toUInt8] then some <$> Event.opreturn <$> opreturnOfData ht
  else if func = ['D'.toUInt8] then pure none
  else if func = ['V'.toUInt8] then some <$> Event.pricefeed <$> pricefeedOfData ht
  else if func = ['B'.toUInt8] then pure none
  else throw (.parseError "Unable to parse file data: unknown event")

/-- `komodo_parsestatefiledata` where there is a byte: the event of the record. -/
def parseStateFileData (behind : UInt8) (dest : Bytes) : FileReader (Option Event) := do
  let func ← memRead 1
  let ht ← memRead 4
  recordOfData behind dest func (int32Of ht)

/-! ### Reading from the file -/

/-- `fread` of `n` bytes: what there is of them. -/
def fread (n : ℕ) : FileReader Bytes := fun file pos =>
  .ok ((file.drop pos).take n, pos + ((file.drop pos).take n).length)

/-- `fread` of a value that must be there. -/
def freadAll (n : ℕ) (what : String) : FileReader Bytes := do
  let bs ← fread n
  if bs.length = n then pure bs else throw (.parseError what)

/-- `fgetc` into a `uint8_t`, where `EOF` is 255. -/
def fgetcByte : FileReader ℕ := fun file pos =>
  match file[pos]? with
  | some b => .ok (b.toNat, pos + 1)
  | none => .ok (255, pos)

/-- `event_pubkeys(fp, height)`: whatever the number, the keys are read into the array of 64. -/
def pubkeysOfFile (height : ℤ) : FileReader PubkeysEvent := do
  let num ← fgetcByte
  let pubkeys ← fread (33 * num)
  if 64 * 33 < pubkeys.length then throw .overflow
  else if pubkeys.length = 33 * num then
    pure { height, num, pubkeys := fill (64 * 33) pubkeys }
  else throw (.parseError ("Illegal number of keys: " ++ toString num))

/-- `event_notarized(fp, height, dest, includeMoM)`. -/
def notarizedOfFile (height : ℤ) (dest : Bytes) (includeMoM : Bool) :
    FileReader NotarizedEvent := do
  let notarizedheight ← freadAll 4 "Invalid notarization height"
  let blockhash ← freadAll 32 "Invalid block hash"
  let desttxid ← freadAll 32 "Invalid Destination TXID"
  let evt := { NotarizedEvent.ofHeight height dest with
    notarizedheight := int32Of notarizedheight
    blockhash := fromLE blockhash
    desttxid := fromLE desttxid }
  if includeMoM then
    let MoM ← freadAll 32 "Invalid MoM"
    let MoMdepth ← freadAll 4 "Invalid MoMdepth"
    pure { evt with MoM := fromLE MoM, MoMdepth := int32Of MoMdepth }
  else pure evt

/-- `event_u(fp, height)`. -/
def uOfFile (height : ℤ) : FileReader UEvent := do
  let n ← freadAll 1 "Unable to read n of event U from file"
  let nid ← freadAll 1 "Unable to read nid of event U from file"
  let mask ← freadAll 8 "Unable to read mask of event U from file"
  let hash ← freadAll 32 "Unable to read hash of event U from file"
  pure { height, n := UInt8.ofNat (fromLE n), nid := UInt8.ofNat (fromLE nid)
         mask := fill 8 mask, hash := fill 32 hash }

/-- `event_kmdheight(fp, height, includeTimestamp)`. -/
def kmdheightOfFile (height : ℤ) (includeTimestamp : Bool) : FileReader KmdheightEvent := do
  let kheight ← freadAll 4 "Unable to parse KMD height"
  if includeTimestamp then
    let timestamp ← freadAll 4 "Unable to parse timestamp of KMD height"
    pure { height, kheight := int32Of kheight, timestamp := fromLE timestamp }
  else pure { height, kheight := int32Of kheight }

/-- `event_opreturn(fp, height)`: a payload that is longer than what is left is an error. -/
def opreturnOfFile (height : ℤ) : FileReader OpreturnEvent := do
  let txid ← freadAll 32 "Unable to parse txid of opreturn record"
  let vout ← freadAll 2 "Unable to parse vout of opreturn record"
  let value ← freadAll 8 "Unable to parse value of opreturn record"
  let oplen ← freadAll 2 "Unable to parse length of opreturn record"
  let opret ← freadAll (fromLE oplen) "Unable to parse binary data of opreturn"
  pure { height, txid := fromLE txid, vout := fromLE vout, value := fromLE value, opret }

/-- `event_pricefeed(fp, height)`: more prices than there are places for are not read. -/
def pricefeedOfFile (height : ℤ) : FileReader PricefeedEvent := do
  let num ← fgetcByte
  if 4 * num ≤ 4 * 35 then
    let prices ← freadAll (4 * num) "Unable to parse price feed"
    pure { height, num, prices := prices ++ List.replicate (35 - prices.length) 0 }
  else pure { height, num }

/-- The record of a letter, behind its height.  A payload is never too long to be applied. -/
def recordOfFile (dest : Bytes) (func : Bytes) (ht : ℤ) :
    FileReader (Option Event) :=
  if func = ['P'.toUInt8] then some <$> Event.pubkeys <$> pubkeysOfFile ht
  else if func = ['N'.toUInt8] then some <$> Event.notarized <$> notarizedOfFile ht dest false
  else if func = ['M'.toUInt8] then some <$> Event.notarized <$> notarizedOfFile ht dest true
  else if func = ['U'.toUInt8] then some <$> Event.u <$> uOfFile ht
  else if func = ['K'.toUInt8] then some <$> Event.kmdheight <$> kmdheightOfFile ht false
  else if func = ['T'.toUInt8] then some <$> Event.kmdheight <$> kmdheightOfFile ht true
  else if func = ['R'.toUInt8] then some <$> Event.opreturn <$> opreturnOfFile ht
  else if func = ['D'.toUInt8] then pure none
  else if func = ['V'.toUInt8] then some <$> Event.pricefeed <$> pricefeedOfFile ht
  else if func = ['B'.toUInt8] then pure none
  else throw (.parseError "Unable to parse state file: unknown event")

/-- `komodo_parsestatefile` where there is a byte: the event of the record. -/
def parseStateFile (dest : Bytes) : FileReader (Option Event) := do
  let func ← fread 1
  let ht ← freadAll 4 "Unable to read height from file"
  recordOfFile dest func (int32Of ht)

/-! ### Reading until the end -/

/-- Where and why the reading ends. -/
inductive Stop
  /-- There was no more byte. -/
  | ended (pos : ℕ)
  /-- A `parse_error` at the record that begins here. -/
  | parseError (pos : ℕ)
  | overflow (pos : ℕ)
deriving DecidableEq

/-- The events that were read, and the end. -/
structure Run where
  events : List Event
  stop : Stop
deriving DecidableEq

/-- A reader that is called until it returns a negative value; there is no value when it is called
too often. -/
def run (parse : FileReader (Option Event)) : (calls : ℕ) → Bytes → (pos : ℕ) → Option Run
  | 0, _, _ => none
  | calls + 1, file, pos =>
    if file.length ≤ pos then some { events := [], stop := .ended pos }
    else
      match parse file pos with
      | .ok (evt, pos') =>
        (run parse calls file pos').map fun r => { r with events := evt.toList ++ r.events }
      | .error (.parseError _) => some { events := [], stop := .parseError pos }
      | .error .overflow => some { events := [], stop := .overflow pos }

/-- The calls that are made at most: every record takes a byte. -/
def readAll (parse : FileReader (Option Event)) (file : Bytes) : Option Run :=
  run parse (file.length + 1) file 0

/-- The fast reader, on the whole file. -/
def readData (behind : UInt8) (dest file : Bytes) : Option Run :=
  readAll (parseStateFileData behind dest) file

/-- The slow reader, on the whole file. -/
def readFile (dest file : Bytes) : Option Run := readAll (parseStateFile dest) file

/-- What decides whether keys are applied: `chainName`, `symbol` and `KOMODO_EXTERNAL_NOTARIES`. -/
structure Chain where
  isKMD : Bool
  symbolIsKMD : Bool
  symbolIsOwn : Bool
  externalNotaries : Bool

/-- Whether a reader applies an event. -/
def Chain.applies (chain : Chain) : Event → Bool
  | .pubkeys _ =>
    let matched := (chain.isKMD && chain.symbolIsKMD) || chain.symbolIsOwn
    (chain.externalNotaries && matched) || (chain.symbolIsKMD && !chain.externalNotaries)
  | .u _ => false
  | _ => true

end StateFile
end Komodo
