/-
# The events of the state file and how they are written

The events of `src/src/komodo_structs.h` and `operator<<` of `src/src/komodo_structs.cpp`, which
`write_event` appends to the state file.

An event begins with a letter and its height.  The letter is not determined by the type alone: a
notarization with a MoM and a height with a time have letters of their own.
-/

import Komodo.Primitives.WireFormat

namespace Komodo
namespace StateFile

/-- `event_pubkeys`.  The keys are those of all 64 places. -/
structure PubkeysEvent where
  height : ℤ
  num : ℕ
  pubkeys : ByteArr (64 * 33)
deriving DecidableEq

/-- `event_notarized`.  `dest` is the string that the array of 16 characters holds. -/
structure NotarizedEvent where
  height : ℤ
  blockhash : Uint256 := 0
  desttxid : Uint256 := 0
  MoM : Uint256 := 0
  notarizedheight : ℤ := 0
  MoMdepth : ℤ := 0
  dest : Bytes
deriving DecidableEq

/-- `event_u`. -/
structure UEvent where
  height : ℤ
  n : UInt8
  nid : UInt8
  mask : ByteArr 8
  hash : ByteArr 32
deriving DecidableEq

/-- `event_kmdheight`. -/
structure KmdheightEvent where
  height : ℤ
  kheight : ℤ := 0
  timestamp : ℕ := 0
deriving DecidableEq

/-- `event_opreturn`. -/
structure OpreturnEvent where
  height : ℤ
  txid : Uint256 := 0
  vout : ℕ := 0
  value : ℕ := 0
  opret : Bytes := []
deriving DecidableEq

/-- `event_pricefeed`.  `prices` are the bytes of the array that have been set: the constructor
clears 35 of its 140 bytes. -/
structure PricefeedEvent where
  height : ℤ
  num : ℕ := 0
  prices : Bytes := List.replicate 35 0
deriving DecidableEq

/-- `event_rewind`. -/
structure RewindEvent where
  height : ℤ
deriving DecidableEq

inductive Event
  | pubkeys (evt : PubkeysEvent)
  | notarized (evt : NotarizedEvent)
  | u (evt : UEvent)
  | kmdheight (evt : KmdheightEvent)
  | opreturn (evt : OpreturnEvent)
  | pricefeed (evt : PricefeedEvent)
  | rewind (evt : RewindEvent)
deriving DecidableEq

/-- `dest` as `strncpy` leaves it in an array of 16 characters. -/
def copyDest (dest : Bytes) : Bytes := (dest.takeWhile (· ≠ 0)).take 15

/-- `event_notarized(ht, _dest)`. -/
def NotarizedEvent.ofHeight (ht : ℤ) (dest : Bytes) : NotarizedEvent :=
  { height := ht, dest := copyDest dest }

/-! ### Writing -/

/-- The letter and the height. -/
def header (letter : Char) (height : ℤ) : Bytes := letter.toUInt8 :: intBytes 4 height

/-- Whether a notarization is written with its MoM. -/
def NotarizedEvent.hasMoM (evt : NotarizedEvent) : Bool := evt.MoMdepth ≠ 0 ∧ evt.MoM ≠ 0

def PubkeysEvent.write (evt : PubkeysEvent) : Bytes :=
  header 'P' evt.height ++ leBytes 1 evt.num ++ evt.pubkeys.1.take (33 * evt.num)

def NotarizedEvent.write (evt : NotarizedEvent) : Bytes :=
  header (if evt.hasMoM then 'M' else 'N') evt.height ++ intBytes 4 evt.notarizedheight
    ++ uint256Bytes evt.blockhash ++ uint256Bytes evt.desttxid
    ++ if evt.hasMoM then uint256Bytes evt.MoM ++ intBytes 4 evt.MoMdepth else []

def UEvent.write (evt : UEvent) : Bytes :=
  header 'U' evt.height ++ [evt.n, evt.nid] ++ evt.mask.1 ++ evt.hash.1

def KmdheightEvent.write (evt : KmdheightEvent) : Bytes :=
  header (if evt.timestamp = 0 then 'K' else 'T') evt.height ++ intBytes 4 evt.kheight
    ++ if 0 < evt.timestamp then leBytes 4 evt.timestamp else []

/-- The length of the payload is written in two bytes. -/
def OpreturnEvent.write (evt : OpreturnEvent) : Bytes :=
  header 'R' evt.height ++ uint256Bytes evt.txid ++ leBytes 2 evt.vout ++ leBytes 8 evt.value
    ++ leBytes 2 evt.opret.length ++ evt.opret

def PricefeedEvent.write (evt : PricefeedEvent) : Bytes :=
  header 'V' evt.height ++ leBytes 1 evt.num ++ evt.prices.take (4 * evt.num)

def RewindEvent.write (evt : RewindEvent) : Bytes := header 'B' evt.height

/-- `operator<<`: the bytes that `write_event` appends. -/
def Event.write : Event → Bytes
  | .pubkeys evt => evt.write
  | .notarized evt => evt.write
  | .u evt => evt.write
  | .kmdheight evt => evt.write
  | .opreturn evt => evt.write
  | .pricefeed evt => evt.write
  | .rewind evt => evt.write

/-! ### The events that are written -/

/-- The fields are in the ranges of their types. -/
def NotarizedEvent.InRange (evt : NotarizedEvent) : Prop :=
  IntRange 4 evt.height ∧ evt.blockhash < 2 ^ 256 ∧ evt.desttxid < 2 ^ 256 ∧ evt.MoM < 2 ^ 256
    ∧ IntRange 4 evt.notarizedheight ∧ IntRange 4 evt.MoMdepth

/-- The events that `komodo_stateupdate` writes for a chain that is notarized to `dest`.  The places
behind the last of the keys are clear, as `komodo_connectblock` hands them over; a list of prices has
35 of them. -/
def Event.Written (dest : Bytes) : Event → Prop
  | .pubkeys evt => IntRange 4 evt.height ∧ evt.num ≤ 64
      ∧ evt.pubkeys.1.drop (33 * evt.num) = List.replicate (64 * 33 - 33 * evt.num) 0
  | .notarized evt => evt.InRange ∧ evt.dest = copyDest dest
  | .u _ => False
  | .kmdheight evt => IntRange 4 evt.height ∧ IntRange 4 evt.kheight ∧ evt.timestamp < 256 ^ 4
  | .opreturn evt => IntRange 4 evt.height ∧ evt.txid < 2 ^ 256 ∧ evt.vout < 256 ^ 2
      ∧ evt.value < 256 ^ 8 ∧ evt.opret.length < 65536
  | .pricefeed evt => IntRange 4 evt.height ∧ evt.num = 35 ∧ evt.prices.length = 4 * 35
  | .rewind _ => False

/-- An event as it is read: without its MoM when that was not written. -/
def Event.asRead : Event → Event
  | .notarized evt => .notarized (if evt.hasMoM then evt else { evt with MoM := 0, MoMdepth := 0 })
  | evt => evt

end StateFile
end Komodo
