/-
# Payments opreturns, written and read back

The encoders of `src/src/cc/payments.cpp`, `EncodePaymentsTxidOpRet` to
`EncodePaymentsTokensOpRet`, against the decoders.

All seven write the eval code, a function id and the fields one after another:

| id | message | fields |
| --- | --- | --- |
| `'T'` | payee | allocation, script, opreturn |
| `'F'` | fund | plan |
| `'M'` | merge | plan |
| `'R'` | release | plan, amount |
| `'C'` | list | blocks, release, total, transactions |
| `'S'` | snapshot | blocks, release, minimum, top, bottom, fixed, excluded |
| `'O'` | tokens | those of `'S'`, token id |

`payments_roundTrip_iff` says which messages are read back as they were written and by their own
decoder only: every one within the limits of the reader that is not an `'O'`.
-/

import Komodo.CC.Payments
import Komodo.Script.Serialize

namespace Komodo

open Streams Unserialize List

/-! ### The messages -/

/-- The fields of a `'C'`. -/
structure ListPlan where
  lockedblocks : ℤ
  minrelease : ℤ
  totalallocations : ℤ
  txidoprets : List Uint256
deriving DecidableEq, Repr

/-- The fields of an `'S'`. -/
structure SnapshotPlan where
  lockedblocks : ℤ
  minrelease : ℤ
  minimum : ℤ
  top : ℤ
  bottom : ℤ
  fixedAmount : ℤ
  excludeScriptPubKeys : List Bytes
deriving DecidableEq, Repr

/-- The fields of an `'O'`. -/
structure TokensPlan extends SnapshotPlan where
  tokenid : Uint256
deriving DecidableEq, Repr

/-- The messages of the contract. -/
inductive PaymentsMessage
  | payee (d : PaymentsTxidOpRet)
  | fund (checktxid : Uint256)
  | merge (checktxid : Uint256)
  | release (checktxid : Uint256) (amountReleased : ℤ)
  | list (plan : ListPlan)
  | snapshot (plan : SnapshotPlan)
  | tokens (plan : TokensPlan)
deriving DecidableEq, Repr

/-- The kinds of messages, one for each pair of an encoder and a decoder. -/
inductive PaymentsKind
  | payee | fund | merge | release | list | snapshot | tokens
deriving DecidableEq, Repr

/-- The function id of a kind. -/
def PaymentsKind.funcid : PaymentsKind → Char
  | payee => 'T' | fund => 'F' | merge => 'M' | release => 'R'
  | list => 'C' | snapshot => 'S' | tokens => 'O'

/-- The kind of a message. -/
def PaymentsMessage.kind : PaymentsMessage → PaymentsKind
  | payee _ => .payee | fund _ => .fund | merge _ => .merge | release _ _ => .release
  | list _ => .list | snapshot _ => .snapshot | tokens _ => .tokens

/-! ### The encoders -/

/-- The shape of the encoders. -/
def encodePayments (funcid : Char) (body : Bytes) : CScript :=
  opReturnScript (EVAL_PAYMENTS :: fid funcid :: body)

/-- What `EncodePaymentsTxidOpRet` writes behind the function id. -/
def txidOpRetBytes (d : PaymentsTxidOpRet) : Bytes :=
  intBytes 8 d.allocation ++ vectorBytes d.scriptPubKey ++ vectorBytes d.opret

/-- What `EncodePaymentsReleaseOpRet` writes. -/
def releaseBytes (d : Uint256 × ℤ) : Bytes := uint256Bytes d.1 ++ intBytes 8 d.2

/-- What `EncodePaymentsOpRet` writes. -/
def listPlanBytes (plan : ListPlan) : Bytes :=
  intBytes 4 plan.lockedblocks ++ intBytes 4 plan.minrelease ++ intBytes 8 plan.totalallocations
    ++ listBytes uint256Bytes plan.txidoprets

/-- What `EncodePaymentsSnapsShotOpRet` writes. -/
def snapshotPlanBytes (plan : SnapshotPlan) : Bytes :=
  intBytes 4 plan.lockedblocks ++ intBytes 4 plan.minrelease ++ intBytes 4 plan.minimum
    ++ intBytes 4 plan.top ++ intBytes 4 plan.bottom ++ intBytes 1 plan.fixedAmount
    ++ listBytes vectorBytes plan.excludeScriptPubKeys

/-- What `EncodePaymentsTokensOpRet` writes. -/
def tokensPlanBytes (plan : TokensPlan) : Bytes :=
  snapshotPlanBytes plan.toSnapshotPlan ++ uint256Bytes plan.tokenid

namespace PaymentsMessage

/-- What stands behind the function id. -/
def body : PaymentsMessage → Bytes
  | payee d => txidOpRetBytes d
  | fund checktxid => uint256Bytes checktxid
  | merge checktxid => uint256Bytes checktxid
  | release checktxid amountReleased => releaseBytes (checktxid, amountReleased)
  | list plan => listPlanBytes plan
  | snapshot plan => snapshotPlanBytes plan
  | tokens plan => tokensPlanBytes plan

/-- The encoder of each kind. -/
def encode (m : PaymentsMessage) : CScript := encodePayments m.kind.funcid m.body

end PaymentsMessage

/-! ### The decoders -/

/-- What `DecodePaymentsOpRet` reads. -/
def listPlanReader : Unserialize ListPlan := do
  let lockedblocks ← int 4
  let minrelease ← int 4
  let totalallocations ← int 8
  let txidoprets ← vectorOf uint256
  pure ⟨lockedblocks, minrelease, totalallocations, txidoprets⟩

/-- `DecodePaymentsOpRet`. -/
def decodeListPlan (scriptPubKey : CScript) : Option ListPlan :=
  (decodePayments 'C' listPlanReader scriptPubKey).filter fun plan => 1 < plan.txidoprets.length

/-- What `DecodePaymentsSnapsShotOpRet` reads. -/
def snapshotPlanReader : Unserialize SnapshotPlan := do
  let lockedblocks ← int 4
  let minrelease ← int 4
  let minimum ← int 4
  let top ← int 4
  let bottom ← int 4
  let fixedAmount ← int 1
  let excludeScriptPubKeys ← vectorOf vector
  pure ⟨lockedblocks, minrelease, minimum, top, bottom, fixedAmount, excludeScriptPubKeys⟩

/-- What `DecodePaymentsTokensOpRet` reads. The caller's `minrelease` stays as it was. -/
def tokensPlanReader (minrelease : ℤ) : Unserialize TokensPlan := do
  let lockedblocks ← int 4
  let minimum ← int 4
  let top ← int 4
  let bottom ← int 4
  let fixedAmount ← int 1
  let excludeScriptPubKeys ← vectorOf vector
  let tokenid ← uint256
  pure ⟨⟨lockedblocks, minrelease, minimum, top, bottom, fixedAmount, excludeScriptPubKeys⟩,
    tokenid⟩

/-- The decoder of each kind; `minrelease` is what the caller's variable holds. -/
def PaymentsKind.decode (minrelease : ℤ) (scriptPubKey : CScript) :
    PaymentsKind → Option PaymentsMessage
  | payee => (decodePaymentsTxidOpRet scriptPubKey).map .payee
  | fund => (decodePaymentsFundOpRet scriptPubKey).map .fund
  | merge => (decodePaymentsMergeOpRet scriptPubKey).map .merge
  | release => (decodePaymentsReleaseOpRet scriptPubKey).map fun d => .release d.1 d.2
  | list => (decodeListPlan scriptPubKey).map .list
  | snapshot => (decodePayments 'S' snapshotPlanReader scriptPubKey).map .snapshot
  | tokens => (decodePayments 'O' (tokensPlanReader minrelease) scriptPubKey).map .tokens

/-! ### What the validator holds -/

/-! ### The readers against the writers -/

theorem codec_txidOpRet :
    Codec (do
      let allocation ← int 8
      let scriptPubKey ← vector
      let opret ← vector
      pure (⟨allocation, scriptPubKey, opret⟩ : PaymentsTxidOpRet)) txidOpRetBytes fun d =>
      IntRange 8 d.allocation ∧ d.scriptPubKey.length ≤ maxSize ∧ d.opret.length ≤ maxSize :=
  ReadsRest.codec
    (.field PaymentsTxidOpRet.allocation (codec_int (by omega)) fun _ =>
      .field PaymentsTxidOpRet.scriptPubKey codec_vector fun _ =>
      .field PaymentsTxidOpRet.opret codec_vector fun _ => .done)
    (by simp [txidOpRetBytes]) (by simp)

theorem codec_release :
    Codec (do
      let checktxid ← uint256
      let amountReleased ← int 8
      pure (checktxid, amountReleased)) releaseBytes fun d => d.1 < 2 ^ 256 ∧ IntRange 8 d.2 :=
  ReadsRest.codec
    (.field Prod.fst codec_uint256 fun _ => .field Prod.snd (codec_int (by omega)) fun _ => .done)
    (by simp [releaseBytes]) (by simp)

theorem codec_listPlan : Codec listPlanReader listPlanBytes fun plan =>
    IntRange 4 plan.lockedblocks ∧ IntRange 4 plan.minrelease ∧ IntRange 8 plan.totalallocations
      ∧ plan.txidoprets.length ≤ maxSize ∧ ∀ x ∈ plan.txidoprets, x < 2 ^ 256 :=
  ReadsRest.codec
    (.field ListPlan.lockedblocks (codec_int (by omega)) fun _ =>
      .field ListPlan.minrelease (codec_int (by omega)) fun _ =>
      .field ListPlan.totalallocations (codec_int (by omega)) fun _ =>
      .field ListPlan.txidoprets (codec_vectorOf codec_uint256) fun _ => .done)
    (by simp [listPlanBytes]) (by simp)

/-- The limits on the fields of an `'S'` but the release. -/
def SnapshotPlan.Readable (plan : SnapshotPlan) : Prop :=
  IntRange 4 plan.lockedblocks ∧ IntRange 4 plan.minimum ∧ IntRange 4 plan.top
    ∧ IntRange 4 plan.bottom ∧ IntRange 1 plan.fixedAmount
    ∧ plan.excludeScriptPubKeys.length ≤ maxSize
    ∧ ∀ script ∈ plan.excludeScriptPubKeys, script.length ≤ maxSize

theorem codec_snapshotPlan : Codec snapshotPlanReader snapshotPlanBytes fun plan =>
    IntRange 4 plan.minrelease ∧ plan.Readable :=
  ReadsRest.codec
    (.field SnapshotPlan.lockedblocks (codec_int (by omega)) fun _ =>
      .field SnapshotPlan.minrelease (codec_int (by omega)) fun _ =>
      .field SnapshotPlan.minimum (codec_int (by omega)) fun _ =>
      .field SnapshotPlan.top (codec_int (by omega)) fun _ =>
      .field SnapshotPlan.bottom (codec_int (by omega)) fun _ =>
      .field SnapshotPlan.fixedAmount (codec_int (by omega)) fun _ =>
      .field SnapshotPlan.excludeScriptPubKeys (codec_vectorOf codec_vector) fun _ =>
      .done (by rintro ⟨⟩; simp; tauto))
    (by simp [snapshotPlanBytes]) (by simp [SnapshotPlan.Readable]; tauto)

/-- What the decoder of an `'O'` expects behind the function id. -/
def tokensPlanExpected (plan : TokensPlan) : Bytes :=
  intBytes 4 plan.lockedblocks ++ intBytes 4 plan.minimum ++ intBytes 4 plan.top
    ++ intBytes 4 plan.bottom ++ intBytes 1 plan.fixedAmount
    ++ listBytes vectorBytes plan.excludeScriptPubKeys ++ uint256Bytes plan.tokenid

theorem codec_tokensPlan (minrelease : ℤ) :
    Codec (tokensPlanReader minrelease) tokensPlanExpected fun plan =>
      plan.minrelease = minrelease ∧ plan.Readable ∧ plan.tokenid < 2 ^ 256 := by
  refine Codec.of_eq_some fun s s' plan => ?_
  simp only [tokensPlanReader, (codec_int (show 0 < 4 by omega)).bind_eq_some,
    (codec_int (show 0 < 1 by omega)).bind_eq_some, (codec_vectorOf codec_vector).bind_eq_some,
    codec_uint256.bind_eq_some, pure_apply, Option.some.injEq, Prod.mk.injEq, tokensPlanExpected,
    append_assoc, SnapshotPlan.Readable]
  constructor
  · rintro ⟨l, hl, _, rfl, m, hm, _, rfl, t, ht, _, rfl, b, hb, _, rfl, f, hf, _, rfl, xs, hxs, _,
      rfl, x, hx, _, rfl, rfl, rfl⟩
    exact ⟨⟨rfl, ⟨hl, hm, ht, hb, hf, hxs⟩, hx⟩, rfl⟩
  · rintro ⟨⟨rfl, ⟨hl, hm, ht, hb, hf, hxs⟩, hx⟩, rfl⟩
    exact ⟨_, hl, _, rfl, _, hm, _, rfl, _, ht, _, rfl, _, hb, _, rfl, _, hf, _, rfl, _, hxs, _, rfl,
      _, hx, _, rfl, rfl, rfl⟩

/-! ### An opreturn and a decoder -/

/-- What a decoder accepts. -/
theorem decodePayments_eq_some {α : Type} {funcid : Char} {reader : Unserialize α}
    {scriptPubKey : CScript} {a : α} :
    decodePayments funcid reader scriptPubKey = some a ↔
      ∃ body ≠ [], getOpReturnData scriptPubKey = EVAL_PAYMENTS :: fid funcid :: body ∧
        reader body = some (a, []) := by
  unfold decodePayments
  simp only [Option.ite_none_right_eq_some, Option.bind_eq_some_iff, unmarshal_eq_some, Prod.exists,
    codec_uint8.bind_eq_some, Option.some.injEq]
  simp only [bind_apply, Option.bind_eq_some_iff, pure_apply, Option.some.injEq, Prod.mk.injEq,
    Prod.exists]
  constructor
  · rintro ⟨hlen, e, g, b, ⟨e', -, s, hs, g', -, t, rfl, b', t', hb, ⟨rfl, rfl, rfl⟩, rfl⟩,
      ⟨rfl, rfl⟩, rfl⟩
    refine ⟨t, ?_, hs, hb⟩
    rintro rfl
    rw [hs] at hlen
    exact absurd hlen (by simp)
  · rintro ⟨body, hne, hs, hb⟩
    have hpos := length_pos_iff.2 hne
    refine ⟨?_, _, _, a, ⟨_, trivial, _, hs, _, trivial, body, rfl, a, [], hb, ⟨rfl, rfl, rfl⟩, rfl⟩,
      ⟨rfl, rfl⟩, rfl⟩
    rw [hs, length_cons, length_cons]
    omega

/-- The payload is cut at what its length leaves by `2 ^ 32`. -/
theorem getOpReturnData_encodePayments (funcid : Char) (body : Bytes) :
    getOpReturnData (encodePayments funcid body)
      = (EVAL_PAYMENTS :: fid funcid :: body).take ((body.length + 2) % 2 ^ 32) := by
  rw [encodePayments, getOpReturnData_opReturnScript]
  rfl

/-- The decoder of the same kind finds what was written, when its reader can. -/
theorem decodePayments_encodePayments {α : Type} {reader : Unserialize α} {write : α → Bytes}
    {Ok : α → Prop} (h : Codec reader write Ok) (funcid : Char) {a : α} (hne : write a ≠ []) :
    decodePayments funcid reader (encodePayments funcid (write a)) = some a
      ↔ Ok a ∧ (write a).length + 2 < 2 ^ 32 := by
  simp only [decodePayments_eq_some, h.eq_some, getOpReturnData_encodePayments, append_nil]
  constructor
  · rintro ⟨body, -, htake, ha, rfl⟩
    refine ⟨ha, ?_⟩
    have hlen := congrArg length htake
    rw [length_take, length_cons, length_cons] at hlen
    omega
  · rintro ⟨ha, hlt⟩
    refine ⟨write a, hne, ?_, ha, rfl⟩
    rw [Nat.mod_eq_of_lt hlt]
    exact take_of_length_le (by simp)

theorem decodePayments_other {α : Type} {funcid funcid' : Char} (h : fid funcid ≠ fid funcid')
    (reader : Unserialize α) (body : Bytes) :
    decodePayments funcid reader (encodePayments funcid' body) = none := by
  rw [Option.eq_none_iff_forall_ne_some]
  intro a ha
  obtain ⟨rest, -, hrest, -⟩ := decodePayments_eq_some.1 ha
  rw [getOpReturnData_encodePayments] at hrest
  have htwo := congrArg (·[1]?) hrest
  simp only [getElem?_take, getElem?_cons_succ, getElem?_cons_zero,
    Option.ite_none_right_eq_some, Option.some.injEq] at htwo
  exact h htwo.2.symm

theorem PaymentsKind.fid_ne {k k' : PaymentsKind} (h : k ≠ k') : fid k.funcid ≠ fid k'.funcid := by
  cases k <;> cases k' <;> first | exact absurd rfl h | decide

theorem PaymentsKind.decode_encode_other {k : PaymentsKind} {m : PaymentsMessage}
    (h : k ≠ m.kind) (minrelease : ℤ) : k.decode minrelease m.encode = none := by
  have hfid := fid_ne h
  have hnone : ∀ {α : Type} (reader : Unserialize α),
      decodePayments k.funcid reader m.encode = none :=
    fun reader => decodePayments_other hfid reader m.body
  cases k <;>
    simp only [funcid] at hnone <;>
    simp only [decode, decodePaymentsTxidOpRet, decodePaymentsFundOpRet, decodePaymentsMergeOpRet,
      decodePaymentsReleaseOpRet, decodeListPlan, hnone] <;>
    rfl

/-! ### The round trip -/

namespace PaymentsMessage

/-- The fields have the widths of the source's types. -/
def WellTyped : PaymentsMessage → Prop
  | payee d => IntRange 8 d.allocation
  | fund checktxid => checktxid < 2 ^ 256
  | merge checktxid => checktxid < 2 ^ 256
  | release checktxid amountReleased => checktxid < 2 ^ 256 ∧ IntRange 8 amountReleased
  | list plan =>
    IntRange 4 plan.lockedblocks ∧ IntRange 4 plan.minrelease ∧ IntRange 8 plan.totalallocations
      ∧ ∀ x ∈ plan.txidoprets, x < 2 ^ 256
  | snapshot plan =>
    IntRange 4 plan.lockedblocks ∧ IntRange 4 plan.minrelease ∧ IntRange 4 plan.minimum
      ∧ IntRange 4 plan.top ∧ IntRange 4 plan.bottom ∧ IntRange 1 plan.fixedAmount
  | tokens plan =>
    IntRange 4 plan.lockedblocks ∧ IntRange 4 plan.minrelease ∧ IntRange 4 plan.minimum
      ∧ IntRange 4 plan.top ∧ IntRange 4 plan.bottom ∧ IntRange 1 plan.fixedAmount
      ∧ plan.tokenid < 2 ^ 256

/-- Its own decoder returns the message unchanged and no other decoder returns one, whatever
the caller's `minrelease` holds. -/
def RoundTrips (m : PaymentsMessage) : Prop :=
  ∀ minrelease, m.kind.decode minrelease m.encode = some m ∧
    ∀ k, k ≠ m.kind → k.decode minrelease m.encode = none

/-- No list is longer than the reader accepts, a `'C'` names more than one transaction, and
the message is not an `'O'`. -/
def Readable : PaymentsMessage → Prop
  | payee d => d.scriptPubKey.length ≤ maxSize ∧ d.opret.length ≤ maxSize
  | fund _ => True
  | merge _ => True
  | release _ _ => True
  | list plan => 1 < plan.txidoprets.length ∧ plan.txidoprets.length ≤ maxSize
  | snapshot plan => plan.excludeScriptPubKeys.length ≤ maxSize
      ∧ ∀ script ∈ plan.excludeScriptPubKeys, script.length ≤ maxSize
  | tokens _ => False

theorem body_ne_nil (m : PaymentsMessage) : m.body ≠ [] := by
  apply ne_nil_of_length_pos
  cases m <;>
    simp only [body, txidOpRetBytes, releaseBytes, listPlanBytes, snapshotPlanBytes,
      tokensPlanBytes, length_append, length_map, length_range, intBytes,
      uint256Bytes, length_leBytes] <;>
    omega

/-- An `'O'` is four bytes longer than its decoder expects. -/
theorem decode_tokens_ne (plan : TokensPlan) (minrelease : ℤ) :
    decodePayments 'O' (tokensPlanReader minrelease) (tokens plan).encode ≠ some plan := by
  intro h
  obtain ⟨rest, -, hdata, hread⟩ := decodePayments_eq_some.1 h
  obtain ⟨-, rfl⟩ := (codec_tokensPlan minrelease).eq_some.1 hread
  have hlen := congrArg length hdata
  rw [encode, getOpReturnData_encodePayments, length_take] at hlen
  simp only [body, tokensPlanBytes, snapshotPlanBytes, tokensPlanExpected, length_append,
    length_cons, length_nil, intBytes, length_leBytes] at hlen
  omega

/-- Its own decoder and the message. -/
theorem decode_encode_iff (m : PaymentsMessage) (ht : m.WellTyped) (minrelease : ℤ) :
    m.kind.decode minrelease m.encode = some m ↔ m.Readable ∧ m.body.length + 2 < 2 ^ 32 := by
  have hbody := m.body_ne_nil
  cases m with
  | payee d =>
    simp only [kind, PaymentsKind.decode, Option.map_eq_some_iff, payee.injEq, exists_eq_right]
    refine (decodePayments_encodePayments codec_txidOpRet 'T' hbody).trans (and_congr_left' ?_)
    exact and_iff_right ht
  | fund checktxid =>
    simp only [kind, PaymentsKind.decode, Option.map_eq_some_iff, fund.injEq, exists_eq_right]
    refine (decodePayments_encodePayments codec_uint256 'F' hbody).trans (and_congr_left' ?_)
    exact iff_true_intro ht
  | merge checktxid =>
    simp only [kind, PaymentsKind.decode, Option.map_eq_some_iff, merge.injEq, exists_eq_right]
    refine (decodePayments_encodePayments codec_uint256 'M' hbody).trans (and_congr_left' ?_)
    exact iff_true_intro ht
  | release checktxid amountReleased =>
    have hpair : (PaymentsKind.release.decode minrelease (release checktxid amountReleased).encode
        = some (release checktxid amountReleased)) ↔
        decodePaymentsReleaseOpRet (release checktxid amountReleased).encode
          = some (checktxid, amountReleased) := by
      simp only [PaymentsKind.decode, Option.map_eq_some_iff, release.injEq, Prod.exists]
      constructor
      · rintro ⟨x, a, h, rfl, rfl⟩
        exact h
      · intro h
        exact ⟨checktxid, amountReleased, h, rfl, rfl⟩
    refine hpair.trans ?_
    refine (decodePayments_encodePayments codec_release 'R' hbody).trans (and_congr_left' ?_)
    exact iff_true_intro ht
  | list plan =>
    simp only [kind, PaymentsKind.decode, Option.map_eq_some_iff, list.injEq, exists_eq_right,
      decodeListPlan, Option.filter_eq_some_iff, decide_eq_true_eq]
    rw [and_comm, Readable, and_assoc]
    refine and_congr_right fun _ => ?_
    refine (decodePayments_encodePayments codec_listPlan 'C' hbody).trans (and_congr_left' ?_)
    obtain ⟨hl, hr, ha, hxs⟩ := ht
    exact ⟨fun h => h.2.2.2.1, fun h => ⟨hl, hr, ha, h, hxs⟩⟩
  | snapshot plan =>
    simp only [kind, PaymentsKind.decode, Option.map_eq_some_iff, snapshot.injEq, exists_eq_right]
    refine (decodePayments_encodePayments codec_snapshotPlan 'S' hbody).trans (and_congr_left' ?_)
    obtain ⟨hl, hr, hm, ht, hb, hf⟩ := ht
    exact ⟨fun h => h.2.2.2.2.2.2, fun h => ⟨hr, hl, hm, ht, hb, hf, h⟩⟩
  | tokens plan =>
    simp only [kind, PaymentsKind.decode, Option.map_eq_some_iff, tokens.injEq, exists_eq_right,
      Readable, false_and, iff_false]
    exact decode_tokens_ne plan minrelease

/-- **A payments message survives exactly when it is not an `'O'`.** A message whose fields
have their types' widths is returned unchanged by its own decoder and by no other if and only
if it is not a token plan, a list names more than one transaction, no list is longer than the
reader accepts and the payload is shorter than `2 ^ 32`. -/
theorem payments_roundTrip_iff (m : PaymentsMessage) (ht : m.WellTyped) :
    m.RoundTrips ↔ m.Readable ∧ m.body.length + 2 < 2 ^ 32 := by
  constructor
  · intro h
    exact (decode_encode_iff m ht 0).1 (h 0).1
  · intro h minrelease
    exact ⟨(decode_encode_iff m ht minrelease).2 h, fun k hk => PaymentsKind.decode_encode_other hk _⟩

/-- A release of 5 satoshis from a plan. -/
def sampleRelease : PaymentsMessage := .release 7 5

/-- A token plan: the holders ranked from 0 to 100, released 1 at a time. -/
def sampleTokens : TokensPlan := ⟨⟨10, 1, 10000, 100, 0, 1, []⟩, 9⟩

/-- The hypothesis of `payments_roundTrip_iff` is satisfiable: the release survives. -/
theorem payments_roundTrip_release : sampleRelease.RoundTrips :=
  (payments_roundTrip_iff sampleRelease
    ⟨by norm_num, by norm_num [IntRange]⟩).2 ⟨trivial, by decide⟩

/-- **A token plan is not read back.** No decoder returns this one. -/
theorem tokensPlan_not_read :
    (tokens sampleTokens).WellTyped ∧ ¬ (tokens sampleTokens).RoundTrips ∧
      ∀ (minrelease : ℤ) (k : PaymentsKind),
        k.decode minrelease (tokens sampleTokens).encode = none := by
  have hnone : ∀ (minrelease : ℤ) (k : PaymentsKind),
      k.decode minrelease (tokens sampleTokens).encode = none := by
    intro minrelease k
    cases k <;> rfl
  refine ⟨by norm_num [WellTyped, IntRange, sampleTokens], fun h => ?_, hnone⟩
  exact absurd ((hnone 0 .tokens).symm.trans (h 0).1) (by simp)

end PaymentsMessage

end Komodo
