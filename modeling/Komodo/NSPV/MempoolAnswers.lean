/-
# What the queries of the mempool answer

`NSPV_mempoolfuncs` counts inputs and outputs over all transactions of the mempool, so a position
that it gives is the one inside the transaction only when the transactions before have no inputs,
or no outputs (`mempoolfuncs_isSpent`, `mempoolfuncs_address`).  For an evaluation code it reads the
opreturns of transactions with two outputs at least (`mempoolfuncs_ccEvalcode`).

For `NSPV_CC_TXIDS` an opreturn of another evaluation code is not left out, the function id is
looked at for channels and tokens only, and the transaction id that was asked for is hidden behind a
variable of the same name (`passes`).  `mempoolfuncs_exact_iff` says when the answers are the ones
that are asked for.
-/

import Komodo.CC.Dispatch
import Komodo.Lib.Grouped
import Komodo.NSPV.RequestBounds
import Komodo.Script.PushedData

namespace Komodo
namespace NSPV
namespace Server

open Grouped List
open Runs
open Wire hiding CTransaction
open BlockIndexDB hiding CBlockIndex

variable {S : Server}

/-- The query is answered with these ids, and with this position when there is one. -/
def Answers (run : Except BadAccess MempoolFound) (txids : List Uint256) (vindex : Option ℕ) :
    Prop :=
  ∃ found, run = .ok found ∧ found.txids = txids ∧ ∀ i ∈ vindex, found.vindex = (i : ℤ)

theorem answers_of_eq {run : Except BadAccess MempoolFound} {found : MempoolFound}
    {txids : List Uint256} {vindex : Option ℕ} (h : run = .ok found) :
    Answers run txids vindex ↔ found.txids = txids ∧ ∀ i ∈ vindex, found.vindex = (i : ℤ) := by
  rw [Answers, h]
  simp only [Except.ok.injEq, exists_eq_left']

/-! ### Inputs -/

/-- Whether an input spends an output. -/
def spends (txid : Uint256) (vout : ℤ) (txin : CTxIn) : Bool :=
  (txin.prevout.n : ℤ) = vout % 2 ^ 32 ∧ txin.prevout.hash = txid

/-- The transaction that spends an output, and the position of the input in it. -/
def spender (S : Server) (txid : Uint256) (vout : ℤ) : Option (Wire.CTransaction × ℕ) :=
  firstMatch (·.vin) (spends txid vout) S.mempool

theorem mempoolfuncs_isSpent (coinaddr : Bytes) (isCC : Bool) (txid : Uint256) (vout : ℤ) :
    S.mempoolfuncs coinaddr isCC NSPV_MEMPOOL_ISSPENT txid vout
      = .ok (match S.spender txid vout with
        | some (tx, i) => {
            num := 1
            vindex := (count (·.vin) (beforeFirst (·.vin) (spends txid vout) S.mempool) + i : ℕ)
            txids := [tx.hash] }
        | none => {}) := by
  by_cases hempty : S.mempool = []
  · have hnone : S.spender txid vout = none := by
      rw [spender, hempty]
      rfl
    rw [hnone, mempoolfuncs, if_neg (by decide), if_pos hempty]
    rfl
  rw [mempoolfuncs, if_neg (by decide), if_neg hempty, if_neg (by decide), if_neg (by decide),
    if_neg (by decide), if_pos rfl]
  have hrow := find?_zipIdx_concat Wire.CTransaction.hash (·.vin) (spends txid vout) S.mempool 0
  change (((S.inAll (·.vin)).zipIdx.find? fun i =>
    (i.1.2.prevout.n : ℤ) = vout % 2 ^ 32 ∧ i.1.2.prevout.hash = txid).map _) = _ at hrow
  rw [← spender] at hrow
  cases hfound : S.spender txid vout with
  | none =>
    rw [hfound, Option.map_none, Option.map_eq_none_iff] at hrow
    rw [hrow]
    rfl
  | some r =>
    rw [hfound, Option.map_some, Option.map_eq_some_iff] at hrow
    obtain ⟨⟨⟨hash, txin⟩, vini⟩, hfind, hr⟩ := hrow
    rw [hfind]
    rw [Prod.mk.injEq, Nat.zero_add] at hr
    obtain ⟨rfl, rfl⟩ := hr
    rfl

variable {txid : Uint256}

theorem spender_ne_none_iff {vout : ℤ} :
    S.spender txid vout ≠ none ↔ ∃ tx ∈ S.mempool, tx.vin.any (spends txid vout) = true := by
  rw [spender, Ne, firstMatch_eq_none_iff]
  push Not
  simp only [Bool.not_eq_false]

/-- The transactions before the one that spends an output have no inputs. -/
def NoInputsBefore (S : Server) (txid : Uint256) (vout : ℤ) : Prop :=
  (∃ tx ∈ S.mempool, tx.vin.any (spends txid vout) = true) →
    ∀ tx ∈ beforeFirst (·.vin) (spends txid vout) S.mempool, tx.vin = []

theorem answers_isSpent_iff (coinaddr : Bytes) (isCC : Bool) (txid : Uint256) (vout : ℤ) :
    Answers (S.mempoolfuncs coinaddr isCC NSPV_MEMPOOL_ISSPENT txid vout)
        ((S.spender txid vout).toList.map (·.1.hash)) ((S.spender txid vout).map (·.2)) ↔
      NoInputsBefore S txid vout := by
  rw [answers_of_eq (mempoolfuncs_isSpent coinaddr isCC txid vout), NoInputsBefore,
    ← spender_ne_none_iff]
  cases S.spender txid vout with
  | none => exact iff_of_true ⟨rfl, nofun⟩ fun h => absurd rfl h
  | some r =>
    rw [← count_eq_zero_iff fun tx : Wire.CTransaction => tx.vin]
    simp only [Option.toList_some, map_cons, map_nil, Option.map_some, Option.mem_some_iff,
      forall_eq', true_and, ne_eq, reduceCtorEq, not_false_eq_true, true_implies]
    omega

/-! ### Outputs -/

/-- Whether an output is one to an address. -/
def pays (S : Server) (coinaddr : Bytes) (isCC : Bool) (out : CTxOut) : Bool :=
  isPayToCryptoCondition out.scriptPubKey = isCC ∧ S.getscriptaddress out.scriptPubKey = coinaddr

/-- The id of each transaction, once for each of its outputs to an address. -/
def payingTxids (S : Server) (coinaddr : Bytes) (isCC : Bool) : List Uint256 :=
  S.mempool.flatMap fun tx => List.replicate (tx.vout.countP (S.pays coinaddr isCC)) tx.hash

/-- The last transaction with an output to an address, and the position of its last one. -/
def lastPaying (S : Server) (coinaddr : Bytes) (isCC : Bool) : Option (Wire.CTransaction × ℕ) :=
  lastMatch (·.vout) (S.pays coinaddr isCC) S.mempool

theorem mempoolfuncs_address (coinaddr : Bytes) (isCC : Bool) (txid : Uint256) (vout : ℤ) :
    ∃ found, S.mempoolfuncs coinaddr isCC NSPV_MEMPOOL_ADDRESS txid vout = .ok found
      ∧ found.txids = S.payingTxids coinaddr isCC
      ∧ found.vindex = ((S.lastPaying coinaddr isCC).map fun r =>
        ((count (·.vout) (beforeLast (·.vout) (S.pays coinaddr isCC) S.mempool) + r.2 : ℕ) :
          ℤ)).getD (-1) := by
  by_cases hempty : S.mempool = []
  · refine ⟨{}, ?_, ?_, ?_⟩
    · rw [mempoolfuncs, if_neg (by decide), if_pos hempty]
      rfl
    · rw [payingTxids, hempty]
      rfl
    · rw [lastPaying, hempty]
      rfl
  rw [mempoolfuncs, if_neg (by decide), if_neg hempty, if_neg (by decide), if_neg (by decide),
    if_neg (by decide), if_neg (by decide), if_pos rfl]
  refine ⟨_, rfl, map_key_filter_zipIdx_concat Wire.CTransaction.hash (·.vout)
    (S.pays coinaddr isCC) S.mempool 0, ?_⟩
  have hrow := getLast?_zipIdx_concat Wire.CTransaction.hash (·.vout)
    (S.pays coinaddr isCC) S.mempool 0
  rw [← lastPaying] at hrow
  have hmap := congrArg (Option.map fun i : ℕ => (i : ℤ)) hrow
  rw [Option.map_map, Option.map_map] at hmap
  refine (congrArg (Option.getD · (-1)) hmap).trans ?_
  simp only [Function.comp_def, Nat.zero_add]

theorem lastPaying_ne_none_iff {coinaddr : Bytes} {isCC : Bool} :
    S.lastPaying coinaddr isCC ≠ none ↔
      ∃ tx ∈ S.mempool, tx.vout.any (S.pays coinaddr isCC) = true := by
  rw [lastPaying, Ne, lastMatch_eq_none_iff]
  push Not
  simp only [Bool.not_eq_false]

/-- The transactions before the last one with an output to an address have no outputs. -/
def NoOutputsBefore (S : Server) (coinaddr : Bytes) (isCC : Bool) : Prop :=
  (∃ tx ∈ S.mempool, tx.vout.any (S.pays coinaddr isCC) = true) →
    ∀ tx ∈ beforeLast (·.vout) (S.pays coinaddr isCC) S.mempool, tx.vout = []

theorem answers_address_iff (coinaddr : Bytes) (isCC : Bool) (txid : Uint256) (vout : ℤ) :
    Answers (S.mempoolfuncs coinaddr isCC NSPV_MEMPOOL_ADDRESS txid vout)
        (S.payingTxids coinaddr isCC) ((S.lastPaying coinaddr isCC).map (·.2)) ↔
      NoOutputsBefore S coinaddr isCC := by
  obtain ⟨found, hrun, htxids, hvindex⟩ := mempoolfuncs_address (S := S) coinaddr isCC txid vout
  rw [answers_of_eq hrun, NoOutputsBefore, ← lastPaying_ne_none_iff, and_iff_right htxids, hvindex]
  cases S.lastPaying coinaddr isCC with
  | none => exact iff_of_true nofun fun h => absurd rfl h
  | some r =>
    rw [← count_eq_zero_iff fun tx : Wire.CTransaction => tx.vout]
    simp only [Option.map_some, Option.getD_some, Option.mem_some_iff, forall_eq', ne_eq,
      reduceCtorEq, not_false_eq_true, true_implies]
    omega

/-! ### Evaluation codes -/

/-- Whether the opreturn of the last output begins with two bytes. -/
def beginsWith (evalcode func : UInt8) (tx : Wire.CTransaction) : Bool :=
  tx.vout.getLast?.any fun out => (getOpReturnData out.scriptPubKey).take 2 = [evalcode, func]

theorem push_of_data {pc rest : CScript} {opcode : UInt8} {data : Bytes}
    (h : getOp pc = some (opcode, data, rest)) (hdata : data ≠ []) :
    OP_0 < opcode ∧ opcode ≤ OP_PUSHDATA4 := by
  cases pc with
  | nil => exact absurd h nofun
  | cons first pc =>
    by_cases hpush : first ≤ OP_PUSHDATA4
    · obtain ⟨rfl, hsize⟩ := (getOp_cons_eq_some hpush).1 h
      refine ⟨UInt8.lt_of_le_of_ne (UInt8.zero_le) fun hzero => hdata ?_, hpush⟩
      rw [← hzero, pushSize, if_pos (by decide), Option.some.injEq, Prod.mk.injEq] at hsize
      exact length_eq_zero_iff.1 hsize.1.symm
    · rw [getOp, if_neg hpush] at h
      cases h
      exact absurd rfl hdata

theorem opReturnPushed_of_data {s : CScript} (h : getOpReturnData s ≠ []) :
    opReturnPushed s = true := by
  unfold getOpReturnData at h
  unfold opReturnPushed
  rcases hget : getOp s with _ | ⟨opcode, _, pc⟩
  · simp [hget] at h
  by_cases hreturn : opcode = OP_RETURN
  · rcases hget' : getOp pc with _ | ⟨opcode', data, rest⟩
    · simp [hget, hreturn, hget'] at h
    · simp only [hget, hreturn, hget', if_true, ne_eq] at h
      simp only [hreturn, hget', if_true, decide_eq_true_eq]
      exact push_of_data hget' h
  · simp [hget, hreturn] at h

variable {evalcode func : UInt8}

theorem readEvalcode_eq {opret : Bytes} (h : ReadableFor evalcode opret) :
    (do if (← byteAt .opret opret 0) = evalcode then return (← byteAt .opret opret 1) = func
        else return false : Except BadAccess Bool)
      = .ok (decide (opret.take 2 = [evalcode, func])) := by
  match opret with
  | [] => exact absurd rfl h.1
  | [first] =>
    have hne : first ≠ evalcode := fun heq => absurd (h.2 (congrArg some heq)) (by simp)
    rw [bind_of_eq_ok (byteAt_eq (Nat.succ_pos _))]
    exact (if_neg hne).trans (congrArg Except.ok (decide_eq_false (by simp)).symm)
  | first :: second :: rest =>
    rw [bind_of_eq_ok (byteAt_eq (Nat.succ_pos _))]
    dsimp only [getElem_cons_zero]
    rw [bind_of_eq_ok (byteAt_eq (by simp))]
    by_cases heval : first = evalcode
    · have hbytes : second = func ↔ (first :: second :: rest).take 2 = [evalcode, func] := by
        simp [heval]
      exact (if_pos heval).trans (congrArg Except.ok (decide_eq_decide.2 hbytes))
    · have hbytes : (first :: second :: rest).take 2 ≠ [evalcode, func] := by simp [heval]
      exact (if_neg heval).trans (congrArg Except.ok (decide_eq_false hbytes).symm)

variable {tx : Wire.CTransaction}

theorem hasEvalcode_eq (h : EvalcodeReadable evalcode tx) :
    hasEvalcode evalcode func tx
      = .ok (decide (2 ≤ tx.vout.length) && beginsWith evalcode func tx) := by
  by_cases hfew : tx.vout.length ≤ 1
  · rw [hasEvalcode, if_pos hfew, decide_eq_false (by omega)]
    rfl
  have hlen : 2 ≤ tx.vout.length := by omega
  obtain ⟨out, hout⟩ : ∃ out, tx.vout.getLast? = some out :=
    ⟨_, getLast?_eq_some_getLast (length_pos_iff.1 (by omega))⟩
  rw [hasEvalcode, if_neg hfew, bind_of_eq_ok (outputAt_last hout), decide_eq_true hlen,
    Bool.true_and, beginsWith, hout]
  dsimp only [Option.any_some]
  by_cases hpushed : opReturnPushed out.scriptPubKey = true
  · rw [if_neg (not_not.2 hpushed)]
    exact readEvalcode_eq (h hlen out hout hpushed)
  · have hnil : getOpReturnData out.scriptPubKey = [] :=
      not_not.1 fun hdata => hpushed (opReturnPushed_of_data hdata)
    rw [if_pos hpushed, hnil]
    rfl

theorem ccEvalcodeLoop_eq {txs : List Wire.CTransaction}
    (h : ∀ tx ∈ txs, EvalcodeReadable evalcode tx) :
    ccEvalcodeLoop evalcode func txs = .ok ((txs.filter fun tx =>
      decide (2 ≤ tx.vout.length) && beginsWith evalcode func tx).map (·.hash)) := by
  induction txs with
  | nil => rfl
  | cons tx rest ih =>
    rw [forall_mem_cons] at h
    rw [ccEvalcodeLoop, bind_of_eq_ok (hasEvalcode_eq h.1), filter_cons]
    cases decide (2 ≤ tx.vout.length) && beginsWith evalcode func tx with
    | true =>
      rw [if_pos rfl, if_pos rfl, bind_of_eq_ok (ih h.2)]
      rfl
    | false =>
      rw [if_neg Bool.false_ne_true, if_neg Bool.false_ne_true]
      exact ih h.2

theorem mempoolfuncs_ccEvalcode {vout : ℤ}
    (h : ∀ tx ∈ S.mempool, EvalcodeReadable (voutByte vout 0) tx) (coinaddr : Bytes) (isCC : Bool)
    (txid : Uint256) :
    ∃ found, S.mempoolfuncs coinaddr isCC NSPV_MEMPOOL_CCEVALCODE txid vout = .ok found
      ∧ found.txids = (S.mempool.filter fun tx => decide (2 ≤ tx.vout.length)
        && beginsWith (voutByte vout 0) (voutByte vout 1) tx).map (·.hash) := by
  by_cases hempty : S.mempool = []
  · refine ⟨{}, ?_, ?_⟩
    · rw [mempoolfuncs, if_neg (by decide), if_pos hempty]
      rfl
    · rw [hempty]
      rfl
  rw [mempoolfuncs, if_neg (by decide), if_neg hempty, if_neg (by decide), if_neg (by decide),
    if_pos rfl, bind_of_eq_ok (ccEvalcodeLoop_eq h)]
  exact ⟨_, rfl, rfl⟩

/-- The opreturns can be read, and none that is asked for is the only output of its transaction. -/
def OpretsReadable (S : Server) (vout : ℤ) : Prop :=
  ∀ tx ∈ S.mempool, EvalcodeReadable (voutByte vout 0) tx
    ∧ (beginsWith (voutByte vout 0) (voutByte vout 1) tx = true → 2 ≤ tx.vout.length)

theorem answers_ccEvalcode_iff (coinaddr : Bytes) (isCC : Bool) (txid : Uint256) (vout : ℤ) :
    Answers (S.mempoolfuncs coinaddr isCC NSPV_MEMPOOL_CCEVALCODE txid vout)
        ((S.mempool.filter (beginsWith (voutByte vout 0) (voutByte vout 1))).map (·.hash)) none ↔
      OpretsReadable S vout := by
  by_cases hread : ∀ tx ∈ S.mempool, EvalcodeReadable (voutByte vout 0) tx
  swap
  · refine iff_of_false ?_ fun h => hread fun tx htx => (h tx htx).1
    rintro ⟨found, hrun, -⟩
    exact hread ((completes_mempoolfuncs.1 ⟨found, hrun⟩).ccEvalcode rfl)
  obtain ⟨found, hrun, htxids⟩ := mempoolfuncs_ccEvalcode hread coinaddr isCC txid
  have hmore : ∀ tx ∈ S.mempool, (decide (2 ≤ tx.vout.length)
      && beginsWith (voutByte vout 0) (voutByte vout 1) tx) = true →
        beginsWith (voutByte vout 0) (voutByte vout 1) tx = true :=
    fun tx _ h => (Bool.and_eq_true_iff.1 h).2
  rw [answers_of_eq hrun, and_iff_left (nofun), htxids, eq_comm, map_filter_eq_iff hmore]
  refine forall₂_congr fun tx htx => ?_
  rw [and_iff_right (hread tx htx), Bool.and_eq_true, decide_eq_true_iff]
  exact forall_congr' fun hbegins => and_iff_left hbegins

/-! ### Transactions of an address -/

/-- `EVAL_ROGUE` of `src/src/cc/cclib.cpp`. -/
def EVAL_ROGUE : UInt8 := 17

/-- The evaluation codes that the switch of `NSPV_mempoolfuncs` names for opreturns with the id of a
transaction; there is no `EVAL_GAMES`. -/
def carriesReference (eval : UInt8) : Bool :=
  eval ∈ [EVAL_CHANNELS, EVAL_ORACLES, EVAL_IMPORTGATEWAY, EVAL_ROGUE]

/-- The id in such an opreturn. -/
def readReference : Unserialize Uint256 := do
  let _ ← Unserialize.uint8
  let _ ← Unserialize.uint8
  Unserialize.uint256

/-- Whether an opreturn has the evaluation code, the function id and the id that are asked for. -/
def requested (eval func : UInt8) (txid : Uint256) (opret : Bytes) : Bool :=
  opret.head? = some eval ∧ (func = 0 ∨ opret[1]? = some func)
    ∧ (carriesReference eval = false ∨ txid = 0 ∨ (readReference opret).map Prod.fst = some txid)

/-- Whether an opreturn is left in. -/
def passes (eval func : UInt8) (opret : Bytes) : Bool :=
  opret.length ≤ 2 ∨ opret.head? ≠ some eval ∨ (eval ≠ EVAL_CHANNELS ∧ eval ≠ EVAL_TOKENS)
    ∨ func = 0 ∨ opret[1]? = some func

theorem passesFilter_eq (eval func : UInt8) (opret : Bytes) :
    passesFilter eval func opret = .ok (passes eval func opret) := by
  by_cases hshort : opret.length ≤ 2
  · exact (if_pos hshort).trans (congrArg Except.ok (decide_eq_true (.inl hshort)).symm)
  obtain ⟨first, second, rest, rfl⟩ : ∃ first second rest, opret = first :: second :: rest := by
    match opret with
    | [] => exact absurd (Nat.zero_le 2) hshort
    | [first] => exact absurd (Nat.le_succ 1) hshort
    | first :: second :: rest => exact ⟨first, second, rest, rfl⟩
  rw [passesFilter, if_neg hshort, bind_of_eq_ok (byteAt_eq (Nat.succ_pos _))]
  dsimp only [getElem_cons_zero]
  by_cases heval : first = eval
  swap
  · rw [if_pos heval]
    exact congrArg Except.ok (decide_eq_true (.inr (.inl (by simpa using heval)))).symm
  rw [if_neg (not_not.2 heval)]
  by_cases hcase : eval = EVAL_CHANNELS ∨ eval = EVAL_TOKENS
  swap
  · rw [if_neg hcase]
    exact congrArg Except.ok (decide_eq_true (.inr (.inr (.inl (not_or.1 hcase))))).symm
  rw [if_pos hcase, bind_of_eq_ok (byteAt_eq (by simp))]
  refine congrArg Except.ok (decide_eq_decide.2 ?_)
  -- the tests before have failed
  have hhead : ¬ (first :: second :: rest).head? ≠ some eval := not_not.2 (congrArg some heval)
  have hother : ¬ (eval ≠ EVAL_CHANNELS ∧ eval ≠ EVAL_TOKENS) := fun h => hcase.elim h.1 h.2
  rw [or_iff_right hshort, or_iff_right hhead, or_iff_right hother]
  simp

theorem passes_of_requested {eval func : UInt8} {opret : Bytes}
    (h : requested eval func txid opret = true) : passes eval func opret = true := by
  obtain ⟨-, hfunc, -⟩ := of_decide_eq_true h
  exact decide_eq_true (.inr (.inr (.inr hfunc)))

/-- The bytes that are looked at in the opreturn of the last output. -/
def lastOpret (tx : Wire.CTransaction) : Bytes :=
  (tx.vout.getLast?.map fun out => (channelsData out.scriptPubKey).2).getD []

/-- Whether a row is one of a transaction that is asked for. -/
def asked (S : Server) (eval func : UInt8) (txid : Uint256) (it : AddressTx) : Bool :=
  (S.getTransaction it.txhash {}).found
    && requested eval func txid (lastOpret (S.getTransaction it.txhash {}).tx)

/-- The rows that are left in. -/
def passing (S : Server) (filtered : Bool) (eval func : UInt8) (tx : Wire.CTransaction)
    (rows : List AddressTx) : List AddressTx :=
  ((rows.zip (loaded S tx rows)).filter fun r => !filtered || passes eval func (lastOpret r.2)).map
    Prod.fst

theorem length_loaded (tx : Wire.CTransaction) (rows : List AddressTx) :
    (loaded S tx rows).length = rows.length := by
  induction rows generalizing tx with
  | nil => rfl
  | cons it rest ih => exact congrArg (· + 1) (ih _)

theorem passing_unfiltered (eval func : UInt8) (tx : Wire.CTransaction) (rows : List AddressTx) :
    S.passing false eval func tx rows = rows := by
  have hall : (rows.zip (loaded S tx rows)).filter
      (fun r => !false || passes eval func (lastOpret r.2)) = rows.zip (loaded S tx rows) :=
    filter_eq_self.2 fun _ _ => rfl
  rw [passing, hall, map_fst_zip (length_loaded tx rows).ge]

theorem passing_cons (eval func : UInt8) (tx : Wire.CTransaction) (it : AddressTx)
    (rest : List AddressTx) : S.passing true eval func tx (it :: rest)
      = if passes eval func (lastOpret (S.getTransaction it.txhash tx).tx)
        then it :: S.passing true eval func (S.getTransaction it.txhash tx).tx rest
        else S.passing true eval func (S.getTransaction it.txhash tx).tx rest := by
  rw [passing, loaded, zip_cons_cons]
  by_cases hpass : passes eval func (lastOpret (S.getTransaction it.txhash tx).tx) = true
  · rw [if_pos hpass]
    exact congrArg (map Prod.fst) (filter_cons_of_pos hpass)
  · rw [if_neg hpass]
    exact congrArg (map Prod.fst) (filter_cons_of_neg hpass)

theorem push_drop (it : AddressTx) (kept : List AddressTx) (skipcount n : ℤ)
    (txids : List Uint256) : (if skipcount ≤ n then txids ++ [it.txhash] else txids)
        ++ (kept.drop (skipcount - (n + 1)).toNat).map (·.txhash)
      = txids ++ (((it :: kept).drop (skipcount - n).toNat).map (·.txhash)) := by
  split_ifs with hskip
  · rw [Int.toNat_of_nonpos (by omega), Int.toNat_of_nonpos (by omega), append_assoc]
    rfl
  · rw [show (skipcount - n).toNat = (skipcount - (n + 1)).toNat + 1 by omega, drop_succ_cons]

theorem ccTxidsLoop_eq (filtered : Bool) (eval func : UInt8) (skipcount : ℤ)
    (tx : Wire.CTransaction) (n : ℤ) (txids : List Uint256) (rows : List AddressTx)
    (hout : filtered = true → ∀ tx' ∈ loaded S tx rows, tx'.vout ≠ []) :
    S.ccTxidsLoop filtered eval func skipcount tx n txids rows
      = .ok (n + (S.passing filtered eval func tx rows).length, txids
        ++ ((S.passing filtered eval func tx rows).drop (skipcount - n).toNat).map (·.txhash)) := by
  induction rows generalizing tx n txids with
  | nil =>
    rw [passing, zip_nil_left, filter_nil, map_nil, drop_nil, map_nil,
      append_nil, length_nil, Nat.cast_zero, Int.add_zero]
    rfl
  | cons it rest ih =>
    rw [ccTxidsLoop]
    cases filtered with
    | false =>
      rw [if_neg Bool.false_ne_true, ih _ _ _ (by rintro ⟨⟩), passing_unfiltered, passing_unfiltered,
        push_drop, length_cons]
      congr 2
      omega
    | true =>
      have hout := hout rfl
      rw [loaded, forall_mem_cons] at hout
      have hlast : ∃ out, (S.getTransaction it.txhash tx).tx.vout.getLast? = some out :=
        ⟨_, getLast?_eq_some_getLast hout.1⟩
      obtain ⟨out, hlast⟩ := hlast
      have hopret : (channelsData out.scriptPubKey).2
          = lastOpret (S.getTransaction it.txhash tx).tx := by
        rw [lastOpret, hlast]
        rfl
      rw [if_pos rfl, bind_of_eq_ok (outputAt_last hlast), hopret,
        bind_of_eq_ok (passesFilter_eq _ _ _), passing_cons]
      by_cases hpass : passes eval func (lastOpret (S.getTransaction it.txhash tx).tx) = true
      · rw [if_pos hpass, if_pos hpass, ih _ _ _ fun _ => hout.2, push_drop, length_cons]
        congr 2
        omega
      · rw [if_neg hpass, if_neg hpass]
        exact ih _ _ _ fun _ => hout.2

/-- A search that succeeds has the same result whatever was in its variable. -/
def FindsAfresh (S : Server) : Prop :=
  ∀ txid tx tx', (S.getTransaction txid tx).found = true →
    S.getTransaction txid tx' = S.getTransaction txid tx

theorem exists_of_mem_zip_loaded {rows : List AddressTx}
    {r : AddressTx × Wire.CTransaction} (h : r ∈ rows.zip (loaded S tx rows)) :
    ∃ tx', r.2 = (S.getTransaction r.1.txhash tx').tx := by
  induction rows generalizing tx with
  | nil => exact absurd h not_mem_nil
  | cons it rest ih =>
    rw [loaded, zip_cons_cons, mem_cons] at h
    obtain rfl | h := h
    · exact ⟨tx, rfl⟩
    · exact ih h

theorem passes_of_asked (hfresh : FindsAfresh S) {eval func : UInt8}
    {rows : List AddressTx} {r : AddressTx × Wire.CTransaction}
    (h : r ∈ rows.zip (loaded S tx rows)) (hasked : S.asked eval func txid r.1 = true) :
    passes eval func (lastOpret r.2) = true := by
  obtain ⟨hfound, hrequested⟩ := Bool.and_eq_true_iff.1 hasked
  obtain ⟨tx', hr⟩ := exists_of_mem_zip_loaded h
  rw [hr, hfresh _ _ tx' hfound]
  exact passes_of_requested hrequested

theorem length_passing_le (filtered : Bool) (eval func : UInt8) (tx : Wire.CTransaction)
    (rows : List AddressTx) : (S.passing filtered eval func tx rows).length ≤ rows.length := by
  have hzip : (rows.zip (loaded S tx rows)).length = rows.length := by
    rw [length_zip, length_loaded, Nat.min_self]
  rw [passing, length_map, ← hzip]
  exact length_filter_le _ _

/-- The rows that are left in are compared with those that are asked for, without the first ones of
each. -/
theorem drop_passing_eq_iff (hfresh : FindsAfresh S) (filtered : Bool) {eval func : UInt8}
    (tx : Wire.CTransaction) (rows : List AddressTx) {m n : ℕ} (hmn : m ≤ n) :
    ((S.passing filtered eval func tx rows).drop m).map (·.txhash)
        = ((rows.filter (S.asked eval func txid)).drop n).map (·.txhash) ↔
      (S.passing filtered eval func tx rows).length ≤ m ∨ n = m ∧
        ∀ it ∈ S.passing filtered eval func tx rows, S.asked eval func txid it = true := by
  -- both come from the rows with the transactions that are loaded for them
  have hasked : rows.filter (S.asked eval func txid) = ((rows.zip (loaded S tx rows)).filter
      fun r => S.asked eval func txid r.1).map Prod.fst := by
    conv_lhs => rw [← map_fst_zip (length_loaded (S := S) tx rows).ge]
    exact filter_map
  have hmore : ∀ r ∈ rows.zip (loaded S tx rows), S.asked eval func txid r.1 = true →
      (!filtered || passes eval func (lastOpret r.2)) = true :=
    fun r hr h => Bool.or_eq_true_iff.2 (.inr (passes_of_asked hfresh hr h))
  rw [hasked, passing, ← map_drop, ← map_drop, map_map, map_map,
    length_map, forall_mem_map, forall_mem_filter]
  exact map_drop_filter_eq_iff hmore (fun r : AddressTx × Wire.CTransaction => r.1.txhash) hmn

/-- The skip count in a request. -/
def skipOf (vout : ℤ) : ℕ := (vout / 2 ^ 16).toNat

theorem toNat_clampSkip (vout : ℤ) (count : ℕ) :
    (clampSkip (vout / 2 ^ 16) count).toNat = min (skipOf vout) (count - 1) := by
  unfold clampSkip skipOf
  dsimp only
  split_ifs with h
  · omega
  · omega

/-- The rows of an address that a request for an evaluation code and a function id leaves in. -/
def passingRows (S : Server) (coinaddr : Bytes) (isCC : Bool) (txid : Uint256) (vout : ℤ) :
    List AddressTx :=
  S.passing (txid ≠ 0 ∨ voutByte vout 0 ≠ 0) (voutByte vout 1) (voutByte vout 0) {}
    (S.ccTxids coinaddr isCC)

/-- Whether a request asks for a row. -/
def askedRow (S : Server) (txid : Uint256) (vout : ℤ) (it : AddressTx) : Bool :=
  S.asked (voutByte vout 1) (voutByte vout 0) txid it

theorem mempoolfuncs_ccTxids {coinaddr : Bytes} {isCC : Bool} {vout : ℤ}
    (hout : txid ≠ 0 ∨ voutByte vout 0 ≠ 0 →
      ∀ tx ∈ loaded S {} (S.ccTxids coinaddr isCC), tx.vout ≠ []) :
    ∃ found, S.mempoolfuncs coinaddr isCC NSPV_CC_TXIDS txid vout = .ok found
      ∧ found.txids = ((S.passingRows coinaddr isCC txid vout).drop
        (min (skipOf vout) ((S.ccTxids coinaddr isCC).length - 1))).map (·.txhash) := by
  have hrun := ccTxidsLoop_eq (decide (txid ≠ 0 ∨ voutByte vout 0 ≠ 0)) (voutByte vout 1)
    (voutByte vout 0) (clampSkip (vout / 2 ^ 16) (S.ccTxids coinaddr isCC).length) {} 0 []
    (S.ccTxids coinaddr isCC) fun h => hout (of_decide_eq_true h)
  rw [mempoolfuncs, if_pos rfl, ccTxidsFuncs]
  dsimp only
  rw [bind_of_eq_ok hrun, Int.sub_zero, toNat_clampSkip]
  exact ⟨_, rfl, rfl⟩

/-- An output is found for each row that is looked at, and either no row is left in behind the skip
count or all that are left in are asked for. -/
structure RowsAsked (S : Server) (coinaddr : Bytes) (isCC : Bool) (txid : Uint256) (vout : ℤ) :
    Prop where
  outputs : txid ≠ 0 ∨ voutByte vout 0 ≠ 0 →
    ∀ tx ∈ loaded S {} (S.ccTxids coinaddr isCC), tx.vout ≠ []
  rows : (S.passingRows coinaddr isCC txid vout).length
      ≤ min (skipOf vout) ((S.ccTxids coinaddr isCC).length - 1)
    ∨ skipOf vout < (S.ccTxids coinaddr isCC).length
      ∧ ∀ it ∈ S.passingRows coinaddr isCC txid vout, S.askedRow txid vout it = true

theorem answers_ccTxids_iff (hfresh : FindsAfresh S) (coinaddr : Bytes) (isCC : Bool)
    (txid : Uint256) (vout : ℤ) :
    Answers (S.mempoolfuncs coinaddr isCC NSPV_CC_TXIDS txid vout)
        ((((S.ccTxids coinaddr isCC).filter (S.askedRow txid vout)).drop (skipOf vout)).map
          (·.txhash)) none ↔ RowsAsked S coinaddr isCC txid vout := by
  by_cases hout : txid ≠ 0 ∨ voutByte vout 0 ≠ 0 →
      ∀ tx ∈ loaded S {} (S.ccTxids coinaddr isCC), tx.vout ≠ []
  swap
  · refine iff_of_false ?_ fun h => hout h.outputs
    rintro ⟨found, hrun, -⟩
    exact hout ((completes_mempoolfuncs.1 ⟨found, hrun⟩).ccTxids rfl)
  obtain ⟨found, hrun, htxids⟩ := mempoolfuncs_ccTxids hout
  rw [answers_of_eq hrun, and_iff_left nofun, htxids]
  have hle := length_passing_le (S := S) (txid ≠ 0 ∨ voutByte vout 0 ≠ 0) (voutByte vout 1)
    (voutByte vout 0) {} (S.ccTxids coinaddr isCC)
  refine Iff.trans (drop_passing_eq_iff hfresh (txid ≠ 0 ∨ voutByte vout 0 ≠ 0) {}
    (S.ccTxids coinaddr isCC) (Nat.min_le_left _ _)) (Iff.trans ?_ ⟨fun h => ⟨hout, h⟩, (·.rows)⟩)
  change (S.passingRows coinaddr isCC txid vout).length ≤ _ at hle
  change (S.passingRows coinaddr isCC txid vout).length ≤ _ ∨ _ ↔ _
  by_cases hempty : (S.ccTxids coinaddr isCC).length = 0
  · exact iff_of_true (.inl (by omega)) (.inl (by omega))
  · refine or_congr_right (and_congr_left' ?_)
    omega

/-! ### All answers -/

/-- **When the answers are the ones that are asked for**, for each of the queries. -/
theorem mempoolfuncs_exact_iff (hfresh : FindsAfresh S) (coinaddr : Bytes) (isCC : Bool)
    (txid : Uint256) (vout : ℤ) :
    (Answers (S.mempoolfuncs coinaddr isCC NSPV_MEMPOOL_ISSPENT txid vout)
        ((S.spender txid vout).toList.map (·.1.hash)) ((S.spender txid vout).map (·.2)) ↔
      NoInputsBefore S txid vout)
    ∧ (Answers (S.mempoolfuncs coinaddr isCC NSPV_MEMPOOL_ADDRESS txid vout)
        (S.payingTxids coinaddr isCC) ((S.lastPaying coinaddr isCC).map (·.2)) ↔
      NoOutputsBefore S coinaddr isCC)
    ∧ (Answers (S.mempoolfuncs coinaddr isCC NSPV_MEMPOOL_CCEVALCODE txid vout)
        ((S.mempool.filter (beginsWith (voutByte vout 0) (voutByte vout 1))).map (·.hash)) none ↔
      OpretsReadable S vout)
    ∧ (Answers (S.mempoolfuncs coinaddr isCC NSPV_CC_TXIDS txid vout)
        ((((S.ccTxids coinaddr isCC).filter (S.askedRow txid vout)).drop (skipOf vout)).map
          (·.txhash)) none ↔
      RowsAsked S coinaddr isCC txid vout) :=
  ⟨answers_isSpent_iff coinaddr isCC txid vout, answers_address_iff coinaddr isCC txid vout,
    answers_ccEvalcode_iff coinaddr isCC txid vout,
    answers_ccTxids_iff hfresh coinaddr isCC txid vout⟩

namespace GenesisOnly

/-- A transaction with an input and an output. -/
def moved (hash : Uint256) (prevout : COutPoint) : Wire.CTransaction :=
  { vin := [{ prevout }], vout := [{ nValue := 1, scriptPubKey := [] }], hash }

/-- A faucet transaction. -/
def fauceted : Wire.CTransaction :=
  { vout := [{ nValue := 0, scriptPubKey := [OP_RETURN, 3, EVAL_FAUCET, 1, 2] }], hash := 3 }

/-- A node with two transactions in its mempool, and a faucet transaction in the address index. -/
def busy : Server :=
  { node with
    mempool := [moved 1 ⟨5, 0⟩, moved 2 ⟨7, 0⟩]
    ccTxids := fun _ _ => [{ txhash := 3, index := 0, satoshis := 0, blockHeight := 0 }]
    getTransaction := fun txid tx => if txid = 3 then ⟨true, fauceted, 1⟩ else ⟨false, tx, 0⟩ }

theorem findsAfresh_busy : FindsAfresh busy := by
  intro txid tx tx' hfound
  change (if txid = 3 then (⟨true, fauceted, 1⟩ : TxSearch) else ⟨false, tx, 0⟩).found = true
    at hfound
  by_cases htxid : txid = 3
  · exact (if_pos htxid).trans (if_pos htxid).symm
  · rw [if_neg htxid] at hfound
    exact absurd hfound nofun

/-- The output 0 of 5 is spent by the first transaction, and the faucet transaction is found among
the faucet transactions. -/
theorem mempoolfuncs_exact_busy :
    Answers (busy.mempoolfuncs [] false NSPV_MEMPOOL_ISSPENT 5 0)
        ((busy.spender 5 0).toList.map (·.1.hash)) ((busy.spender 5 0).map (·.2))
    ∧ Answers (busy.mempoolfuncs [] true NSPV_CC_TXIDS 0 0xe401)
        ((((busy.ccTxids [] true).filter (busy.askedRow 0 0xe401)).drop (skipOf 0xe401)).map
          (·.txhash)) none := by
  have hspent := (mempoolfuncs_exact_iff findsAfresh_busy [] false 5 0).1
  have hrows := (mempoolfuncs_exact_iff findsAfresh_busy [] true 0 0xe401).2.2.2
  exact ⟨hspent.2 fun _ => forall_mem_nil _, hrows.2 ⟨by decide, .inr (by decide)⟩⟩

/-- **The output 0 of 7 is spent by the first input of the transaction 2, which is named as its
second one, and a faucet transaction is listed as one of channels.** -/
theorem mempoolfuncs_not_exact :
    ¬ Answers (busy.mempoolfuncs [] false NSPV_MEMPOOL_ISSPENT 7 0)
        ((busy.spender 7 0).toList.map (·.1.hash)) ((busy.spender 7 0).map (·.2))
    ∧ ¬ Answers (busy.mempoolfuncs [] false NSPV_MEMPOOL_ADDRESS 0 0)
        (busy.payingTxids [] false) ((busy.lastPaying [] false).map (·.2))
    ∧ ¬ Answers (busy.mempoolfuncs [] true NSPV_CC_TXIDS 0 0xeb50)
        ((((busy.ccTxids [] true).filter (busy.askedRow 0 0xeb50)).drop (skipOf 0xeb50)).map
          (·.txhash)) none := by
  rw [answers_isSpent_iff, answers_address_iff, answers_ccTxids_iff findsAfresh_busy]
  refine ⟨fun h => ?_, fun h => ?_, fun h => ?_⟩
  · have hbefore := h ⟨moved 2 ⟨7, 0⟩, by decide, by decide⟩ (moved 1 ⟨5, 0⟩) (by decide)
    exact absurd hbefore nofun
  · have hbefore := h ⟨moved 2 ⟨7, 0⟩, by decide, by decide⟩ (moved 1 ⟨5, 0⟩) (by decide)
    exact absurd hbefore nofun
  · exact absurd h.rows (by decide)

end GenesisOnly

end Server
end NSPV
end Komodo
