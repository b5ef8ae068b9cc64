/-
# What the queries for addresses and the mempool read

A query for an address needs a tip.  The transactions of an address are looked up one after the
other with one variable `tx`, and the last output of what it holds is read
(`completes_ccTxidsLoop`); the opreturn of a transaction of the mempool is read at its first byte,
and at the second when the first is the one that is looked for (`completes_hasEvalcode`).  What
`DefaultCCChecker` reads is there (`completes_checkCC`).
-/

import Komodo.NSPV.HandlerBounds

namespace Komodo
namespace NSPV
namespace Server

open Runs List
open Wire hiding CTransaction
open BlockIndexDB hiding CBlockIndex

variable {S : Server}

/-! ### Addresses -/

variable {coinaddr : Bytes} {isCC : Bool}

theorem completes_getaddressutxos {skipcount : ℤ} {filter : ℕ} :
    Completes (S.getaddressutxos coinaddr isCC skipcount filter) ↔
      ((S.ccUnspents coinaddr isCC).length % 2 ^ 16 < S.maxlen S.staleHeight 56 → S.chain ≠ []) := by
  rw [getaddressutxos]
  dsimp only
  rw [completes_ite, completes_bind, completes_tipHeight]
  exact ⟨fun h hfew => (h.1 hfew).1,
    fun h => ⟨fun hfew => ⟨h hfew, fun _ _ => completes_pure _⟩, fun _ => completes_pure _⟩⟩

variable {skipcount vout : ℤ}

theorem completes_getaddresstxids {filter : ℕ} :
    Completes (S.getaddresstxids coinaddr isCC skipcount filter) ↔ S.chain ≠ [] := by
  rw [getaddresstxids]
  dsimp only
  rw [completes_bind, completes_tipHeight]
  refine ⟨And.left, fun h => ⟨h, fun _ _ => ?_⟩⟩
  rw [completes_ite]
  exact ⟨fun _ => completes_pure _, fun _ => completes_pure _⟩

theorem completes_checkedOpret {vouts : List CTxOut} (h : vouts ≠ []) (vParams : List Bytes) :
    Completes (checkedOpret vouts vParams) := by
  have hpos := length_pos_iff.2 h
  unfold checkedOpret
  dsimp only
  rw [completes_ite, completes_map, completes_outputAt]
  exact ⟨fun _ => by omega, fun _ => completes_pure _⟩

theorem completes_checkCC (txid : Uint256) (vouts : List CTxOut) (nvout : ℤ) (evalcode : UInt8)
    (funcids : Bytes) (filtertxid : Uint256) :
    Completes (checkCC txid vouts nvout evalcode funcids filtertxid) := by
  rw [checkCC, completes_ite]
  refine ⟨fun hrange => ?_, fun _ => completes_pure _⟩
  rw [completes_bind, completes_outputAt]
  refine ⟨hrange, fun out _ => ?_⟩
  split
  · rw [completes_bind]
    have hne : vouts ≠ [] := fun hnil => by simp [hnil] at hrange; omega
    exact ⟨completes_checkedOpret hne _, fun _ _ => completes_pure _⟩
  · exact completes_pure _

variable {txid : Uint256}

variable {evalcode func : UInt8}

theorem range_of_checkCC {vouts : List CTxOut} {nvout : ℤ}
    {funcids : Bytes} {filtertxid : Uint256}
    (h : checkCC txid vouts nvout evalcode funcids filtertxid = .ok true) :
    0 ≤ nvout ∧ nvout < vouts.length := by
  unfold checkCC at h
  split_ifs at h with hrange
  · exact hrange
  · exact absurd (Except.ok.inj h) nofun

theorem completes_selectUtxos (evalcode : UInt8) (funcids : Bytes) (filtertxid : Uint256)
    (rows : List Unspent) : Completes (S.selectUtxos evalcode funcids filtertxid rows) := by
  induction rows with
  | nil => exact completes_pure _
  | cons it rest ih =>
    rw [selectUtxos]
    simp only [completes_ite]
    refine ⟨fun _ => ih, fun _ => ⟨fun _ => ih, fun _ => ?_⟩⟩
    rw [completes_bind]
    refine ⟨completes_checkCC _ _ _ _ _ _, fun accepted haccepted => ?_⟩
    rw [completes_ite]
    refine ⟨fun htrue => ?_, fun _ => ih⟩
    rw [htrue] at haccepted
    rw [completes_bind, completes_outputAt]
    refine ⟨range_of_checkCC haccepted, fun _ _ => ?_⟩
    rw [completes_bind]
    exact ⟨ih, fun _ _ => completes_pure _⟩

theorem completes_getccmoduleutxos {amount : ℤ}
    {funcids : Bytes} {filtertxid : Uint256} :
    Completes (S.getccmoduleutxos coinaddr amount evalcode funcids filtertxid) ↔ S.chain ≠ [] := by
  rw [getccmoduleutxos]
  dsimp only
  rw [completes_bind, completes_tipHeight]
  refine ⟨And.left, fun h => ⟨h, fun _ _ => ?_⟩⟩
  rw [completes_bind]
  refine ⟨completes_selectUtxos _ _ _ _, fun selected _ => ?_⟩
  rw [completes_ite]
  refine ⟨fun _ => completes_pure _, fun _ => ?_⟩
  split
  · exact completes_pure _
  · rw [completes_ite]
    exact ⟨fun _ => completes_pure _, fun _ => completes_pure _⟩

/-! ### The mempool -/

theorem completes_passesFilter (eval func : UInt8) (vopret : Bytes) :
    Completes (passesFilter eval func vopret) := by
  rw [passesFilter, completes_ite]
  refine ⟨fun _ => completes_pure _, fun hlen => ?_⟩
  rw [completes_bind, completes_byteAt]
  refine ⟨by omega, fun _ _ => ?_⟩
  simp only [completes_ite, completes_bind, completes_byteAt]
  exact ⟨fun _ => completes_pure _,
    fun _ => ⟨fun _ => ⟨by omega, fun _ _ => completes_pure _⟩, fun _ => completes_pure _⟩⟩

/-- What the variable `tx` holds at each of the rows, when it holds `tx` before. -/
def loaded (S : Server) : (tx : Wire.CTransaction) → List AddressTx → List Wire.CTransaction
  | _, [] => []
  | tx, it :: rest =>
    (S.getTransaction it.txhash tx).tx :: loaded S (S.getTransaction it.txhash tx).tx rest

variable {tx : Wire.CTransaction}

theorem completes_lastOutput :
    Completes (outputAt tx.vout (tx.vout.length - 1)) ↔ tx.vout ≠ [] := by
  rw [completes_outputAt, ← length_pos_iff]
  omega

theorem completes_ccTxidsLoop {filtered : Bool} {eval : UInt8}
    {n : ℤ} {txids : List Uint256} {rows : List AddressTx} :
    Completes (S.ccTxidsLoop filtered eval func skipcount tx n txids rows) ↔
      (filtered = true → ∀ tx' ∈ loaded S tx rows, tx'.vout ≠ []) := by
  induction rows generalizing tx n txids with
  | nil => exact ⟨fun _ _ => forall_mem_nil _, fun _ => completes_pure _⟩
  | cons it rest ih =>
    rw [ccTxidsLoop]
    dsimp only
    rw [completes_ite]
    cases filtered with
    | false =>
      simp only [Bool.false_eq_true, false_implies, not_false_eq_true, true_implies, true_and,
        iff_true]
      exact ih.2 (by simp)
    | true =>
      simp only [true_implies, not_true_eq_false, false_implies, and_true, loaded,
        forall_mem_cons] at ih ⊢
      rw [completes_bind, completes_lastOutput]
      refine and_congr_right fun hout => ?_
      constructor
      · intro h
        obtain ⟨out, hout⟩ := completes_lastOutput.2 hout
        have hrest := h out hout
        rw [completes_bind] at hrest
        obtain ⟨⟨pass, hpass⟩, hrest⟩ := hrest
        have hrest := hrest pass hpass
        cases pass with
        | false => exact ih.1 hrest
        | true => exact ih.1 hrest
      · intro h out _
        rw [completes_bind]
        refine ⟨completes_passesFilter _ _ _, fun pass _ => ?_⟩
        rw [completes_ite]
        exact ⟨fun _ => ih.2 h, fun _ => ih.2 h⟩

/-- The bytes of an opreturn that are read when the first is compared with an evaluation code. -/
def ReadableFor (evalcode : UInt8) (opret : Bytes) : Prop :=
  opret ≠ [] ∧ (opret.head? = some evalcode → 2 ≤ opret.length)

/-- The opreturn of a transaction of the mempool can be read. -/
def EvalcodeReadable (evalcode : UInt8) (tx : Wire.CTransaction) : Prop :=
  2 ≤ tx.vout.length → ∀ out, tx.vout.getLast? = some out → opReturnPushed out.scriptPubKey = true →
    ReadableFor evalcode (getOpReturnData out.scriptPubKey)

theorem completes_hasEvalcode :
    Completes (hasEvalcode evalcode func tx) ↔ EvalcodeReadable evalcode tx := by
  rw [hasEvalcode, completes_ite, EvalcodeReadable]
  constructor
  · intro h hlen out hout hpushed
    have hrun := h.2 (by omega)
    rw [bind_of_eq_ok (outputAt_last hout)] at hrun
    dsimp only at hrun
    rw [if_neg (not_not.2 hpushed), completes_bind, completes_byteAt] at hrun
    refine ⟨length_pos_iff.1 hrun.1, fun hhead => ?_⟩
    have hsecond := hrun.2 _ (byteAt_eq hrun.1)
    rw [head?_eq_getElem?, getElem?_eq_getElem hrun.1] at hhead
    rw [if_pos (Option.some.inj hhead), completes_bind, completes_byteAt] at hsecond
    exact hsecond.1
  · intro h
    refine ⟨fun _ => completes_pure _, fun hlen => ?_⟩
    have hne : tx.vout ≠ [] := length_pos_iff.1 (by omega)
    have hout := getLast?_eq_some_getLast hne
    rw [bind_of_eq_ok (outputAt_last hout)]
    dsimp only
    rw [completes_ite]
    refine ⟨fun _ => completes_pure _, fun hpushed => ?_⟩
    obtain ⟨hfirst, hsecond⟩ := h (by omega) _ hout (not_not.1 hpushed)
    have hpos := length_pos_iff.2 hfirst
    rw [bind_of_eq_ok (byteAt_eq hpos), completes_ite]
    refine ⟨fun heq => ?_, fun _ => completes_pure _⟩
    rw [completes_bind, completes_byteAt]
    refine ⟨hsecond ?_, fun _ _ => completes_pure _⟩
    rw [head?_eq_getElem?, getElem?_eq_getElem hpos, heq]

theorem completes_ccEvalcodeLoop {txs : List Wire.CTransaction} :
    Completes (ccEvalcodeLoop evalcode func txs) ↔ ∀ tx ∈ txs, EvalcodeReadable evalcode tx := by
  induction txs with
  | nil => exact ⟨fun _ => forall_mem_nil _, fun _ => completes_pure _⟩
  | cons tx rest ih =>
    rw [ccEvalcodeLoop, completes_bind, completes_hasEvalcode, forall_mem_cons]
    refine and_congr_right fun htx => ?_
    have hbranch : ∀ b : Bool, Completes (if b = true then do
        return tx.hash :: (← ccEvalcodeLoop evalcode func rest)
        else ccEvalcodeLoop evalcode func rest : Except BadAccess (List Uint256)) ↔
          ∀ tx ∈ rest, EvalcodeReadable evalcode tx := by
      intro b
      cases b with
      | false => exact ih
      | true =>
        rw [if_pos rfl, completes_bind, ← ih]
        exact ⟨And.left, fun h => ⟨h, fun _ _ => completes_pure _⟩⟩
    simp only [hbranch]
    obtain ⟨b, hb⟩ := completes_hasEvalcode.2 htx
    exact ⟨fun h => h b hb, fun h _ _ => h⟩

/-- What a query of the mempool has to find: for the transactions of an address that are filtered,
an output in each of them, and for an evaluation code, opreturns that are long enough. -/
structure MempoolReadable (S : Server) (coinaddr : Bytes) (isCC : Bool) (funcid : UInt8)
    (txid : Uint256) (vout : ℤ) : Prop where
  ccTxids : funcid = NSPV_CC_TXIDS → txid ≠ 0 ∨ voutByte vout 0 ≠ 0 →
    ∀ tx ∈ loaded S {} (S.ccTxids coinaddr isCC), tx.vout ≠ []
  ccEvalcode : funcid = NSPV_MEMPOOL_CCEVALCODE → ∀ tx ∈ S.mempool,
    EvalcodeReadable (voutByte vout 0) tx

theorem completes_ccTxidsFuncs :
    Completes (S.ccTxidsFuncs coinaddr isCC txid vout) ↔ (txid ≠ 0 ∨ voutByte vout 0 ≠ 0 →
      ∀ tx ∈ loaded S {} (S.ccTxids coinaddr isCC), tx.vout ≠ []) := by
  rw [ccTxidsFuncs]
  dsimp only
  rw [completes_bind, completes_ccTxidsLoop, decide_eq_true_iff]
  exact ⟨And.left, fun h => ⟨h, fun _ _ => completes_pure _⟩⟩

theorem completes_mempoolfuncs {funcid : UInt8}
    :
    Completes (S.mempoolfuncs coinaddr isCC funcid txid vout) ↔
      MempoolReadable S coinaddr isCC funcid txid vout := by
  unfold mempoolfuncs
  split_ifs with htxids hempty hall hin hfound hcode hspent haddress
  · rw [completes_ccTxidsFuncs]
    exact ⟨fun h => ⟨fun _ => h, fun hcode => absurd (htxids.symm.trans hcode) (by decide)⟩,
      fun h => h.ccTxids htxids⟩
  · refine ⟨fun _ => ⟨fun h => absurd h htxids, fun _ => ?_⟩, fun _ => completes_pure _⟩
    rw [hempty]
    exact forall_mem_nil _
  · exact ⟨fun _ => ⟨fun h => absurd h htxids, fun h => absurd (hall.symm.trans h) (by decide)⟩,
      fun _ => completes_pure _⟩
  · exact ⟨fun _ => ⟨fun h => absurd h htxids, fun h => absurd (hin.symm.trans h) (by decide)⟩,
      fun _ => completes_pure _⟩
  · exact ⟨fun _ => ⟨fun h => absurd h htxids, fun h => absurd (hin.symm.trans h) (by decide)⟩,
      fun _ => completes_pure _⟩
  · rw [completes_bind, completes_ccEvalcodeLoop]
    exact ⟨fun h => ⟨fun h => absurd h htxids, fun _ => h.1⟩,
      fun h => ⟨h.ccEvalcode hcode, fun _ _ => completes_pure _⟩⟩
  · refine ⟨fun _ => ⟨fun h => absurd h htxids, fun h => absurd h hcode⟩, fun _ => ?_⟩
    split
    · exact completes_pure _
    · exact completes_pure _
  · exact ⟨fun _ => ⟨fun h => absurd h htxids, fun h => absurd h hcode⟩, fun _ => completes_pure _⟩
  · exact ⟨fun _ => ⟨fun h => absurd h htxids, fun h => absurd h hcode⟩, fun _ => completes_pure _⟩

theorem completes_mempooltxids {isCC funcid : UInt8} :
    Completes (S.mempooltxids coinaddr isCC funcid txid vout) ↔
      S.chain ≠ [] ∧ MempoolReadable S coinaddr (isCC ≠ 0) funcid txid vout := by
  rw [mempooltxids, completes_bind, completes_tipHeight]
  refine and_congr_right fun hchain => ?_
  rw [tipHeight_eq hchain]
  simp only [Except.ok.injEq, forall_eq']
  rw [completes_bind, completes_mempoolfuncs]
  refine ⟨And.left, fun h => ⟨h, fun _ _ => ?_⟩⟩
  rw [completes_ite]
  exact ⟨fun _ => completes_pure _, fun _ => completes_pure _⟩

end Server
end NSPV
end Komodo
