/-
# The outputs of a contract that the server answers with

`NSPV_getccmoduleutxos` picks outputs for an amount among those that `DefaultCCChecker` accepts.
The sum that it compares with the amount begins with the values of all of them, so the loop ends as
soon as this sum and what is picked come to the amount, and the sum of the response is too large
(`getccmoduleutxos_eq`).  `getccmoduleutxos_exact_iff` says when the response is right.
-/

import Komodo.CC.Faucet
import Komodo.NSPV.RequestBounds
import Komodo.NSPV.VinSelect

namespace Komodo
namespace NSPV
namespace Server

open Gather List
open Runs

variable {S : Server}

/-! ### The outputs that pass -/

/-- Whether a row is selected. -/
def passesChecker (S : Server) (evalcode : UInt8) (funcids : Bytes) (filtertxid : Uint256)
    (it : Unspent) : Bool :=
  let search := S.getTransaction it.txhash {}
  !S.isutxoSpentinmempool it.txhash it.index && search.found
    && checkCC it.txhash search.tx.vout it.index evalcode funcids filtertxid matches .ok true

/-- The outputs that pass the checker and are not spent. -/
def passingUtxos (S : Server) (coinaddr : Bytes) (evalcode : UInt8) (funcids : Bytes)
    (filtertxid : Uint256) : List CCUtxo :=
  ((S.ccUnspents coinaddr true).filter (S.passesChecker evalcode funcids filtertxid)).map fun it =>
    { txid := it.txhash, vout := it.index, nValue := it.satoshis }

theorem selectUtxos_eq (evalcode : UInt8) (funcids : Bytes) (filtertxid : Uint256)
    (rows : List Unspent) : S.selectUtxos evalcode funcids filtertxid rows
      = .ok ((rows.filter (S.passesChecker evalcode funcids filtertxid)).map fun it =>
        { txid := it.txhash, vout := it.index, nValue := it.satoshis }) := by
  induction rows with
  | nil => rfl
  | cons it rest ih =>
    obtain ⟨accepted, haccepted⟩ := completes_checkCC it.txhash
      (S.getTransaction it.txhash {}).tx.vout it.index evalcode funcids filtertxid
    rw [selectUtxos, filter_cons, passesChecker]
    dsimp only
    rw [haccepted]
    cases S.isutxoSpentinmempool it.txhash it.index with
    | true =>
      rw [if_pos rfl, ih]
      rfl
    | false =>
      cases (S.getTransaction it.txhash {}).found with
      | false =>
        rw [if_neg Bool.false_ne_true, if_pos Bool.false_ne_true, ih]
        rfl
      | true =>
        rw [if_neg Bool.false_ne_true, if_neg (not_not.2 rfl), bind_of_eq_ok rfl]
        cases accepted with
        | false =>
          rw [if_neg Bool.false_ne_true, ih]
          rfl
        | true =>
          obtain ⟨out, hout⟩ := completes_outputAt.2 (range_of_checkCC haccepted)
          rw [if_pos rfl, bind_of_eq_ok hout, bind_of_eq_ok ih]
          rfl

/-! ### The loop -/

/-- The loop picks outputs until what is still missing is not more than the sum with which `total`
began. -/
theorem pickUtxos_eq (amount : ℤ) {fuel k : ℕ} {total remains : ℤ} {selected added : List CCUtxo}
    (hfuel : selected.length ≤ fuel) (hk : 0 < k) (hadded : added.length + k = CC_MAXVINS) :
    pickUtxos amount fuel total remains selected added =
      let taken := gather CCUtxo.nValue (takeNearest id) (total - (amount - remains)) k remains selected
      if taken.2 then none
      else some (total + (taken.1.map CCUtxo.nValue).sum, added ++ taken.1) := by
  induction fuel generalizing k total remains selected added with
  | zero =>
    obtain rfl := length_eq_zero_iff.1 (Nat.le_zero.1 hfuel)
    rw [gather_nil]
    simp only [pickUtxos, Bool.false_eq_true, if_false, map_nil, sum_nil, Int.add_zero, append_nil]
  | succ fuel ih =>
    obtain ⟨k, rfl⟩ := Nat.exists_eq_succ_of_ne_zero hk.ne'
    by_cases hnil : selected = []
    · rw [hnil, gather_nil]
      simp only [pickUtxos, if_true, Bool.false_eq_true, if_false, map_nil, sum_nil,
        Int.add_zero, append_nil]
    rw [pickUtxos, gather, if_neg hnil, if_neg hnil]
    cases htake : takeNearest id selected remains with
    | none =>
      have hselect := takeNearest_eq_none_iff.1 htake
      rw [map_id] at hselect
      rw [hselect]
      rfl
    | some one =>
      obtain ⟨utxo, rest⟩ := one
      obtain ⟨ind, last, hselect, hutxo, hlast, hrest⟩ := exists_select_of_takeNearest htake
      have hperm := (exists_of_takeNearest htake).1.length_eq
      rw [length_cons] at hperm
      rw [map_id] at hselect
      rw [hselect]
      dsimp only
      rw [hutxo, hlast]
      dsimp only
      rw [hrest, length_append, length_singleton]
      by_cases hcovers : amount ≤ total + utxo.nValue
      · have hstop : remains - utxo.nValue ≤ total - (amount - remains) := by omega
        rw [if_pos (.inl hcovers), if_pos hstop]
        simp
      have hstop : ¬ remains - utxo.nValue ≤ total - (amount - remains) := by omega
      rw [if_neg hstop]
      by_cases hfull : CC_MAXVINS ≤ added.length + 1
      · -- the last of the rounds that are allowed
        obtain rfl : k = 0 := by omega
        rw [if_pos (.inr hfull)]
        simp [gather]
      · have hsame : total + utxo.nValue - (amount - (remains - utxo.nValue))
            = total - (amount - remains) := by omega
        have hlen : (added ++ [utxo]).length + k = CC_MAXVINS := by
          rw [length_append, length_singleton]
          omega
        rw [if_neg (not_or.2 ⟨hcovers, hfull⟩), ih (by omega) (by omega) hlen, hsame]
        simp only [map_cons, sum_cons, append_assoc, singleton_append, Int.add_assoc]

/-! ### The answer -/

/-- What is picked for an amount, and whether there was nothing to pick. -/
def pickedUtxos (amount : ℤ) (utxos : List CCUtxo) : List CCUtxo × Bool :=
  gather CCUtxo.nValue (takeNearest id) (utxos.map CCUtxo.nValue).sum CC_MAXVINS amount utxos

theorem length_pickedUtxos_le (amount : ℤ) (utxos : List CCUtxo) :
    (pickedUtxos amount utxos).1.length ≤ CC_MAXVINS := length_gather_le _ _ _

/-- An output in the response. -/
def utxoOfPicked (u : CCUtxo) : UtxoResp := { satoshis := u.nValue, txid := u.txid, vout := u.vout }

theorem pickUtxos_start (amount : ℤ) (utxos : List CCUtxo) :
    pickUtxos amount utxos.length (utxos.map CCUtxo.nValue).sum amount utxos [] =
      if (pickedUtxos amount utxos).2 then none
      else some ((utxos.map CCUtxo.nValue).sum
        + ((pickedUtxos amount utxos).1.map CCUtxo.nValue).sum, (pickedUtxos amount utxos).1) := by
  rw [pickUtxos_eq amount (Nat.le_refl _) (show 0 < CC_MAXVINS by decide) rfl, Int.sub_self,
    Int.sub_zero]
  rfl

theorem length_mod_pickedUtxos (amount : ℤ) (utxos : List CCUtxo) :
    (pickedUtxos amount utxos).1.length % 2 ^ 16 = (pickedUtxos amount utxos).1.length := by
  have hle := length_pickedUtxos_le amount utxos
  have hmax : CC_MAXVINS < 2 ^ 16 := by decide
  exact Nat.mod_eq_of_lt (Nat.lt_of_le_of_lt hle hmax)

theorem size_pickedUtxos_lt (amount : ℤ) (utxos : List CCUtxo) :
    96 + 56 * (pickedUtxos amount utxos).1.length < MAX_BLOCK_SIZE S.saplinght 0 - 512 := by
  have hle := length_pickedUtxos_le amount utxos
  have hmax : CC_MAXVINS = 1024 := rfl
  have hsize : MAX_BLOCK_SIZE S.saplinght 0 = 4096 * 1024 := if_pos (.inl (le_refl 0))
  omega

/-- The response for an amount. -/
def pickedResp (S : Server) (coinaddr : Bytes) (amount : ℤ) (utxos : List CCUtxo) : UtxosResp :=
  { utxos := (pickedUtxos amount utxos).1.map utxoOfPicked
    coinaddr
    total := (utxos.map CCUtxo.nValue).sum + ((pickedUtxos amount utxos).1.map CCUtxo.nValue).sum
    nodeheight := S.chain.length - 1
    CCflag := 1 }

/-- **The answer for an amount.** -/
theorem getccmoduleutxos_eq (hchain : S.chain ≠ []) (coinaddr : Bytes) {amount : ℤ}
    (hamount : amount ≠ 0) (evalcode : UInt8) (funcids : Bytes) (filtertxid : Uint256) :
    S.getccmoduleutxos coinaddr amount evalcode funcids filtertxid =
      let utxos := S.passingUtxos coinaddr evalcode funcids filtertxid
      .ok (if (pickedUtxos amount utxos).2 then none
        else some (S.pickedResp coinaddr amount utxos)) := by
  rw [getccmoduleutxos, bind_of_eq_ok (tipHeight_eq hchain), bind_of_eq_ok (selectUtxos_eq _ _ _ _)]
  dsimp only
  rw [if_neg hamount, ← passingUtxos, pickUtxos_start]
  by_cases hstuck : (pickedUtxos amount (S.passingUtxos coinaddr evalcode funcids filtertxid)).2
  · rw [if_pos hstuck, if_pos hstuck]
    rfl
  · rw [if_neg hstuck, if_neg hstuck]
    dsimp only
    rw [length_mod_pickedUtxos, if_pos (size_pickedUtxos_lt _ _), take_length]
    rfl

/-- The response lists different outputs that pass, with their sum. -/
structure ListsPassing (utxos : List CCUtxo) (resp : UtxosResp) : Prop where
  passing : ∃ picked : List CCUtxo, picked.Subperm utxos ∧ resp.utxos = picked.map utxoOfPicked
  distinct : (utxos.map fun u => (u.txid, u.vout)).Nodup →
    (resp.utxos.map fun u => (u.txid, u.vout)).Nodup
  few : resp.utxos.length ≤ CC_MAXVINS
  total : resp.total = (resp.utxos.map UtxoResp.satoshis).sum

/-- The answer lists outputs that pass, and comes to the amount if any outputs do that are not more
than may be picked. -/
def AnswersContract (S : Server) (coinaddr : Bytes) (amount : ℤ) (evalcode : UInt8)
    (funcids : Bytes) (filtertxid : Uint256) : Prop :=
  ∃ answer, S.getccmoduleutxos coinaddr amount evalcode funcids filtertxid = .ok answer
    ∧ (∀ resp ∈ answer, ListsPassing (S.passingUtxos coinaddr evalcode funcids filtertxid) resp)
    ∧ ∀ T : List CCUtxo, T.Subperm (S.passingUtxos coinaddr evalcode funcids filtertxid) →
      T.length ≤ CC_MAXVINS → amount ≤ (T.map CCUtxo.nValue).sum →
        ∃ resp ∈ answer, amount ≤ (resp.utxos.map UtxoResp.satoshis).sum

/-- The values of the outputs cancel out, or the loop comes to an output without a value before it
has picked as many as it may and before twice the values come to the amount. -/
def Unaffected (amount : ℤ) (utxos : List CCUtxo) : Prop :=
  (utxos.map CCUtxo.nValue).sum = 0 ∨
    (∃ u ∈ utxos, u.nValue ≤ 0) ∧ (positive CCUtxo.nValue utxos).length < CC_MAXVINS
    ∧ (positive CCUtxo.nValue utxos = [] ∨ (utxos.map CCUtxo.nValue).sum
      + ((positive CCUtxo.nValue utxos).map CCUtxo.nValue).sum < amount)
    ∧ ((positive CCUtxo.nValue utxos).map CCUtxo.nValue).sum < amount

theorem sum_map_utxoOfPicked (picked : List CCUtxo) :
    ((picked.map utxoOfPicked).map UtxoResp.satoshis).sum = (picked.map CCUtxo.nValue).sum := by
  rw [map_map]
  rfl

/-- The sum is right when it began with zero. -/
theorem listsPassing_pickedResp_iff {coinaddr : Bytes} {amount : ℤ} {utxos : List CCUtxo} :
    ListsPassing utxos (S.pickedResp coinaddr amount utxos) ↔
      (utxos.map CCUtxo.nValue).sum = 0 := by
  have hsub : (pickedUtxos amount utxos).1.Subperm utxos :=
    gather_subperm takesNearest_takeNearest _ _ _
  constructor
  · intro h
    have htotal := h.total
    simp only [pickedResp, sum_map_utxoOfPicked] at htotal
    omega
  · intro hzero
    refine ⟨⟨_, hsub, rfl⟩, fun hnodup => ?_, ?_, ?_⟩
    · obtain ⟨front, hperm, hsublist⟩ := hsub
      have hkeys : ((pickedUtxos amount utxos).1.map utxoOfPicked).map (fun u => (u.txid, u.vout))
          = (pickedUtxos amount utxos).1.map fun u => (u.txid, u.vout) := by
        rw [map_map]
        rfl
      rw [pickedResp, hkeys, ← (hperm.map _).nodup_iff]
      exact hnodup.sublist (hsublist.map _)
    · rw [pickedResp, length_map]
      exact length_pickedUtxos_le amount utxos
    · simp only [pickedResp, sum_map_utxoOfPicked]
      omega

theorem pickedUtxos_stuck_iff {amount : ℤ} {utxos : List CCUtxo} :
    (pickedUtxos amount utxos).2 = true ↔
      (∃ u ∈ utxos, u.nValue ≤ 0) ∧ (positive CCUtxo.nValue utxos).length < CC_MAXVINS
      ∧ (positive CCUtxo.nValue utxos = [] ∨ (utxos.map CCUtxo.nValue).sum
        + ((positive CCUtxo.nValue utxos).map CCUtxo.nValue).sum < amount) := by
  refine (gather_stuck_iff takesNearest_takeNearest).trans ?_
  rw [Int.lt_sub_right_iff_add_lt]

/-- **When the outputs of a contract are answered with as they are asked for.** -/
theorem getccmoduleutxos_exact_iff {amount : ℤ} (hamount : 0 < amount) (coinaddr : Bytes)
    (evalcode : UInt8) (funcids : Bytes) (filtertxid : Uint256) :
    AnswersContract S coinaddr amount evalcode funcids filtertxid ↔
      S.chain ≠ [] ∧ Unaffected amount (S.passingUtxos coinaddr evalcode funcids filtertxid) := by
  by_cases hchain : S.chain = []
  · refine iff_of_false ?_ fun h => h.1 hchain
    rintro ⟨answer, hrun, -⟩
    exact completes_getccmoduleutxos.1 ⟨answer, hrun⟩ hchain
  rw [and_iff_right hchain, AnswersContract,
    getccmoduleutxos_eq hchain coinaddr hamount.ne' evalcode funcids filtertxid]
  generalize S.passingUtxos coinaddr evalcode funcids filtertxid = utxos
  simp only [Except.ok.injEq, exists_eq_left']
  by_cases hstuck : (pickedUtxos amount utxos).2 = true
  · -- there is no answer, and there must be none that comes to the amount
    obtain ⟨hzero, hfew, hmissing⟩ := pickedUtxos_stuck_iff.1 hstuck
    rw [if_pos hstuck]
    constructor
    · rintro ⟨-, hcovers⟩
      refine .inr ⟨hzero, hfew, hmissing, ?_⟩
      by_contra hle
      obtain ⟨resp, hresp, -⟩ := hcovers _ filter_sublist.subperm hfew.le (not_lt.1 hle)
      exact absurd hresp nofun
    · intro h
      have hless : ((positive CCUtxo.nValue utxos).map CCUtxo.nValue).sum < amount := by
        rcases h with hsum | ⟨-, -, -, hless⟩
        · rcases hmissing with hnone | hless
          · rw [hnone]
            exact hamount
          · omega
        · exact hless
      refine ⟨nofun, fun T hT _ hle => ?_⟩
      have hmost : (T.map CCUtxo.nValue).sum
          ≤ ((positive CCUtxo.nValue utxos).map CCUtxo.nValue).sum := sum_le_sum_positive hT
      omega
  · rw [if_neg hstuck]
    simp only [Option.mem_some_iff, forall_eq', exists_eq_left', listsPassing_pickedResp_iff]
    constructor
    · exact fun h => .inl h.1
    · rintro (hsum | ⟨hzero, hfew, hmissing, -⟩)
      · refine ⟨hsum, fun T hT hlen hle => ?_⟩
        have hcovers := (gather_covers takesNearest_takeNearest hamount hT hlen hle).1
        rw [← hsum] at hcovers
        rw [pickedResp, sum_map_utxoOfPicked]
        exact hcovers
      · exact absurd (pickedUtxos_stuck_iff.2 ⟨hzero, hfew, hmissing⟩) hstuck

namespace GenesisOnly

/-- A transaction of the faucet with two outputs of the contract. -/
def funded : Wire.CTransaction :=
  { vout := [{ nValue := 6, scriptPubKey := [1, 0, OP_CHECKCRYPTOCONDITION] },
      { nValue := 5, scriptPubKey := [1, 0, OP_CHECKCRYPTOCONDITION] },
      { nValue := 0, scriptPubKey := [OP_RETURN, 3, EVAL_FAUCET, 1, 0] }]
    hash := 3 }

/-- A node that knows these outputs with the values of its index. -/
def funding (first second : ℤ) : Server :=
  { node with
    ccUnspents := fun _ _ => [⟨3, 0, first, 1⟩, ⟨3, 1, second, 1⟩]
    getTransaction := fun _ _ => ⟨true, funded, 1⟩ }

/-- An output of 5 and one without a value, for an amount of 11: there is no answer. -/
theorem getccmoduleutxos_exact_funding :
    AnswersContract (funding 5 0) [] 11 EVAL_FAUCET [1] 3 :=
  (getccmoduleutxos_exact_iff (by decide) [] EVAL_FAUCET [1] 3).2 ⟨by decide, .inr (by decide)⟩

/-- **Of two outputs of 6 and 5 the first is returned for an amount of 10, with a sum of 17.** -/
theorem getccmoduleutxos_not_exact :
    ¬ AnswersContract (funding 6 5) [] 10 EVAL_FAUCET [1] 3 := by
  have hrun := getccmoduleutxos_eq (S := funding 6 5) (by decide) [] (show (10 : ℤ) ≠ 0 by decide)
    EVAL_FAUCET [1] 3
  have hpicked : (pickedUtxos 10 ((funding 6 5).passingUtxos [] EVAL_FAUCET [1] 3)).2 = false := by
    decide
  rintro ⟨answer, hanswer, hlists, -⟩
  dsimp only at hrun
  rw [hpicked, if_neg Bool.false_ne_true] at hrun
  have hresp := hlists _ (Except.ok.inj (hanswer.symm.trans hrun))
  exact absurd (listsPassing_pickedResp_iff.1 hresp) (by decide)

end GenesisOnly

end Server
end NSPV
end Komodo
