/-
# The inputs that the selectors append

What is collected are the first candidates (`Node.exists_collect`), and what is taken from them
comes to the total if any of them do that are not more than may be taken (`takes_takeInputs`).
Together they say what a selector does with any outputs (`selectsInputs`): a value that is not 0 is
the sum of the inputs that it appended.  With 0 they stay in the transaction
(`OneOutput.vin_of_failed`).

The array of `NSPV_addinputs` has to be long enough for the outputs that it collects.
-/

import Komodo.CC.NormalInputs

namespace Komodo
namespace NormalInputs

open NSPV List Int
open NSPV.Server
open Wire hiding CTransaction
open Gather

/-- The transaction and the position of an output. -/
def outpointOf (up : CCUtxo) : Uint256 × ℤ := (up.txid, up.vout)

/-! ### What is collected -/

namespace Node

variable {node : Node} {vin : List CTxIn}

/-- The candidates: the outputs that pass, each of them once. -/
def candidates (node : Node) (vin : List CTxIn) (threshold : ℤ) :
    (seen : List CCUtxo) → List CCUtxo → List CCUtxo
  | _, [] => []
  | seen, up :: rest =>
    if node.passes vin threshold seen up then
      up :: node.candidates vin threshold (seen ++ [up]) rest
    else node.candidates vin threshold seen rest

theorem notMem_of_passes {threshold : ℤ} {seen : List CCUtxo} {up : CCUtxo}
    (h : node.passes vin threshold seen up = true) : outpointOf up ∉ seen.map outpointOf := by
  simp only [passes, Bool.and_eq_true, Bool.not_eq_true', any_eq_false, decide_eq_true_eq] at h
  rw [mem_map]
  rintro ⟨u, hu, heq⟩
  exact h.1.2 u hu ⟨(congrArg Prod.fst heq).symm, (congrArg Prod.snd heq).symm⟩

theorem nodup_candidates (threshold : ℤ) (seen rows : List CCUtxo)
    (h : (seen.map outpointOf).Nodup) :
    ((seen ++ node.candidates vin threshold seen rows).map outpointOf).Nodup := by
  induction rows generalizing seen with
  | nil => rwa [candidates, append_nil]
  | cons up rest ih =>
    rw [candidates]
    split_ifs with hpasses
    · have hnext := ih (seen ++ [up]) (by
        rw [map_append, nodup_append_comm, map_singleton, singleton_append, nodup_cons]
        exact ⟨notMem_of_passes hpasses, h⟩)
      rwa [append_assoc, singleton_append] at hnext
    · exact ih seen h

/-- **What is collected**: the first candidates, that is all of them, as many as may be taken, or
enough for the total. -/
theorem exists_collect (node : Node) (vin : List CTxIn) {maxinputs : ℤ} (threshold total : ℤ)
    (hmax : maxinputs ≤ CC_MAXVINS) (utxos : List CCUtxo) (sum : ℤ) (rows : List CCUtxo)
    (hlen : utxos.length < maxinputs) :
    ∃ more, node.collect vin maxinputs threshold total utxos sum rows = .ok (utxos ++ more)
      ∧ more <+: node.candidates vin threshold utxos rows
      ∧ (utxos ++ more).length ≤ maxinputs
      ∧ (more = node.candidates vin threshold utxos rows
        ∨ maxinputs ≤ (utxos ++ more).length ∨ total ≤ sum + (more.map CCUtxo.nValue).sum) := by
  induction rows generalizing utxos sum with
  | nil =>
    refine ⟨[], ?_, nil_prefix, ?_, .inl rfl⟩
    · rw [append_nil]
      rfl
    · simpa using hlen.le
  | cons up rest ih =>
    rw [collect, candidates]
    by_cases hpasses : node.passes vin threshold utxos up = true
    · have hstore : store CC_MAXVINS utxos up = .ok (utxos ++ [up]) := by
        rw [store, if_pos (by omega)]
        rfl
      have hone : (utxos ++ [up]).length = utxos.length + 1 := by simp
      rw [if_pos hpasses, if_pos hpasses, hstore]
      dsimp only [bind, Except.bind, pure, Except.pure]
      split_ifs with hstop
      · refine ⟨[up], rfl, ?_, by omega, .inr ?_⟩
        · exact cons_prefix_cons.2 ⟨rfl, nil_prefix⟩
        · simpa using hstop
      · obtain ⟨more, hrun, hfront, hfew, hend⟩ := ih (utxos ++ [up]) (sum + up.nValue) (by omega)
        rw [append_assoc, singleton_append] at hrun hfew hend
        refine ⟨up :: more, hrun, cons_prefix_cons.2 ⟨rfl, hfront⟩, hfew, ?_⟩
        rw [map_cons, sum_cons, ← add_assoc]
        exact hend.imp_left (congrArg (up :: ·))
    · rw [if_neg hpasses, if_neg hpasses]
      exact ih utxos sum hlen

end Node

/-- The outputs that `NSPV_addinputs` collects when the array is long enough. -/
def largeResp (num : ℕ) (threshold : ℤ) (ptr : List UtxoResp) : List UtxoResp :=
  ptr.filter fun up => num < NSPV_MAXVINS ∨ threshold < up.satoshis

theorem collectResp_eq (num : ℕ) (threshold : ℤ) (utxos ptr : List UtxoResp)
    (hutxos : utxos.length ≤ NSPV_MAXVINS) : collectResp num threshold utxos ptr =
      if (utxos ++ largeResp num threshold ptr).length ≤ NSPV_MAXVINS then
        .ok (utxos ++ largeResp num threshold ptr)
      else .error .utxos := by
  induction ptr generalizing utxos with
  | nil =>
    rw [largeResp, filter_nil, append_nil, if_pos hutxos]
    rfl
  | cons up rest ih =>
    rw [collectResp]
    by_cases hup : num < NSPV_MAXVINS ∨ threshold < up.satoshis
    · have hlarge : largeResp num threshold (up :: rest) = up :: largeResp num threshold rest :=
        filter_cons_of_pos (decide_eq_true hup)
      rw [if_pos hup, hlarge]
      by_cases hfull : utxos.length < NSPV_MAXVINS
      · have hstore : store NSPV_MAXVINS utxos up = .ok (utxos ++ [up]) := if_pos hfull
        rw [hstore]
        dsimp only [bind, Except.bind]
        rw [ih (utxos ++ [up]) (by simpa using Nat.succ_le_of_lt hfull), append_assoc,
          singleton_append]
      · have hstore : store NSPV_MAXVINS utxos up = .error .utxos := if_neg hfull
        rw [hstore, if_neg]
        · rfl
        · rw [length_append, length_cons]
          omega
    · have hlarge : largeResp num threshold (up :: rest) = largeResp num threshold rest :=
        filter_cons_of_neg (by rwa [decide_eq_true_eq])
      rw [if_neg hup, ih utxos hutxos, hlarge]

/-! ### What is taken -/

variable {α : Type} {cc : α → CCUtxo}

/-- The sum of some outputs. -/
def sumOf (cc : α → CCUtxo) (utxos : List α) : ℤ := (utxos.map fun up => (cc up).nValue).sum

variable {total : ℤ}

theorem takeInputs_eq (rounds : ℕ) (utxos : List α) {totalinputs remains : ℤ}
    (htotal : totalinputs + remains = total) :
    takeInputs cc total rounds utxos totalinputs remains =
      let taken := gather (fun up => (cc up).nValue) (takeNearest cc) 0 rounds remains utxos
      (taken.1, if taken.2 then none else some (totalinputs + sumOf cc taken.1)) := by
  have hempty : totalinputs + sumOf cc [] = totalinputs := add_zero totalinputs
  induction rounds generalizing utxos totalinputs remains with
  | zero => simp only [takeInputs, gather, Bool.false_eq_true, if_false, hempty]
  | succ rounds ih =>
    rw [takeInputs, gather]
    by_cases hnil : utxos = []
    · simp only [if_pos hnil, Bool.false_eq_true, if_false, hempty]
    rw [if_neg hnil, if_neg hnil]
    cases htake : takeNearest cc utxos remains with
    | none =>
      rw [takeNearest_eq_none_iff.1 htake]
      rfl
    | some one =>
      obtain ⟨up, rest⟩ := one
      obtain ⟨ind, last, hselect, hup, hlast, hrest⟩ := exists_select_of_takeNearest htake
      rw [hselect]
      dsimp only
      rw [hup, hlast]
      dsimp only
      rw [hrest]
      have hone : sumOf cc [up] = (cc up).nValue := add_zero _
      by_cases hcovers : total ≤ totalinputs + (cc up).nValue
      · have hstop : remains - (cc up).nValue ≤ 0 := by omega
        simp only [if_pos (Or.inl hcovers), if_pos hstop, Bool.false_eq_true, if_false, hone]
      have hstop : ¬ remains - (cc up).nValue ≤ 0 := by omega
      rw [if_neg hstop]
      by_cases hlastRound : rounds = 0
      · subst hlastRound
        simp only [or_true, if_true, gather, Bool.false_eq_true, if_false, hone]
      · rw [if_neg (not_or.2 ⟨hcovers, hlastRound⟩), ih rest (by omega) (add_zero _)]
        simp only [sumOf, map_cons, sum_cons, add_assoc]

/-- What is taken for a total. -/
def gathered (cc : α → CCUtxo) (total : ℤ) (limit : ℕ) (utxos : List α) : List α × Bool :=
  gather (fun up => (cc up).nValue) (takeNearest cc) 0 limit total utxos

variable {limit : ℕ}

theorem gathered_covers (htotal : 0 < total) {utxos T : List α}
    (hT : T.Subperm utxos) (hlen : T.length ≤ limit) (hsum : total ≤ sumOf cc T) :
    total ≤ sumOf cc (gathered cc total limit utxos).1
      ∧ (gathered cc total limit utxos).2 = false :=
  gather_covers takesNearest_takeNearest htotal hT hlen hsum

theorem sumOf_gathered_lt (htotal : 0 < total) {utxos : List α}
    (h : (gathered cc total limit utxos).2 = true) :
    sumOf cc (gathered cc total limit utxos).1 < total := by
  have hlt := sum_gather_lt_of_stuck takesNearest_takeNearest htotal h
  rwa [sub_zero] at hlt

/-- What is taken of the outputs that are collected, and the value that is returned. -/
structure Takes (cc : α → CCUtxo) (total : ℤ) (limit : ℕ) (utxos taken : List α) (value : ℤ) :
    Prop where
  subperm : taken.Subperm utxos
  few : taken.length ≤ limit
  added : value ≠ 0 → value = sumOf cc taken ∧ total ≤ value
  missing : value = 0 → sumOf cc taken < total
  covers : ∀ T : List α, T.Subperm utxos → T.length ≤ limit → total ≤ sumOf cc T → value ≠ 0

theorem takes_takeInputs (cc : α → CCUtxo) (htotal : 0 < total) (limit : ℕ)
    (utxos : List α) :
    Takes cc total limit utxos (takeInputs cc total limit utxos 0 total).1
      (returned total (takeInputs cc total limit utxos 0 total).2) := by
  rw [takeInputs_eq limit utxos (zero_add total), ← gathered]
  dsimp only
  rw [zero_add]
  have hsubperm : (gathered cc total limit utxos).1.Subperm utxos :=
    gather_subperm takesNearest_takeNearest limit total utxos
  have hfew : (gathered cc total limit utxos).1.length ≤ limit := length_gather_le limit total utxos
  cases hstuck : (gathered cc total limit utxos).2 with
  | true =>
    refine ⟨hsubperm, hfew, fun h => absurd rfl h, fun _ => sumOf_gathered_lt htotal hstuck, ?_⟩
    intro T hT hlen hsum
    have hnot := (gathered_covers htotal hT hlen hsum).2
    exact absurd (hstuck.symm.trans hnot) nofun
  | false =>
    simp only [Bool.false_eq_true, if_false, returned]
    by_cases hle : total ≤ sumOf cc (gathered cc total limit utxos).1
    · rw [if_pos hle]
      have hpos := htotal.trans_le hle
      refine ⟨hsubperm, hfew, fun _ => ⟨rfl, hle⟩, fun h => absurd h hpos.ne', ?_⟩
      exact fun _ _ _ _ => hpos.ne'
    · rw [if_neg hle]
      refine ⟨hsubperm, hfew, fun h => absurd rfl h, fun _ => not_le.1 hle, ?_⟩
      exact fun T hT hlen hsum => absurd (gathered_covers htotal hT hlen hsum).1 hle

/-! ### What a selector does -/

/-- What a selector leaves: it appends some of the candidates, and returns their sum when they come
to the total and 0 when they do not; they do when those that count do and may all be taken, or when
one of the first of these does. -/
structure Adds (cc : α → CCUtxo) (total : ℤ) (limit : ℕ) (candidates counted : List α)
    (mtx : CMutableTransaction) (value : ℤ) (mtx' : CMutableTransaction) : Prop where
  appended : ∃ picked : List α, picked.Subperm candidates ∧ picked.length ≤ limit
    ∧ mtx'.vin = mtx.vin ++ picked.map (fun up => txInOf (cc up))
    ∧ ((candidates.map fun up => outpointOf (cc up)).Nodup →
      (picked.map fun up => outpointOf (cc up)).Nodup)
    ∧ (value ≠ 0 → value = sumOf cc picked ∧ total ≤ value)
    ∧ (value = 0 → sumOf cc picked < total)
  enough : counted.length ≤ limit → total ≤ sumOf cc counted → value ≠ 0
  enough_one : ∀ up ∈ counted.take limit, total ≤ (cc up).nValue → value ≠ 0

theorem Takes.exists_picked {value : ℤ} {utxos candidates taken : List α}
    (h : Takes cc total limit utxos taken value) (hsub : utxos.Sublist candidates)
    (mtx : CMutableTransaction) : ∃ picked : List α, picked.Subperm candidates
      ∧ picked.length ≤ limit
      ∧ (appendInputs cc mtx taken).vin = mtx.vin ++ picked.map (fun up => txInOf (cc up))
      ∧ ((candidates.map fun up => outpointOf (cc up)).Nodup →
        (picked.map fun up => outpointOf (cc up)).Nodup)
      ∧ (value ≠ 0 → value = sumOf cc picked ∧ total ≤ value)
      ∧ (value = 0 → sumOf cc picked < total) := by
  have hsubperm := h.subperm.trans hsub.subperm
  refine ⟨taken, hsubperm, h.few, rfl, fun hnodup => ?_, h.added, h.missing⟩
  obtain ⟨front, hperm, hsublist⟩ := hsubperm
  rw [← (hperm.map _).nodup_iff]
  exact hnodup.sublist (hsublist.map _)

theorem clampInputs_le (size : ℕ) (maxinputs : ℤ) : clampInputs size maxinputs ≤ size := by
  rw [clampInputs]
  split_ifs with h
  · exact le_refl _
  · exact not_lt.1 h

theorem clampInputs_pos {size : ℕ} {maxinputs : ℤ} (hsize : 0 < size) (hmax : 0 < maxinputs) :
    0 < clampInputs size maxinputs := by
  rw [clampInputs]
  split_ifs
  · exact natCast_pos.2 hsize
  · exact hmax

/-- How many inputs may be appended. -/
def limitOf (size : ℕ) (maxinputs : ℤ) : ℕ := (clampInputs size maxinputs).toNat

/-- The candidates of a full node among the outputs that it looks at. -/
def Node.candidatesOf (node : Node) (rows : List CCUtxo) (mtx : CMutableTransaction)
    (total maxinputs : ℤ) : List CCUtxo :=
  node.candidates mtx.vin (threshold total (clampInputs CC_MAXVINS maxinputs)) [] rows

/-- The first candidates cover the total when all of them may be taken and do, or when one of those
that may be taken first does. -/
theorem exists_covers_of_prefix {utxos candidates : List α}
    (hfront : utxos <+: candidates) (hfew : utxos.length ≤ limit)
    (hend : utxos = candidates ∨ limit ≤ utxos.length ∨ total ≤ sumOf cc utxos)
    (h : candidates.length ≤ limit ∧ total ≤ sumOf cc candidates ∨
      ∃ up ∈ candidates.take limit, total ≤ (cc up).nValue) :
    ∃ T : List α, T.Subperm utxos ∧ T.length ≤ limit ∧ total ≤ sumOf cc T := by
  by_cases hsum : total ≤ sumOf cc utxos
  · exact ⟨utxos, List.Subperm.refl utxos, hfew, hsum⟩
  have hfirst : candidates.take limit = utxos := by
    rcases hend with rfl | hfull | hle
    · exact take_of_length_le hfew
    · obtain rfl := Nat.le_antisymm hfew hfull
      exact (prefix_iff_eq_take.1 hfront).symm
    · exact absurd hle hsum
  rcases h with ⟨hle, hcovers⟩ | ⟨up, hup, hcovers⟩
  · rw [take_of_length_le hle] at hfirst
    exact absurd (hfirst ▸ hcovers) hsum
  · have hlimit : 1 ≤ limit := by
      rw [Nat.one_le_iff_ne_zero]
      rintro rfl
      exact absurd hup not_mem_nil
    refine ⟨[up], singleton_subperm_iff.2 (hfirst ▸ hup), hlimit, ?_⟩
    exact hcovers.trans_eq (add_zero _).symm

variable {total maxinputs : ℤ}

/-- What the selectors of a full node do. -/
theorem Node.exists_addFrom (node : Node) (htotal : 0 < total)
    (hmax : 0 < maxinputs) (rows : List CCUtxo) (mtx : CMutableTransaction) :
    ∃ value mtx', node.addFrom rows mtx total maxinputs = .ok (value, mtx')
      ∧ Adds id total (limitOf CC_MAXVINS maxinputs) (node.candidatesOf rows mtx total maxinputs)
        (node.candidatesOf rows mtx total maxinputs) mtx value mtx' := by
  have hpos := clampInputs_pos (show 0 < CC_MAXVINS by decide) hmax
  have hlimit : (limitOf CC_MAXVINS maxinputs : ℤ) = clampInputs CC_MAXVINS maxinputs :=
    toNat_of_nonneg hpos.le
  obtain ⟨utxos, hrun, hfront, hfew, hend⟩ := node.exists_collect mtx.vin
    (threshold total (clampInputs CC_MAXVINS maxinputs)) total (clampInputs_le CC_MAXVINS maxinputs)
    [] 0 rows hpos
  rw [nil_append] at hrun hfew hend
  rw [← candidatesOf] at hfront hend
  rw [← hlimit] at hfew hend
  have hends : utxos = node.candidatesOf rows mtx total maxinputs
      ∨ limitOf CC_MAXVINS maxinputs ≤ utxos.length ∨ total ≤ sumOf id utxos := by
    rw [zero_add] at hend
    exact hend.imp_right (Or.imp_left ofNat_le.1)
  have hcovers := exists_covers_of_prefix hfront (ofNat_le.1 hfew) hends
  have htakes := takes_takeInputs id htotal (limitOf CC_MAXVINS maxinputs) utxos
  refine ⟨_, _, ?_, htakes.exists_picked hfront.sublist mtx, fun hle hsum => ?_,
    fun up hup hle => ?_⟩
  · rw [addFrom]
    dsimp only
    rw [hrun]
    rfl
  · obtain ⟨T, hT, hlen, hsum⟩ := hcovers (.inl ⟨hle, hsum⟩)
    exact htakes.covers T hT hlen hsum
  · obtain ⟨T, hT, hlen, hsum⟩ := hcovers (.inr ⟨up, hup, hle⟩)
    exact htakes.covers T hT hlen hsum

/-- The candidates that count for `NSPV_addinputs`: of many outputs those above the least value. -/
def countedResp (num : ℕ) (threshold : ℤ) (ptr : List UtxoResp) : List UtxoResp :=
  ptr.filter fun up =>
    if num < NSPV_MAXVINS then threshold ≤ up.satoshis else threshold < up.satoshis

theorem countedResp_sublist (num : ℕ) (threshold : ℤ) (ptr : List UtxoResp) :
    (countedResp num threshold ptr).Sublist (largeResp num threshold ptr) := by
  refine monotone_filter_right ptr fun up hup => ?_
  rw [decide_eq_true_eq]
  split_ifs at hup with hfew
  · exact .inl hfew
  · exact .inr (of_decide_eq_true hup)

/-- The outputs that `NSPV_addinputs` collects. -/
def collectedResp (total maxinputs : ℤ) (ptr : List UtxoResp) : List UtxoResp :=
  largeResp ptr.length (threshold total (clampInputs NSPV_MAXVINS maxinputs)) ptr

/-- The outputs of a response that count. -/
def countedOf (total maxinputs : ℤ) (ptr : List UtxoResp) : List UtxoResp :=
  countedResp ptr.length (threshold total (clampInputs NSPV_MAXVINS maxinputs)) ptr

/-- What `NSPV_addinputs` does with outputs for which the array is long enough. -/
theorem exists_addinputs (htotal : 0 < total) {ptr : List UtxoResp}
    (hfits : (collectedResp total maxinputs ptr).length ≤ NSPV_MAXVINS)
    (mtx : CMutableTransaction) :
    ∃ value mtx' used, addinputs mtx total maxinputs ptr = .ok (value, mtx', used)
      ∧ used.length ≤ NSPV_MAXVINS
      ∧ Adds respUtxo total (limitOf NSPV_MAXVINS maxinputs) ptr (countedOf total maxinputs ptr) mtx
        value mtx' := by
  have hlimit : limitOf NSPV_MAXVINS maxinputs ≤ NSPV_MAXVINS :=
    toNat_le.2 (clampInputs_le NSPV_MAXVINS maxinputs)
  have hcollect := collectResp_eq ptr.length
    (threshold total (clampInputs NSPV_MAXVINS maxinputs)) [] ptr (Nat.zero_le _)
  rw [nil_append, ← collectedResp, if_pos hfits] at hcollect
  have htakes := takes_takeInputs respUtxo htotal (limitOf NSPV_MAXVINS maxinputs)
    (collectedResp total maxinputs ptr)
  have hcounted : (countedOf total maxinputs ptr).Sublist (collectedResp total maxinputs ptr) :=
    countedResp_sublist _ _ ptr
  refine ⟨_, _, _, ?_, htakes.few.trans hlimit, htakes.exists_picked filter_sublist mtx,
    fun hle hsum => htakes.covers _ hcounted.subperm hle hsum, fun up hup hle => ?_⟩
  · rw [addinputs]
    dsimp only
    rw [hcollect]
    rfl
  · have hmem := hcounted.subset (mem_of_mem_take hup)
    refine htakes.covers [up] (singleton_subperm_iff.2 hmem) ?_ ?_
    · exact Nat.one_le_iff_ne_zero.2 fun hzero => by simp [hzero] at hup
    · exact hle.trans_eq (add_zero _).symm

/-! ### The selectors -/

/-- The run ends with a value and a transaction. -/
def EndsWith (run : Except BadWrite (ℤ × CMutableTransaction))
    (post : ℤ → CMutableTransaction → Prop) : Prop :=
  ∃ value mtx', run = .ok (value, mtx') ∧ post value mtx'

/-- What a selector of a full node does with the outputs that it looks at. -/
def Node.AddsRows (node : Node) (rows : List CCUtxo) (mtx : CMutableTransaction)
    (total maxinputs : ℤ) (run : Except BadWrite (ℤ × CMutableTransaction)) : Prop :=
  ((node.candidatesOf rows mtx total maxinputs).map outpointOf).Nodup ∧
    EndsWith run (Adds id total (limitOf CC_MAXVINS maxinputs)
      (node.candidatesOf rows mtx total maxinputs) (node.candidatesOf rows mtx total maxinputs) mtx)

/-- What `NSPV_addinputs` does with the outputs of a response. -/
def AddsResp (ptr : List UtxoResp) (mtx : CMutableTransaction) (total maxinputs : ℤ)
    (run : Except BadWrite (ℤ × CMutableTransaction)) : Prop :=
  EndsWith run (Adds respUtxo total (limitOf NSPV_MAXVINS maxinputs) ptr
    (countedOf total maxinputs ptr) mtx)

/-- The outputs that `NSPV_AddNormalinputs` takes from. -/
def Node.answeredRows (node : Node) (mypk : CPubKey) : List UtxoResp :=
  node.addressutxos (node.getscriptaddress (payToPubkey mypk))

/-- What the selectors do for a total. -/
structure SelectsInputs (node : Node) (mypk : CPubKey) (mtx : CMutableTransaction)
    (total maxinputs : ℤ) : Prop where
  full : node.superlite = false →
    node.AddsRows node.walletRows mtx total maxinputs
      (node.addNormalinputsLocal mtx mypk total maxinputs)
    ∧ node.AddsRows (node.addressRows mypk) mtx total maxinputs
      (node.addNormalinputsRemote mtx mypk total maxinputs)
  resp : ∀ ptr : List UtxoResp, (collectedResp total maxinputs ptr).length ≤ NSPV_MAXVINS →
    ∃ value mtx' used, addinputs mtx total maxinputs ptr = .ok (value, mtx', used)
      ∧ used.length ≤ NSPV_MAXVINS
      ∧ Adds respUtxo total (limitOf NSPV_MAXVINS maxinputs) ptr (countedOf total maxinputs ptr) mtx
        value mtx'
  superlite : node.superlite = true →
    (collectedResp total maxinputs (node.answeredRows mypk)).length ≤ NSPV_MAXVINS →
      AddsResp (node.answeredRows mypk) mtx total maxinputs
        (node.addNormalinputsLocal mtx mypk total maxinputs)
      ∧ AddsResp (node.answeredRows mypk) mtx total maxinputs
        (node.addNormalinputsRemote mtx mypk total maxinputs)

theorem Node.addsRows_addFrom (node : Node) (htotal : 0 < total)
    (hmax : 0 < maxinputs) (rows : List CCUtxo) (mtx : CMutableTransaction) :
    node.AddsRows rows mtx total maxinputs (node.addFrom rows mtx total maxinputs) :=
  ⟨nodup_candidates _ [] rows nodup_nil, node.exists_addFrom htotal hmax rows mtx⟩

theorem Node.addsResp_nspvAddNormalinputs (node : Node) (mypk : CPubKey)
    (htotal : 0 < total)
    (hfits : (collectedResp total maxinputs (node.answeredRows mypk)).length ≤ NSPV_MAXVINS)
    (mtx : CMutableTransaction) : AddsResp (node.answeredRows mypk) mtx total maxinputs
      (node.nspvAddNormalinputs mtx mypk total maxinputs) := by
  obtain ⟨value, mtx', used, hrun, -, hadds⟩ := exists_addinputs htotal hfits { mtx with
    fOverwintered := true
    nExpiryHeight := 0
    nVersionGroupId := SAPLING_VERSION_GROUP_ID
    nVersion := SAPLING_TX_VERSION }
  refine ⟨value, mtx', ?_, hadds.appended, hadds.enough, hadds.enough_one⟩
  rw [answeredRows] at hrun
  rw [nspvAddNormalinputs]
  dsimp only
  rw [hrun]
  rfl

/-- **The inputs that the selectors append.** -/
theorem selectsInputs (node : Node) (mypk : CPubKey) (mtx : CMutableTransaction)
    (htotal : 0 < total) (hmax : 0 < maxinputs) :
    SelectsInputs node mypk mtx total maxinputs where
  full hfull := by
    have hnot : ¬ node.superlite = true := by rw [hfull]; exact Bool.false_ne_true
    rw [Node.addNormalinputsLocal, Node.addNormalinputsRemote, if_neg hnot, if_neg hnot]
    exact ⟨node.addsRows_addFrom htotal hmax _ mtx, node.addsRows_addFrom htotal hmax _ mtx⟩
  resp ptr hfits := exists_addinputs htotal hfits mtx
  superlite hlite hfits := by
    have hadds := node.addsResp_nspvAddNormalinputs mypk htotal hfits mtx
    rw [Node.addNormalinputsLocal, Node.addNormalinputsRemote, if_pos hlite, if_pos hlite]
    exact ⟨hadds, hadds⟩

namespace OneOutput

/-- A transaction with one output of 5. -/
def fundingTx : Wire.CTransaction := { vout := [{ nValue := 5, scriptPubKey := [] }], hash := 1 }

/-- A node with this output in its wallet and in its index. -/
def node : Node where
  superlite := false
  availableCoins := [⟨fundingTx, ⟨0, Nat.zero_lt_one⟩, true⟩]
  ccUnspents _ _ := [⟨1, 0, 5, 1⟩]
  getTransaction _ := some fundingTx
  isutxoSpentinmempool _ _ := false
  getscriptaddress _ := []
  addressutxos _ := []

/-- The input for it. -/
def spending : CTxIn := txInOf { txid := 1, nValue := 5, vout := 0 }

theorem selectsInputs_five : SelectsInputs node [] {} 5 1 :=
  selectsInputs node [] {} (by decide) (by decide)

/-- **A run that fails keeps the inputs that it has appended**: the output of 5 for a total of 10 in
two inputs.  And 65 outputs do not fit into the array of `NSPV_addinputs`; of 64 that come to the
total exactly it takes none. -/
theorem vin_of_failed :
    node.addNormalinputsLocal {} [] 10 2 = .ok (0, { vin := [spending] })
    ∧ node.addNormalinputsRemote {} [] 10 2 = .ok (0, { vin := [spending] })
    ∧ (addinputs {} 10 2 [{ txid := 1, satoshis := 5 }]).map (fun r => (r.1, r.2.1))
      = .ok (0, { vin := [spending] })
    ∧ (addinputs {} 1 1 (List.replicate 65 { satoshis := 2 })).map (fun r => (r.1, r.2.1))
      = .error .utxos
    ∧ (addinputs {} 64 64 (List.replicate 64 { satoshis := 1 })).map (fun r => (r.1, r.2.1))
      = .ok (0, {}) := by
  refine ⟨rfl, rfl, rfl, rfl, rfl⟩

end OneOutput

end NormalInputs
end Komodo
