/-
# The unspent outputs that the server answers with

`NSPV_getaddressutxos` counts the rows of the index with `n` and the entries of the answer with
`ind`.  The interest of an output is written to the entry `n`, and the entry `ind` is added to the
sum, so an entry has the interest of the row at its own position in the index (`entryAt`).  `scanOf`
is what the loop has found after some rows, and `writesInside_iff` says when it writes inside the
array, which has room for as many entries as the count of 16 bits says that there are behind the
skip count.

`getaddressutxos_exact_iff` says when the answer is right.
-/

import Komodo.Lib.Grouped
import Komodo.NSPV.RequestBounds

namespace Komodo
namespace NSPV
namespace Server

open Runs List

variable (S : Server) (skipcount tipheight : ℤ)

/-- Whether the row at a position is one of the answer. -/
def keeps (n : ℕ) (it : Unspent) : Bool :=
  skipcount ≤ n ∧ !S.isutxoSpentinmempool it.txhash it.index

/-- Whether interest is looked up for a row. -/
def earns (it : Unspent) : Bool := S.isKMD ∧ 10 * Fees.COIN ≤ it.satoshis

/-- The interest of a row. -/
def interestOf (it : Unspent) : ℤ :=
  if S.earns it then
    S.accruedInterest it.txhash it.index it.blockHeight it.satoshis tipheight
  else 0

/-- The rows of the answer with their positions in the index. -/
def kept (rows : List Unspent) : List (Unspent × ℕ) :=
  rows.zipIdx.filter fun r => S.keeps skipcount r.2 r.1

/-- The interest that is written to an entry: the one of the row at this position of the index. -/
def interestAt (rows : List Unspent) (i : ℕ) : ℤ :=
  ((rows[i]?.filter (S.keeps skipcount i)).map (S.interestOf tipheight)).getD 0

/-- The entry for a row. -/
def utxoOf (it : Unspent) (extradata : ℤ) : UtxoResp :=
  { txid := it.txhash, vout := it.index, satoshis := it.satoshis, height := it.blockHeight
    extradata }

/-- An entry of the array but for the interest. -/
def rowAt (rows : List Unspent) (i : ℕ) : UtxoResp :=
  ((S.kept skipcount rows)[i]?.map fun r => utxoOf r.1 0).getD {}

/-- An entry of the array. -/
def entryAt (rows : List Unspent) (i : ℕ) : UtxoResp :=
  { S.rowAt skipcount rows i with extradata := S.interestAt skipcount tipheight rows i }

/-- The interest of the entries that have one, in an array of `size` entries. -/
def interestSum (size : ℕ) (rows : List Unspent) : ℤ :=
  (((S.kept skipcount rows).zipIdx.filter fun r => S.earns r.1.1).map fun r =>
    if r.2 < size then S.interestAt skipcount tipheight rows r.2 else 0).sum

/-- What the loop has found after these rows. -/
def scanOf (size : ℕ) (rows : List Unspent) : UtxoScan where
  utxos := (List.range size).map (S.entryAt skipcount tipheight rows)
  total := ((S.kept skipcount rows).map fun r => r.1.satoshis).sum
  interest := S.interestSum skipcount tipheight size rows
  ind := (S.kept skipcount rows).length
  n := rows.length

variable {S : Server} {skipcount tipheight : ℤ} {rows : List Unspent} {it : Unspent}

theorem length_kept_le : (S.kept skipcount rows).length ≤ rows.length :=
  (length_filter_le _ _).trans_eq length_zipIdx

theorem kept_append : S.kept skipcount (rows ++ [it]) = S.kept skipcount rows
    ++ if S.keeps skipcount rows.length it then [(it, rows.length)] else [] := by
  rw [kept, zipIdx_append, filter_append, Nat.zero_add]
  cases hkeep : S.keeps skipcount rows.length it with
  | true => exact congrArg _ (filter_cons_of_pos hkeep)
  | false => exact congrArg _ (filter_cons_of_neg (by simpa using hkeep))

theorem interestAt_of_le {i : ℕ} (h : rows.length ≤ i) :
    S.interestAt skipcount tipheight rows i = 0 := by
  rw [interestAt, getElem?_eq_none h]
  rfl

theorem interestAt_append_of_ne {i : ℕ} (h : i ≠ rows.length) :
    S.interestAt skipcount tipheight (rows ++ [it]) i
      = S.interestAt skipcount tipheight rows i := by
  by_cases hlt : i < rows.length
  · rw [interestAt, interestAt, getElem?_append_left hlt]
  · have hle : (rows ++ [it]).length ≤ i := by
      rw [length_append, length_singleton]
      omega
    rw [interestAt_of_le hle, interestAt_of_le (by omega)]

theorem interestAt_append_length : S.interestAt skipcount tipheight (rows ++ [it]) rows.length
    = if S.keeps skipcount rows.length it then S.interestOf tipheight it else 0 := by
  rw [interestAt, getElem?_concat_length]
  cases hkeep : S.keeps skipcount rows.length it with
  | true => rw [Option.filter_some_pos hkeep]; rfl
  | false => rw [Option.filter_some_neg (by simpa using hkeep)]; rfl

theorem modify_map_range {α : Type} (size i : ℕ) (f : ℕ → α) (g : α → α) :
    ((range size).map f).modify i g
      = (range size).map fun j => if i = j then g (f j) else f j := by
  refine ext_getElem? fun j => ?_
  rw [getElem?_modify, getElem?_map, getElem?_map]
  by_cases hj : j < size
  · rw [getElem?_range hj]
    by_cases hi : i = j
    · simp [hi]
    · simp [hi]
  · rw [getElem?_eq_none (by rw [length_range]; omega)]
    rfl

/-! ### One round -/

theorem utxoStep_of_not {st : UtxoScan} (h : S.keeps skipcount st.n it = false) :
    S.utxoStep skipcount tipheight st it = { st with n := st.n + 1 } :=
  if_neg (of_decide_eq_false h)

/-- The entry `ind` of the array without the interest. -/
def withRow (it : Unspent) (u : UtxoResp) : UtxoResp := utxoOf it u.extradata

theorem utxoStep_of_keeps {st : UtxoScan} (h : S.keeps skipcount st.n it = true)
    (hearns : S.earns it = false) :
    S.utxoStep skipcount tipheight st it = { st with
      utxos := st.utxos.modify st.ind (withRow it)
      total := st.total + it.satoshis
      ind := st.ind + 1
      n := st.n + 1 } :=
  (if_pos (of_decide_eq_true h)).trans (if_neg (of_decide_eq_false hearns))

theorem utxoStep_of_earns {st : UtxoScan} (h : S.keeps skipcount st.n it = true)
    (hearns : S.earns it = true) {utxos : List UtxoResp}
    (hutxos : utxos = (st.utxos.modify st.ind (withRow it)).modify st.n fun u =>
      { u with extradata := S.interestOf tipheight it }) :
    S.utxoStep skipcount tipheight st it = {
      utxos
      total := st.total + it.satoshis
      interest := st.interest + ((utxos[st.ind]?).map UtxoResp.extradata).getD 0
      ind := st.ind + 1
      n := st.n + 1 } := by
  rw [interestOf, if_pos hearns] at hutxos
  rw [hutxos]
  exact (if_pos (of_decide_eq_true h)).trans (if_pos (of_decide_eq_true hearns))

/-- A row that is left out changes the count of the rows only. -/
theorem scanOf_append_of_not (size : ℕ) (hkeep : S.keeps skipcount rows.length it = false) :
    S.scanOf skipcount tipheight size (rows ++ [it])
      = { S.scanOf skipcount tipheight size rows with n := rows.length + 1 } := by
  have hinterest : S.interestAt skipcount tipheight (rows ++ [it])
      = S.interestAt skipcount tipheight rows := by
    funext i
    by_cases hi : i = rows.length
    · rw [hi, interestAt_append_length, hkeep, if_neg Bool.false_ne_true,
        interestAt_of_le (Nat.le_refl _)]
    · exact interestAt_append_of_ne hi
  have hkept : S.kept skipcount (rows ++ [it]) = S.kept skipcount rows := by
    rw [kept_append, hkeep, if_neg Bool.false_ne_true, append_nil]
  have hentry : S.entryAt skipcount tipheight (rows ++ [it])
      = S.entryAt skipcount tipheight rows := by
    funext i
    rw [entryAt, entryAt, rowAt, rowAt, hkept, hinterest]
  rw [scanOf, scanOf, interestSum, interestSum, hkept, hinterest, hentry, length_append,
    length_singleton]

section

variable (hkeep : S.keeps skipcount rows.length it = true)
include hkeep

theorem kept_append_of_keeps :
    S.kept skipcount (rows ++ [it]) = S.kept skipcount rows ++ [(it, rows.length)] := by
  rw [kept_append, hkeep, if_pos rfl]

theorem interestAt_append_of_keeps (i : ℕ) :
    S.interestAt skipcount tipheight (rows ++ [it]) i = if rows.length = i
      then S.interestOf tipheight it else S.interestAt skipcount tipheight rows i := by
  split_ifs with hi
  · rw [← hi, interestAt_append_length, hkeep, if_pos rfl]
  · exact interestAt_append_of_ne (Ne.symm hi)

theorem rowAt_append (i : ℕ) :
    S.rowAt skipcount (rows ++ [it]) i = if (S.kept skipcount rows).length = i
      then utxoOf it 0 else S.rowAt skipcount rows i := by
  rw [rowAt, rowAt, kept_append_of_keeps hkeep]
  split_ifs with hi
  · rw [← hi, getElem?_concat_length]
    rfl
  · by_cases hlt : i < (S.kept skipcount rows).length
    · rw [getElem?_append_left hlt]
    · have hlen : (S.kept skipcount rows ++ [(it, rows.length)]).length ≤ i := by
        rw [length_append, length_singleton]
        omega
      rw [getElem?_eq_none hlen, getElem?_eq_none (by omega)]

/-- The entries when a row of the answer is added. -/
theorem entryAt_append :
    S.entryAt skipcount tipheight (rows ++ [it]) = fun i =>
      let u := if (S.kept skipcount rows).length = i
        then withRow it (S.entryAt skipcount tipheight rows i)
        else S.entryAt skipcount tipheight rows i
      if rows.length = i then { u with extradata := S.interestOf tipheight it } else u := by
  funext i
  rw [entryAt, rowAt_append hkeep, interestAt_append_of_keeps hkeep]
  by_cases hind : (S.kept skipcount rows).length = i
  · by_cases hn : rows.length = i
    · rw [if_pos hind, if_pos hn, if_pos hind, if_pos hn]
      rfl
    · rw [if_pos hind, if_neg hn, if_pos hind, if_neg hn]
      rfl
  · by_cases hn : rows.length = i
    · rw [if_neg hind, if_pos hn, if_neg hind, if_pos hn]
      rfl
    · rw [if_neg hind, if_neg hn, if_neg hind, if_neg hn]
      rfl

end

/-- The sum of the interest when a row of the answer is added. -/
theorem interestSum_append (tipheight : ℤ) (size : ℕ)
    (hkeep : S.keeps skipcount rows.length it = true) :
    S.interestSum skipcount tipheight size (rows ++ [it])
      = S.interestSum skipcount tipheight size rows
        + if S.earns it = true ∧ (S.kept skipcount rows).length < size
          then S.interestAt skipcount tipheight (rows ++ [it]) (S.kept skipcount rows).length
          else 0 := by
  have hle : (S.kept skipcount rows).length ≤ rows.length := length_kept_le
  -- the entries before are behind none of the rows
  have hold : ((S.kept skipcount rows).zipIdx.filter fun r => S.earns r.1.1).map (fun r =>
        if r.2 < size then S.interestAt skipcount tipheight (rows ++ [it]) r.2 else 0)
      = ((S.kept skipcount rows).zipIdx.filter fun r => S.earns r.1.1).map fun r =>
        if r.2 < size then S.interestAt skipcount tipheight rows r.2 else 0 := by
    refine map_congr_left fun r hr => ?_
    have hlt := snd_lt_of_mem_zipIdx (mem_of_mem_filter hr)
    rw [interestAt_append_of_ne (by omega)]
  rw [interestSum, interestSum, kept_append_of_keeps hkeep, zipIdx_append, filter_append,
    map_append, sum_append, hold, Nat.zero_add, zipIdx_singleton]
  cases hearns : S.earns it with
  | true =>
    simp only [filter_cons, filter_nil, hearns, if_true, map_singleton, sum_singleton, true_and]
  | false =>
    simp only [filter_cons, filter_nil, hearns, Bool.false_eq_true, if_false,
      map_nil, sum_nil, false_and]

/-- The loop writes the entries, for an output without interest. -/
theorem modify_utxos (size : ℕ) (hkeep : S.keeps skipcount rows.length it = true)
    (hearns : S.earns it = false) :
    ((range size).map (S.entryAt skipcount tipheight rows)).modify
        (S.kept skipcount rows).length (withRow it)
      = (range size).map (S.entryAt skipcount tipheight (rows ++ [it])) := by
  have hzero : S.interestOf tipheight it = 0 := by
    rw [interestOf, hearns, if_neg Bool.false_ne_true]
  rw [modify_map_range, entryAt_append hkeep, hzero]
  refine map_congr_left fun i _ => ?_
  by_cases hn : rows.length = i
  · -- no row has been at this position
    have hnone : S.interestAt skipcount tipheight rows i = 0 := interestAt_of_le hn.le
    dsimp only
    rw [if_pos hn]
    split_ifs
    · exact congrArg (utxoOf it) hnone
    · exact congrArg (fun e => { S.entryAt skipcount tipheight rows i with extradata := e }) hnone
  · exact (if_neg hn).symm

theorem modify_utxos_of_earns (size : ℕ) (hkeep : S.keeps skipcount rows.length it = true) :
    (((range size).map (S.entryAt skipcount tipheight rows)).modify
        (S.kept skipcount rows).length (withRow it)).modify rows.length
          (fun u => { u with extradata := S.interestOf tipheight it })
      = (List.range size).map (S.entryAt skipcount tipheight (rows ++ [it])) := by
  rw [modify_map_range, modify_map_range, entryAt_append hkeep]

/-- **What the loop does with a row.** -/
theorem utxoStep_scanOf (size : ℕ) (it : Unspent) :
    S.utxoStep skipcount tipheight (S.scanOf skipcount tipheight size rows) it
      = S.scanOf skipcount tipheight size (rows ++ [it]) := by
  cases hkeep : S.keeps skipcount rows.length it with
  | false => rw [utxoStep_of_not hkeep, scanOf_append_of_not size hkeep]; rfl
  | true =>
    have hsum := interestSum_append tipheight size hkeep
    have hscan : S.scanOf skipcount tipheight size (rows ++ [it]) = {
        utxos := (range size).map (S.entryAt skipcount tipheight (rows ++ [it]))
        total := (S.scanOf skipcount tipheight size rows).total + it.satoshis
        interest := S.interestSum skipcount tipheight size (rows ++ [it])
        ind := (S.kept skipcount rows).length + 1
        n := rows.length + 1 } := by
      simp only [scanOf, kept_append_of_keeps hkeep, map_append, sum_append,
        length_append, map_singleton, sum_singleton, length_singleton]
    rw [hscan, hsum]
    cases hearns : S.earns it with
    | false =>
      rw [utxoStep_of_keeps hkeep hearns, ← modify_utxos size hkeep hearns, if_neg (by simp),
        Int.add_zero]
      rfl
    | true =>
      rw [utxoStep_of_earns hkeep hearns (modify_utxos_of_earns size hkeep).symm]
      have hind : (S.scanOf skipcount tipheight size rows).ind
          = (S.kept skipcount rows).length := rfl
      congr 2
      rw [getElem?_map, hind]
      by_cases hsize : (S.kept skipcount rows).length < size
      · rw [getElem?_range hsize, if_pos ⟨rfl, hsize⟩]
        rfl
      · rw [getElem?_eq_none (by rw [length_range]; omega), if_neg fun h => hsize h.2]
        rfl

/-- **What the loop has found after all rows.** -/
theorem foldl_utxoStep (size : ℕ) (rows : List Unspent) :
    rows.foldl (S.utxoStep skipcount tipheight) { utxos := replicate size {} }
      = S.scanOf skipcount tipheight size rows := by
  induction rows using reverseRecOn with
  | nil =>
    have hempty : S.entryAt skipcount tipheight [] = fun _ => {} := rfl
    rw [foldl_nil, scanOf, hempty, map_const', length_range]
    rfl
  | append_singleton rows it ih => rw [foldl_append, ih, foldl_cons, utxoStep_scanOf]; rfl

/-! ### Where the loop writes -/

/-- The entries that a round writes to. -/
def utxoWrites (S : Server) (skipcount : ℤ) (st : UtxoScan) (it : Unspent) : List ℕ :=
  if S.keeps skipcount st.n it then st.ind :: if S.earns it then [st.n] else [] else []

/-- The entries that the loop writes to. -/
def scanWrites (S : Server) (skipcount tipheight : ℤ) : UtxoScan → List Unspent → List ℕ
  | _, [] => []
  | st, it :: rest => S.utxoWrites skipcount st it
    ++ scanWrites S skipcount tipheight (S.utxoStep skipcount tipheight st it) rest

theorem scanWrites_append (st : UtxoScan) (rows : List Unspent) (it : Unspent) :
    S.scanWrites skipcount tipheight st (rows ++ [it])
      = S.scanWrites skipcount tipheight st rows
        ++ S.utxoWrites skipcount (rows.foldl (S.utxoStep skipcount tipheight) st) it := by
  induction rows generalizing st with
  | nil => exact append_nil _
  | cons first rows ih =>
    rw [cons_append, scanWrites, ih, scanWrites, append_assoc]
    rfl

/-- Nothing is written outside an array of `size` entries. -/
def WritesInside (S : Server) (skipcount tipheight : ℤ) (size : ℕ) (rows : List Unspent) : Prop :=
  ∀ i ∈ S.scanWrites skipcount tipheight { utxos := List.replicate size {} } rows, i < size

/-- **When the loop writes inside the array.** -/
theorem writesInside_iff {size : ℕ} : WritesInside S skipcount tipheight size rows ↔
    (S.kept skipcount rows).length ≤ size
      ∧ ∀ r ∈ S.kept skipcount rows, S.earns r.1 = true → r.2 < size := by
  induction rows using reverseRecOn with
  | nil => exact iff_of_true (forall_mem_nil _) ⟨Nat.zero_le _, forall_mem_nil _⟩
  | append_singleton rows it ih =>
    rw [WritesInside, scanWrites_append, forall_mem_append, foldl_utxoStep, utxoWrites]
    change WritesInside S skipcount tipheight size rows ∧ _ ↔ _
    rw [ih]
    change _ ∧ (∀ i ∈ if S.keeps skipcount rows.length it then (S.kept skipcount rows).length
      :: if S.earns it then [rows.length] else [] else [], i < size) ↔ _
    rw [kept_append]
    cases hkeep : S.keeps skipcount rows.length it with
    | false =>
      rw [if_neg Bool.false_ne_true, if_neg Bool.false_ne_true, append_nil]
      exact and_iff_left (forall_mem_nil _)
    | true =>
      rw [if_pos rfl, if_pos rfl, length_append, length_singleton, forall_mem_append,
        forall_mem_cons, forall_mem_singleton]
      cases hearns : S.earns it with
      | false =>
        rw [if_neg Bool.false_ne_true]
        exact ⟨fun h => ⟨h.2.1, h.1.2, nofun⟩, fun h => ⟨⟨by omega, h.2.1⟩, h.1, forall_mem_nil _⟩⟩
      | true =>
        rw [if_pos rfl, forall_mem_singleton]
        exact ⟨fun h => ⟨h.2.1, h.1.2, fun _ => h.2.2⟩,
          fun h => ⟨⟨by omega, h.2.1⟩, h.1, h.2.2 rfl⟩⟩

/-! ### The answer -/

theorem map_fst_kept_from (s k : ℕ) (rows : List Unspent) :
    ((rows.zipIdx k).filter fun r => S.keeps s r.2 r.1).map Prod.fst
      = (rows.drop (s - k)).filter fun it => !S.isutxoSpentinmempool it.txhash it.index := by
  induction rows generalizing k with
  | nil => rw [zipIdx_nil, drop_nil]; rfl
  | cons it rows ih =>
    have ih := ih (k + 1)
    rw [zipIdx_cons, filter_cons]
    by_cases hk : s ≤ k
    · rw [show s - (k + 1) = 0 by omega] at ih
      have hkeeps : S.keeps s k it = !S.isutxoSpentinmempool it.txhash it.index := by
        rw [Bool.eq_iff_iff, keeps, decide_eq_true_iff, and_iff_right (Int.ofNat_le.2 hk)]
      rw [show s - k = 0 by omega, drop_zero, filter_cons, hkeeps]
      split_ifs
      · exact congrArg (it :: ·) ih
      · exact ih
    · have hkeeps : S.keeps s k it = false :=
        decide_eq_false fun h => hk (Int.ofNat_le.1 h.1)
      rw [show s - k = s - (k + 1) + 1 by omega, drop_succ_cons, hkeeps,
        if_neg Bool.false_ne_true, ih]

theorem map_fst_kept (s : ℕ) (rows : List Unspent) : (S.kept s rows).map Prod.fst
    = (rows.drop s).filter fun it => !S.isutxoSpentinmempool it.txhash it.index :=
  map_fst_kept_from s 0 rows

theorem map_zipIdx_eq_map_iff {α β : Type} (l : List α) (f : α → ℕ → β) (g : α → β) :
    (l.zipIdx.map fun r => f r.1 r.2) = l.map g ↔ ∀ k a, l[k]? = some a → f a k = g a := by
  rw [List.ext_getElem?_iff]
  refine forall_congr' fun k => ?_
  rw [getElem?_map, getElem?_map, getElem?_zipIdx, Nat.zero_add]
  cases l[k]? with
  | none => exact iff_of_true rfl nofun
  | some a => simp

theorem sum_map_filter {α : Type} (l : List α) {p : α → Bool} {f : α → ℤ}
    (h : ∀ a ∈ l, p a = false → f a = 0) : ((l.filter p).map f).sum = (l.map f).sum := by
  induction l with
  | nil => rfl
  | cons a l ih =>
    rw [forall_mem_cons] at h
    rw [filter_cons, map_cons, sum_cons, ← ih h.2]
    cases hp : p a with
    | true => rw [if_pos rfl, map_cons, sum_cons]
    | false => rw [if_neg Bool.false_ne_true, h.1 hp, Int.zero_add]

theorem take_utxos {size : ℕ} (h : (S.kept skipcount rows).length ≤ size) :
    (S.scanOf skipcount tipheight size rows).utxos.take (S.kept skipcount rows).length
      = (S.kept skipcount rows).zipIdx.map fun r =>
        utxoOf r.1.1 (S.interestAt skipcount tipheight rows r.2) := by
  refine ext_getElem? fun i => ?_
  rw [getElem?_take, scanOf, getElem?_map, getElem?_map, getElem?_zipIdx, Nat.zero_add]
  by_cases hi : i < (S.kept skipcount rows).length
  · rw [if_pos hi, getElem?_range (by omega), getElem?_eq_getElem hi]
    rw [Option.map_some, entryAt, rowAt, getElem?_eq_getElem hi]
    rfl
  · rw [if_neg hi, getElem?_eq_none (by omega)]
    rfl

/-- What the interest of the entries adds up to, when each has its own. -/
theorem interestSum_eq {size : ℕ} (hsize : (S.kept skipcount rows).length ≤ size)
    (hown : ∀ k r, (S.kept skipcount rows)[k]? = some r →
      S.interestAt skipcount tipheight rows k = S.interestOf tipheight r.1) :
    S.interestSum skipcount tipheight size rows = ((S.kept skipcount rows).zipIdx.map fun r =>
      S.interestAt skipcount tipheight rows r.2).sum := by
  have hinside : ((S.kept skipcount rows).zipIdx.filter fun r => S.earns r.1.1).map (fun r =>
        if r.2 < size then S.interestAt skipcount tipheight rows r.2 else 0)
      = ((S.kept skipcount rows).zipIdx.filter fun r => S.earns r.1.1).map fun r =>
        S.interestAt skipcount tipheight rows r.2 := by
    refine map_congr_left fun r hr => if_pos ?_
    have hlt := snd_lt_of_mem_zipIdx (mem_of_mem_filter hr)
    omega
  rw [interestSum, hinside]
  refine sum_map_filter _ fun r hr hearns => ?_
  rw [hown r.2 r.1 (mk_mem_zipIdx_iff_getElem?.1 hr), interestOf, hearns, if_neg Bool.false_ne_true]

/-- The response lists the outputs from a position on that are not spent, each with its own
interest. -/
structure ExactUtxos (S : Server) (tipheight : ℤ) (rows : List Unspent) (skipcount : ℤ)
    (resp : UtxosResp) : Prop where
  utxos : resp.utxos = ((rows.drop skipcount.toNat).filter fun it =>
    !S.isutxoSpentinmempool it.txhash it.index).map fun it => utxoOf it (S.interestOf tipheight it)
  total : resp.total = (resp.utxos.map UtxoResp.satoshis).sum
  interest : resp.interest = (resp.utxos.map UtxoResp.extradata).sum

/-- The entries of the answer and the rows of the index belong together. -/
structure Aligned (S : Server) (tipheight : ℤ) (rows : List Unspent) (used skipcount : ℤ) :
    Prop where
  /-- The rows that are left out by the skip count that is asked for are spent. -/
  skipped : ∀ r ∈ S.kept used rows, skipcount ≤ r.2
  /-- The row at the position of an entry is in the answer and has the same interest, or there is
  none. -/
  interest : ∀ k r, (S.kept used rows)[k]? = some r →
    S.interestAt used tipheight rows k = S.interestOf tipheight r.1

section
variable {used : ℤ} (hused : used ≤ max skipcount 0)
include hused

theorem keeps_of_keeps (r : Unspent × ℕ) (h : S.keeps skipcount.toNat r.2 r.1 = true) :
    S.keeps used r.2 r.1 = true := by
  obtain ⟨hle, hunspent⟩ := of_decide_eq_true h
  exact decide_eq_true ⟨by omega, hunspent⟩

theorem kept_eq_of_length (h : (S.kept used rows).length = (S.kept skipcount.toNat rows).length) :
    S.kept used rows = S.kept skipcount.toNat rows := by
  have hmore := fun r (_ : r ∈ rows.zipIdx) => keeps_of_keeps (S := S) hused r
  exact Grouped.filter_eq_filter hmore (Grouped.forall_of_length_le hmore h.le)

theorem kept_eq_iff : S.kept used rows = S.kept skipcount.toNat rows ↔
    ∀ r ∈ S.kept used rows, skipcount ≤ r.2 := by
  constructor
  · intro h r hr
    rw [h] at hr
    have hkeep : S.keeps skipcount.toNat r.2 r.1 = true := (mem_filter.1 hr).2
    have hle := (of_decide_eq_true hkeep).1
    omega
  · intro h
    refine Grouped.filter_eq_filter (fun r _ => keeps_of_keeps hused r) fun r hr hkeep => ?_
    have hle := h r (mem_filter.2 ⟨hr, hkeep⟩)
    exact decide_eq_true ⟨by omega, (of_decide_eq_true hkeep).2⟩

/-- **When the response is the one that is asked for**, the writes being inside the array. -/
theorem exactUtxos_iff {resp : UtxosResp} {size : ℕ} (hsize : (S.kept used rows).length ≤ size)
    (hutxos : resp.utxos = (S.kept used rows).zipIdx.map fun r =>
      utxoOf r.1.1 (S.interestAt used tipheight rows r.2))
    (htotal : resp.total = (S.scanOf used tipheight size rows).total)
    (hinterest : resp.interest = (S.scanOf used tipheight size rows).interest) :
    ExactUtxos S tipheight rows skipcount resp ↔ Aligned S tipheight rows used skipcount := by
  have hpos := map_zipIdx_eq_map_iff (S.kept used rows)
    (fun r k => utxoOf r.1 (S.interestAt used tipheight rows k))
    fun r => utxoOf r.1 (S.interestOf tipheight r.1)
  constructor
  · intro h
    have hlist := h.utxos
    rw [hutxos, ← map_fst_kept, map_map] at hlist
    have hlen := congrArg length hlist
    rw [length_map, length_map, length_zipIdx] at hlen
    have hkept := kept_eq_of_length hused hlen
    rw [← hkept] at hlist
    refine ⟨(kept_eq_iff hused).1 hkept, fun k r hr => ?_⟩
    exact congrArg UtxoResp.extradata (hpos.1 hlist k r hr)
  · intro h
    have hkept := (kept_eq_iff hused).2 h.skipped
    refine ⟨?_, ?_, ?_⟩
    · rw [hutxos, ← map_fst_kept, map_map, ← hkept]
      exact hpos.2 fun k r hr => congrArg (utxoOf r.1) (h.interest k r hr)
    · have hfst : (S.kept used rows).zipIdx.map Prod.fst = S.kept used rows :=
        zipIdx_map_fst 0 _
      rw [htotal, hutxos, map_map, scanOf]
      dsimp only
      conv_lhs => rw [← hfst, map_map]
      rfl
    · rw [hinterest, hutxos, map_map]
      exact interestSum_eq hsize h.interest

end

/-- The count of 16 bits. -/
def numutxos (rows : List Unspent) : ℕ := rows.length % 2 ^ 16

/-- The skip count that is used. -/
def usedSkip (skipcount : ℤ) (rows : List Unspent) : ℤ := clampSkip skipcount (numutxos rows)

/-- How many entries are allocated. -/
def allocated (skipcount : ℤ) (rows : List Unspent) : ℕ :=
  (numutxos rows - usedSkip skipcount rows).toNat

theorem usedSkip_le (skipcount : ℤ) (rows : List Unspent) :
    usedSkip skipcount rows ≤ max skipcount 0 := by
  unfold usedSkip clampSkip
  dsimp only
  split_ifs
  · omega
  · exact le_refl _

theorem allocated_lt (skipcount : ℤ) (rows : List Unspent) : allocated skipcount rows < 2 ^ 16 := by
  have hlt : numutxos rows < 2 ^ 16 := Nat.mod_lt _ (Nat.two_pow_pos 16)
  unfold allocated usedSkip clampSkip
  dsimp only
  split_ifs
  · omega
  · omega

/-- The array has room for the rows of the answer, and for the positions of those with interest. -/
structure Fits (S : Server) (rows : List Unspent) (skipcount : ℤ) : Prop where
  count : (S.kept (usedSkip skipcount rows) rows).length ≤ allocated skipcount rows
  slots : ∀ r ∈ S.kept (usedSkip skipcount rows) rows, S.earns r.1 = true →
    r.2 < allocated skipcount rows

/-- The response of `NSPV_getaddressutxos`. -/
def utxosResp (S : Server) (coinaddr : Bytes) (isCC : Bool) (skipcount : ℤ) (filter : ℕ)
    (rows : List Unspent) : UtxosResp :=
  let tipheight : ℤ := S.chain.length - 1
  let scan := S.scanOf (usedSkip skipcount rows) tipheight (allocated skipcount rows) rows
  { utxos := scan.utxos.take (scan.ind % 2 ^ 16)
    coinaddr, filter
    skipcount := usedSkip skipcount rows
    total := scan.total
    interest := scan.interest
    nodeheight := tipheight
    CCflag := isCC.toNat }

theorem getaddressutxos_eq_none (coinaddr : Bytes) (isCC : Bool) (skipcount : ℤ) (filter : ℕ)
    (h : S.maxlen S.staleHeight 56 ≤ numutxos (S.ccUnspents coinaddr isCC)) :
    S.getaddressutxos coinaddr isCC skipcount filter = .ok none :=
  if_neg (Nat.not_lt.2 h)

theorem getaddressutxos_eq (hchain : S.chain ≠ []) (coinaddr : Bytes) (isCC : Bool) (skipcount : ℤ)
    (filter : ℕ) (h : numutxos (S.ccUnspents coinaddr isCC) < S.maxlen S.staleHeight 56) :
    S.getaddressutxos coinaddr isCC skipcount filter
      = .ok (some (S.utxosResp coinaddr isCC skipcount filter (S.ccUnspents coinaddr isCC))) := by
  rw [utxosResp, ← foldl_utxoStep]
  refine (if_pos h).trans ?_
  rw [bind_of_eq_ok (tipHeight_eq hchain)]
  rfl

theorem exactUtxos_utxosResp_iff {coinaddr : Bytes} {isCC : Bool} {filter : ℕ}
    (h : Fits S rows skipcount) :
    ExactUtxos S (S.chain.length - 1) rows skipcount
        (S.utxosResp coinaddr isCC skipcount filter rows) ↔
      Aligned S (S.chain.length - 1) rows (usedSkip skipcount rows) skipcount := by
  refine exactUtxos_iff (usedSkip_le skipcount rows) h.count ?_ rfl rfl
  have hlt := allocated_lt skipcount rows
  have hind : (S.kept (usedSkip skipcount rows) rows).length % 2 ^ 16
      = (S.kept (usedSkip skipcount rows) rows).length :=
    Nat.mod_eq_of_lt (Nat.lt_of_le_of_lt h.count hlt)
  rw [← take_utxos h.count, ← hind]
  rfl

/-- The request has no answer, or the one that is asked for, and nothing is written outside the
array. -/
def AnswersUtxos (S : Server) (coinaddr : Bytes) (isCC : Bool) (skipcount : ℤ) (filter : ℕ) :
    Prop :=
  S.getaddressutxos coinaddr isCC skipcount filter = .ok none
  ∨ ∃ resp, S.getaddressutxos coinaddr isCC skipcount filter = .ok (some resp)
    ∧ ExactUtxos S (S.chain.length - 1) (S.ccUnspents coinaddr isCC) skipcount resp
    ∧ WritesInside S (usedSkip skipcount (S.ccUnspents coinaddr isCC)) (S.chain.length - 1)
      (allocated skipcount (S.ccUnspents coinaddr isCC)) (S.ccUnspents coinaddr isCC)

/-- **When the outputs of an address are answered with as they are asked for**: there are too many
for an answer, or the node has a tip, the loop writes inside the array, and the entries and the rows
of the index belong together. -/
theorem getaddressutxos_exact_iff (coinaddr : Bytes) (isCC : Bool) (skipcount : ℤ) (filter : ℕ) :
    AnswersUtxos S coinaddr isCC skipcount filter ↔
      S.maxlen S.staleHeight 56 ≤ numutxos (S.ccUnspents coinaddr isCC)
      ∨ S.chain ≠ [] ∧ Fits S (S.ccUnspents coinaddr isCC) skipcount
        ∧ Aligned S (S.chain.length - 1) (S.ccUnspents coinaddr isCC)
          (usedSkip skipcount (S.ccUnspents coinaddr isCC)) skipcount := by
  have hinside : WritesInside S (usedSkip skipcount (S.ccUnspents coinaddr isCC))
      (S.chain.length - 1) (allocated skipcount (S.ccUnspents coinaddr isCC))
      (S.ccUnspents coinaddr isCC) ↔ Fits S (S.ccUnspents coinaddr isCC) skipcount :=
    writesInside_iff.trans ⟨fun h => ⟨h.1, h.2⟩, fun h => ⟨h.count, h.slots⟩⟩
  by_cases hmany : S.maxlen S.staleHeight 56 ≤ numutxos (S.ccUnspents coinaddr isCC)
  · exact iff_of_true (.inl (getaddressutxos_eq_none coinaddr isCC skipcount filter hmany))
      (.inl hmany)
  rw [or_iff_right hmany, AnswersUtxos, hinside]
  by_cases hchain : S.chain = []
  · refine iff_of_false ?_ fun h => h.1 hchain
    -- there is no tip whose height could be read
    have hfails : ¬ Completes (S.getaddressutxos coinaddr isCC skipcount filter) := fun h =>
      completes_getaddressutxos.1 h (Nat.not_le.1 hmany) hchain
    rintro (hnone | ⟨resp, hresp, -⟩)
    · exact hfails ⟨_, hnone⟩
    · exact hfails ⟨_, hresp⟩
  have hrun := getaddressutxos_eq hchain coinaddr isCC skipcount filter (Nat.not_le.1 hmany)
  rw [hrun, and_iff_right hchain]
  constructor
  · rintro (hnone | ⟨resp, hresp, hexact, hfits⟩)
    · exact absurd (Except.ok.inj hnone) nofun
    · rw [← Option.some.inj (Except.ok.inj hresp)] at hexact
      exact ⟨hfits, (exactUtxos_utxosResp_iff hfits).1 hexact⟩
  · rintro ⟨hfits, haligned⟩
    exact .inr ⟨_, rfl, (exactUtxos_utxosResp_iff hfits).2 haligned, hfits⟩

namespace GenesisOnly

/-- A node that knows two outputs of twenty coins, the first of which is spent in the mempool. -/
def wealthy : Server :=
  { node with
    ccUnspents := fun _ _ => [⟨1, 0, 2000000000, 1⟩, ⟨2, 0, 2000000000, 1⟩]
    isutxoSpentinmempool := fun txid _ => txid = 1
    accruedInterest := fun _ _ _ _ _ => 5 }

/-- **The interest of the second output is written to the second entry, which is not sent.** -/
theorem getaddressutxos_not_exact : ¬ AnswersUtxos wealthy [] false 0 0 := by
  have hrun := getaddressutxos_eq (S := wealthy) (by decide) [] false 0 0 (by decide)
  rintro (hnone | ⟨resp, hresp, hexact, -⟩)
  · exact absurd (Except.ok.inj (hrun.symm.trans hnone)) nofun
  · rw [← Option.some.inj (Except.ok.inj (hrun.symm.trans hresp))] at hexact
    have hinterest := congrArg (map UtxoResp.extradata) hexact.utxos
    exact absurd hinterest (by decide)

end GenesisOnly

end Server
end NSPV
end Komodo
