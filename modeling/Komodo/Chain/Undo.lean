/-
# Spending outputs and undoing it

`UpdateCoins`, `ApplyTxInUndo` and the body of the loop of `DisconnectBlock` in
`src/src/main.cpp`, the undo records of `src/src/undo.h`, and
`AddImportTombstone` and `RemoveImportTombstone` of `src/src/importcoin.cpp`,
over the flat map of `Komodo.Coins.Refinement` (what a tower of caches stands
for). Every change of coins and nullifiers is an operation `ViewOp` of that
map.

`applyTxInUndo_spendUndo` says that the undo record of a spend restores the
record it was taken from.
-/

import Komodo.Coins.Refinement

namespace Komodo

open List

/-- `CTxInUndo`: the spent output, and the metadata of its record when it was
the last one. -/
structure CTxInUndo where
  txout : CTxOut := CTxOut.null
  fCoinBase : Bool := false
  nHeight : ℤ := 0
  nVersion : ℤ := 0
deriving DecidableEq, Repr

/-- `CTxUndo`: `vprevout`, one undo record for each input. -/
abbrev CTxUndo := List CTxInUndo

/-- `CBlockUndo`: the undo records of all transactions but the coinbase. -/
structure CBlockUndo where
  vtxundo : List CTxUndo
  oldSproutTreeRoot : Uint256
deriving DecidableEq, Repr

namespace CCoins

/-- Spending output `n` of a record in `UpdateCoins`, with its undo record;
`none` is the failed assertion on a missing output. -/
def spendUndo (c : CCoins) (n : ℕ) : Option (CCoins × CTxInUndo) :=
  match c.vout[n]?, c.spend n with
  | some out, some c' =>
    if c'.vout.isEmpty then
      some (c', { txout := out, nHeight := c'.nHeight, fCoinBase := c'.fCoinBase,
                  nVersion := c'.nVersion })
    else some (c', { txout := out })
  | _, _ => none

/-- `vector::resize(k)` upwards: null outputs are appended up to length `k`. -/
def resize (l : List CTxOut) (k : ℕ) : List CTxOut :=
  l ++ List.replicate (k - l.length) CTxOut.null

/-- `ApplyTxInUndo` on the record of `out.hash`: the record and `fClean`. -/
def applyTxInUndo (undo : CTxInUndo) (n : ℕ) (c : CCoins) : CCoins × Bool :=
  let start : CCoins × Bool :=
    if undo.nHeight ≠ 0 then
      -- the last output of the record was spent: its metadata comes back with it
      ({ fCoinBase := undo.fCoinBase, nHeight := undo.nHeight, nVersion := undo.nVersion },
        c.isPruned)
    else (c, !c.isPruned)
  ({ start.1 with vout := (resize start.1.vout (n + 1)).set n undo.txout },
    start.2 && !start.1.isAvailable n)

/-- The check of `DisconnectBlock` that the outputs of `tx` are still there. -/
def matchesTx (tx : CTransaction) (nHeight : ℤ) (c : CCoins) : Bool :=
  let outs := c.clearUnspendable
  let outsBlock := fromTx tx nHeight
  let outs := if outsBlock.nVersion < 0 then { outs with nVersion := outsBlock.nVersion } else outs
  decide (outs ≈ outsBlock)

end CCoins

/-- `importTx.vin[0].prevout.hash`: the burn transaction of a coin import. -/
def CTransaction.burnTxid (tx : CTransaction) : Uint256 :=
  match tx.vin with
  | i :: _ => i.prevout.hash
  | [] => 0

namespace FlatView

/-- The body of the input loop of `UpdateCoins`. -/
def spendInput (m : FlatView) (o : COutPoint) : Option (FlatView × CTxInUndo) :=
  match (m.coins o.hash).spendUndo o.n with
  | some (c, undo) => some (m.setCoins o.hash c.cleanup, undo)
  | none => none

/-- The input loop of `UpdateCoins`. -/
def spendInputs : List CTxIn → FlatView → Option (FlatView × CTxUndo)
  | [], m => some (m, [])
  | i :: is, m =>
    match m.spendInput i.prevout with
    | none => none
    | some (m₁, undo) =>
      match spendInputs is m₁ with
      | none => none
      | some (m₂, undos) => some (m₂, undo :: undos)

def updateCoins (tx : CTransaction) (nHeight : ℤ) (m : FlatView) : Option (FlatView × CTxUndo) :=
  match if tx.isMint then some (m, []) else spendInputs tx.vin m with
  | none => none
  | some (m₁, undo) =>
    let m₂ := m₁.step (.setNullifiers tx true)
    let m₃ := m₂.step (.modifyCoins tx.hash fun _ => CCoins.fromTx tx nHeight)
    let m₄ :=
      if tx.isCoinImport then m₃.step (.modifyCoins tx.burnTxid (CCoins.addTombstone nHeight))
      else m₃
    some (m₄, undo)

def applyTxInUndo (m : FlatView) (o : COutPoint) (undo : CTxInUndo) : FlatView × Bool :=
  let r := (m.coins o.hash).applyTxInUndo undo o.n
  (m.setCoins o.hash r.1.cleanup, r.2)

/-- The input loop of `DisconnectBlock`, from the last input to the first. -/
def restoreInputs : List (CTxIn × CTxInUndo) → FlatView → FlatView × Bool
  | [], m => (m, true)
  | (i, undo) :: rest, m =>
    let later := restoreInputs rest m
    let r := later.1.applyTxInUndo i.prevout undo
    (r.1, later.2 && r.2)

/-- The body of the transaction loop of `DisconnectBlock`: the map and `fClean`;
`none` when the undo data does not fit the transaction. -/
def disconnectTx (tx : CTransaction) (undo : CTxUndo) (nHeight : ℤ) (m : FlatView) :
    Option (FlatView × Bool) :=
  let clean := (m.coins tx.hash).matchesTx tx nHeight
  let m₁ := m.step (.modifyCoins tx.hash CCoins.clear)
  let m₂ := m₁.step (.setNullifiers tx false)
  if !tx.isMint then
    if undo.length ≠ tx.vin.length then none
    else
      let r := restoreInputs (tx.vin.zip undo) m₂
      some (r.1, clean && r.2)
  else if tx.isCoinImport then
    some (m₂.step (.modifyCoins tx.burnTxid CCoins.clear), clean)
  else some (m₂, clean)

end FlatView

/-! ### The same writes on a tower of caches -/

/-- The change of the record when an input spends output `n`. -/
def CCoins.spendChange (n : ℕ) (c : CCoins) : CCoins :=
  match c.spendUndo n with
  | some (c', _) => c'
  | none => c

/-- `UpdateCoins` as operations on a view. -/
def updateOps (tx : CTransaction) (nHeight : ℤ) : List ViewOp :=
  (if tx.isMint then [] else
    tx.vin.map fun i => .modifyCoins i.prevout.hash (CCoins.spendChange i.prevout.n)) ++
  [.setNullifiers tx true, .modifyCoins tx.hash fun _ => CCoins.fromTx tx nHeight] ++
  if tx.isCoinImport then [.modifyCoins tx.burnTxid (CCoins.addTombstone nHeight)] else []

theorem FlatView.spendInputs_eq_run {is : List CTxIn} {m m' : FlatView} {undo : CTxUndo}
    (h : FlatView.spendInputs is m = some (m', undo)) :
    m' = m.run (is.map fun i => .modifyCoins i.prevout.hash (CCoins.spendChange i.prevout.n)) := by
  induction is generalizing m undo with
  | nil =>
    cases h
    rfl
  | cons i is ih =>
    simp only [FlatView.spendInputs] at h
    split at h
    · cases h
    · rename_i m₁ u hs
      split at h
      · cases h
      · rename_i m₂ us hr
        cases h
        simp only [FlatView.spendInput] at hs
        split at hs
        · rename_i c u' hc
          cases hs
          rw [ih hr]
          simp only [map_cons, FlatView.run, foldl_cons, FlatView.step, CCoins.spendChange, hc]
        · cases hs

/-- `UpdateCoins` on the flat map is the run of its operations. -/
theorem FlatView.updateCoins_eq_run {tx : CTransaction} {nHeight : ℤ} {m m' : FlatView}
    {undo : CTxUndo} (h : m.updateCoins tx nHeight = some (m', undo)) :
    m' = m.run (updateOps tx nHeight) := by
  unfold FlatView.updateCoins at h
  split at h
  · cases h
  · rename_i m₁ undo₁ hs
    cases h
    unfold FlatView.run updateOps
    rw [foldl_append, foldl_append]
    have hm₁ : (if tx.isMint then [] else tx.vin.map fun i =>
        ViewOp.modifyCoins i.prevout.hash (CCoins.spendChange i.prevout.n)).foldl
          FlatView.step m = m₁ := by
      split_ifs at hs ⊢
      · exact congrArg Prod.fst (Option.some.inj hs)
      · exact (FlatView.spendInputs_eq_run hs).symm
    rw [hm₁]
    split_ifs <;> rfl

theorem CCoins.spendChange_respects (n : ℕ) {a b : CCoins} (h : a ≈ b) :
    a.spendChange n ≈ b.spendChange n := by
  rcases h with ⟨ha, hb⟩ | rfl
  · -- a pruned record has nothing to spend
    have hnone : ∀ c : CCoins, c.isPruned → c.spendChange n = c := by
      intro c hc
      have hav : c.isAvailable n = false := by
        unfold CCoins.isAvailable
        cases hn : c.vout[n]? with
        | none => rfl
        | some o =>
          rw [CCoins.isPruned, all_eq_true] at hc
          simp [hc o (mem_of_getElem? hn)]
      have hs : c.spendUndo n = none := by
        simp only [CCoins.spendUndo, CCoins.spend, hav]
        cases c.vout[n]? <;> rfl
      rw [CCoins.spendChange, hs]
    rw [hnone a ha, hnone b hb]
    exact CCoins.eqv_of_isPruned ha hb
  · exact Setoid.refl _

/-- **`UpdateCoins` on a tower of caches** is `UpdateCoins` on the flat map the
tower stands for; the tombstone of an import keeps whatever metadata it finds,
so imports are left out here. -/
theorem Tower.updateCoins_agrees {T : ShieldedType → Type} [∀ s, MerkleTree (T s)] {t : Tower T}
    (ht : t.Reachable) {tx : CTransaction} (himp : tx.isCoinImport = false) {nHeight : ℤ}
    {m' : FlatView} {undo : CTxUndo} (h : t.flat.updateCoins tx nHeight = some (m', undo)) :
    ∃ t', t.run (updateOps tx nHeight) = some t' ∧ t'.Agrees m' := by
  obtain ⟨t', hrun, hspec⟩ := t.run_spec (updateOps tx nHeight) ht.wf
  refine ⟨t', hrun, ?_⟩
  rw [FlatView.updateCoins_eq_run h]
  refine (hspec t.flat ⟨fun _ => Setoid.refl _, fun _ _ => rfl⟩).2 fun op hop => ?_
  simp only [updateOps, himp, Bool.false_eq_true, if_false, append_nil, mem_append,
    mem_cons, not_mem_nil, or_false] at hop
  rcases hop with hop | rfl | rfl
  · split_ifs at hop
    · cases hop
    · obtain ⟨i, -, rfl⟩ := mem_map.1 hop
      exact fun a b => CCoins.spendChange_respects i.prevout.n
  · exact trivial
  · exact fun a b _ => Setoid.refl _

/-- A spend of the output of `coinbaseDB`. -/
theorem Tower.updateCoins_agrees_spend :
    let tx : CTransaction :=
      { hash := 8, vin := [{ prevout := ⟨7, 0⟩, scriptSig := [] }], vout := [⟨40, [0x51]⟩] }
    let t : Tower fun _ => List Uint256 := ⟨{}, .db coinbaseDB⟩
    ∃ m' undo t', t.flat.updateCoins tx 2 = some (m', undo) ∧
      t.run (updateOps tx 2) = some t' ∧ t'.Agrees m' := by
  intro tx t
  exact ⟨_, _, _, rfl, (Tower.updateCoins_agrees (.base coinbaseDB) rfl rfl).choose_spec⟩

/-! ### Records in order -/

/-- What the coins code keeps of every record: no spent output at the end, one
spelling for spent outputs, and a height on every record with outputs. -/
structure RecordOk (c : CCoins) : Prop where
  cleaned : c.cleanup = c
  nulls : ∀ o ∈ c.vout, o.isNull → o = CTxOut.null
  height : ¬ c.isPruned → c.nHeight ≠ 0

namespace CCoins

@[simp] theorem cleanup_cleanup (c : CCoins) : c.cleanup.cleanup = c.cleanup := by
  simp only [cleanup, rdropWhile_idempotent]

variable {c c' : CCoins}

theorem cleanup_nil_iff : c.cleanup.vout = [] ↔ c.isPruned := by
  simp [cleanup, isPruned, rdropWhile_eq_nil_iff]

theorem isPruned_iff_of_cleaned (h : c.cleanup = c) : c.isPruned ↔ c.vout = [] := by
  rw [← cleanup_nil_iff, h]

theorem getLast_not_isNull (h : c.cleanup = c) (hne : c.vout ≠ []) :
    ¬ (c.vout.getLast hne).isNull := by
  have hv : c.vout.rdropWhile CTxOut.isNull = c.vout := congrArg CCoins.vout h
  exact (rdropWhile_eq_self_iff.1 hv) hne

/-- `spendUndo` takes an output that is there, and records it. -/
theorem spendUndo_eq_some {n : ℕ} {undo : CTxInUndo}
    (h : c.spendUndo n = some (c', undo)) :
    ∃ out, c.vout[n]? = some out ∧ ¬ out.isNull ∧
      c' = cleanup { c with vout := c.vout.set n CTxOut.null } ∧ undo.txout = out ∧
      (c'.vout = [] → undo = ⟨out, c'.fCoinBase, c'.nHeight, c'.nVersion⟩) ∧
      (c'.vout ≠ [] → undo.nHeight = 0) := by
  unfold spendUndo spend isAvailable at h
  cases hout : c.vout[n]? with
  | none => simp [hout] at h
  | some out =>
    by_cases hnull : out.isNull
    · simp [hout, hnull] at h
    · simp only [hout, hnull, Bool.not_false, if_true] at h
      refine ⟨out, rfl, hnull, ?_⟩
      split_ifs at h with hemp
      · cases h
        rw [List.isEmpty_iff] at hemp
        exact ⟨rfl, rfl, fun _ => rfl, fun hne => absurd hemp hne⟩
      · cases h
        rw [List.isEmpty_iff] at hemp
        exact ⟨rfl, rfl, fun hnil => absurd hnil hemp, fun _ => rfl⟩

/-- Nulling an output, dropping the nulls at the end and filling up to that
output again gives the record with the output nulled: what was dropped stood
behind the output or at its place. -/
theorem resize_rdropWhile_set (hc : RecordOk c) {n : ℕ} (hn : n < c.vout.length) :
    resize ((c.vout.set n CTxOut.null).rdropWhile CTxOut.isNull) (n + 1) =
      c.vout.set n CTxOut.null := by
  have happ := rdropWhile_append_rtakeWhile (p := CTxOut.isNull) (l := c.vout.set n CTxOut.null)
  generalize hp : (c.vout.set n CTxOut.null).rdropWhile CTxOut.isNull = p at happ
  generalize hr : (c.vout.set n CTxOut.null).rtakeWhile CTxOut.isNull = r at happ
  have hlen : p.length + r.length = c.vout.length := by
    rw [← length_append, happ, length_set]
  -- the dropped outputs are all the one null output
  have hrep : r = replicate r.length CTxOut.null := by
    refine eq_replicate_of_mem fun o ho => ?_
    have hnull : o.isNull := mem_rtakeWhile_imp (hr ▸ ho)
    have hmem : o ∈ c.vout.set n CTxOut.null := by
      rw [← happ]
      exact mem_append_right p ho
    rcases mem_or_eq_of_mem_set hmem with hmem' | rfl
    · exact hc.nulls o hmem' hnull
    · rfl
  have hcount : r.length = n + 1 - p.length := by
    by_cases hnil : r = []
    · rw [hnil, length_nil] at hlen ⊢
      omega
    · -- the last output is null after the spend and was not before: it is output `n`
      have hlast : n + 1 = c.vout.length := by
        by_contra hne
        have hidx : c.vout.length - 1 ≠ n := by omega
        have hvne : c.vout ≠ [] := ne_nil_of_length_pos (by omega)
        apply getLast_not_isNull hc.cleaned hvne
        have hsetne : c.vout.set n CTxOut.null ≠ [] := by simpa using hvne
        have hlast' : (c.vout.set n CTxOut.null).getLast hsetne = c.vout.getLast hvne := by
          rw [getLast_eq_getElem, getLast_eq_getElem]
          simp only [length_set]
          exact getElem_set_ne (by omega) _
        have hmem : (c.vout.set n CTxOut.null).getLast hsetne ∈ r := by
          have hlr : (p ++ r).getLast (by simp [hnil]) = r.getLast hnil :=
            getLast_append_of_ne_nil _ hnil
          simp only [happ] at hlr
          rw [hlr]
          exact getLast_mem hnil
        rw [← hlast']
        exact mem_rtakeWhile_imp (hr ▸ hmem)
      omega
  rw [resize, ← hcount, ← hrep, happ]

/-- **The undo record of a spend restores the record.**  Applied to a record
equal to the one the spend left, `ApplyTxInUndo` is clean and gives back the
record before the spend. -/
theorem applyTxInUndo_spendUndo {b : CCoins} {n : ℕ} {undo : CTxInUndo} (hc : RecordOk c)
    (h : c.spendUndo n = some (c', undo)) (hb : b ≈ c') :
    b.applyTxInUndo undo n = (c, true) := by
  obtain ⟨out, hout, hnull, hc', htx, hempty, hlive⟩ := spendUndo_eq_some h
  obtain ⟨hn, hget⟩ := List.getElem?_eq_some_iff.1 hout
  have hvout : c'.vout = (c.vout.set n CTxOut.null).rdropWhile CTxOut.isNull := by rw [hc']; rfl
  have hfill : (resize c'.vout (n + 1)).set n undo.txout = c.vout := by
    rw [hvout, resize_rdropWhile_set hc hn, set_set, htx, ← hget, set_getElem_self]
  have hlive' : ¬ c.isPruned := by
    intro hp
    rw [isPruned, all_eq_true] at hp
    exact hnull (hp out (mem_of_getElem? hout))
  have hcl : c'.cleanup = c' := by rw [hc', cleanup_cleanup]
  by_cases hemp : c'.vout = []
  · -- the last output: the metadata comes from the undo record
    have hpr : b.isPruned := by
      rw [isPruned_congr hb]
      exact (isPruned_iff_of_cleaned hcl).2 hemp
    have hu := hempty hemp
    have hh : undo.nHeight = c.nHeight := by rw [hu, hc']; rfl
    rw [hemp] at hfill
    unfold applyTxInUndo
    rw [if_pos (by rw [hh]; exact hc.height hlive')]
    simp only [hfill, hpr, isAvailable]
    rw [hu, hc']
    rfl
  · -- other outputs are left: the record is exactly the one the spend left
    have hnp : ¬ c'.isPruned := fun hp => hemp ((isPruned_iff_of_cleaned hcl).1 hp)
    obtain rfl : b = c' := (eq_of_eqv (Setoid.symm hb) hnp).symm
    have hav : b.isAvailable n = false := by
      unfold isAvailable
      cases hbn : b.vout[n]? with
      | none => rfl
      | some o =>
        have hpre : b.vout <+: c.vout.set n CTxOut.null := by
          rw [hvout]
          exact rdropWhile_prefix _ _
        obtain ⟨hlt, rfl⟩ := List.getElem?_eq_some_iff.1 hbn
        have hnth : b.vout[n] = CTxOut.null := by
          rw [hpre.getElem hlt, getElem_set_self]
        simp [hnth]
    unfold applyTxInUndo
    rw [if_neg (by rw [hlive hemp]; simp)]
    simp only [hfill, hav, hnp]
    rw [hc']
    rfl

/-- On a record that lost the outputs the spend left, `ApplyTxInUndo` is not clean. -/
theorem applyTxInUndo_of_lost {b : CCoins} {n : ℕ} {undo : CTxInUndo}
    (h : c.spendUndo n = some (c', undo)) (hc' : ¬ c'.isPruned) (hb : b.isPruned) :
    (b.applyTxInUndo undo n).2 = false := by
  obtain ⟨out, _, _, _, _, _, hlive⟩ := spendUndo_eq_some h
  have hne : c'.vout ≠ [] := fun hnil => hc' (by simp [isPruned, hnil])
  unfold applyTxInUndo
  rw [if_neg (by rw [hlive hne]; simp)]
  simp [hb]

end CCoins

end Komodo
