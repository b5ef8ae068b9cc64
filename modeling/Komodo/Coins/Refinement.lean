/-
# A tower of caches is one flat map

`FlatView` is what the caches are for: one record for every txid and one
answer for every nullifier, changed in place. `run_refines_flat` says that any
tower that the node can build, run through any operations on its top cache,
answers what the flat map answers, and that the assertion of `BatchWrite` never
fails on the way.

One thing the tower does not keep is the metadata of a pruned record (height,
version, coinbase flag): a flush may forget it. A change that reads it, as the
one of `AddImportTombstone` does by leaving `fCoinBase` alone, sees one pruned
record or another (`stale_metadata_depends_on_flush`). `FlatView.Step` leaves
that choice open, and changes that treat equal records alike do not see it.
-/

import Komodo.Coins.Flush

namespace Komodo

/-- The operations on the top cache of a tower. `getCoins` stands for
`GetCoins`, `AccessCoins` and `HaveCoins`; `modifyCoins` is `ModifyCoins`, a
change of the record and the destruction of the `CCoinsModifier`. -/
inductive ViewOp
  | getCoins (txid : Uint256)
  | haveInputs (tx : CTransaction)
  | getNullifier (s : ShieldedType) (nf : Uint256)
  | modifyCoins (txid : Uint256) (f : CCoins → CCoins)
  | setNullifiers (tx : CTransaction) (spent : Bool)
  | flush

namespace ViewOp

/-- The change of a modification makes equal records equal. -/
def Respects : ViewOp → Prop
  | .modifyCoins _ f => ∀ a b : CCoins, a ≈ b → f a ≈ f b
  | _ => True

end ViewOp

/-! ### The flat map -/

/-- One record for every txid, the empty one when there is none, and one
answer for every nullifier of each pool. -/
structure FlatView where
  coins : Uint256 → CCoins
  nullifiers : ShieldedType → Uint256 → Bool

namespace FlatView

/-- Replace the record of `txid`. -/
def setCoins (m : FlatView) (txid : Uint256) (c : CCoins) : FlatView :=
  { m with coins := Function.update m.coins txid c }

/-- Apply one operation: reads and flushes do nothing. -/
def step (m : FlatView) : ViewOp → FlatView
  | .modifyCoins txid f => m.setCoins txid (f (m.coins txid)).cleanup
  | .setNullifiers tx spent =>
    { m with nullifiers := fun s nf => if nf ∈ tx.nullifiers s then spent else m.nullifiers s nf }
  | _ => m

/-- Apply operations in order. -/
def run (m : FlatView) (ops : List ViewOp) : FlatView := ops.foldl step m

/-- One operation, where a change starts from any record equal to the stored
one: it may find other metadata on a pruned record. -/
def Step (m : FlatView) : ViewOp → FlatView → Prop
  | .modifyCoins txid f, m' => ∃ r, r ≈ m.coins txid ∧ m' = m.setCoins txid (f r).cleanup
  | op, m' => m' = m.step op

/-- Operations in order, by `Step`. -/
inductive Run : FlatView → List ViewOp → FlatView → Prop
  | nil (m : FlatView) : Run m [] m
  | cons {m m₁ m₂ : FlatView} {op : ViewOp} {ops : List ViewOp} :
      m.Step op m₁ → Run m₁ ops m₂ → Run m (op :: ops) m₂

end FlatView

variable {T : ShieldedType → Type}

namespace Tower

/-- The flat map a tower stands for: what `GetCoins` and `GetNullifier` answer. -/
def flat (t : Tower T) : FlatView where
  coins txid := (t.getCoins txid).1.getD {}
  nullifiers s nf := (t.getNullifier s nf).1

/-- The tower answers what the flat map holds, up to `CCoins` equality. -/
def Agrees (t : Tower T) (m : FlatView) : Prop :=
  (∀ txid, t.flat.coins txid ≈ m.coins txid) ∧
    ∀ s nf, t.flat.nullifiers s nf = m.nullifiers s nf

/-! ### Reads -/

theorem view_getCoins (t : Tower T) (txid : Uint256) :
    t.view.getCoins txid = ((t.getCoins txid).1, (t.getCoins txid).2.view) := rfl

theorem getCoins_readSpec (t : Tower T) (txid : Uint256) :
    CCoinsView.ReadSpec t.view txid ((t.getCoins txid).1, (t.getCoins txid).2.view) :=
  view_getCoins t txid ▸ CCoinsView.getCoins_spec t.view txid

theorem getNullifier_readSpec (t : Tower T) (s : ShieldedType) (nf : Uint256) :
    CCoinsView.NullifierReadSpec t.view s nf
      ((t.getNullifier s nf).1, (t.getNullifier s nf).2.view) :=
  CCoinsView.getNullifier_spec t.view s nf

@[simp] theorem flat_coins (t : Tower T) (txid : Uint256) :
    t.flat.coins txid = t.view.answer txid := by
  have h : (t.getCoins txid).1 = t.view.peek txid := (getCoins_readSpec t txid).answered
  simp only [flat, CCoinsView.answer, h]

@[simp] theorem flat_nullifiers (t : Tower T) (s : ShieldedType) (nf : Uint256) :
    t.flat.nullifiers s nf = t.view.peekNullifier s nf :=
  (getNullifier_readSpec t s nf).answered

theorem flat_of_same {t t' : Tower T} (h : CCoinsView.SameAnswers t.view t'.view) :
    t'.flat = t.flat := by
  have hc : t'.flat.coins = t.flat.coins := by
    funext txid
    simp only [flat_coins, h.answer]
  have hn : t'.flat.nullifiers = t.flat.nullifiers := by
    funext s nf
    simp only [flat_nullifiers, h.nullifiers]
  calc t'.flat = ⟨t'.flat.coins, t'.flat.nullifiers⟩ := rfl
    _ = t.flat := by rw [hc, hn]

/-- `HaveInputs` is a sequence of reads. -/
theorem haveInputsLoop_spec (is : List CTxIn) (t : Tower T) (h : t.view.WF) :
    (haveInputsLoop is t).2.view.WF ∧ (haveInputsLoop is t).2.flat = t.flat := by
  induction is generalizing t with
  | nil => exact ⟨h, rfl⟩
  | cons i is ih =>
    have hread := getCoins_readSpec t i.prevout.hash
    have hwf := hread.wf h
    have hflat : (t.getCoins i.prevout.hash).2.flat = t.flat := flat_of_same hread.same
    unfold haveInputsLoop
    split
    · rename_i coins t' heq
      rw [heq] at hwf hflat
      split_ifs
      · exact ⟨(ih t' hwf).1, (ih t' hwf).2.trans hflat⟩
      · exact ⟨hwf, hflat⟩
    · rename_i t' heq
      rw [heq] at hwf hflat
      exact ⟨hwf, hflat⟩

/-- Agreement with the flat map is passed through one operation: the tower's
own answer is a record equal to the stored one. -/
theorem agrees_step {t t' : Tower T} {m : FlatView} {op : ViewOp} (hm : t.Agrees m)
    (ht' : t'.Agrees (t.flat.step op)) :
    (∃ m', m.Step op m' ∧ t'.Agrees m') ∧ (op.Respects → t'.Agrees (m.step op)) := by
  cases op with
  | modifyCoins txid f =>
    have key : ∀ c : CCoins, (f (t.flat.coins txid)).cleanup ≈ c →
        t'.Agrees (m.setCoins txid c) := by
      refine fun c hc => ⟨fun txid' => ?_, fun s nf => ?_⟩
      · have h' := ht'.1 txid'
        by_cases ht : txid' = txid
        · subst ht
          simp only [FlatView.step, FlatView.setCoins, Function.update_self] at h' ⊢
          exact Setoid.trans h' hc
        · simp only [FlatView.step, FlatView.setCoins, Function.update_of_ne ht] at h' ⊢
          exact Setoid.trans h' (hm.1 txid')
      · exact (ht'.2 s nf).trans (hm.2 s nf)
    exact ⟨⟨_, ⟨t.flat.coins txid, hm.1 txid, rfl⟩, key _ (Setoid.refl _)⟩,
      fun hf => key _ (CCoins.cleanup_eqv (hf _ _ (hm.1 txid)))⟩
  | setNullifiers tx spent =>
    have h' : t'.Agrees (m.step (.setNullifiers tx spent)) := by
      refine ⟨fun txid => Setoid.trans (ht'.1 txid) (hm.1 txid), fun s nf => ?_⟩
      rw [ht'.2 s nf]
      simp only [FlatView.step, hm.2 s nf]
    exact ⟨⟨_, rfl, h'⟩, fun _ => h'⟩
  | getCoins | haveInputs | getNullifier | flush =>
    have h' : t'.Agrees m :=
      ⟨fun txid => Setoid.trans (ht'.1 txid) (hm.1 txid), fun s nf => (ht'.2 s nf).trans (hm.2 s nf)⟩
    exact ⟨⟨_, rfl, h'⟩, fun _ => h'⟩

/-! ### Operations -/

variable [∀ s, MerkleTree (T s)]

/-- One operation on the top cache; `none` is a failed assertion. -/
def step (t : Tower T) : ViewOp → Option (Tower T)
  | .getCoins txid => some (t.getCoins txid).2
  | .haveInputs tx => some (t.haveInputs tx).2
  | .getNullifier s nf => some (t.getNullifier s nf).2
  | .modifyCoins txid f => some (t.modifyCoins txid f)
  | .setNullifiers tx spent => some (t.setNullifiers tx spent)
  | .flush => t.flush

/-- Operations in order. -/
def run (t : Tower T) (ops : List ViewOp) : Option (Tower T) := ops.foldlM step t

/-- The towers a program can build: a cache over a database, a new cache over a
tower, a tower after operations on its top cache, and what is left of a tower
when its top cache is destroyed. -/
inductive Reachable : Tower T → Prop
  | base (d : CCoinsViewDB T) : Reachable ⟨{}, .db d⟩
  | push {t : Tower T} : Reachable t → Reachable ⟨{}, t.view⟩
  | step {t t' : Tower T} (op : ViewOp) : Reachable t → t.step op = some t' → Reachable t'
  | pop {c c' : CCoinsViewCache T} {base : CCoinsView T} :
      Reachable ⟨c, .cache c' base⟩ → Reachable ⟨c', base⟩

/-- **One operation refines the flat map**, started from what the tower itself
answers. -/
theorem step_spec (t : Tower T) (h : t.view.WF) (op : ViewOp) :
    ∃ t', t.step op = some t' ∧ t'.view.WF ∧ t'.Agrees (t.flat.step op) := by
  have hrefl : ∀ t' : Tower T, t'.flat = t.flat → t'.Agrees t.flat :=
    fun t' h' => by rw [Agrees, h']; exact ⟨fun _ => Setoid.refl _, fun _ _ => rfl⟩
  cases op with
  | getCoins txid =>
    have hread := getCoins_readSpec t txid
    exact ⟨_, rfl, hread.wf h, hrefl _ (flat_of_same hread.same)⟩
  | haveInputs tx =>
    refine ⟨_, rfl, ?_⟩
    unfold haveInputs
    split_ifs
    · exact ⟨h, hrefl t rfl⟩
    · exact ⟨(haveInputsLoop_spec tx.vin t h).1, hrefl _ (haveInputsLoop_spec tx.vin t h).2⟩
  | getNullifier s nf =>
    have hread := getNullifier_readSpec t s nf
    exact ⟨_, rfl, hread.wf h, hrefl _ (flat_of_same hread.same)⟩
  | modifyCoins txid f =>
    obtain ⟨hwf, hself, hother, hnull⟩ := modifyCoins_spec t txid f h
    refine ⟨_, rfl, hwf, fun txid' => ?_, fun s nf => ?_⟩
    · by_cases ht : txid' = txid
      · subst ht
        simpa [FlatView.step, FlatView.setCoins] using hself
      · simp [FlatView.step, FlatView.setCoins, Function.update_of_ne ht, hother txid' ht,
          Setoid.refl]
    · simp [FlatView.step, FlatView.setCoins, hnull]
  | setNullifiers tx spent =>
    obtain ⟨hwf, hcoins, hnull⟩ := setNullifiers_spec t tx spent h
    refine ⟨_, rfl, hwf, fun txid => ?_, fun s nf => ?_⟩
    · simp [FlatView.step, hcoins, Setoid.refl]
    · simp [FlatView.step, hnull]
  | flush =>
    obtain ⟨t', ht', hwf, hcoins, hnull⟩ := flush_spec t h
    exact ⟨t', ht', hwf, fun txid => by simpa [FlatView.step] using hcoins txid,
      fun s nf => by simp [FlatView.step, hnull]⟩

theorem Reachable.wf {t : Tower T} (h : t.Reachable) : t.view.WF := by
  induction h with
  | base d => exact ⟨CCoinsView.cacheOk_empty _ _ _, trivial⟩
  | push _ ih => exact ⟨CCoinsView.cacheOk_empty _ _ _, ih⟩
  | step op _ hstep ih =>
    obtain ⟨t'', ht'', hwf, _⟩ := step_spec _ ih op
    obtain rfl : t'' = _ := Option.some.inj (ht''.symm.trans hstep)
    exact hwf
  | pop _ ih => exact ih.2

/-! ### Whole runs -/

/-- The run lemma: from any tower in order and any flat map it agrees with. -/
theorem run_spec (ops : List ViewOp) (t : Tower T) (h : t.view.WF) :
    ∃ t', t.run ops = some t' ∧
      ∀ m, t.Agrees m → (∃ m', m.Run ops m' ∧ t'.Agrees m') ∧
        ((∀ op ∈ ops, op.Respects) → t'.Agrees (m.run ops)) := by
  induction ops generalizing t with
  | nil => exact ⟨t, rfl, fun m hm => ⟨⟨m, .nil m, hm⟩, fun _ => hm⟩⟩
  | cons op ops ih =>
    obtain ⟨t₁, hstep, hwf, hagree⟩ := step_spec t h op
    obtain ⟨t', hrun, hspec⟩ := ih t₁ hwf
    refine ⟨t', by simp only [run, List.foldlM_cons, hstep]; exact hrun, fun m hm => ?_⟩
    obtain ⟨⟨m₁, hm₁, hagree₁⟩, hresp⟩ := agrees_step hm hagree
    obtain ⟨m', hm', hagree'⟩ := (hspec m₁ hagree₁).1
    refine ⟨⟨m', .cons hm₁ hm', hagree'⟩, fun hall => ?_⟩
    have hop := hresp (hall op List.mem_cons_self)
    exact (hspec _ hop).2 fun op' hop' => hall op' (List.mem_cons_of_mem op hop')

/-- **A tower of caches refines one flat map.**  From every tower a program can
build and through every sequence of operations on its top cache, no assertion
fails; the tower then answers the coins and nullifiers of the flat map to which
the same modifications were applied, each to a record equal to the one stored.
When every change makes equal records equal, that flat map is the one to which
the changes were applied one after the other. -/
theorem run_refines_flat (t : Tower T) (ht : t.Reachable) (ops : List ViewOp) :
    ∃ t', t.run ops = some t' ∧
      (∃ m, t.flat.Run ops m ∧ t'.Agrees m) ∧
      ((∀ op ∈ ops, op.Respects) → t'.Agrees (t.flat.run ops)) := by
  obtain ⟨t', hrun, hspec⟩ := run_spec ops t ht.wf
  exact ⟨t', hrun, hspec t.flat ⟨fun _ => Setoid.refl _, fun _ _ => rfl⟩⟩

/-! ### Stale metadata -/

/-- A database with one record: an unspent coinbase output of height 1. -/
def coinbaseDB : CCoinsViewDB fun _ => List Uint256 where
  coins := AList.singleton 7 { fCoinBase := true, vout := [⟨50, [0x51]⟩], nHeight := 1, nVersion := 1 }

/-- Spend the only output of the record. -/
def spendOp : ViewOp := .modifyCoins 7 fun c => (c.spend 0).getD c

/-- Put an import tombstone into the record, as `AddImportTombstone` does. -/
def tombstoneOp : ViewOp := .modifyCoins 7 (CCoins.addTombstone 5)

/-- The hypothesis of `run_refines_flat` is satisfiable: two caches over a
database, an output spent through them and flushed one level down. -/
theorem run_refines_flat_spend :
    (Tower.mk {} (Tower.mk {} (.db coinbaseDB)).view).Reachable ∧
      ∃ t', (Tower.mk {} (Tower.mk {} (.db coinbaseDB)).view).run [spendOp, .flush] = some t' ∧
        (∃ m, (Tower.mk {} (Tower.mk {} (.db coinbaseDB)).view).flat.Run [spendOp, .flush] m ∧
          t'.Agrees m) ∧
        ((∀ op ∈ [spendOp, .flush], op.Respects) →
          t'.Agrees ((Tower.mk {} (Tower.mk {} (.db coinbaseDB)).view).flat.run
            [spendOp, .flush])) :=
  ⟨.push (.base coinbaseDB), run_refines_flat _ (.push (.base coinbaseDB)) _⟩

/-- **What a change finds on a pruned record depends on the flushes.**  Spend a
coinbase record and put an import tombstone into it, once with a flush between
the two and once without. The modifications are the same and the records are
not, so no flat map agrees with both towers. -/
theorem stale_metadata_depends_on_flush :
    (Tower.mk {} (.db coinbaseDB)).Reachable ∧
      ∃ t₁ t₂, (Tower.mk {} (.db coinbaseDB)).run [spendOp, .flush, tombstoneOp] = some t₁ ∧
        (Tower.mk {} (.db coinbaseDB)).run [spendOp, tombstoneOp] = some t₂ ∧
        ¬ t₁.Agrees ((Tower.mk {} (.db coinbaseDB)).flat.run [spendOp, .flush, tombstoneOp]) ∧
        ∀ m, ¬ (t₁.Agrees m ∧ t₂.Agrees m) := by
  have hne : ¬ ({ fCoinBase := false, vout := [⟨0, [OP_0]⟩], nHeight := 5, nVersion := 4 } : CCoins) ≈
      { fCoinBase := true, vout := [⟨0, [OP_0]⟩], nHeight := 5, nVersion := 4 } := by decide
  refine ⟨.base coinbaseDB, _, _, rfl, rfl, fun h => hne (h.1 7), fun m h => hne ?_⟩
  exact Setoid.trans (h.1.1 7) (Setoid.symm (h.2.1 7))

end Tower

end Komodo
