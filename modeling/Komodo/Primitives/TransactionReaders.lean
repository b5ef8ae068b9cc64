/-
# The ways of reading a transaction

A transaction can be read into a `CTransaction`, or into a `CMutableTransaction` from which a
`CTransaction` is then copied or moved, or by `CTransaction(deserialize, s)`.  All of them accept the
same bytes.  What they find is the same when nothing is left over in a field that the format of the
transaction does not have (`CMutableTransaction.Blank`), and when the moving constructor loses
nothing, since it does not list `bindingSig` (`readers_agree_iff`).
-/

import Komodo.Primitives.WireTransaction

namespace Komodo
namespace Wire

open Streams Unserialize

namespace CMutableTransaction

variable {m old : CMutableTransaction}

/-! ### Writing -/

theorem mapM_eq_some {α β : Type} {f : α → Option β} {l : List α} (d : β)
    (h : ∀ a ∈ l, (f a).isSome) : l.mapM f = some (l.map fun a => (f a).getD d) := by
  induction l with
  | nil => rfl
  | cons a l ih =>
    obtain ⟨ha, hl⟩ := List.forall_mem_cons.1 h
    obtain ⟨b, hb⟩ := Option.isSome_iff_exists.1 ha
    rw [List.mapM_cons, ih hl, hb, List.map_cons, hb]
    rfl

/-- Writing what has been read throws nothing. -/
theorem serialize_eq (hm : Fits old m) : m.serialize = some m.written := by
  have hfits := hm.vjoinsplit
  have hjoinsplits : m.joinSplitBytes = some (if 2 ≤ m.nVersion then
      m.vjoinsplit.map fun d => (JSDescription.serialize m.header d).getD [] else []) := by
    unfold joinSplitBytes
    split_ifs with hversion
    · rw [if_pos (decide_eq_true hversion)] at hfits
      refine mapM_eq_some [] fun d hd => ?_
      obtain ⟨proof, hproof⟩ := JSDescription.isSome_serialize (hfits.2 d hd)
      rw [JSDescription.serialize, hproof]
      rfl
    · rfl
  unfold serialize
  rw [hjoinsplits, guard, if_pos hm.format]
  simp only [Option.bind_eq_bind, Option.bind_some, Option.pure_def, written, List.append_assoc,
    Option.some.injEq]
  by_cases hversion : 2 ≤ m.nVersion
  · simp only [hversion, if_true, listBytes]
  · simp only [hversion, decide_false, writeIf, Bool.false_eq_true, if_false]

/-! ### Fields of another transaction -/

/-- The fields that the format of `m` has, and the others of `old`. -/
def overlay (m old : CMutableTransaction) : CMutableTransaction where
  fOverwintered := m.fOverwintered
  nVersion := m.nVersion
  nVersionGroupId := if m.fOverwintered then m.nVersionGroupId else old.nVersionGroupId
  vin := m.vin
  vout := m.vout
  nLockTime := m.nLockTime
  nExpiryHeight := if m.v3 || m.v4 then m.nExpiryHeight else old.nExpiryHeight
  valueBalance := if m.v4 then m.valueBalance else old.valueBalance
  vShieldedSpend := if m.v4 then m.vShieldedSpend else old.vShieldedSpend
  vShieldedOutput := if m.v4 then m.vShieldedOutput else old.vShieldedOutput
  vjoinsplit := if decide (2 ≤ m.nVersion) then m.vjoinsplit else old.vjoinsplit
  joinSplitPubKey := if m.hasJoinSplits then m.joinSplitPubKey else old.joinSplitPubKey
  joinSplitSig := if m.hasJoinSplits then m.joinSplitSig else old.joinSplitSig
  bindingSig := if m.hasShielded then m.bindingSig else old.bindingSig

@[simp] theorem header_overlay : (m.overlay old).header = m.header := rfl

@[simp] theorem v3_overlay : (m.overlay old).v3 = m.v3 := by
  unfold v3 overlay isOverwinterV3
  cases m.fOverwintered <;> rfl

@[simp] theorem v4_overlay : (m.overlay old).v4 = m.v4 := by
  unfold v4 overlay isSaplingV4
  cases m.fOverwintered <;> rfl

@[simp] theorem hasJoinSplits_overlay : (m.overlay old).hasJoinSplits = m.hasJoinSplits := by
  by_cases hversion : 2 ≤ m.nVersion <;> simp [hasJoinSplits, overlay, hversion]

@[simp] theorem hasShielded_overlay : (m.overlay old).hasShielded = m.hasShielded := by
  rw [hasShielded, v4_overlay, hasShielded]
  cases hv4 : m.v4 <;> simp [overlay, hv4]

theorem writeIf_ite {α : Type} (c : Bool) (write : α → Bytes) (a b : α) :
    writeIf c (write (if c then a else b)) = writeIf c (write a) := by
  cases c <;> rfl

theorem written_overlay : (m.overlay old).written = m.written := by
  have hgroup := writeIf_ite m.fOverwintered (leBytes 4) m.nVersionGroupId old.nVersionGroupId
  have hexpiry := writeIf_ite (m.v3 || m.v4) (leBytes 4) m.nExpiryHeight old.nExpiryHeight
  have hbalance := writeIf_ite m.v4 (intBytes 8) m.valueBalance old.valueBalance
  have hspends := writeIf_ite m.v4 (listBytes SpendDescription.serialize) m.vShieldedSpend
    old.vShieldedSpend
  have houtputs := writeIf_ite m.v4 (listBytes OutputDescription.serialize) m.vShieldedOutput
    old.vShieldedOutput
  have hjoinsplits := writeIf_ite (decide (2 ≤ m.nVersion))
    (listBytes fun d => (JSDescription.serialize m.header d).getD []) m.vjoinsplit old.vjoinsplit
  have hkey := writeIf_ite m.hasJoinSplits uint256Bytes m.joinSplitPubKey old.joinSplitPubKey
  have hsig := writeIf_ite m.hasJoinSplits Subtype.val m.joinSplitSig old.joinSplitSig
  have hbinding := writeIf_ite m.hasShielded Subtype.val m.bindingSig old.bindingSig
  have hversion : decide (2 ≤ (m.overlay old).nVersion) = decide (2 ≤ m.nVersion) := rfl
  simp only [written, header_overlay, v3_overlay, v4_overlay, hasJoinSplits_overlay,
    hasShielded_overlay, hversion]
  simp only [overlay, hgroup, hexpiry, hbalance, hspends, houtputs, hjoinsplits, hkey, hsig, hbinding]

theorem ite_overlay {α : Type} {c : Bool} {a b b' : α} {p : α → Prop}
    (h : if c then p a else a = b') :
    if c then p (if c then a else b) else (if c then a else b) = b := by
  cases c with
  | true => exact h
  | false => rfl

theorem fits_overlay {old' : CMutableTransaction} (hm : Fits old' m) : Fits old (m.overlay old) where
  nVersion := hm.nVersion
  nVersionGroupId := ite_overlay (p := (· < 256 ^ 4)) hm.nVersionGroupId
  format := by
    have hformat := hm.format
    unfold unknownFormat isOverwinterV3 isSaplingV4 at hformat ⊢
    cases hov : m.fOverwintered with
    | true => simpa [overlay, hov] using hformat
    | false => simp [overlay, hov]
  vin := hm.vin
  vout := hm.vout
  nLockTime := hm.nLockTime
  nExpiryHeight := by
    rw [v3_overlay, v4_overlay]
    exact ite_overlay (p := (· < 256 ^ 4)) hm.nExpiryHeight
  valueBalance := by
    rw [v4_overlay]
    exact ite_overlay (p := IntRange 8) hm.valueBalance
  vShieldedSpend := by
    rw [v4_overlay]
    exact ite_overlay (p := fun l : List SpendDescription => l.length ≤ maxSize ∧ ∀ d ∈ l, d.Fits)
      hm.vShieldedSpend
  vShieldedOutput := by
    rw [v4_overlay]
    exact ite_overlay (p := fun l : List OutputDescription => l.length ≤ maxSize ∧ ∀ d ∈ l, d.Fits)
      hm.vShieldedOutput
  vjoinsplit :=
    ite_overlay (p := fun l : List JSDescription => l.length ≤ maxSize ∧ ∀ d ∈ l, d.Fits m.header)
      hm.vjoinsplit
  joinSplitPubKey := by
    rw [hasJoinSplits_overlay]
    exact ite_overlay (p := (· < 2 ^ 256)) hm.joinSplitPubKey
  joinSplitSig := by
    rw [hasJoinSplits_overlay]
    exact ite_overlay (p := fun _ => True) hm.joinSplitSig
  bindingSig := by
    rw [hasShielded_overlay]
    exact ite_overlay (p := fun _ => True) hm.bindingSig

/-- What a transaction is read as into `old`. -/
theorem reads_overlay {old' : CMutableTransaction} (hm : Fits old' m) :
    Reads old.unserialize m.written (m.overlay old) := by
  have hreads := (codec old).reads (fits_overlay hm)
  rwa [written_overlay] at hreads

/-! ### Nothing left over -/

/-- As a new object reads it. -/
abbrev WellFormed (m : CMutableTransaction) : Prop := Fits {} m

/-- In the fields that the format of `m` does not have, `old` is as a new object. -/
structure Blank (m old : CMutableTransaction) : Prop where
  nVersionGroupId : m.fOverwintered = false → old.nVersionGroupId = 0
  nExpiryHeight : (m.v3 || m.v4) = false → old.nExpiryHeight = 0
  valueBalance : m.v4 = false → old.valueBalance = 0
  vShieldedSpend : m.v4 = false → old.vShieldedSpend = []
  vShieldedOutput : m.v4 = false → old.vShieldedOutput = []
  vjoinsplit : m.nVersion < 2 → old.vjoinsplit = []
  joinSplitPubKey : m.hasJoinSplits = false → old.joinSplitPubKey = 0
  joinSplitSig : m.hasJoinSplits = false → old.joinSplitSig = ByteArr.zero 64
  bindingSig : m.hasShielded = false → old.bindingSig = ByteArr.zero 64

theorem ite_eq_iff_blank {α : Type} {c : Bool} {a b new : α} {p : α → Prop}
    (h : if c then p a else a = new) : (if c then a else b) = a ↔ (c = false → b = new) := by
  cases c with
  | true => simp
  | false =>
    obtain rfl : a = new := h
    simp

theorem overlay_eq_iff (hm : m.WellFormed) : m.overlay old = m ↔ m.Blank old := by
  have hgroup := ite_eq_iff_blank (b := old.nVersionGroupId) (p := (· < 256 ^ 4))
    hm.nVersionGroupId
  have hexpiry := ite_eq_iff_blank (b := old.nExpiryHeight) (p := (· < 256 ^ 4))
    hm.nExpiryHeight
  have hbalance := ite_eq_iff_blank (b := old.valueBalance) (p := IntRange 8)
    hm.valueBalance
  have hspends := ite_eq_iff_blank (b := old.vShieldedSpend)
    (p := fun l : List SpendDescription => l.length ≤ maxSize ∧ ∀ d ∈ l, d.Fits) hm.vShieldedSpend
  have houtputs := ite_eq_iff_blank (b := old.vShieldedOutput)
    (p := fun l : List OutputDescription => l.length ≤ maxSize ∧ ∀ d ∈ l, d.Fits) hm.vShieldedOutput
  have hjoinsplits := ite_eq_iff_blank (b := old.vjoinsplit)
    (p := fun l : List JSDescription => l.length ≤ maxSize ∧ ∀ d ∈ l, d.Fits m.header) hm.vjoinsplit
  have hkey := ite_eq_iff_blank (b := old.joinSplitPubKey) (p := (· < 2 ^ 256))
    hm.joinSplitPubKey
  have hsig := ite_eq_iff_blank (b := old.joinSplitSig) (p := fun _ => True) hm.joinSplitSig
  have hbinding := ite_eq_iff_blank (b := old.bindingSig) (p := fun _ => True) hm.bindingSig
  rw [decide_eq_false_iff_not, not_le] at hjoinsplits
  constructor
  · intro h
    exact ⟨hgroup.1 (congrArg (·.nVersionGroupId) h), hexpiry.1 (congrArg (·.nExpiryHeight) h),
      hbalance.1 (congrArg (·.valueBalance) h), hspends.1 (congrArg (·.vShieldedSpend) h),
      houtputs.1 (congrArg (·.vShieldedOutput) h), hjoinsplits.1 (congrArg (·.vjoinsplit) h),
      hkey.1 (congrArg (·.joinSplitPubKey) h), hsig.1 (congrArg (·.joinSplitSig) h),
      hbinding.1 (congrArg (·.bindingSig) h)⟩
  · intro h
    refine CMutableTransaction.ext rfl rfl (hgroup.2 h.nVersionGroupId) rfl rfl rfl
      (hexpiry.2 h.nExpiryHeight) (hbalance.2 h.valueBalance) (hspends.2 h.vShieldedSpend)
      (houtputs.2 h.vShieldedOutput) (hjoinsplits.2 h.vjoinsplit) (hkey.2 h.joinSplitPubKey)
      (hsig.2 h.joinSplitSig) (hbinding.2 h.bindingSig)

theorem blank_new : m.Blank {} :=
  ⟨fun _ => rfl, fun _ => rfl, fun _ => rfl, fun _ => rfl, fun _ => rfl, fun _ => rfl, fun _ => rfl,
    fun _ => rfl, fun _ => rfl⟩

end CMutableTransaction

/-! ### The ways agree -/

namespace CTransaction

open CMutableTransaction

variable {sha256d : Bytes → Uint256} {m : CMutableTransaction}

/-- The transaction with the hash of its bytes. -/
def hashed (sha256d : Bytes → Uint256) (m : CMutableTransaction) : CTransaction :=
  { m with hash := sha256d m.written }

theorem updateHash_eq {old : CMutableTransaction} (hm : Fits old m) (hash : Uint256) :
    updateHash sha256d { m with hash := hash } = some (hashed sha256d m) := by
  unfold updateHash
  rw [serialize_eq hm]
  rfl

theorem lift_reads {r : Unserialize CMutableTransaction} {bytes : Bytes} (h : Reads r bytes m)
    {f : CMutableTransaction → Option CTransaction} {tx : CTransaction} (hf : f m = some tx) :
    Reads (do StateT.lift (f (← r)) : Unserialize CTransaction) bytes tx := by
  intro s
  rw [bind_apply, h]
  simp only [Option.bind_some, StateT.lift, hf]
  rfl

/-- Without the binding signature, which the moving constructor drops. -/
def unbound (m : CMutableTransaction) : CMutableTransaction :=
  { m with bindingSig := ByteArr.zero 64 }

theorem unbound_eq_iff : unbound m = m ↔ m.bindingSig = ByteArr.zero 64 := by
  refine ⟨fun h => (congrArg (·.bindingSig) h).symm, fun h => ?_⟩
  rw [unbound, ← h]

theorem fits_unbound {old : CMutableTransaction} (hm : Fits old m) :
    Fits (unbound old) (unbound m) where
  nVersion := hm.nVersion
  nVersionGroupId := hm.nVersionGroupId
  format := hm.format
  vin := hm.vin
  vout := hm.vout
  nLockTime := hm.nLockTime
  nExpiryHeight := hm.nExpiryHeight
  valueBalance := hm.valueBalance
  vShieldedSpend := hm.vShieldedSpend
  vShieldedOutput := hm.vShieldedOutput
  vjoinsplit := hm.vjoinsplit
  joinSplitPubKey := hm.joinSplitPubKey
  joinSplitSig := hm.joinSplitSig
  bindingSig := by
    split_ifs
    trivial

section
variable {old' : CMutableTransaction} (hm : Fits old' m) (into : CTransaction)
  (mtx memory : CMutableTransaction)
include hm

theorem reads_unserialize :
    Reads (CTransaction.unserialize sha256d into) m.written
      (hashed sha256d (m.overlay into.toCMutableTransaction)) :=
  lift_reads (reads_overlay hm) (updateHash_eq (fits_overlay hm) _)

theorem reads_unserializeCopied :
    Reads (unserializeCopied sha256d mtx) m.written (hashed sha256d (m.overlay mtx)) :=
  lift_reads (reads_overlay hm) (updateHash_eq (fits_overlay hm) 0)

theorem reads_unserializeMoved :
    Reads (unserializeMoved sha256d mtx) m.written (hashed sha256d (unbound (m.overlay mtx))) :=
  lift_reads (reads_overlay hm) (updateHash_eq (fits_unbound (fits_overlay hm)) 0)

theorem reads_deserialize :
    Reads (CTransaction.deserialize sha256d memory) m.written
      (hashed sha256d (unbound (m.overlay (uninitialized memory)))) :=
  lift_reads (reads_overlay hm) (updateHash_eq (fits_unbound (fits_overlay hm)) 0)

end

theorem hashed_injective {m' : CMutableTransaction} (h : hashed sha256d m = hashed sha256d m') :
    m = m' := congrArg toCMutableTransaction h

/-- The ways of reading `s` find one transaction, which is written back as the bytes that were
consumed. -/
def ReadersAgree (sha256d : Bytes → Uint256) (into : CTransaction)
    (mtx memory : CMutableTransaction) (s : Bytes) : Prop :=
  ∃ tx rest, CTransaction.unserialize sha256d {} s = some (tx, rest)
    ∧ CTransaction.unserialize sha256d into s = some (tx, rest)
    ∧ unserializeCopied sha256d mtx s = some (tx, rest)
    ∧ unserializeMoved sha256d mtx s = some (tx, rest)
    ∧ CTransaction.deserialize sha256d memory s = some (tx, rest)
    ∧ ∃ bytes, tx.serialize = some bytes ∧ s = bytes ++ rest ∧ tx.hash = sha256d bytes

theorem readersAgree_iff (hm : m.WellFormed) (into : CTransaction)
    (mtx memory : CMutableTransaction) (rest : Bytes) :
    ReadersAgree sha256d into mtx memory (m.written ++ rest) ↔
      m.Blank into.toCMutableTransaction ∧ m.Blank mtx ∧ m.Blank (uninitialized memory)
        ∧ m.bindingSig = ByteArr.zero 64 := by
  have hnew : m.overlay {} = m := (overlay_eq_iff hm).2 blank_new
  have hplain : CTransaction.unserialize sha256d {} (m.written ++ rest) =
      some (hashed sha256d (m.overlay {}), rest) := reads_unserialize hm {} rest
  rw [hnew] at hplain
  unfold ReadersAgree
  simp only [hplain, reads_unserialize hm into rest, reads_unserializeCopied hm mtx rest,
    reads_unserializeMoved hm mtx rest, reads_deserialize hm memory rest, Option.some.injEq,
    Prod.mk.injEq]
  constructor
  · rintro ⟨_, _, ⟨rfl, rfl⟩, ⟨hinto, -⟩, ⟨hcopied, -⟩, ⟨hmoved, -⟩, ⟨hmemory, -⟩, -⟩
    have hover := hashed_injective hcopied
    have hbinding : m.bindingSig = ByteArr.zero 64 := by
      have hunbound := hashed_injective hmoved
      rw [hover] at hunbound
      exact unbound_eq_iff.1 hunbound
    have hsig : (m.overlay (uninitialized memory)).bindingSig = ByteArr.zero 64 := by
      simp only [overlay, hbinding]
      split_ifs <;> rfl
    have hread := hashed_injective hmemory
    rw [unbound_eq_iff.2 hsig] at hread
    exact ⟨(overlay_eq_iff hm).1 (hashed_injective hinto), (overlay_eq_iff hm).1 hover,
      (overlay_eq_iff hm).1 hread, hbinding⟩
  · rintro ⟨hinto, hmtx, hmemory, hbinding⟩
    rw [(overlay_eq_iff hm).2 hinto, (overlay_eq_iff hm).2 hmtx, (overlay_eq_iff hm).2 hmemory,
      unbound_eq_iff.2 hbinding]
    exact ⟨_, _, ⟨rfl, rfl⟩, ⟨rfl, rfl⟩, ⟨rfl, rfl⟩, ⟨rfl, rfl⟩, ⟨rfl, rfl⟩, m.written,
      serialize_eq hm, rfl, rfl⟩

/-- **The ways of reading a transaction agree exactly when nothing is left over in a field that its
format does not have and its binding signature is null.**  Whatever is read is the bytes of a
transaction. -/
theorem readers_agree_iff (sha256d : Bytes → Uint256) :
    (∀ (into : CTransaction) (s : Bytes) (tx : CTransaction) (rest : Bytes),
      CTransaction.unserialize sha256d into s = some (tx, rest) →
        ∃ m : CMutableTransaction, m.WellFormed ∧ s = m.written ++ rest) ∧
    ∀ m : CMutableTransaction, m.WellFormed → m.serialize = some m.written ∧
      ∀ (into : CTransaction) (mtx memory : CMutableTransaction) (rest : Bytes),
        ReadersAgree sha256d into mtx memory (m.written ++ rest) ↔
          m.Blank into.toCMutableTransaction ∧ m.Blank mtx ∧ m.Blank (uninitialized memory)
            ∧ m.bindingSig = ByteArr.zero 64 := by
  refine ⟨fun into s tx rest h => ?_, fun m hm => ⟨serialize_eq hm, readersAgree_iff hm⟩⟩
  rw [CTransaction.unserialize, bind_apply, Option.bind_eq_some_iff] at h
  obtain ⟨⟨read, s'⟩, hread, hlift⟩ := h
  obtain ⟨rfl, hfits⟩ := (codec into.toCMutableTransaction).exact hread
  obtain ⟨tx', -, hrest⟩ := Option.bind_eq_some_iff.1 hlift
  obtain ⟨-, rfl⟩ := Prod.mk.inj (Option.some.inj hrest)
  exact ⟨read.overlay {}, fits_overlay hfits, by rw [written_overlay]⟩

/-- A Sapling transaction with one shielded output. -/
def shieldedTx (bindingSig : ByteArr 64) : CMutableTransaction where
  fOverwintered := true
  nVersion := 4
  nVersionGroupId := SAPLING_VERSION_GROUP_ID
  vShieldedOutput := [⟨1, 2, 3, ByteArr.zero 580, ByteArr.zero 80, ByteArr.zero 192⟩]
  bindingSig := bindingSig

theorem wellFormed_shieldedTx (bindingSig : ByteArr 64) : (shieldedTx bindingSig).WellFormed where
  nVersion := by simp [shieldedTx]
  nVersionGroupId := by simp [shieldedTx, SAPLING_VERSION_GROUP_ID]
  format := by simp [shieldedTx, unknownFormat, isSaplingV4]
  vin := by simp [shieldedTx]
  vout := by simp [shieldedTx]
  nLockTime := by simp [shieldedTx]
  nExpiryHeight := by simp [shieldedTx]
  valueBalance := by simp [shieldedTx, IntRange]
  vShieldedSpend := by simp [shieldedTx]
  vShieldedOutput := by
    simp [shieldedTx, v4, isSaplingV4, OutputDescription.Fits, maxSize]
  vjoinsplit := by simp [shieldedTx]
  joinSplitPubKey := by simp [shieldedTx]
  joinSplitSig := by simp [shieldedTx]
  bindingSig := by simp [shieldedTx, hasShielded, v4, isSaplingV4]

theorem readers_agree_iff_shieldedTx :
    (∃ m : CMutableTransaction, m.WellFormed ∧
      (shieldedTx (ByteArr.zero 64)).written ++ [1] = m.written ++ [1]) ∧
    ReadersAgree (fun _ => 7) {} {} {} ((shieldedTx (ByteArr.zero 64)).written ++ [1]) :=
  have hm := wellFormed_shieldedTx (ByteArr.zero 64)
  ⟨(readers_agree_iff fun _ => 7).1 {} _ _ [1] (reads_unserialize hm {} [1]),
    (((readers_agree_iff fun _ => 7).2 _ hm).2 {} {} {} [1]).2
      ⟨blank_new, blank_new, blank_new, rfl⟩⟩

/-- The moving constructor drops the binding signature of the transaction. -/
theorem not_readers_agree : ¬ ∀ (s : Bytes) (tx : CTransaction) (rest : Bytes),
    CTransaction.unserialize (fun _ => 7) {} s = some (tx, rest) →
      ReadersAgree (fun _ => 7) {} {} {} s := by
  intro h
  have hm := wellFormed_shieldedTx ⟨List.replicate 64 1, rfl⟩
  have hagree := h _ _ _ (reads_unserialize hm {} [])
  have hbinding := ((readersAgree_iff hm {} {} {} []).1 hagree).2.2.2
  exact absurd hbinding (by decide)

end CTransaction

end Wire
end Komodo
