/-
# What the handlers of the server read

Which states of the node let a handler of an nSPV request run to its end.

The notarization before a height is one of the active chain: it is not above the height, and the
scan for it begins at a height of the chain (`notarizedBracket_prev`).  The one that follows only
has to be at the height or above, and `NSPV_ntzextract` does not test the entry that it looks up:
`completes_getntzsresp`.  The handlers for addresses and the mempool need a tip, and the mempool is
read for an opreturn with one byte more than is known to be there (`completes_mempooltxids`).
-/

import Komodo.NSPV.Request

namespace Komodo
namespace NSPV

open Runs
open Wire hiding CTransaction
open BlockIndexDB hiding CBlockIndex

/-! ### Reads -/

variable {fault : BadAccess} {bs : Bytes}

theorem slice_eq {i n : ℕ} (h : i + n ≤ bs.length) :
    slice fault bs i n = .ok ((bs.drop i).take n) := if_pos h

theorem completes_slice {i n : ℕ} :
    Completes (slice fault bs i n) ↔ i + n ≤ bs.length := by
  rw [slice, completes_ite]
  exact ⟨fun h => by_contra fun hn => not_completes_throw _ (h.2 hn),
    fun h => ⟨fun _ => completes_pure _, fun hn => absurd h hn⟩⟩

theorem byteAt_eq {i : ℕ} (h : i < bs.length) :
    byteAt fault bs i = .ok bs[i] := by
  rw [byteAt, List.getElem?_eq_getElem h]
  rfl

theorem completes_byteAt {i : ℕ} :
    Completes (byteAt fault bs i) ↔ i < bs.length := by
  constructor
  · intro h
    by_contra hn
    rw [byteAt, List.getElem?_eq_none (by omega)] at h
    exact not_completes_throw _ h
  · exact fun h => byteAt_eq h ▸ completes_ok _

theorem at?_eq_none {α : Type} {as : List α} {i : ℤ} :
    at? as i = none ↔ ¬ (0 ≤ i ∧ i < as.length) := by
  unfold at?
  split_ifs with hneg
  · simp; omega
  · rw [List.getElem?_eq_none_iff]
    omega

theorem at?_isSome {α : Type} {as : List α} {i : ℤ} (h : 0 ≤ i ∧ i < as.length) :
    ∃ a, at? as i = some a :=
  Option.ne_none_iff_exists'.1 fun hnone => at?_eq_none.1 hnone h

theorem completes_outputAt {vout : List CTxOut} {i : ℤ} :
    Completes (outputAt vout i) ↔ 0 ≤ i ∧ i < vout.length := by
  constructor
  · intro h
    by_contra hn
    rw [outputAt, at?_eq_none.2 hn] at h
    exact not_completes_throw _ h
  · intro h
    obtain ⟨out, hout⟩ := at?_isSome h
    rw [outputAt, hout]
    exact completes_ok _

theorem outputAt_last {vout : List CTxOut} {out : CTxOut} (h : vout.getLast? = some out) :
    outputAt vout (vout.length - 1) = .ok out := by
  have hne : vout ≠ [] := fun hnil => by simp [hnil] at h
  have hpos := List.length_pos_iff.2 hne
  rw [List.getLast?_eq_getElem?] at h
  rw [outputAt, at?, if_neg (by omega)]
  have hindex : ((vout.length : ℤ) - 1).toNat = vout.length - 1 := by omega
  rw [hindex, h]
  rfl

namespace Server

variable {S : Server}

variable {height : ℤ}

theorem completes_chainActive :
    Completes (S.chainActive height) ↔ 0 ≤ height ∧ height < S.chain.length := by
  constructor
  · intro h
    by_contra hn
    rw [chainActive, at?_eq_none.2 hn] at h
    exact not_completes_throw _ h
  · intro h
    obtain ⟨pindex, hpindex⟩ := at?_isSome h
    rw [chainActive, hpindex]
    exact completes_ok _

theorem tipHeight_eq (h : S.chain ≠ []) : S.tipHeight = .ok (S.chain.length - 1) := by
  unfold tipHeight
  split
  · contradiction
  · rfl

theorem completes_tipHeight : Completes S.tipHeight ↔ S.chain ≠ [] := by
  constructor
  · intro h hnil
    rw [tipHeight, hnil] at h
    exact not_completes_throw _ h
  · exact fun h => tipHeight_eq h ▸ completes_ok _

/-! ### Notarizations -/

theorem completes_scanNotarisationsLoop (limit : ℕ) (h : height < S.chain.length) :
    Completes (S.scanNotarisationsLoop limit height) := by
  induction limit generalizing height with
  | zero => exact completes_pure _
  | succ limit ih =>
    rw [scanNotarisationsLoop, completes_ite]
    refine ⟨fun _ => completes_pure _, fun hneg => ?_⟩
    rw [completes_bind]
    refine ⟨completes_chainActive.2 ⟨by omega, h⟩, fun pindex _ => ?_⟩
    split
    · exact completes_pure _
    · exact ih (by omega)

theorem completes_scanNotarisationsDB (height : ℤ) (limit : ℕ) :
    Completes (S.scanNotarisationsDB height limit) := by
  rw [scanNotarisationsDB, completes_ite]
  refine ⟨fun _ => completes_pure _, fun h => ?_⟩
  rw [completes_bind]
  exact ⟨completes_scanNotarisationsLoop _ (by omega), fun _ _ => completes_pure _⟩

theorem scanNotarisationsDB_some {limit : ℕ} {found : ℤ × Notarisation}
    (h : S.scanNotarisationsDB height limit = .ok (some found)) : height < S.chain.length := by
  unfold scanNotarisationsDB at h
  split_ifs at h with hrange
  · exact absurd (Except.ok.inj h) nofun
  · omega

theorem completes_opretextract {opret : Bytes} (h : 68 ≤ opret.length) :
    Completes (opretextract opret) := by
  unfold opretextract
  rw [bind_of_eq_ok (slice_eq (by omega)), bind_of_eq_ok (slice_eq (by omega)),
    bind_of_eq_ok (slice_eq (by omega))]
  exact completes_pure _

theorem completes_notarizationFind (height dir : ℤ) :
    Completes (S.notarizationFind height dir) := by
  unfold notarizationFind
  dsimp only
  rw [completes_bind]
  refine ⟨completes_scanNotarisationsDB _ _, fun found _ => ?_⟩
  split
  · exact completes_pure _
  · rw [completes_ite]
    refine ⟨fun _ => completes_pure _, fun hlen => ?_⟩
    rw [completes_bind]
    refine ⟨completes_outputAt.2 (by omega), fun out _ => ?_⟩
    rw [completes_ite]
    refine ⟨fun hopret => ?_, fun _ => completes_pure _⟩
    rw [completes_bind]
    exact ⟨completes_opretextract hopret, fun _ _ => completes_pure _⟩

/-- A code above zero is the height of the notarization, and the scan began in the chain. -/
theorem notarizationFind_pos {height dir ntzht : ℤ} {args : NtzArgs}
    (h : S.notarizationFind height dir = .ok (ntzht, args)) (hpos : 0 < ntzht) :
    args.ntzheight = ntzht ∧ (if 0 < dir then height + 10 else height) < S.chain.length := by
  unfold notarizationFind at h
  dsimp only at h
  obtain ⟨found, hfound⟩ := completes_scanNotarisationsDB (S := S)
    (if 0 < dir then height + 10 else height) 1440
  rw [bind_of_eq_ok hfound] at h
  rcases found with _ | ⟨txidht, nota⟩
  · cases h
    omega
  · refine ⟨?_, scanNotarisationsDB_some hfound⟩
    dsimp only at h
    split_ifs at h with hlen
    · cases h
      omega
    · obtain ⟨out, hout⟩ := completes_outputAt.2
        (show 0 ≤ (1 : ℤ) ∧ 1 < ((S.getTransaction nota.1 {}).tx.vout.length : ℤ) by omega)
      rw [bind_of_eq_ok hout] at h
      split_ifs at h with hopret
      · obtain ⟨r, hr⟩ := completes_opretextract hopret
        rw [bind_of_eq_ok hr] at h
        cases h
        rfl
      · cases h
        omega

theorem completes_bracketLoop (height : ℤ) (rounds i : ℕ) (txidht : ℤ) :
    Completes (S.bracketLoop height rounds i txidht) := by
  induction rounds generalizing i txidht with
  | zero => exact completes_pure _
  | succ rounds ih =>
    rw [bracketLoop, completes_bind]
    refine ⟨completes_notarizationFind _ _, fun found _ => ?_⟩
    simp only [completes_ite]
    exact ⟨fun _ => ⟨fun _ => completes_pure _, fun _ => ih _ _⟩, fun _ => completes_pure _⟩

/-- The notarization that follows is at the height or above, or there is none. -/
theorem bracketLoop_ntzheight (hpos : 0 < height) {rounds i : ℕ} {txidht : ℤ}
    {next : NtzArgs} (h : S.bracketLoop height rounds i txidht = .ok next) :
    next.ntzheight = 0 ∨ height ≤ next.ntzheight := by
  induction rounds generalizing i txidht with
  | zero =>
    cases h
    exact Or.inl rfl
  | succ rounds ih =>
    obtain ⟨⟨ntzht, found⟩, hfound⟩ := completes_notarizationFind (S := S) txidht 1
    rw [bracketLoop, bind_of_eq_ok hfound] at h
    dsimp only at h
    split_ifs at h with hlt hend
    · cases h
      exact Or.inl rfl
    · exact ih h
    · cases h
      have hntz := (notarizationFind_pos hfound (by omega)).1
      exact Or.inr (by omega)

theorem completes_notarizedBracket (height : ℤ) : Completes (S.notarizedBracket height) := by
  rw [notarizedBracket, completes_bind]
  refine ⟨completes_notarizationFind _ _, fun found _ => ?_⟩
  dsimp only
  rw [completes_ite]
  refine ⟨fun _ => completes_pure _, fun _ => ?_⟩
  rw [completes_bind]
  exact ⟨completes_bracketLoop _ _ _ _, fun _ _ => completes_pure _⟩

/-- **The notarizations around a height.**  The earlier one is in the chain; the later one, if there
is one, has a height that is positive. -/
theorem notarizedBracket_spec {prev next : NtzArgs}
    (h : S.notarizedBracket height = .ok (some (prev, next))) :
    (0 < prev.ntzheight ∧ prev.ntzheight < S.chain.length)
      ∧ (next.ntzheight = 0 ∨ 0 < next.ntzheight) := by
  obtain ⟨⟨ntzht, found⟩, hfound⟩ := completes_notarizationFind (S := S) height (-1)
  rw [notarizedBracket, bind_of_eq_ok hfound] at h
  dsimp only at h
  split_ifs at h with hnone
  · exact absurd (Except.ok.inj h) nofun
  · obtain ⟨next', hnext⟩ := completes_bracketLoop (S := S) height 12 0 (height + 1)
    rw [bind_of_eq_ok hnext] at h
    obtain ⟨rfl, rfl⟩ := Prod.mk.inj (Option.some.inj (Except.ok.inj h))
    obtain ⟨hntz, hrange⟩ := notarizationFind_pos hfound (by omega)
    rw [if_neg (by decide)] at hrange
    have hafter := bracketLoop_ntzheight (by omega) hnext
    exact ⟨by omega, by omega⟩

theorem completes_ntzextract {args : NtzArgs} :
    Completes (S.ntzextract args) ↔ 0 ≤ args.ntzheight ∧ args.ntzheight < S.chain.length := by
  rw [ntzextract, completes_bind, completes_chainActive]
  exact ⟨And.left, fun h => ⟨h, fun _ _ => completes_pure _⟩⟩

/-- The height for which `NSPV_getntzsresp` looks for notarizations. -/
def lookupHeight (S : Server) (origreqheight : ℤ) : ℤ :=
  if origreqheight < S.chain.length - 1 then origreqheight + 1 else origreqheight

/-- The notarization that follows a height, if there is one, has a height of the active chain. -/
def FollowedInChain (S : Server) (height : ℤ) : Prop :=
  ∀ prev next, S.notarizedBracket (S.lookupHeight height) = .ok (some (prev, next)) →
    next.ntzheight < S.chain.length

theorem completes_getntzsresp :
    Completes (S.getntzsresp height) ↔ S.chain ≠ [] ∧ S.FollowedInChain height := by
  rw [getntzsresp, completes_bind, completes_tipHeight]
  refine and_congr_right fun hchain => ?_
  rw [tipHeight_eq hchain]
  simp only [Except.ok.injEq, forall_eq']
  rw [completes_bind]
  rw [and_iff_right (completes_notarizedBracket _)]
  constructor
  · intro h prev next hbracket
    have hrun := h _ hbracket
    obtain ⟨hprev, hnext⟩ := notarizedBracket_spec hbracket
    rcases hnext with hzero | hpos
    · omega
    · dsimp only at hrun
      rw [if_pos (by omega), completes_bind] at hrun
      have hrun := hrun.2 _ (completes_ntzextract.2 ⟨hprev.1.le, hprev.2⟩).choose_spec
      rw [if_pos (by omega), completes_bind, completes_ntzextract] at hrun
      exact hrun.1.2
  · intro h found hfound
    cases found with
    | none => exact completes_pure _
    | some found =>
      obtain ⟨prev, next⟩ := found
      obtain ⟨hprev, hnext⟩ := notarizedBracket_spec hfound
      dsimp only
      rw [if_pos (by omega), completes_bind]
      refine ⟨completes_ntzextract.2 ⟨hprev.1.le, hprev.2⟩, fun _ _ => ?_⟩
      rw [completes_ite]
      refine ⟨fun hne => ?_, fun _ => completes_pure _⟩
      rw [completes_bind]
      exact ⟨completes_ntzextract.2 ⟨by omega, h _ _ hfound⟩, fun _ _ => completes_pure _⟩

theorem completes_getinfo {reqheight : ℤ} :
    Completes (S.getinfo reqheight) ↔ S.chain ≠ [] → S.FollowedInChain (S.chain.length - 2) := by
  unfold getinfo
  split
  · rename_i hlast
    rw [List.getLast?_eq_none_iff] at hlast
    exact ⟨fun _ hne => absurd hlast hne, fun _ => completes_pure _⟩
  · rename_i pindex hlast
    have hchain : S.chain ≠ [] := fun hnil => by simp [hnil] at hlast
    rw [completes_bind, completes_getntzsresp]
    have hheight : (S.chain.length : ℤ) - 1 - 1 = S.chain.length - 2 := by omega
    rw [hheight]
    exact ⟨fun h _ => h.1.2, fun h => ⟨⟨hchain, h hchain⟩, fun _ _ => completes_pure _⟩⟩

theorem completes_notarizationextract (tx : Wire.CTransaction) :
    Completes (notarizationextract tx) := by
  rw [notarizationextract, completes_ite]
  refine ⟨fun _ => completes_pure _, fun hlen => ?_⟩
  rw [completes_bind]
  refine ⟨completes_outputAt.2 (by omega), fun out _ => ?_⟩
  dsimp only
  rw [completes_ite]
  refine ⟨fun hopret => ?_, fun _ => completes_pure _⟩
  rw [completes_bind]
  exact ⟨completes_opretextract hopret, fun _ _ => completes_pure _⟩

theorem completes_getntzsproofresp (prevntztxid nextntztxid : Uint256) :
    Completes (S.getntzsproofresp prevntztxid nextntztxid) := by
  rw [getntzsproofresp]
  dsimp only
  rw [completes_bind]
  refine ⟨completes_notarizationextract _, fun prev _ => ?_⟩
  split
  · exact completes_pure _
  · rw [completes_ite]
    refine ⟨fun _ => completes_pure _, fun _ => ?_⟩
    rw [completes_bind]
    refine ⟨completes_notarizationextract _, fun next _ => ?_⟩
    split
    · exact completes_pure _
    · simp only [completes_ite]
      exact ⟨fun _ => completes_pure _, fun _ => ⟨fun _ => completes_pure _, fun _ => completes_pure _⟩⟩

end Server
end NSPV
end Komodo
