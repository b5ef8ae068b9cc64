/-
# Scripts that push data, and scripts that break off

`CScript::GetPushedData` and the constructor of `COptCCParams` read a script push by push
(`Script.CCParams`).  `Pushes` says what a sequence of complete pushes is, and which values it
pushes.

Where `GetOp` fails, `GetBalancedData` gives up, but these two go on behind the opcode and the
length of the broken push, as far as there are such, until the end is reached.  `Skims` is a script
as they read it.  A script that ends within a push (`Truncated`) may so pass for one that ended
before it (`broken_push_accepted`), and `pushed_iff` says which scripts do.
-/

import Komodo.Script.CCParams
import Komodo.Script.Serialize

namespace Komodo

open List Nat

/-! ### Pushes -/

/-- The opcodes with a length of their own behind them, and its bytes. -/
def sizeWidths : List (UInt8 × ℕ) := [(OP_PUSHDATA1, 1), (OP_PUSHDATA2, 2), (OP_PUSHDATA4, 4)]

/-- A complete push of a value: of a small number by an opcode of its own, or of bytes behind their
length, which stands in the opcode or takes up to four bytes. -/
inductive Push : CScript → Bytes → Prop
  | zero : Push [OP_0] [0]
  | small (opcode : UInt8) (hlow : OP_1 ≤ opcode) (hhigh : opcode ≤ OP_16) :
      Push [opcode] [opcode - OP_1 + 1]
  | direct (opcode : UInt8) (data : Bytes) (hlow : OP_0 < opcode) (hhigh : opcode < OP_PUSHDATA1)
      (hlength : data.length = opcode.toNat) : Push (opcode :: data) data
  | sized (opcode : UInt8) (size data : Bytes) (hwidth : (opcode, size.length) ∈ sizeWidths)
      (hlength : data.length = fromLE size) (hne : data ≠ []) :
      Push (opcode :: (size ++ data)) data

/-- A sequence of complete pushes, with the values that it pushes. -/
inductive Pushes : CScript → List Bytes → Prop
  | nil : Pushes [] []
  | cons {op : CScript} {v : Bytes} {pc : CScript} {vs : List Bytes} (hop : Push op v)
      (hpc : Pushes pc vs) : Pushes (op ++ pc) (v :: vs)

/-- The script, as the two loops read it: complete pushes, and what is left behind the heads of
broken ones. -/
inductive Skims : CScript → List Bytes → Prop
  | nil : Skims [] []
  | push {op : CScript} {v : Bytes} {pc : CScript} {vs : List Bytes} (hop : Push op v)
      (hpc : Skims pc vs) : Skims (op ++ pc) (v :: vs)
  | broken {pc : CScript} {vs : List Bytes} (hne : pc ≠ []) (hop : getOp pc = none)
      (hpc : Skims (failedOp pc) vs) : Skims pc vs

/-- The script runs into a broken push, and what stands behind the head of this is read to the end:
with the values of the pushes before it and of those behind. -/
def BreaksOff (s : CScript) (vals : List Bytes) : Prop :=
  ∃ done pc vs vs', s = done ++ pc ∧ Pushes done vs ∧ pc ≠ [] ∧ getOp pc = none
    ∧ Skims (failedOp pc) vs' ∧ vals = vs ++ vs'

/-! ### Operations -/

/-- The value that an operation pushes; `none` where the loops give up. -/
def pushedValue (opcode : UInt8) (data : Bytes) : Option Bytes :=
  if opcode = OP_0 then some [0]
  else if OP_1 ≤ opcode ∧ opcode ≤ OP_16 then some [opcode - OP_1 + 1]
  else if opcode ≤ OP_PUSHDATA4 ∧ data ≠ [] then some data
  else none

variable {opcode : UInt8}

theorem pushSize_of_lt (h : opcode < OP_PUSHDATA1) (pc : CScript) :
    pushSize opcode pc = some (opcode.toNat, pc) := if_pos h

theorem pushSize_of_mem {k : ℕ} (h : (opcode, k) ∈ sizeWidths) (pc : CScript) :
    pushSize opcode pc = (splitBytes k pc).map fun r => (fromLE r.1, r.2) := by
  simp only [sizeWidths, mem_cons, Prod.mk.injEq, not_mem_nil, or_false] at h
  obtain ⟨rfl, rfl⟩ | ⟨rfl, rfl⟩ | ⟨rfl, rfl⟩ := h <;> rfl

theorem le_of_mem_sizeWidths {k : ℕ} (h : (opcode, k) ∈ sizeWidths) :
    OP_PUSHDATA1 ≤ opcode ∧ opcode ≤ OP_PUSHDATA4 := by
  simp only [sizeWidths, mem_cons, Prod.mk.injEq, not_mem_nil, or_false] at h
  obtain ⟨rfl, rfl⟩ | ⟨rfl, rfl⟩ | ⟨rfl, rfl⟩ := h <;> decide

theorem exists_sizeWidth (hlow : ¬ opcode < OP_PUSHDATA1)
    (hhigh : opcode ≤ OP_PUSHDATA4) : ∃ k, (opcode, k) ∈ sizeWidths := by
  have hcases : opcode = OP_PUSHDATA1 ∨ opcode = OP_PUSHDATA2 ∨ opcode = OP_PUSHDATA4 := by
    have h1 : OP_PUSHDATA1.toNat = 76 := rfl
    have h2 : OP_PUSHDATA2.toNat = 77 := rfl
    have h4 : OP_PUSHDATA4.toNat = 78 := rfl
    rw [UInt8.lt_iff_toNat_lt] at hlow
    rw [UInt8.le_iff_toNat_le] at hhigh
    simp only [← UInt8.toNat_inj]
    omega
  obtain rfl | rfl | rfl := hcases
  · exact ⟨1, by decide⟩
  · exact ⟨2, by decide⟩
  · exact ⟨4, by decide⟩

theorem getOp_cons (h : opcode ≤ OP_PUSHDATA4) (pc : CScript) :
    getOp (opcode :: pc) = (pushSize opcode pc).bind fun r =>
      (splitBytes r.1 r.2).map fun r => (opcode, r.1, r.2) := by
  rw [getOp, if_pos h]
  rcases pushSize opcode pc with _ | ⟨n, pc'⟩
  · rfl
  · rcases hsplit : splitBytes n pc' with _ | r
    · simp [hsplit]
    · simp [hsplit]

variable {pc rest : CScript} {data : Bytes}

/-- The bytes behind the opcode of an operation with data. -/
theorem getOp_cons_eq_some {opcode opcode' : UInt8}
    (h : opcode ≤ OP_PUSHDATA4) :
    getOp (opcode :: pc) = some (opcode', data, rest) ↔
      opcode' = opcode ∧ pushSize opcode pc = some (data.length, data ++ rest) := by
  rw [getOp_cons h]
  constructor
  · intro hget
    obtain ⟨⟨n, pc'⟩, hsize, hget⟩ := Option.bind_eq_some_iff.1 hget
    obtain ⟨⟨data', rest'⟩, hsplit, heq⟩ := Option.map_eq_some_iff.1 hget
    obtain ⟨rfl, hlength⟩ := splitBytes_eq_some.1 hsplit
    cases heq
    have hn : n = data'.length := hlength.symm
    exact ⟨rfl, hn ▸ hsize⟩
  · rintro ⟨rfl, hsize⟩
    rw [hsize, Option.bind_some, splitBytes_append, Option.map_some]

variable {pc op pc' : CScript}

/-- `GetOp` reads a complete push, whatever follows it. -/
theorem Push.getOp_append {v : Bytes} (h : Push op v) (rest : CScript) :
    ∃ opcode data, getOp (op ++ rest) = some (opcode, data, rest)
      ∧ pushedValue opcode data = some v := by
  cases h with
  | zero => exact ⟨OP_0, [], rfl, rfl⟩
  | small opcode hlow hhigh =>
    have hne : opcode ≠ OP_0 := by
      rintro rfl
      exact absurd hlow (by decide)
    have hdata : ¬ opcode ≤ OP_PUSHDATA4 := fun h => absurd (UInt8.le_trans hlow h) (by decide)
    refine ⟨opcode, [], ?_, ?_⟩
    · rw [singleton_append, getOp, if_neg hdata]
    · rw [pushedValue, if_neg hne, if_pos ⟨hlow, hhigh⟩]
  | direct opcode _ hlow hhigh hlength =>
    have hle : opcode ≤ OP_PUSHDATA4 := by
      refine UInt8.le_trans (UInt8.le_of_lt hhigh) (by decide)
    have hne : opcode ≠ OP_0 := by
      rintro rfl
      exact UInt8.lt_irrefl _ hlow
    have hsmall : ¬ (OP_1 ≤ opcode ∧ opcode ≤ OP_16) := fun h =>
      absurd (UInt8.le_trans h.1 hle) (by decide)
    have hdata : v ≠ [] := by
      rintro rfl
      rw [UInt8.lt_iff_toNat_lt, ← hlength] at hlow
      exact not_lt_zero _ hlow
    refine ⟨opcode, v, ?_, ?_⟩
    · rw [cons_append]
      exact (getOp_cons_eq_some hle).2 ⟨rfl, by rw [pushSize_of_lt hhigh, hlength]⟩
    · rw [pushedValue, if_neg hne, if_neg hsmall, if_pos ⟨hle, hdata⟩]
  | sized opcode size _ hwidth hlength hdata =>
    obtain ⟨hlow, hle⟩ := le_of_mem_sizeWidths hwidth
    have hne : opcode ≠ OP_0 := by
      rintro rfl
      exact absurd hlow (by decide)
    have hsmall : ¬ (OP_1 ≤ opcode ∧ opcode ≤ OP_16) := fun h =>
      absurd (UInt8.le_trans h.1 hle) (by decide)
    refine ⟨opcode, v, ?_, ?_⟩
    · rw [cons_append, append_assoc]
      refine (getOp_cons_eq_some hle).2 ⟨rfl, ?_⟩
      rw [pushSize_of_mem hwidth, splitBytes_append, hlength]
      rfl
    · rw [pushedValue, if_neg hne, if_neg hsmall, if_pos ⟨hle, hdata⟩]

/-- What `GetOp` reads is a complete push, if it pushes a value. -/
theorem exists_push {s rest : CScript} {data v : Bytes}
    (hget : getOp s = some (opcode, data, rest)) (hv : pushedValue opcode data = some v) :
    ∃ op, Push op v ∧ s = op ++ rest := by
  obtain _ | ⟨opcode', pc⟩ := s
  · cases hget
  by_cases hle : opcode' ≤ OP_PUSHDATA4
  · obtain ⟨rfl, hsize⟩ := (getOp_cons_eq_some hle).1 hget
    have hsmall : ¬ (OP_1 ≤ opcode ∧ opcode ≤ OP_16) := fun h =>
      absurd (UInt8.le_trans h.1 hle) (by decide)
    unfold pushedValue at hv
    rw [if_neg hsmall] at hv
    by_cases hlt : opcode < OP_PUSHDATA1
    · rw [pushSize_of_lt hlt] at hsize
      obtain ⟨hlength, rfl⟩ := Prod.mk.inj (Option.some.inj hsize)
      split_ifs at hv with hzero hdata
      · subst hzero
        cases hv
        rw [length_eq_zero_iff.1 hlength.symm]
        exact ⟨_, .zero, rfl⟩
      · cases hv
        have hlow : OP_0 < opcode := by
          rw [UInt8.lt_iff_toNat_lt, hlength]
          exact length_pos_of_ne_nil hdata.2
        exact ⟨_, .direct opcode data hlow hlt hlength.symm, rfl⟩
    · obtain ⟨k, hwidth⟩ := exists_sizeWidth hlt hle
      rw [pushSize_of_mem hwidth] at hsize
      obtain ⟨⟨size, pc'⟩, hsplit, heq⟩ := Option.map_eq_some_iff.1 hsize
      obtain ⟨rfl, rfl⟩ := splitBytes_eq_some.1 hsplit
      obtain ⟨hlength, rfl⟩ := Prod.mk.inj heq
      have hzero : opcode ≠ OP_0 := by
        rintro rfl
        exact hlt (by decide)
      rw [if_neg hzero] at hv
      split_ifs at hv with hdata
      cases hv
      refine ⟨_, .sized opcode size data hwidth hlength.symm hdata.2, ?_⟩
      rw [cons_append, append_assoc]
  · rw [getOp, if_neg hle] at hget
    cases hget
    have hzero : opcode ≠ OP_0 := by
      rintro rfl
      exact hle (by decide)
    rw [pushedValue, if_neg hzero] at hv
    split_ifs at hv with hsmall hdata
    · cases hv
      exact ⟨_, .small opcode hsmall.1 hsmall.2, rfl⟩
    · exact absurd rfl hdata.2

theorem Push.ne_nil {v : Bytes} (h : Push op v) : op ≠ [] := by
  cases h <;> exact cons_ne_nil _ _

/-! ### The loops -/

theorem getPushedDataLoop_nil (fuel : ℕ) (vData : List Bytes) :
    getPushedDataLoop fuel vData [] = some vData := by
  cases fuel <;> rfl

theorem getPushedDataLoop_succ (fuel : ℕ) (vData : List Bytes) (hne : pc ≠ []) :
    getPushedDataLoop (fuel + 1) vData pc =
      match getOp pc with
      | none => getPushedDataLoop fuel vData (failedOp pc)
      | some (opcode, data, pc) =>
        (pushedValue opcode data).bind fun v => getPushedDataLoop fuel (vData ++ [v]) pc := by
  obtain ⟨b, bs, rfl⟩ := exists_cons_of_ne_nil hne
  rw [getPushedDataLoop]
  · rcases getOp (b :: bs) with _ | ⟨opcode, data, pc⟩
    · rfl
    · dsimp only
      unfold pushedValue
      split_ifs <;> rfl
  · exact hne

theorem pushSize_cases (opcode : UInt8) :
    (∀ pc, pushSize opcode pc = some (opcode.toNat, pc)) ∨
      ∃ k, ∀ pc, pushSize opcode pc = (splitBytes k pc).map fun r => (fromLE r.1, r.2) := by
  unfold pushSize
  split_ifs
  · exact .inl fun _ => rfl
  · exact .inr ⟨1, fun _ => rfl⟩
  · exact .inr ⟨2, fun _ => rfl⟩
  · exact .inr ⟨4, fun _ => rfl⟩

theorem length_pushSize_le {n : ℕ}
    (h : pushSize opcode pc = some (n, pc')) : pc'.length ≤ pc.length := by
  obtain hsize | ⟨k, hsize⟩ := pushSize_cases opcode <;> rw [hsize] at h
  · cases h
    exact le_refl _
  · obtain ⟨⟨size, rest⟩, hsplit, heq⟩ := Option.map_eq_some_iff.1 h
    obtain ⟨rfl, -⟩ := splitBytes_eq_some.1 hsplit
    obtain ⟨-, rfl⟩ := Prod.mk.inj heq
    rw [length_append]
    exact le_add_left _ _

theorem pushSize_append {n : ℕ}
    (h : pushSize opcode pc = some (n, pc')) (rest : CScript) :
    pushSize opcode (pc ++ rest) = some (n, pc' ++ rest) := by
  obtain hsize | ⟨k, hsize⟩ := pushSize_cases opcode <;> rw [hsize] at h ⊢
  · cases h
    rfl
  · obtain ⟨⟨size, pc''⟩, hsplit, heq⟩ := Option.map_eq_some_iff.1 h
    obtain ⟨rfl, rfl⟩ := splitBytes_eq_some.1 hsplit
    obtain ⟨rfl, rfl⟩ := Prod.mk.inj heq
    rw [append_assoc, splitBytes_append]
    rfl

theorem getOp_append_of_eq_some (h : getOp pc = some (opcode, data, pc')) (rest : CScript) :
    getOp (pc ++ rest) = some (opcode, data, pc' ++ rest) := by
  obtain _ | ⟨b, bs⟩ := pc
  · cases h
  rw [cons_append]
  by_cases hle : b ≤ OP_PUSHDATA4
  · obtain ⟨rfl, hsize⟩ := (getOp_cons_eq_some hle).1 h
    refine (getOp_cons_eq_some hle).2 ⟨rfl, ?_⟩
    rw [pushSize_append hsize, append_assoc]
  · rw [getOp, if_neg hle] at h ⊢
    cases h
    rfl

theorem length_getOp_lt (h : getOp pc = some (opcode, data, rest)) : rest.length < pc.length := by
  obtain _ | ⟨b, bs⟩ := pc
  · cases h
  rw [length_cons, Nat.lt_succ_iff]
  by_cases hle : b ≤ OP_PUSHDATA4
  · have hlength := length_pushSize_le ((getOp_cons_eq_some hle).1 h).2
    rw [length_append] at hlength
    omega
  · rw [getOp, if_neg hle] at h
    cases h
    exact le_refl _

theorem length_failedOp_lt (hne : pc ≠ []) : (failedOp pc).length < pc.length := by
  obtain ⟨b, bs, rfl⟩ := exists_cons_of_ne_nil hne
  rw [failedOp, length_cons, Nat.lt_succ_iff]
  rcases hsize : pushSize b bs with _ | ⟨n, pc'⟩
  · exact le_refl _
  · exact length_pushSize_le hsize

theorem Push.length_le {v : Bytes} (h : Push op v) : v.length ≤ op.length := by
  cases h with
  | zero => exact le_refl _
  | small => exact le_refl _
  | direct => exact le_succ _
  | sized _ size =>
    rw [length_cons, length_append]
    omega

variable {vals : List Bytes} {s : CScript}

theorem Skims.length_le (h : Skims s vals) :
    ∀ v ∈ vals, v.length ≤ s.length := by
  induction h with
  | nil => exact nofun
  | push hop _ ih =>
    intro v' hv'
    rw [length_append]
    obtain rfl | hv' := mem_cons.1 hv'
    · exact le_add_right_of_le hop.length_le
    · exact le_add_left_of_le (ih v' hv')
  | broken hne _ _ ih => exact fun v' hv' => (ih v' hv').trans (length_failedOp_lt hne).le

variable {vs vals : List Bytes}

theorem skims_of_none (hne : pc ≠ []) (hop : getOp pc = none) :
    Skims pc vs ↔ Skims (failedOp pc) vs := by
  refine ⟨fun h => ?_, .broken hne hop⟩
  cases h with
  | nil => exact absurd rfl hne
  | push hpush =>
    obtain ⟨opcode, data, hget, -⟩ := hpush.getOp_append _
    rw [hget] at hop
    cases hop
  | broken _ _ hpc => exact hpc

theorem skims_of_some (hop : getOp pc = some (opcode, data, rest)) :
    Skims pc vs ↔ ∃ v vs', pushedValue opcode data = some v ∧ Skims rest vs' ∧ vs = v :: vs' := by
  constructor
  · intro h
    cases h with
    | nil => cases hop
    | push hpush hpc =>
      obtain ⟨opcode', data', hget, hv⟩ := hpush.getOp_append _
      rw [hget] at hop
      cases hop
      exact ⟨_, _, hv, hpc, rfl⟩
    | broken _ hnone =>
      rw [hop] at hnone
      cases hnone
  · rintro ⟨v, vs', hv, hpc, rfl⟩
    obtain ⟨op, hpush, rfl⟩ := exists_push hop hv
    exact .push hpush hpc

theorem skims_nil : Skims [] vs ↔ vs = [] := by
  refine ⟨fun h => ?_, fun h => h ▸ .nil⟩
  generalize hpc : ([] : CScript) = pc at h
  cases h with
  | nil => rfl
  | push hpush => exact absurd (append_eq_nil_iff.1 hpc.symm).1 hpush.ne_nil
  | broken hne => exact absurd hpc.symm hne

/-- The loop reads what `Skims` says. -/
theorem getPushedDataLoop_eq_some {fuel : ℕ} {vData : List Bytes}
    (hfuel : pc.length ≤ fuel) :
    getPushedDataLoop fuel vData pc = some vals ↔ ∃ vs, Skims pc vs ∧ vals = vData ++ vs := by
  induction fuel generalizing vData pc with
  | zero =>
    obtain rfl := length_eq_zero_iff.1 (le_zero.1 hfuel)
    simp [getPushedDataLoop_nil, skims_nil, eq_comm]
  | succ fuel ih =>
    by_cases hne : pc = []
    · subst hne
      simp [getPushedDataLoop_nil, skims_nil, eq_comm]
    rw [getPushedDataLoop_succ _ _ hne]
    rcases hop : getOp pc with _ | ⟨opcode, data, rest⟩
    · have hlt := length_failedOp_lt hne
      simp only [skims_of_none hne hop]
      exact ih (by omega)
    · have hlt := length_getOp_lt hop
      simp only [skims_of_some hop]
      rcases pushedValue opcode data with _ | v
      · simp
      · rw [Option.bind_some, ih (by omega)]
        constructor
        · rintro ⟨vs, hpc, rfl⟩
          exact ⟨v :: vs, ⟨v, vs, rfl, hpc, rfl⟩, by rw [append_assoc]; rfl⟩
        · rintro ⟨_, ⟨v', vs, hv, hpc, rfl⟩, rfl⟩
          cases hv
          exact ⟨vs, hpc, by rw [append_assoc]; rfl⟩

theorem getPushedData_eq_some :
    getPushedData s = some vals ↔ Skims s vals ∧ vals ≠ [] := by
  rw [getPushedData, Option.filter_eq_some_iff, getPushedDataLoop_eq_some (le_refl _)]
  simp

/-! ### Complete and broken scripts -/

/-- The script ends within a push. -/
def Truncated (s : CScript) : Prop :=
  ∃ done vs pc op v, s = done ++ pc ∧ Pushes done vs ∧ Push op v ∧ pc <+: op ∧ pc ≠ [] ∧ pc ≠ op

/-- A push without its last bytes is none that `GetOp` reads. -/
theorem Push.getOp_of_isPrefix {v : Bytes} (h : Push op v) (hpre : pc <+: op)
    (hne : pc ≠ op) : getOp pc = none := by
  obtain ⟨rest, rfl⟩ := hpre
  rcases hop : getOp pc with _ | ⟨opcode, data, pc'⟩
  · rfl
  · obtain ⟨opcode', data', hget, -⟩ := h.getOp_append []
    rw [append_nil, getOp_append_of_eq_some hop] at hget
    simp only [Option.some.injEq, Prod.mk.injEq, append_eq_nil_iff] at hget
    obtain ⟨-, -, -, rfl⟩ := hget
    exact absurd (append_nil pc).symm hne

/-- Behind complete pushes nothing is broken, if the whole consists of complete pushes. -/
theorem Pushes.getOp_ne_none {done : CScript} (hdone : Pushes done vs)
    (h : Pushes (done ++ pc) vals) (hne : pc ≠ []) : getOp pc ≠ none := by
  induction hdone generalizing vals with
  | nil =>
    rw [nil_append] at h
    cases h with
    | nil => exact absurd rfl hne
    | cons hop =>
      obtain ⟨opcode, data, hget, -⟩ := hop.getOp_append _
      rw [hget]
      exact nofun
  | @cons op v done vs hop _ ih =>
    rw [append_assoc] at h
    generalize hs : op ++ (done ++ pc) = s at h
    cases h with
    | nil => exact absurd (append_eq_nil_iff.1 hs).1 hop.ne_nil
    | cons hop' hpc =>
      obtain ⟨opcode, data, hget, -⟩ := hop.getOp_append (done ++ pc)
      obtain ⟨opcode', data', hget', -⟩ := hop'.getOp_append _
      rw [hs, hget'] at hget
      simp only [Option.some.injEq, Prod.mk.injEq] at hget
      obtain ⟨-, -, rfl⟩ := hget
      exact ih hpc

theorem Truncated.not_pushes (h : Truncated s) :
    ¬ Pushes s vals := by
  obtain ⟨done, vs, pc, op, v, rfl, hdone, hop, hpre, hnil, hne⟩ := h
  exact fun hall => hdone.getOp_ne_none hall hnil (hop.getOp_of_isPrefix hpre hne)

theorem BreaksOff.not_pushes {vals' : List Bytes} (h : BreaksOff s vals) :
    ¬ Pushes s vals' := by
  obtain ⟨done, pc, vs, vs', rfl, hdone, hne, hop, -, -⟩ := h
  exact fun hall => hdone.getOp_ne_none hall hne hop

theorem skims_iff :
    Skims s vals ↔ Pushes s vals ∨ BreaksOff s vals := by
  constructor
  · intro h
    induction h with
    | nil => exact .inl .nil
    | @push op v pc vs hop _ ih =>
      obtain ih | ⟨done, pc', vs, vs', rfl, hdone, hne, hnone, hpc, rfl⟩ := ih
      · exact .inl (.cons hop ih)
      · exact .inr ⟨op ++ done, pc', v :: vs, vs', (append_assoc ..).symm, .cons hop hdone,
          hne, hnone, hpc, rfl⟩
    | @broken pc vs hne hop hpc _ => exact .inr ⟨[], pc, [], vs, rfl, .nil, hne, hop, hpc, rfl⟩
  · rintro (h | ⟨done, pc, vs, vs', rfl, hdone, hne, hop, hpc, rfl⟩)
    · induction h with
      | nil => exact .nil
      | cons hop _ ih => exact .push hop ih
    · induction hdone with
      | nil => exact .broken hne hop hpc
      | @cons op v done vs hpush _ ih =>
        rw [append_assoc]
        exact .push hpush ih

/-! ### Parameters -/

/-- Consistent parameters from the pushed values: the header, then `n` keys that are all valid, and
the data behind them. -/
def Parameters (vals : List Bytes) (p : COptCCParams) : Prop :=
  ∃ keys, vals = [p.version, p.evalCode, p.m, p.n] :: (keys ++ p.vData)
    ∧ p.version = COptCCParams.VERSION ∧ p.m = 1 ∧ (p.n = 1 ∨ p.n = 2) ∧ keys.length = p.n.toNat
    ∧ p.vKeys = keys.map pubkey2pk ∧ ∀ key ∈ p.vKeys, key.isValid

theorem Parameters.version_eq {p : COptCCParams} (h : Parameters vals p) :
    p.version = COptCCParams.VERSION := by
  obtain ⟨-, -, hversion, -⟩ := h
  exact hversion

namespace COptCCParams

theorem readKeys_eq_map {bs : List Bytes} (h : ∀ b ∈ bs, (pubkey2pk b).isValid) :
    readKeys bs = bs.map pubkey2pk := by
  induction bs with
  | nil => rfl
  | cons b bs ih =>
    rw [readKeys, if_pos (h b (mem_cons_self ..)), map_cons,
      ih fun b' hb' => h b' (mem_cons_of_mem _ hb')]

theorem isValid_of_readKeys {bs : List Bytes} (h : ∀ key ∈ readKeys bs, key.isValid) :
    ∀ b ∈ bs, (pubkey2pk b).isValid := by
  induction bs with
  | nil => exact nofun
  | cons b bs ih =>
    rw [readKeys] at h
    by_cases hb : (pubkey2pk b).isValid
    · rw [if_pos hb] at h
      intro b' hb'
      obtain rfl | hb' := mem_cons.1 hb'
      · exact hb
      · exact ih (fun key hkey => h key (mem_cons_of_mem _ hkey)) b' hb'
    · rw [if_neg hb] at h
      exact absurd (h _ (mem_singleton_self _)) hb

variable {vals : List Bytes}

theorem ofPushed_of_parameters {p : COptCCParams} (h : Parameters vals p) :
    ofPushed vals = p := by
  obtain ⟨keys, rfl, hversion, hm, hn, hlength, hkeys, hvalid⟩ := h
  have hhead : ¬ (p.version ≠ VERSION ∨ p.m ≠ 1 ∨ (p.n ≠ 1 ∧ p.n ≠ 2)
      ∨ (keys ++ p.vData).length + 1 ≤ p.n.toNat) := by
    rw [length_append, hlength]
    rintro (h | h | h | h)
    · exact h hversion
    · exact h hm
    · exact hn.elim h.1 h.2
    · omega
  have hread : readKeys keys = p.vKeys := by
    rw [hkeys, forall_mem_map] at hvalid
    rw [hkeys, readKeys_eq_map hvalid]
  have hall : p.vKeys.all CPubKey.isValid := all_eq_true.2 hvalid
  rw [ofPushed, if_neg hhead, ← hlength, take_left, drop_left, hread]
  exact if_pos hall

theorem parameters_ofPushed (h : (ofPushed vals).version ≠ 0) :
    Parameters vals (ofPushed vals) := by
  unfold ofPushed at h ⊢
  split at h
  next version evalCode m n data =>
    dsimp only at h ⊢
    by_cases hhead : version ≠ VERSION ∨ m ≠ 1 ∨ (n ≠ 1 ∧ n ≠ 2) ∨ data.length + 1 ≤ n.toNat
    · rw [if_pos hhead] at h
      exact absurd rfl h
    rw [if_neg hhead] at h ⊢
    push Not at hhead
    obtain ⟨hversion, hm, hn, hlength⟩ := hhead
    by_cases hall : (readKeys (data.take n.toNat)).all CPubKey.isValid
    · rw [if_pos hall]
      have hvalid := all_eq_true.1 hall
      refine ⟨data.take n.toNat, ?_, hversion, hm, or_iff_not_imp_left.2 hn, ?_, ?_, hvalid⟩
      · rw [take_append_drop]
      · exact length_take_of_le (by omega)
      · exact readKeys_eq_map (isValid_of_readKeys hvalid)
    · rw [if_neg hall] at h
      exact absurd rfl h
  next => exact absurd rfl h

theorem ofBytes_of_skims {s : Bytes} (hs : Skims s vals)
    {p : COptCCParams} (h : Parameters vals p) : ofBytes s = p := by
  have hlength : ¬ s.length ≤ 1 := by
    obtain ⟨keys, rfl, -⟩ := h
    have hle := hs.length_le _ (mem_cons_self ..)
    simp only [length_cons, length_nil] at hle
    omega
  have hne : vals ≠ [] := by
    obtain ⟨keys, rfl, -⟩ := h
    exact cons_ne_nil _ _
  rw [ofBytes, if_neg hlength, getPushedData_eq_some.2 ⟨hs, hne⟩]
  exact ofPushed_of_parameters h

theorem exists_skims_of_version_ne {s : Bytes} (h : (ofBytes s).version ≠ 0) :
    ∃ vals, Skims s vals ∧ Parameters vals (ofBytes s) := by
  unfold ofBytes at h ⊢
  split_ifs at h ⊢
  · exact absurd rfl h
  · rcases hget : getPushedData s with _ | vals
    · rw [hget] at h
      exact absurd rfl h
    · rw [hget] at h
      exact ⟨vals, (getPushedData_eq_some.1 hget).1, parameters_ofPushed h⟩

end COptCCParams

/-! ### What the two accept -/

/-- `GetPushedData` succeeds only for complete pushes, with their values, and never for a script
that ends within its last push. -/
def PushedSound (s : CScript) : Prop :=
  (∀ vals, getPushedData s = some vals → Pushes s vals) ∧ (Truncated s → getPushedData s = none)

/-- `COptCCParams` sets a version only for complete pushes of consistent parameters, and never for
a script that ends within its last push. -/
def ParamsSound (s : Bytes) : Prop :=
  ((COptCCParams.ofBytes s).version ≠ 0 →
    ∃ vals, Pushes s vals ∧ Parameters vals (COptCCParams.ofBytes s)) ∧
  (Truncated s → (COptCCParams.ofBytes s).version = 0)

theorem pushedSound_iff (s : CScript) :
    PushedSound s ↔ ¬ ∃ vals, BreaksOff s vals ∧ vals ≠ [] := by
  constructor
  · rintro ⟨hsound, -⟩ ⟨vals, hoff, hne⟩
    exact hoff.not_pushes (hsound vals (getPushedData_eq_some.2 ⟨skims_iff.2 (.inr hoff), hne⟩))
  · intro h
    have hsound : ∀ vals, getPushedData s = some vals → Pushes s vals := by
      intro vals hget
      obtain ⟨hskims, hne⟩ := getPushedData_eq_some.1 hget
      exact (skims_iff.1 hskims).resolve_right fun hoff => h ⟨vals, hoff, hne⟩
    refine ⟨hsound, fun htrunc => ?_⟩
    rcases hget : getPushedData s with _ | vals
    · rfl
    · exact absurd (hsound vals hget) htrunc.not_pushes

theorem paramsSound_iff (s : Bytes) :
    ParamsSound s ↔ ¬ ∃ vals p, BreaksOff s vals ∧ Parameters vals p := by
  constructor
  · rintro ⟨hsound, -⟩ ⟨vals, p, hoff, hp⟩
    have hversion : (COptCCParams.ofBytes s).version ≠ 0 := by
      rw [COptCCParams.ofBytes_of_skims (skims_iff.2 (.inr hoff)) hp, hp.version_eq]
      decide
    obtain ⟨vals', hpushes, -⟩ := hsound hversion
    exact hoff.not_pushes hpushes
  · intro h
    have hsound : (COptCCParams.ofBytes s).version ≠ 0 →
        ∃ vals, Pushes s vals ∧ Parameters vals (COptCCParams.ofBytes s) := by
      intro hversion
      obtain ⟨vals, hskims, hp⟩ := COptCCParams.exists_skims_of_version_ne hversion
      exact ⟨vals, (skims_iff.1 hskims).resolve_right fun hoff => h ⟨vals, _, hoff, hp⟩, hp⟩
    refine ⟨hsound, fun htrunc => ?_⟩
    by_contra hversion
    obtain ⟨vals, hpushes, -⟩ := hsound hversion
    exact htrunc.not_pushes hpushes

/-- The two are sound on exactly the scripts where skipping the head of a broken push does not lead
to the end: with a value for `GetPushedData`, with consistent parameters for `COptCCParams`. -/
theorem pushed_iff (s : CScript) :
    (PushedSound s ↔ ¬ ∃ vals, BreaksOff s vals ∧ vals ≠ []) ∧
    (ParamsSound s ↔ ¬ ∃ vals p, BreaksOff s vals ∧ Parameters vals p) :=
  ⟨pushedSound_iff s, paramsSound_iff s⟩

/-- Behind a complete push stands the opcode of one of five bytes, and nothing more: both accept the
script, the second with the parameters pushed before. -/
theorem broken_push_accepted :
    ¬ PushedSound [0x01, 0x07, 0x05] ∧ ¬ ParamsSound ([0x04, 0x01, 0xec, 0x01, 0x01]
      ++ (0x21 :: 0x02 :: List.replicate 32 0x07 ++ [0x05])) := by
  have hop : Push [0x05, 0, 0, 0, 0, 0] [0, 0, 0, 0, 0] :=
    .direct 0x05 _ (by decide) (by decide) rfl
  constructor
  · rintro ⟨-, htrunc⟩
    have hfirst : Pushes ([0x01, 0x07] ++ []) [[0x07]] :=
      .cons (.direct 0x01 [0x07] (by decide) (by decide) rfl) .nil
    have hnone := htrunc ⟨_, _, [0x05], _, _, rfl, hfirst, hop, by decide, by decide, by decide⟩
    exact absurd hnone (by decide)
  · rintro ⟨-, htrunc⟩
    have hfirst : Pushes ([0x04, 0x01, 0xec, 0x01, 0x01]
        ++ (0x21 :: 0x02 :: replicate 32 0x07 ++ [])) _ :=
      .cons (.direct 0x04 _ (by decide) (by decide) rfl)
        (.cons (.direct 0x21 _ (by decide) (by decide) rfl) .nil)
    have hzero := htrunc ⟨_, _, [0x05], _, _, by simp, hfirst, hop, by decide, by decide, by decide⟩
    exact absurd hzero (by decide)

end Komodo
