/-
# The age that a stake is credited with

The loop of `komodo_stake` in `src/src/komodo_bitcoind.cpp` once more.  A slot is passed over while
`blocktime + iter + 2 * segid` is below `txtime + minage`, so the slots that are evaluated may be up
to `2 * segid` seconds early.  The branch `diff < 0` is there for these, and credits them with a
minute.  It is never taken: the difference is a `uint32_t` before it is stored in the `int64_t`.

`evaluated` are the slots that the loop gets to, `age` is the difference that is meant, and
`notOvercredited_iff` says for which slots the credit is within it: for those that are mature, and
for differences that are almost `2 ^ 32` below zero.
-/

import Komodo.Staking.Stake

namespace Komodo
namespace Staking

open Option

namespace Stake

variable (s : Stake)

/-- The slots for which the loop of `komodo_stake` computes a `diff`, up to the one at which it is
left. -/
def evaluated (validateflag : Bool) : (rounds : ℕ) → (iter : ℤ) → List ℤ
  | 0, _ => []
  | rounds + 1, iter =>
    if s.tooYoung iter then evaluated validateflag rounds (iter + 1)
    else iter :: match s.hashval iter with
      | none => []
      | some hashval =>
        if hashval ≤ s.bnTarget then []
        else if validateflag then []
        else evaluated validateflag rounds (iter + 1)

/-- The difference between a slot and the time at which the output has its age. -/
def age (iter : ℤ) : ℤ := s.blocktime + iter - s.txtime - s.minage

/-- The credit is at most a minute or the age, which counts for thirty days, and twice the segid. -/
def NotOvercredited (iter : ℤ) : Prop :=
  s.diff iter ≤ max 60 (min (s.age iter) (3600 * 24 * 30)) + 2 * s.segid

variable {s}

/-- A slot that wins has been evaluated. -/
theorem mem_evaluated_of_loop {validateflag : Bool} {rounds : ℕ} {iter winner : ℤ}
    (h : s.loop validateflag rounds iter = some (some winner)) :
    winner ∈ s.evaluated validateflag rounds iter := by
  induction rounds generalizing iter with
  | zero => cases h
  | succ rounds ih =>
    rw [loop] at h
    rw [evaluated]
    by_cases hyoung : s.tooYoung iter
    · rw [if_pos hyoung] at h ⊢
      exact ih h
    · rw [if_neg hyoung, bind_eq_bind, bind_eq_some_iff] at h
      obtain ⟨hashval, hhash, hwinner⟩ := h
      rw [if_neg hyoung, hhash]
      split_ifs at hwinner with hwins hvalidate
      · obtain rfl : iter = winner := some.inj (some.inj hwinner)
        exact List.mem_cons_self
      · cases hwinner
      · refine List.mem_cons_of_mem _ ?_
        simp only [if_neg hwins, if_neg hvalidate]
        exact ih hwinner

/-- The slots are counted up from where the loop starts. -/
theorem le_of_mem_evaluated {validateflag : Bool} {rounds : ℕ} {iter slot : ℤ}
    (h : slot ∈ s.evaluated validateflag rounds iter) : iter ≤ slot := by
  induction rounds generalizing iter with
  | zero => cases h
  | succ rounds ih =>
    rw [evaluated] at h
    by_cases hyoung : s.tooYoung iter
    · rw [if_pos hyoung] at h
      have := ih h
      omega
    · rw [if_neg hyoung, List.mem_cons] at h
      rcases h with rfl | hlater
      · exact le_rfl
      · split at hlater
        · cases hlater
        · split_ifs at hlater
          · cases hlater
          · cases hlater
          · have := ih hlater
            omega

theorem diff_eq (iter : ℤ) :
    s.diff iter = min (toUint32 (s.age iter)) (3600 * 24 * 30)
      + if 0 < iter then 2 * s.segid else 0 := by
  have hnonneg : 0 ≤ toUint32 (s.age iter) := Int.emod_nonneg _ (by decide)
  have hage : iter + s.blocktime - s.txtime - s.minage = s.age iter := by
    unfold age
    ring
  unfold diff
  rw [hage]
  simp only [if_neg (Int.not_lt.2 hnonneg)]
  split_ifs <;> omega

/-- **The credit is within the age if and only if the age has not wrapped around**, or has wrapped
around to a minute. -/
theorem notOvercredited_iff (hsegid : 0 ≤ s.segid ∧ s.segid < 64) {iter : ℤ} (hiter : 0 ≤ iter) :
    s.NotOvercredited iter ↔
      0 ≤ s.age iter ∨ s.age iter % 2 ^ 32 ≤ 60 + if iter = 0 then 2 * s.segid else 0 := by
  unfold NotOvercredited
  rw [diff_eq, toUint32]
  by_cases hage : 0 ≤ s.age iter
  · have hle : s.age iter % 2 ^ 32 ≤ s.age iter := by omega
    refine iff_of_true ?_ (Or.inl hage)
    split_ifs <;> omega
  · rcases hiter.eq_or_lt with rfl | hpos
    · rw [if_neg (lt_irrefl 0), if_pos rfl]
      omega
    · rw [if_pos hpos, if_neg hpos.ne']
      omega

end Stake

namespace StakeEnv

variable (env : StakeEnv) (validateflag : Bool) (bnTarget : ℕ) (nHeight : ℤ) (txid : Uint256)
  (vout blocktime prevtime : ℤ)

/-- The time at which the loop of `komodo_stake` starts. -/
def startTime : ℤ := if validateflag then blocktime else env.stakerTime blocktime prevtime

/-- What `komodo_stake` evaluates: the stake, where it gets to the loop, and a slot. -/
def Evaluates (s : Stake) (iter : ℤ) : Prop :=
  env.stakeNull txid vout (env.startTime validateflag blocktime prevtime) prevtime = false ∧
    env.stakeOf bnTarget nHeight txid vout (env.startTime validateflag blocktime prevtime) prevtime
      = some s ∧
    iter ∈ s.evaluated validateflag 600 0

variable {env validateflag bnTarget nHeight txid vout blocktime prevtime}

theorem segid_stakeOf {s : Stake}
    (h : env.stakeOf bnTarget nHeight txid vout blocktime prevtime = some s) :
    0 ≤ s.segid ∧ s.segid < 64 := by
  unfold stakeOf at h
  split_ifs at h
  rw [← some.inj h]
  exact ⟨Int.emod_nonneg _ (by decide), Int.emod_lt_of_pos _ (by decide)⟩

/-- `komodo_stake` from the time on at which its loop starts. -/
theorem komodoStake_eq (hheight : 10 ≤ nHeight) :
    env.komodoStake validateflag bnTarget nHeight txid vout blocktime prevtime
      = let start := env.startTime validateflag blocktime prevtime
        if env.stakeNull txid vout start prevtime then some 0
        else (env.stakeOf bnTarget nHeight txid vout start prevtime).bind fun s =>
          (s.loop validateflag 600 0).map fun winner => winner.elim 0 fun _ =>
            if validateflag then start else winner.elim start s.slot := by
  unfold komodoStake startTime
  simp only [if_neg (by omega : ¬ nHeight < 10), bind_eq_bind, map_eq_bind]
  rfl

/-- Where `komodo_stake` finds a winner, it is a slot that it evaluates. -/
theorem exists_evaluates {r : ℤ} (hheight : 10 ≤ nHeight)
    (h : env.komodoStake validateflag bnTarget nHeight txid vout blocktime prevtime = some r)
    (hr : r ≠ 0) :
    ∃ s iter, env.Evaluates validateflag bnTarget nHeight txid vout blocktime prevtime s iter ∧
      s.loop validateflag 600 0 = some (some iter) := by
  rw [komodoStake_eq hheight] at h
  cases hnull :
      env.stakeNull txid vout (env.startTime validateflag blocktime prevtime) prevtime with
  | true =>
    simp only [hnull, if_true] at h
    exact absurd (some.inj h).symm hr
  | false =>
    simp only [hnull, Bool.false_eq_true, if_false, bind_eq_some_iff, map_eq_some_iff] at h
    obtain ⟨s, hs, winner, hloop, hwinner⟩ := h
    cases winner with
    | none => exact absurd hwinner.symm hr
    | some iter => exact ⟨s, iter, ⟨hnull, hs, Stake.mem_evaluated_of_loop hloop⟩, hloop⟩

/-- **A slot that `komodo_stake` evaluates is credited with no more than its age if and only if it
is mature**, or so far from it that the difference wraps around to no more than a minute. -/
theorem credit_iff {s : Stake} {iter : ℤ}
    (h : env.Evaluates validateflag bnTarget nHeight txid vout blocktime prevtime s iter) :
    s.NotOvercredited iter ↔
      0 ≤ s.age iter ∨ s.age iter % 2 ^ 32 ≤ 60 + if iter = 0 then 2 * s.segid else 0 := by
  obtain ⟨-, hs, hiter⟩ := h
  exact Stake.notOvercredited_iff (segid_stakeOf hs) (Stake.le_of_mem_evaluated hiter)

end StakeEnv

/-- The stake of `coinEnv` at a time. -/
def coinStake (blocktime : ℤ) : Stake where
  value := 1
  txtime := 1000000
  minage := 6000
  segid := 16
  hash := 0
  ratio := 1
  bnTarget := 1
  blocktime
  prevtime := 1005900

theorem evaluates_coinStake :
    coinEnv.Evaluates true 1 2000 0 0 1006000 1005900 (coinStake 1006000) 0 :=
  ⟨by decide +kernel, rfl, by decide +kernel⟩

/-- A coin that is just mature. -/
theorem credit_mature :
    coinEnv.Evaluates true 1 2000 0 0 1006000 1005900 (coinStake 1006000) 0 ∧
      (coinStake 1006000).NotOvercredited 0 :=
  ⟨evaluates_coinStake, (StakeEnv.credit_iff evaluates_coinStake).2 (Or.inl (by decide))⟩

/-- Ten seconds before, it is credited with thirty days. -/
theorem overcredited_early : ¬ ∀ env validateflag bnTarget nHeight txid vout blocktime prevtime
    s iter,
    StakeEnv.Evaluates env validateflag bnTarget nHeight txid vout blocktime prevtime s iter →
      s.NotOvercredited iter := by
  intro hall
  have hcredit : (coinStake 1005990).diff 0 ≤
      max 60 (min ((coinStake 1005990).age 0) (3600 * 24 * 30)) + 2 * 16 :=
    hall coinEnv true 1 2000 0 0 1005990 1005900 (coinStake 1005990) 0
      ⟨by decide +kernel, rfl, by decide +kernel⟩
  revert hcredit
  decide

end Staking
end Komodo
