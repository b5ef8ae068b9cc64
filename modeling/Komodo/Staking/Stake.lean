/-
# The maturity of a stake

`komodo_stake` and `komodo_stakehash` of `src/src/komodo_bitcoind.cpp`.  A stake is tried for the
times `blocktime + iter + 2 * segid`.  The times before `txtime + minage` are passed over, and at the
first time after it the hash of the stake is compared with the target.

The staker tries up to 600 of them and moves the time of its block to the one that wins.  For a block
that is validated the loop is left at the first time that is tried, but the times that are passed over
come before that, and the time of the block is not moved: up to 599 seconds too early are accepted
(`mature_iff`).  Such a stake counts as one of thirty days, since the age is a `uint32_t` below zero.

Numbers of 32 and 64 bits are integers that are reduced where the source does so.
-/

import Komodo.Script.Serialize

namespace Komodo
namespace Staking

/-- A result of `uint32_t` arithmetic. -/
def toUint32 (n : ℤ) : ℤ := n % 2 ^ 32

/-- A result of `uint64_t` arithmetic. -/
def toUint64 (n : ℤ) : ℤ := n % 2 ^ 64

def SATOSHIDEN : ℤ := 100000000

/-- What `komodo_stake` asks for. -/
structure StakeEnv where
  /-- `komodo_txtime2`: the time, the value and the address of an output. -/
  txtime2 : (txid : Uint256) → (vout : ℤ) → ℤ × ℤ × Bytes
  /-- `komodo_segids`: the bytes of a hundred blocks. -/
  segids : (height : ℤ) → Bytes
  /-- `vcalc_sha256`. -/
  sha256 : Bytes → Bytes
  /-- The target that `STAKING_MIN_DIFF` stands for. -/
  mindiff : ℕ
  getTime : ℤ

/-- `komodo_stakehash`: the hash of the stake and the first word of the hash of its address. -/
def StakeEnv.stakehash (env : StakeEnv) (address hashbuf : Bytes) (txid : Uint256) (vout : ℤ) :
    ℕ × ℤ :=
  let addrhash := env.sha256 address
  (fromLE (env.sha256 (hashbuf ++ addrhash ++ uint256Bytes txid ++ intBytes 4 vout)),
    fromLE (addrhash.take 4))

/-- What the loop of `komodo_stake` is about. -/
structure Stake where
  /-- The value in coins. -/
  value : ℤ
  txtime : ℤ
  minage : ℤ
  segid : ℤ
  hash : ℕ
  ratio : ℕ
  bnTarget : ℕ
  blocktime : ℤ
  prevtime : ℤ

namespace Stake

variable (s : Stake)

/-- `blocktime+iter+segid*2`. -/
def slot (iter : ℤ) : ℤ := toUint32 (s.blocktime + iter + s.segid * 2)

/-- The slots that are passed over. -/
def tooYoung (iter : ℤ) : Prop := s.slot iter < toUint32 (s.txtime + s.minage)

instance (iter : ℤ) : Decidable (s.tooYoung iter) := inferInstanceAs (Decidable (_ < _))

/-- `diff`, the age of the stake.  The branch for an age below zero is never taken. -/
def diff (iter : ℤ) : ℤ :=
  let diff := toUint32 (iter + s.blocktime - s.txtime - s.minage)
  let diff := if diff < 0 then 60 else if 3600 * 24 * 30 < diff then 3600 * 24 * 30 else diff
  if 0 < iter then diff + s.segid * 2 else diff

def coinage (iter : ℤ) : ℤ :=
  let coinage := toUint64 (s.value * s.diff iter)
  if toUint32 (s.prevtime + 480) < s.slot iter then
    toUint64 (coinage * toUint32 (s.slot iter - toUint32 (s.prevtime + 400)))
  else coinage

/-- `hashval`; the division by zero of an `arith_uint256` throws. -/
def hashval (iter : ℤ) : Option ℕ :=
  let coinage256 := (toUint64 (s.coinage iter + 1)).toNat
  if coinage256 = 0 then none else some (s.ratio * (s.hash / coinage256) % 2 ^ 256)

/-- The loop of `komodo_stake`, for what is left of its 600 rounds: the `iter` that wins. -/
def loop (validateflag : Bool) : (rounds : ℕ) → (iter : ℤ) → Option (Option ℤ)
  | 0, _ => some none
  | rounds + 1, iter =>
    if s.tooYoung iter then loop validateflag rounds (iter + 1)
    else do
      let hashval ← s.hashval iter
      if hashval ≤ s.bnTarget then some (some iter)
      else if validateflag then some none
      else loop validateflag rounds (iter + 1)

end Stake

/-- `minage`. -/
def stakeMinage (nHeight : ℤ) : ℤ :=
  let minage := (nHeight * 3).bmod (2 ^ 32)
  if 6000 < minage then 6000 else minage

namespace StakeEnv

variable (env : StakeEnv)

/-- The time of the block that a staker starts with. -/
def stakerTime (blocktime prevtime : ℤ) : ℤ :=
  let blocktime :=
    if blocktime < toUint32 (prevtime + 3) then toUint32 (prevtime + 3) else blocktime
  if blocktime < env.getTime - 60 then toUint32 (env.getTime + 30) else blocktime

/-- The hash of a stake and the first word of the hash of its address. -/
def stakehashOf (nHeight : ℤ) (txid : Uint256) (vout : ℤ) : ℕ × ℤ :=
  env.stakehash (env.txtime2 txid vout).2.2 (env.segids (nHeight - 101)) txid vout

/-- `segid`. -/
def segidOf (nHeight : ℤ) (txid : Uint256) (vout : ℤ) : ℤ :=
  toUint32 (nHeight + (env.stakehashOf nHeight txid vout).2) % 64

/-- What `komodo_stake` compares, in front of its loop; the division by a target of zero throws. -/
def stakeOf (bnTarget : ℕ) (nHeight : ℤ) (txid : Uint256) (vout blocktime prevtime : ℤ) :
    Option Stake :=
  if bnTarget = 0 then none
  else some {
    value := (env.txtime2 txid vout).2.1 / SATOSHIDEN
    txtime := (env.txtime2 txid vout).1
    minage := stakeMinage nHeight
    segid := env.segidOf nHeight txid vout
    hash := (env.stakehashOf nHeight txid vout).1
    ratio := env.mindiff / bnTarget
    bnTarget
    blocktime
    prevtime }

/-- The outputs and times for which `komodo_stake` returns at once. -/
def stakeNull (txid : Uint256) (vout blocktime prevtime : ℤ) : Bool :=
  let (txtime, value, _) := env.txtime2 txid vout
  value = 0 ∨ txtime = 0 ∨ blocktime = 0 ∨ prevtime = 0 ∨ value < SATOSHIDEN

/-- `komodo_stake`; `none` where it throws. -/
def komodoStake (validateflag : Bool) (bnTarget : ℕ) (nHeight : ℤ) (txid : Uint256)
    (vout blocktime prevtime : ℤ) : Option ℤ :=
  let blocktime := if validateflag then blocktime else env.stakerTime blocktime prevtime
  if env.stakeNull txid vout blocktime prevtime then some 0
  else do
    let s ← env.stakeOf bnTarget nHeight txid vout blocktime prevtime
    let winner ← s.loop validateflag 600 0
    -- the time of a block that is validated stays
    let blocktime := if validateflag then blocktime else winner.elim blocktime s.slot
    if nHeight < 10 then some blocktime else some (winner.elim 0 fun _ => blocktime)

end StakeEnv

/-! ### The first slot that is tried -/

namespace Stake

variable (s : Stake)

/-- The first of the slots that is not passed over. -/
def firstTried : (rounds : ℕ) → (iter : ℤ) → Option ℤ
  | 0, _ => none
  | rounds + 1, iter => if s.tooYoung iter then firstTried rounds (iter + 1) else some iter

variable {s}

/-- **A validation tries one slot.** -/
theorem loop_validate (rounds : ℕ) (iter : ℤ) :
    s.loop true rounds iter = (s.firstTried rounds iter).elim (some none) fun iter =>
      (s.hashval iter).map fun hashval => if hashval ≤ s.bnTarget then some iter else none := by
  induction rounds generalizing iter with
  | zero => rfl
  | succ rounds ih =>
    rw [loop, firstTried]
    by_cases hyoung : s.tooYoung iter
    · rw [if_pos hyoung, if_pos hyoung]
      exact ih (iter + 1)
    · rw [if_neg hyoung, if_neg hyoung, Option.elim_some]
      cases hhash : s.hashval iter with
      | none => simp
      | some hashval => by_cases hwins : hashval ≤ s.bnTarget <;> simp [hwins]

end Stake

/-! ### Validation -/

namespace StakeEnv

variable (env : StakeEnv) (bnTarget : ℕ) (nHeight : ℤ) (txid : Uint256)
  (vout blocktime prevtime : ℤ)

/-- The stake has its age at `blocktime + 2 * segid`. -/
def Mature : Prop :=
  (env.txtime2 txid vout).1 + min (3 * nHeight) 6000
    ≤ blocktime + 2 * env.segidOf nHeight txid vout

/-- A stake without its age does not win the slot that is tried for it. -/
def NotEarly : Prop :=
  env.stakeNull txid vout blocktime prevtime = false →
    ¬ env.Mature nHeight txid vout blocktime →
    ∀ s iter hashval, env.stakeOf bnTarget nHeight txid vout blocktime prevtime = some s →
      s.firstTried 600 0 = some iter → s.hashval iter = some hashval → bnTarget < hashval

variable {env bnTarget nHeight txid vout blocktime prevtime}

theorem bnTarget_stakeOf {s : Stake}
    (h : env.stakeOf bnTarget nHeight txid vout blocktime prevtime = some s) :
    s.bnTarget = bnTarget := by
  unfold stakeOf at h
  split_ifs at h
  rw [← Option.some.inj h]

theorem blocktime_ne_zero (h : env.stakeNull txid vout blocktime prevtime = false) :
    blocktime ≠ 0 := by
  unfold stakeNull at h
  simp only [decide_eq_false_iff_not, not_or] at h
  exact h.2.2.1

theorem komodoStake_validate (hheight : 10 ≤ nHeight)
    (hnull : env.stakeNull txid vout blocktime prevtime = false) :
    env.komodoStake true bnTarget nHeight txid vout blocktime prevtime
      = (env.stakeOf bnTarget nHeight txid vout blocktime prevtime).bind fun s =>
        (s.loop true 600 0).map fun winner => winner.elim 0 fun _ => blocktime := by
  unfold komodoStake
  simp only [if_true, hnull, Bool.false_eq_true, if_false, if_neg (by omega : ¬ nHeight < 10)]
  cases env.stakeOf bnTarget nHeight txid vout blocktime prevtime with
  | none => rfl
  | some s =>
    simp only [Option.bind_eq_bind, Option.bind_some]
    cases s.loop true 600 0 <;> rfl

variable (env bnTarget nHeight txid vout blocktime prevtime)

/-- **A stake that is accepted is mature if and only if none is accepted early.** -/
theorem mature_iff (hheight : 10 ≤ nHeight) :
    (∀ r, env.komodoStake true bnTarget nHeight txid vout blocktime prevtime = some r → r ≠ 0 →
        env.Mature nHeight txid vout blocktime)
      ↔ env.NotEarly bnTarget nHeight txid vout blocktime prevtime := by
  constructor
  · intro hall hnull himmature s iter hashval hs hiter hhash
    refine Nat.lt_of_not_le fun hwins => himmature (hall blocktime ?_ (blocktime_ne_zero hnull))
    rw [komodoStake_validate hheight hnull, hs, Option.bind_some, Stake.loop_validate, hiter]
    simp [hhash, bnTarget_stakeOf hs, hwins]
  · intro hnot r hr hne
    by_contra himmature
    cases hnull : env.stakeNull txid vout blocktime prevtime with
    | true =>
      unfold komodoStake at hr
      simp only [if_true, hnull, Option.some.injEq] at hr
      exact hne hr.symm
    | false =>
      rw [komodoStake_validate hheight hnull, Option.bind_eq_some_iff] at hr
      obtain ⟨s, hs, hloop⟩ := hr
      rw [Stake.loop_validate] at hloop
      cases hiter : s.firstTried 600 0 with
      | none =>
        rw [hiter] at hloop
        exact hne (Option.some.inj hloop).symm
      | some iter =>
        rw [hiter, Option.elim_some, Option.map_map, Option.map_eq_some_iff] at hloop
        obtain ⟨hashval, hhash, hwinner⟩ := hloop
        have hloses := hnot hnull himmature s iter hashval hs hiter hhash
        rw [Function.comp_apply, bnTarget_stakeOf hs, if_neg (by omega)] at hwinner
        exact hne hwinner.symm

end StakeEnv

/-- A coin from the time 1000000 whose hashes are all zero. -/
def coinEnv : StakeEnv where
  txtime2 _ _ := (1000000, 100000000, [])
  segids _ := []
  sha256 _ := []
  mindiff := 1
  getTime := 0

/-- An hour and forty minutes later it is old enough. -/
theorem mature_later : (10 : ℤ) ≤ 2000 ∧
    ∀ r, coinEnv.komodoStake true 1 2000 0 0 1006000 1005900 = some r → r ≠ 0 →
      coinEnv.Mature 2000 0 0 1006000 :=
  ⟨by omega, (coinEnv.mature_iff 1 2000 0 0 1006000 1005900 (by omega)).2
    fun _ himmature => absurd (show coinEnv.Mature 2000 0 0 1006000 by
      show (1000000 : ℤ) + min (3 * 2000) 6000 ≤ 1006000 + 2 * 16
      omega) himmature⟩

/-- It is accepted 468 seconds before. -/
theorem accepted_early : ¬ ∀ env bnTarget nHeight txid vout blocktime prevtime, 10 ≤ nHeight →
    ∀ r, StakeEnv.komodoStake env true bnTarget nHeight txid vout blocktime prevtime = some r →
      r ≠ 0 → env.Mature nHeight txid vout blocktime := by
  intro hall
  have hrun : coinEnv.komodoStake true 1 2000 0 0 1005500 1005400 = some 1005500 := by
    decide +kernel
  have hmature : (1000000 : ℤ) + min (3 * 2000) 6000 ≤ 1005500 + 2 * 16 :=
    hall coinEnv 1 2000 0 0 1005500 1005400 (by omega) 1005500 hrun (by omega)
  omega

end Staking
end Komodo
