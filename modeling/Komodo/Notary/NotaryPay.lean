/-
# The pay of the notaries

`komodo_notarypayamount`, `komodo_notarypay`, `GetNotarisationNotaries` and `komodo_checknotarypay`
of `src/src/komodo_bitcoind.cpp`.  The coinbase of a block with a notarisation pays the notaries
that have signed it.  The check computes what they are to be paid, walks over the outputs of the
coinbase behind the first, and counts those that pay the notary whose turn it is.

The walk does not stop behind the last notary, and an output that pays nobody is passed over.  What
follows from that is in `Komodo.Notary.CoinbaseWalk`.

A read behind the end of a vector ends the run with `BadAccess`.
-/

import Komodo.Lib.Completes
import Komodo.Lib.Overflow
import Komodo.Script.Script

namespace Komodo
namespace NotaryPay

open List

open Overflow (Ensures)
open Runs (bind_eq_ok)

/-- The vector behind whose end is read. -/
inductive BadAccess
  /-- The outputs of a transaction. -/
  | vout
  /-- The notaries that have signed. -/
  | notarisationNotaries
deriving DecidableEq

/-- The value of an output as a `uint64_t`. -/
def satoshis (out : CTxOut) : ℕ := (out.nValue % 2 ^ 64).toNat

def OP_CHECKSIG : UInt8 := 0xac

/-- A script that pays to a public key, by its length and its first and last byte. -/
def isPubkeyScript (script : CScript) : Bool :=
  script.length = 35 ∧ script[0]? = some 33 ∧ script[34]? = some OP_CHECKSIG

/-- The script pays to this key. -/
def paysKey (script : CScript) (key : Bytes) : Bool :=
  isPubkeyScript script ∧ (script.drop 1).take 33 = key

/-- The script that `komodo_notarypay` makes for a key. -/
def payScript (key : Bytes) : CScript := 33 :: key ++ [OP_CHECKSIG]

/-- What `komodo_notaries` leaves in `notarypubkeys[64][33]`, and the number that it returns. -/
structure NotaryKeys where
  pubkeys : List Bytes
  num : ℤ
  length_pubkeys : pubkeys.length = 64
  width : ∀ key ∈ pubkeys, key.length = 33
  num_le : num ≤ 64

/-- `notarypubkeys[i]`. -/
def NotaryKeys.key (keys : NotaryKeys) (i : ℕ) : Bytes := keys.pubkeys.getD i []

/-- `notarypubkeys[0][0] == 0`. -/
def NotaryKeys.unset (keys : NotaryKeys) : Bool := (keys.key 0).getD 0 0 = 0

/-- What the check of the pay asks for. -/
structure Env where
  komodoNotaries : (height : ℤ) → (timestamp : ℕ) → NotaryKeys
  getTransaction : Uint256 → Option CTransaction
  /-- `komodo_voutupdate` on the opreturn of a notarisation: the height that it notarises, where the
  result is -2. -/
  voutupdate : (height : ℤ) → (timestamp : ℕ) → (script : CScript) → Option ℤ
  /-- `ASSETCHAINS_ENDSUBSIDY`. -/
  endsubsidy : ℕ → ℕ
  /-- `ASSETCHAINS_LASTERA`. -/
  lastera : ℕ
  /-- `ASSETCHAINS_NOTARY_PAY`. -/
  notaryPay : ℕ → UInt64

/-- A block with a notarisation: its first two transactions. -/
structure NotarisedBlock where
  nTime : ℕ
  /-- `vtx[0]`. -/
  coinbase : CTransaction
  /-- `vtx[1]`. -/
  notarisation : CTransaction

namespace Env

variable (env : Env)

/-- `curEra`, which is beyond the last one if all have ended. -/
def curEra (nHeight : ℤ) : ℕ :=
  if 1 < env.endsubsidy 0 then
    ((List.range (env.lastera + 1)).find? fun era =>
      nHeight < env.endsubsidy era ∨ env.endsubsidy era = 0).getD (env.lastera + 1)
  else 0

/-- `komodo_notarypayamount`. -/
def notarypayamount (nHeight : ℤ) (notarycount : ℕ) : ℕ :=
  if env.lastera < env.curEra nHeight then 0
  else if notarycount = 0 then 0
  else (env.notaryPay (env.curEra nHeight)).toNat / notarycount

/-- `komodo_getnotarizedheight`. -/
def getnotarizedheight (timestamp : ℕ) (height : ℤ) (script : CScript) : ℤ :=
  if 4 ≤ script.length ∧ script.length ≤ 10001 then (env.voutupdate height timestamp script).getD 0
  else 0

/-- `komodo_notarypay`: the outputs of the transaction that it makes, and the total.  Its counter is
an `int8_t`, which is enough for the notaries of `komodo_checknotarypay`. -/
def notarypay (notaries : List ℕ) (timestamp : ℕ) (height : ℤ) (script : CScript) :
    List CTxOut × ℕ :=
  let keys := env.komodoNotaries height timestamp
  let amountToPay := env.notarypayamount height notaries.length
  if keys.unset then ([], 0)
  else if env.getnotarizedheight timestamp height script = 0 then ([], 0)
  else if amountToPay = 0 then (List.replicate (notaries.length + 1) CTxOut.null, 0)
  else
    let outs := notaries.map fun i =>
      { nValue := Int.bmod amountToPay (2 ^ 64), scriptPubKey := payScript (keys.key i) : CTxOut }
    (CTxOut.null :: outs, (outs.map satoshis).sum % 2 ^ 64)

/-- The notaries whose key an output pays. -/
def signers (keys : NotaryKeys) (tx1 : CTransaction) (n : ℕ) : Except BadAccess (List ℕ) :=
  if keys.num ≤ 0 then .ok []
  else match tx1.vout[n]? with
    | none => .error .vout
    | some out =>
      .ok ((List.range keys.num.toNat).filter fun i => paysKey out.scriptPubKey (keys.key i))

/-- The loop of `GetNotarisationNotaries`; `none` where it returns false. -/
def signersLoop (keys : NotaryKeys) : List CTxIn → Except BadAccess (Option (List ℕ))
  | [] => .ok (some [])
  | txin :: vin =>
    match env.getTransaction txin.prevout.hash with
    | none => .ok none
    | some tx1 => do
      let notaries ← signers keys tx1 txin.prevout.n
      let rest ← signersLoop keys vin
      return rest.map (notaries ++ ·)

def getNotarisationNotaries (keys : NotaryKeys) (vin : List CTxIn) :
    Except BadAccess (Option (List ℕ)) :=
  if keys.unset then .ok none else env.signersLoop keys vin

/-- What `komodo_checknotarypay` computes before it looks at the coinbase. -/
structure Pay where
  /-- `NotarisationNotaries`. -/
  notaries : List ℕ
  /-- `AmountToPay`. -/
  amount : ℕ
  totalsats : ℕ

/-- The transaction that the coinbase is compared with. -/
def payOf (block : NotarisedBlock) (height : ℤ) (notaries : List ℕ) :
    Except BadAccess (Option Pay) :=
  match block.notarisation.vout with
  | [_, out] =>
    if out.nValue = 0 ∧ out.scriptPubKey.head? = some OP_RETURN then
      let (vout, totalsats) := env.notarypay notaries block.nTime height out.scriptPubKey
      if totalsats = 0 then .ok none
      else match vout[1]? with
        | none => .error .vout
        | some paid => .ok (some { notaries, amount := satoshis paid, totalsats })
    else .ok none
  | _ => .ok none

/-- `komodo_checknotarypay` up to the walk over the coinbase; `none` where it returns 0. -/
def payees (block : NotarisedBlock) (height : ℤ) : Except BadAccess (Option Pay) := do
  let keys := env.komodoNotaries height block.nTime
  match ← env.getNotarisationNotaries keys block.notarisation.vin with
  | none => return none
  | some notaries => if notaries.Nodup then env.payOf block height notaries else return none

end Env

/-- What the walk over the coinbase counts: `n` and `matches` are `int8_t`. -/
structure Walk where
  n : ℤ := 0
  matched : ℤ := 0
  total : ℕ := 0

/-- An element of a vector by a signed index. -/
def elementAt {α : Type} (as : List α) (i : ℤ) : Option α := if i < 0 then none else as[i.toNat]?

/-- `n++` for an `int8_t`. -/
def next (n : ℤ) : ℤ := Int.bmod (n + 1) (2 ^ 8)

/-- An output of the coinbase. -/
def walkStep (keys : NotaryKeys) (pay : Env.Pay) (vout : List CTxOut) (walk : Walk)
    (txout : CTxOut) : Except BadAccess Walk :=
  if walk.n = 0 then .ok { walk with n := next walk.n }
  else if isPubkeyScript txout.scriptPubKey then
    match elementAt pay.notaries (walk.n - 1) with
    | none => .error .notarisationNotaries
    | some notary =>
      if paysKey txout.scriptPubKey (keys.key notary) then
        match elementAt vout walk.n with
        | none => .error .vout
        | some out =>
          if satoshis out = pay.amount then
            .ok { n := next walk.n, matched := next walk.matched
                  total := (walk.total + satoshis txout) % 2 ^ 64 }
          else .ok { walk with n := next walk.n }
      else .ok { walk with n := next walk.n }
  else .ok { walk with n := next walk.n }

/-- `komodo_checknotarypay`. -/
def Env.checknotarypay (env : Env) (block : NotarisedBlock) (height : ℤ) : Except BadAccess ℕ := do
  match ← env.payees block height with
  | none => return 0
  | some pay =>
    let keys := env.komodoNotaries height block.nTime
    let walk ← block.coinbase.vout.foldlM (walkStep keys pay block.coinbase.vout) {}
    return if walk.matched ≠ 0 ∧ walk.matched = pay.notaries.length ∧ pay.totalsats = walk.total
      then pay.totalsats else 0

/-! ### What is to be paid -/

theorem isPubkeyScript_iff {script : CScript} :
    isPubkeyScript script = true ↔
      script.length = 35 ∧ script[0]? = some 33 ∧ script[34]? = some OP_CHECKSIG :=
  decide_eq_true_iff

/-- A script that pays to a key is the one that is made for it. -/
theorem paysKey_iff {script : CScript} {key : Bytes} (hkey : key.length = 33) :
    paysKey script key = true ↔ script = payScript key := by
  unfold paysKey
  rw [decide_eq_true_iff, isPubkeyScript_iff]
  constructor
  · rintro ⟨⟨hlength, hfirst, hlast⟩, rfl⟩
    obtain _ | ⟨b, rest⟩ := script
    · cases hlength
    · obtain rfl : b = 33 := Option.some.inj hfirst
      have hrest : 33 < rest.length := by
        rw [length_cons] at hlength
        omega
      have hdrop : rest.drop 33 = [OP_CHECKSIG] := by
        rw [getElem?_cons_succ, getElem?_eq_getElem hrest] at hlast
        rw [drop_eq_getElem_cons hrest, Option.some.inj hlast, drop_eq_nil_of_le]
        rw [length_cons] at hlength
        omega
      rw [payScript, drop_succ_cons, drop_zero, cons_append, ← hdrop, take_append_drop]
  · rintro rfl
    unfold payScript
    refine ⟨⟨by simp [hkey], rfl, ?_⟩, ?_⟩
    · rw [cons_append, getElem?_cons_succ, ← hkey, getElem?_concat_length]
    · rw [cons_append, drop_succ_cons, drop_zero, ← hkey, take_left]

theorem isPubkeyScript_of_paysKey {script : CScript} {key : Bytes} (h : paysKey script key = true) :
    isPubkeyScript script = true :=
  (decide_eq_true_iff.1 h).1

namespace NotaryKeys

theorem length_key (keys : NotaryKeys) {i : ℕ} (hi : i < 64) : (keys.key i).length = 33 := by
  have hlt : i < keys.pubkeys.length := keys.length_pubkeys ▸ hi
  unfold key
  rw [getD_eq_getElem?_getD, getElem?_eq_getElem hlt, Option.getD_some]
  exact keys.width _ (getElem_mem hlt)

end NotaryKeys

namespace Env

variable {env : Env} {block : NotarisedBlock} {height : ℤ}

/-- The notaries that have signed are among those that there are. -/
theorem lt_of_mem_signersLoop {keys : NotaryKeys} {vin : List CTxIn} {notaries : List ℕ}
    (h : env.signersLoop keys vin = .ok (some notaries)) {i : ℕ} (hi : i ∈ notaries) : i < 64 := by
  have hnum := keys.num_le
  induction vin generalizing notaries with
  | nil =>
    obtain rfl := Option.some.inj (Except.ok.inj h)
    cases hi
  | cons txin vin ih =>
    rw [signersLoop] at h
    split at h
    · cases h
    · obtain ⟨own, hown, h⟩ := bind_eq_ok.1 h
      obtain ⟨rest, hrest, h⟩ := bind_eq_ok.1 h
      obtain ⟨others, rfl, rfl⟩ := Option.map_eq_some_iff.1 (Except.ok.inj h)
      rcases mem_append.1 hi with hfirst | hothers
      · unfold signers at hown
        split_ifs at hown
        · cases hown
          cases hfirst
        · split at hown
          · cases hown
          · cases hown
            have := mem_range.1 (mem_of_mem_filter hfirst)
            omega
      · exact ih hrest hothers

/-- The amount is a share of a `uint64_t`. -/
theorem mul_notarypayamount_lt (env : Env) (height : ℤ) (k : ℕ) :
    k * env.notarypayamount height k < 2 ^ 64 := by
  unfold notarypayamount
  split_ifs
  · simp
  · simp
  · exact (Nat.mul_div_le _ _).trans_lt (UInt64.toNat_lt _)

/-- What is known of the pay when the walk begins. -/
structure PayFor (env : Env) (block : NotarisedBlock) (height : ℤ) (pay : Pay) : Prop where
  notaries : env.getNotarisationNotaries (env.komodoNotaries height block.nTime)
    block.notarisation.vin = .ok (some pay.notaries)
  lt : ∀ i ∈ pay.notaries, i < 64
  length_le : pay.notaries.length ≤ 64
  amount : pay.amount = env.notarypayamount height pay.notaries.length
  totalsats : pay.totalsats = pay.notaries.length * pay.amount
  ne_zero : pay.totalsats ≠ 0

theorem satoshis_bmod {amount : ℕ} (h : amount < 2 ^ 64) (script : CScript) :
    satoshis ⟨Int.bmod amount (2 ^ 64), script⟩ = amount := by
  have hmod : Int.bmod amount (2 ^ 64) % 2 ^ 64 = (amount : ℤ) % 2 ^ 64 := Int.bmod_emod ..
  unfold satoshis
  dsimp only
  rw [hmod]
  omega

theorem map_satoshis {amount : ℕ} (h : amount < 2 ^ 64) (scripts : ℕ → CScript)
    (notaries : List ℕ) :
    ((notaries.map fun i => CTxOut.mk (Int.bmod amount (2 ^ 64)) (scripts i)).map satoshis).sum
      = notaries.length * amount := by
  induction notaries with
  | nil => simp
  | cons i notaries ih =>
    rw [map_cons, map_cons, sum_cons, ih, satoshis_bmod h, length_cons,
      Nat.add_mul, Nat.one_mul, Nat.add_comm]

/-- **What the transaction that is made pays**, where it pays something. -/
theorem notarypay_spec {notaries : List ℕ} {timestamp : ℕ} {script : CScript}
    {vout : List CTxOut} {total : ℕ}
    (h : env.notarypay notaries timestamp height script = (vout, total)) (htotal : total ≠ 0) :
    total = notaries.length * env.notarypayamount height notaries.length
      ∧ ∃ paid, vout[1]? = some paid
        ∧ satoshis paid = env.notarypayamount height notaries.length := by
  have hlt := mul_notarypayamount_lt env height notaries.length
  unfold notarypay at h
  generalize env.notarypayamount height notaries.length = amount at h hlt ⊢
  dsimp only at h
  split_ifs at h
  · exact absurd (congrArg Prod.snd h).symm htotal
  · exact absurd (congrArg Prod.snd h).symm htotal
  · exact absurd (congrArg Prod.snd h).symm htotal
  · obtain ⟨rfl, rfl⟩ := Prod.mk.inj h
    cases notaries with
    | nil => exact absurd rfl htotal
    | cons i notaries =>
      have hsmall : amount < 2 ^ 64 := (Nat.le_mul_of_pos_left _ (Nat.succ_pos _)).trans_lt hlt
      refine ⟨?_, _, rfl, satoshis_bmod hsmall _⟩
      rw [map_satoshis hsmall fun i => payScript ((env.komodoNotaries height timestamp).key i),
        Nat.mod_eq_of_lt hlt]

/-- **The walk begins with the notaries that have signed**, of which there are at most 64. -/
theorem payees_spec {pay : Pay} (h : env.payees block height = .ok (some pay)) :
    PayFor env block height pay := by
  obtain ⟨signed, hsigned, h⟩ := bind_eq_ok.1 h
  cases signed with
  | none => cases h
  | some notaries =>
    dsimp only at h
    split_ifs at h with hnodup
    · have hmem : ∀ i ∈ notaries, i < 64 := by
        have hloop := hsigned
        unfold getNotarisationNotaries at hloop
        split_ifs at hloop
        · cases hloop
        · exact fun i hi => lt_of_mem_signersLoop hloop hi
      have hlength : notaries.length ≤ 64 := by
        have hsub : notaries ⊆ range 64 := fun i hi => mem_range.2 (hmem i hi)
        simpa using (List.Nodup.subperm hnodup hsub).length_le
      unfold payOf at h
      split at h
      · split_ifs at h
        · dsimp only at h
          split_ifs at h with hzero
          · cases h
          · obtain ⟨htotal, paid, hpaid, hamount⟩ := notarypay_spec Prod.mk.eta.symm hzero
            rw [hpaid] at h
            obtain rfl := Option.some.inj (Except.ok.inj h)
            exact ⟨hsigned, hmem, hlength, hamount, hamount ▸ htotal, hzero⟩
        · cases h
      · cases h
    · cases h

theorem ensures_signers (keys : NotaryKeys) (tx1 : CTransaction) (n : ℕ) :
    Ensures .notarisationNotaries (signers keys tx1 n) fun _ => True := by
  unfold signers
  split_ifs
  · trivial
  · split
    · exact nofun
    · trivial

theorem ensures_signersLoop (keys : NotaryKeys) (vin : List CTxIn) :
    Ensures .notarisationNotaries (env.signersLoop keys vin) fun _ => True := by
  induction vin with
  | nil => trivial
  | cons txin vin ih =>
    rw [signersLoop]
    split
    · trivial
    · exact (ensures_signers keys _ _).bind fun _ _ => ih.bind fun _ _ => trivial

/-- **Before the walk, the list of the notaries is not read behind its end.** -/
theorem ensures_payees (env : Env) (block : NotarisedBlock) (height : ℤ) :
    Ensures .notarisationNotaries (env.payees block height) fun _ => True := by
  have hsigned : Ensures .notarisationNotaries (env.getNotarisationNotaries
      (env.komodoNotaries height block.nTime) block.notarisation.vin) fun _ => True := by
    unfold getNotarisationNotaries
    split_ifs
    · trivial
    · exact ensures_signersLoop _ _
  refine hsigned.bind fun notaries _ => ?_
  split
  · trivial
  · split_ifs
    · unfold payOf
      split
      · split_ifs
        · dsimp only
          split_ifs
          · trivial
          · split
            · exact nofun
            · trivial
        · trivial
      · trivial
    · trivial

end Env

end NotaryPay
end Komodo
