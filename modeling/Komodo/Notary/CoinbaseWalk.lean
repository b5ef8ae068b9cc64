/-
# The walk over the coinbase

What `komodo_checknotarypay` accepts.  An output of the coinbase is compared with the notary that
the `int8_t` counter stands at, which is its position modulo 256.  The walk reads behind the end of
the notaries where an output that pays to a public key is at a position beyond them (`Overruns`),
and otherwise counts the outputs that match (`walk_take`).

A coinbase with no more outputs than notaries is accepted only if it pays each of them in turn.  One
with more of them is not what the check is to ensure, so the check does its part exactly where it
neither overruns nor finds that the count and the total are right (`checknotarypay_iff`).
-/

import Komodo.Notary.NotaryPay

namespace Komodo
namespace NotaryPay

open List Nat

section Walk

variable (keys : NotaryKeys) (pay : Env.Pay) (vout : List CTxOut)

/-- An output at a position where the counter is beyond the notaries has the shape of a payment to a
public key. -/
def OverrunsAt (p : ℕ) : Prop :=
  ∃ out, vout[p]? = some out ∧ isPubkeyScript out.scriptPubKey ∧ pay.notaries.length < p % 256

/-- The walk reads behind the end of the notaries. -/
def Overruns : Prop := ∃ p < vout.length, OverrunsAt pay vout p

/-- The output at a position matches: it pays the notary that the counter stands at, and the output
that the counter stands at has the amount. -/
def matchesAt (p : ℕ) : Bool :=
  match vout[p]?, vout[p % 256]?, pay.notaries[p % 256 - 1]? with
  | some out, some paid, some notary =>
    p % 256 ≠ 0 ∧ paysKey out.scriptPubKey (keys.key notary) ∧ satoshis paid = pay.amount
  | _, _, _ => false

/-- The positions that match, of the first `m`. -/
def matchedBefore (m : ℕ) : List ℕ := (List.range m).filter (matchesAt keys pay vout)

/-- What the outputs at these positions pay. -/
def paidAt (positions : List ℕ) : ℕ :=
  (positions.map fun p => (vout[p]?.map satoshis).getD 0).sum

/-- The number of the outputs that match and what they pay are right, as far as the counters can
tell. -/
def Tallies : Prop :=
  (matchedBefore keys pay vout vout.length).length % 256 = pay.notaries.length
    ∧ paidAt vout (matchedBefore keys pay vout vout.length) % 2 ^ 64 = pay.totalsats

/-- What the walk has counted before a position. -/
structure Before (m : ℕ) (walk : Walk) : Prop where
  n : walk.n = Int.bmod m (2 ^ 8)
  matched : walk.matched = Int.bmod (matchedBefore keys pay vout m).length (2 ^ 8)
  total : walk.total = paidAt vout (matchedBefore keys pay vout m) % 2 ^ 64

variable {keys pay vout}

theorem next_bmod (m : ℕ) : next (Int.bmod m (2 ^ 8)) = Int.bmod (m + 1 : ℕ) (2 ^ 8) := by
  unfold next
  rw [Int.bmod_add_bmod, Int.natCast_succ]

theorem matchesAt_iff {p : ℕ} : matchesAt keys pay vout p = true ↔
    ∃ out paid notary, vout[p]? = some out ∧ vout[p % 256]? = some paid
      ∧ pay.notaries[p % 256 - 1]? = some notary ∧ p % 256 ≠ 0
      ∧ paysKey out.scriptPubKey (keys.key notary) = true ∧ satoshis paid = pay.amount := by
  unfold matchesAt
  split
  · rename_i out paid notary hout hpaid hnotary
    rw [decide_eq_true_iff]
    refine ⟨fun h => ⟨out, paid, notary, hout, hpaid, hnotary, h⟩, ?_⟩
    rintro ⟨out', paid', notary', hout', hpaid', hnotary', h⟩
    obtain rfl := Option.some.inj (hout.symm.trans hout')
    obtain rfl := Option.some.inj (hpaid.symm.trans hpaid')
    obtain rfl := Option.some.inj (hnotary.symm.trans hnotary')
    exact h
  · rename_i hnone
    refine ⟨nofun, ?_⟩
    rintro ⟨out, paid, notary, hout, hpaid, hnotary, -⟩
    exact absurd hnotary (hnone out paid notary hout hpaid)

theorem matchedBefore_succ (m : ℕ) : matchedBefore keys pay vout (m + 1)
    = matchedBefore keys pay vout m ++ if matchesAt keys pay vout m then [m] else [] := by
  unfold matchedBefore
  rw [range_succ, filter_append, filter_singleton]
  cases matchesAt keys pay vout m <;> rfl

theorem paidAt_concat {m : ℕ} {out : CTxOut} (hout : vout[m]? = some out) (positions : List ℕ) :
    paidAt vout (positions ++ [m]) = paidAt vout positions + satoshis out := by
  simp [paidAt, hout]

theorem Before.skip {m : ℕ} {walk : Walk} (h : Before keys pay vout m walk)
    (hmatch : matchesAt keys pay vout m = false) :
    Before keys pay vout (m + 1) { walk with n := next walk.n } := by
  have hsame : matchedBefore keys pay vout (m + 1) = matchedBefore keys pay vout m := by
    rw [matchedBefore_succ, hmatch]
    exact append_nil _
  exact ⟨by rw [h.n, next_bmod], by rw [hsame, h.matched], by rw [hsame, h.total]⟩

theorem Before.count {m : ℕ} {walk : Walk} (h : Before keys pay vout m walk) {out : CTxOut}
    (hout : vout[m]? = some out) (hmatch : matchesAt keys pay vout m = true) :
    Before keys pay vout (m + 1)
      { n := next walk.n, matched := next walk.matched
        total := (walk.total + satoshis out) % 2 ^ 64 } := by
  have hmore : matchedBefore keys pay vout (m + 1) = matchedBefore keys pay vout m ++ [m] := by
    rw [matchedBefore_succ, if_pos hmatch]
  refine ⟨by rw [h.n, next_bmod], ?_, ?_⟩
  · rw [hmore, h.matched, next_bmod, length_append, length_singleton]
  · rw [hmore, paidAt_concat hout, h.total, mod_add_mod]

theorem elementAt_natCast {α : Type} (as : List α) (i : ℕ) : elementAt as i = as[i]? := by
  unfold elementAt
  rw [if_neg (by omega), Int.toNat_natCast]

theorem counter_eq (m : ℕ) : Int.bmod m (2 ^ 8)
    = if m % 256 < 128 then ((m % 256 : ℕ) : ℤ) else (m % 256 : ℕ) - 256 := by
  rw [Int.bmod_eq_emod]
  split_ifs <;> omega

theorem elementAt_counter (hlength : pay.notaries.length ≤ 64) {m : ℕ} (hm : m % 256 ≠ 0) :
    elementAt pay.notaries (Int.bmod m (2 ^ 8) - 1) = pay.notaries[m % 256 - 1]? := by
  rw [counter_eq]
  split_ifs with hlow
  · rw [← elementAt_natCast]
    congr 1
    omega
  · rw [getElem?_eq_none (by omega)]
    exact if_pos (by omega)

/-- **One output**: the walk overruns, or has counted one more position. -/
theorem Before.step (hlength : pay.notaries.length ≤ 64) {m : ℕ} {walk : Walk}
    (h : Before keys pay vout m walk) {out : CTxOut} (hout : vout[m]? = some out) :
    (OverrunsAt pay vout m → walkStep keys pay vout walk out = .error .notarisationNotaries)
      ∧ (¬ OverrunsAt pay vout m → ∃ next, walkStep keys pay vout walk out = .ok next
        ∧ Before keys pay vout (m + 1) next) := by
  have hlt : m < vout.length := (List.getElem?_eq_some_iff.1 hout).1
  have hcounter := counter_eq m
  have hoverruns : OverrunsAt pay vout m ↔
      isPubkeyScript out.scriptPubKey = true ∧ pay.notaries.length < m % 256 := by
    unfold OverrunsAt
    simp [hout]
  -- every branch but one and the overrun passes the output over
  have hskip : ¬ matchesAt keys pay vout m = true → ∃ next,
      Except.ok { walk with n := NotaryPay.next walk.n } = (.ok next : Except BadAccess Walk)
        ∧ Before keys pay vout (m + 1) next :=
    fun hnot => ⟨_, rfl, h.skip (eq_false_of_ne_true hnot)⟩
  rw [matchesAt_iff] at hskip
  unfold walkStep
  by_cases hzero : m % 256 = 0
  · rw [if_pos (by rw [h.n, hcounter, hzero]; rfl)]
    refine ⟨fun hover => ?_, fun _ => hskip ?_⟩
    · have := (hoverruns.1 hover).2
      omega
    · rintro ⟨_, _, _, -, -, -, hne, -⟩
      exact hne hzero
  · rw [if_neg (by rw [h.n, hcounter]; split_ifs <;> omega)]
    by_cases hshape : isPubkeyScript out.scriptPubKey = true
    · have hturn : elementAt pay.notaries (walk.n - 1) = pay.notaries[m % 256 - 1]? := by
        rw [h.n, elementAt_counter hlength hzero]
      rw [if_pos hshape, hturn]
      cases hnotary : pay.notaries[m % 256 - 1]? with
      | none =>
        have hbeyond : pay.notaries.length < m % 256 := by
          have := getElem?_eq_none_iff.1 hnotary
          omega
        exact ⟨fun _ => rfl, fun hnot => absurd (hoverruns.2 ⟨hshape, hbeyond⟩) hnot⟩
      | some notary =>
        have hwithin := (List.getElem?_eq_some_iff.1 hnotary).1
        refine ⟨fun hover => absurd (hoverruns.1 hover).2 (by omega), fun _ => ?_⟩
        dsimp only
        by_cases hkey : paysKey out.scriptPubKey (keys.key notary) = true
        · have hmodulo : elementAt vout walk.n = vout[m % 256]? := by
            rw [h.n, hcounter, if_pos (by omega), elementAt_natCast]
          obtain ⟨paid, hpaid⟩ : ∃ paid, vout[m % 256]? = some paid :=
            ⟨_, getElem?_eq_getElem (by omega)⟩
          rw [if_pos hkey, hmodulo, hpaid]
          dsimp only
          by_cases hamount : satoshis paid = pay.amount
          · rw [if_pos hamount]
            exact ⟨_, rfl, h.count hout
              (matchesAt_iff.2 ⟨out, paid, notary, hout, hpaid, hnotary, hzero, hkey, hamount⟩)⟩
          · rw [if_neg hamount]
            refine hskip ?_
            rintro ⟨_, paid', _, -, hpaid', -, -, -, hamount'⟩
            obtain rfl := Option.some.inj (hpaid.symm.trans hpaid')
            exact hamount hamount'
        · rw [if_neg hkey]
          refine hskip ?_
          rintro ⟨out', _, notary', hout', -, hnotary', -, hkey', -⟩
          obtain rfl := Option.some.inj (hout.symm.trans hout')
          obtain rfl := Option.some.inj (hnotary.symm.trans hnotary')
          exact hkey hkey'
    · rw [if_neg hshape]
      refine ⟨fun hover => absurd (hoverruns.1 hover).1 hshape, fun _ => hskip ?_⟩
      rintro ⟨out', _, _, hout', -, -, -, hkey, -⟩
      obtain rfl := Option.some.inj (hout.symm.trans hout')
      exact hshape (isPubkeyScript_of_paysKey hkey)

/-- **The walk over the first outputs.** -/
theorem walk_take (hlength : pay.notaries.length ≤ 64) {m : ℕ} (hm : m ≤ vout.length) :
    ((∃ p < m, OverrunsAt pay vout p) →
        (vout.take m).foldlM (walkStep keys pay vout) {} = .error .notarisationNotaries)
      ∧ ((¬ ∃ p < m, OverrunsAt pay vout p) → ∃ walk,
        (vout.take m).foldlM (walkStep keys pay vout) {} = .ok walk
          ∧ Before keys pay vout m walk) := by
  induction m with
  | zero =>
    refine ⟨fun ⟨_, hp, _⟩ => absurd hp (not_lt_zero _), fun _ => ⟨{}, rfl, ?_⟩⟩
    exact ⟨Int.zero_bmod.symm, Int.zero_bmod.symm, (zero_mod _).symm⟩
  | succ m ih =>
    obtain ⟨hover, hwalk⟩ := ih (by omega)
    obtain ⟨out, hout⟩ : ∃ out, vout[m]? = some out := ⟨_, getElem?_eq_getElem (by omega)⟩
    rw [take_add_one, hout, Option.toList_some, foldlM_append]
    by_cases hbefore : ∃ p < m, OverrunsAt pay vout p
    · rw [hover hbefore]
      obtain ⟨p, hp, hp'⟩ := hbefore
      exact ⟨fun _ => rfl, fun hnot => absurd ⟨p, by omega, hp'⟩ hnot⟩
    · obtain ⟨walk, hok, hcounted⟩ := hwalk hbefore
      obtain ⟨hstep, hnext⟩ := hcounted.step hlength hout
      refine ⟨fun hmore => ?_, fun hnot => ?_⟩
      · obtain ⟨p, hp, hp'⟩ := hmore
        obtain rfl : p = m := by
          by_contra hne
          exact hbefore ⟨p, by omega, hp'⟩
        rw [hok]
        exact (bind_pure _).trans (hstep hp')
      · obtain ⟨last, hlast, hcount⟩ := hnext fun hm => hnot ⟨m, by omega, hm⟩
        rw [hok]
        exact ⟨last, (bind_pure _).trans hlast, hcount⟩

theorem Before.tallies_iff (hlength : pay.notaries.length ≤ 64) (hsome : pay.notaries.length ≠ 0)
    {walk : Walk} (h : Before keys pay vout vout.length walk) :
    (walk.matched ≠ 0 ∧ walk.matched = pay.notaries.length ∧ pay.totalsats = walk.total)
      ↔ Tallies keys pay vout := by
  have hcount := counter_eq (matchedBefore keys pay vout vout.length).length
  have hmatched : walk.matched = pay.notaries.length
      ↔ (matchedBefore keys pay vout vout.length).length % 256 = pay.notaries.length := by
    rw [h.matched, hcount]
    split_ifs <;> omega
  unfold Tallies
  rw [← hmatched, h.total, eq_comm (a := pay.totalsats)]
  exact ⟨fun ⟨_, hk, ht⟩ => ⟨hk, ht⟩, fun ⟨hk, ht⟩ => ⟨by omega, hk, ht⟩⟩

theorem zero_not_matches : matchesAt keys pay vout 0 = false := by
  refine eq_false_of_ne_true fun h => ?_
  obtain ⟨_, _, _, -, -, -, hne, -⟩ := matchesAt_iff.1 h
  exact hne rfl

theorem matchedBefore_eq (m : ℕ) : matchedBefore keys pay vout (m + 1)
    = ((range m).map Nat.succ).filter (matchesAt keys pay vout) := by
  rw [matchedBefore, range_succ_eq_map, filter_cons_of_neg]
  rw [zero_not_matches]
  exact Bool.false_ne_true

end Walk

/-! ### What is accepted -/

namespace Env

variable {env : Env} {block : NotarisedBlock} {height : ℤ} {pay : Pay}

/-- The coinbase pays the notaries that have signed, in their order, and this total. -/
def PaysNotaries (env : Env) (block : NotarisedBlock) (height : ℤ) (total : ℕ) : Prop :=
  let keys := env.komodoNotaries height block.nTime
  ∃ notaries,
    env.getNotarisationNotaries keys block.notarisation.vin = .ok (some notaries)
      ∧ ((block.coinbase.vout.drop 1).map fun out => (satoshis out, out.scriptPubKey))
        = notaries.map (fun i =>
          (env.notarypayamount height notaries.length, payScript (keys.key i)))
      ∧ ((block.coinbase.vout.drop 1).map satoshis).sum = total

/-- The check does its part: the list of the notaries is not read behind its end, and a coinbase
that is accepted pays the notaries. -/
structure Sound (env : Env) (block : NotarisedBlock) (height : ℤ) : Prop where
  inBounds : env.checknotarypay block height ≠ .error .notarisationNotaries
  pays : ∀ total, env.checknotarypay block height = .ok total → total ≠ 0 →
    PaysNotaries env block height total

theorem checknotarypay_eq (hpay : env.payees block height = .ok (some pay)) :
    env.checknotarypay block height
      = block.coinbase.vout.foldlM (walkStep (env.komodoNotaries height block.nTime) pay
          block.coinbase.vout) {} >>= fun walk => .ok (if walk.matched ≠ 0
            ∧ walk.matched = pay.notaries.length ∧ pay.totalsats = walk.total
          then pay.totalsats else 0) := by
  unfold Env.checknotarypay
  rw [hpay]
  rfl

/-- What the check returns for a block that it walks over. -/
theorem PayFor.checknotarypay (h : PayFor env block height pay)
    (hpay : env.payees block height = .ok (some pay)) :
    (Overruns pay block.coinbase.vout →
        env.checknotarypay block height = .error .notarisationNotaries)
      ∧ (¬ Overruns pay block.coinbase.vout → ∃ total, env.checknotarypay block height = .ok total
        ∧ (total ≠ 0 ↔ Tallies (env.komodoNotaries height block.nTime) pay block.coinbase.vout)
        ∧ (total ≠ 0 → total = pay.totalsats)) := by
  rw [checknotarypay_eq hpay]
  generalize env.komodoNotaries height block.nTime = keys
  obtain ⟨hover, hwalk⟩ :=
    @walk_take keys pay block.coinbase.vout h.length_le _ (le_refl _)
  rw [take_length] at hover hwalk
  constructor
  · intro hoverruns
    rw [hover hoverruns]
    rfl
  · intro hnot
    obtain ⟨walk, hok, hcounted⟩ := hwalk hnot
    have hsome : pay.notaries.length ≠ 0 := fun hzero =>
      h.ne_zero (by rw [h.totalsats, hzero, Nat.zero_mul])
    rw [hok]
    refine ⟨_, rfl, ?_⟩
    rw [← hcounted.tallies_iff h.length_le hsome]
    split_ifs with hright
    · exact ⟨iff_of_true h.ne_zero hright, fun _ => rfl⟩
    · exact ⟨iff_of_false (fun hzero => hzero rfl) hright, fun hzero => absurd rfl hzero⟩

/-- Where no more outputs follow than there are notaries, all of them match. -/
theorem matches_of_tallies {keys : NotaryKeys} {vout : List CTxOut}
    (hk : pay.notaries.length ≤ 64) (hsome : pay.notaries.length ≠ 0)
    (hshort : vout.length ≤ pay.notaries.length + 1) (htallies : Tallies keys pay vout) :
    vout.length = pay.notaries.length + 1
      ∧ ∀ i < pay.notaries.length, matchesAt keys pay vout (i + 1) = true := by
  have hcount := htallies.1
  cases hlength : vout.length with
  | zero =>
    rw [hlength] at hcount
    exact absurd hcount.symm hsome
  | succ m =>
    rw [hlength, matchedBefore_eq] at hcount
    have hle := length_filter_le (matchesAt keys pay vout) ((range m).map succ)
    rw [length_map, length_range] at hle
    obtain rfl : m = pay.notaries.length := by omega
    refine ⟨rfl, fun i hi => ?_⟩
    have hall := length_filter_eq_length_iff.1 (by
      rw [length_map, length_range]
      omega : (((range pay.notaries.length).map succ).filter
        (matchesAt keys pay vout)).length = ((range pay.notaries.length).map succ).length)
    exact hall _ (mem_map.2 ⟨i, mem_range.2 hi, rfl⟩)

/-- **A coinbase with no more outputs than there are notaries is accepted only if it pays them.** -/
theorem PayFor.paysNotaries (h : PayFor env block height pay)
    (hshort : block.coinbase.vout.length ≤ pay.notaries.length + 1)
    (htallies : Tallies (env.komodoNotaries height block.nTime) pay block.coinbase.vout) :
    PaysNotaries env block height pay.totalsats := by
  have hk := h.length_le
  have hsome : pay.notaries.length ≠ 0 := fun hzero =>
    h.ne_zero (by rw [h.totalsats, hzero, Nat.zero_mul])
  obtain ⟨hlength, hall⟩ := matches_of_tallies hk hsome hshort htallies
  have hpairs : (block.coinbase.vout.drop 1).map (fun out => (satoshis out, out.scriptPubKey))
      = pay.notaries.map fun i => (env.notarypayamount height pay.notaries.length,
        payScript ((env.komodoNotaries height block.nTime).key i)) := by
    refine ext_getElem? fun i => ?_
    rw [getElem?_map, getElem?_map, getElem?_drop, add_comm 1 i]
    by_cases hi : i < pay.notaries.length
    · obtain ⟨out, paid, notary, hout, hpaid, hnotary, -, hkey, hamount⟩ :=
        matchesAt_iff.1 (hall i hi)
      rw [mod_eq_of_lt (by omega)] at hpaid hnotary
      obtain rfl := Option.some.inj (hout.symm.trans hpaid)
      have hmem : notary ∈ pay.notaries := mem_of_getElem? hnotary
      rw [paysKey_iff (NotaryKeys.length_key _ (h.lt _ hmem))] at hkey
      rw [Nat.add_sub_cancel] at hnotary
      rw [hout, hnotary, Option.map_some, Option.map_some, hamount, h.amount, hkey]
    · rw [getElem?_eq_none (by omega), getElem?_eq_none (by omega)]
      rfl
  refine ⟨pay.notaries, h.notaries, hpairs, ?_⟩
  have hsums : (block.coinbase.vout.drop 1).map satoshis
      = pay.notaries.map fun _ => env.notarypayamount height pay.notaries.length := by
    have hfirst := congrArg (map Prod.fst) hpairs
    rwa [map_map, map_map] at hfirst
  rw [hsums, map_const', sum_replicate_nat, h.totalsats, h.amount]

/-- **The check does its part if and only if** it does not walk over the coinbase, or no more
outputs follow the first than there are notaries, or the walk neither reads behind the end of the
notaries nor finds what it has counted right. -/
theorem checknotarypay_iff : Sound env block height ↔
    ∀ pay, env.payees block height = .ok (some pay) →
      block.coinbase.vout.length ≤ pay.notaries.length + 1
        ∨ ¬ Overruns pay block.coinbase.vout
          ∧ ¬ Tallies (env.komodoNotaries height block.nTime) pay block.coinbase.vout := by
  constructor
  · intro h pay hpay
    have hfor := payees_spec hpay
    obtain ⟨hover, hwithin⟩ := hfor.checknotarypay hpay
    by_contra hneither
    obtain ⟨hlong, hbad⟩ := not_or.1 hneither
    by_cases hoverruns : Overruns pay block.coinbase.vout
    · exact h.inBounds (hover hoverruns)
    · obtain ⟨total, hok, htotal, -⟩ := hwithin hoverruns
      have htallies := by_contra fun hnot => hbad ⟨hoverruns, hnot⟩
      obtain ⟨notaries, hsigned, hpairs, -⟩ := h.pays total hok (htotal.2 htallies)
      obtain rfl := Option.some.inj (Except.ok.inj (hfor.notaries.symm.trans hsigned))
      have hlength := congrArg length hpairs
      rw [length_map, length_map, length_drop] at hlength
      omega
  · intro h
    cases hpayees : env.payees block height with
    | error e =>
      have hrun : env.checknotarypay block height = .error e := by
        unfold Env.checknotarypay
        rw [hpayees]
        rfl
      refine ⟨fun herr => ?_, fun total hok => ?_⟩
      · obtain rfl := Except.error.inj (hrun.symm.trans herr)
        exact (ensures_payees env block height).ne hpayees
      · cases hrun.symm.trans hok
    | ok signed =>
      cases signed with
      | none =>
        have hrun : env.checknotarypay block height = .ok 0 := by
          unfold Env.checknotarypay
          rw [hpayees]
          rfl
        refine ⟨fun herr => ?_, fun total hok hne => ?_⟩
        · cases hrun.symm.trans herr
        · exact absurd (Except.ok.inj (hrun.symm.trans hok)).symm hne
      | some pay =>
        have hfor := payees_spec hpayees
        have hnot : ¬ Overruns pay block.coinbase.vout := by
          rcases h pay hpayees with hshort | hbad
          · rintro ⟨p, hp, _, -, -, hbeyond⟩
            have := Nat.mod_le p 256
            omega
          · exact hbad.1
        obtain ⟨total, hok, htotal, heq⟩ := (hfor.checknotarypay hpayees).2 hnot
        refine ⟨fun herr => ?_, fun total' hok' hne => ?_⟩
        · cases hok.symm.trans herr
        · obtain rfl := Except.ok.inj (hok.symm.trans hok')
          rw [heq hne]
          rcases h pay hpayees with hshort | hbad
          · exact hfor.paysNotaries hshort (htotal.1 hne)
          · exact absurd (htotal.1 hne) hbad.2

end Env

theorem length_twos : (List.replicate 64 (List.replicate 33 (2 : UInt8))).length = 64 :=
  List.length_replicate

theorem width_twos : ∀ key ∈ List.replicate 64 (List.replicate 33 (2 : UInt8)),
    key.length = 33 := by
  intro key hkey
  rw [List.eq_of_mem_replicate hkey, List.length_replicate]

/-- One notary, whose key is all twos. -/
def oneKey : NotaryKeys where
  pubkeys := List.replicate 64 (List.replicate 33 2)
  num := 1
  length_pubkeys := length_twos
  width := width_twos
  num_le := by decide

/-- A chain that pays 1000 satoshis for a notarisation. -/
def oneNotary : Env where
  komodoNotaries _ _ := oneKey
  getTransaction hash := some { hash, vin := [], vout := [⟨10000, payScript (oneKey.key 0)⟩] }
  voutupdate _ _ _ := some 5
  endsubsidy _ := 0
  lastera := 0
  notaryPay _ := 1000

/-- A block whose coinbase has these outputs. -/
def notarised (vout : List CTxOut) : NotarisedBlock where
  nTime := 0
  coinbase := { hash := 1, vin := [], vout }
  notarisation :=
    { hash := 2, vin := [{ prevout := ⟨7, 0⟩ }]
      vout := [⟨9000, []⟩, ⟨0, [OP_RETURN, 1, 2, 3]⟩] }

/-- An output behind the pay of the notary is not noticed. -/
theorem not_sound_extra : ¬ ∀ env block height, Env.Sound env block height := by
  intro hall
  obtain ⟨notaries, hsigned, hpairs, -⟩ :=
    (hall oneNotary (notarised [⟨5000, []⟩, ⟨1000, payScript (oneKey.key 0)⟩, ⟨1, []⟩]) 10).pays
      1000 (by decide +kernel) (by decide)
  have hone : oneNotary.getNotarisationNotaries oneKey [{ prevout := ⟨7, 0⟩ }]
      = .ok (some [0]) := by decide +kernel
  obtain rfl := Option.some.inj (Except.ok.inj (hone.symm.trans hsigned))
  cases congrArg length hpairs

end NotaryPay
end Komodo
