/-
# The time lock of a heir plan

Over the model of `src/src/cc/heir.cpp` and `src/src/cc/heir_validate.h`: whether the heir can
spend a plan's 1of2 output before the owner has been inactive for the plan's time.

`HeirRun` is a chain of blocks, each connected by a node that saw the blocks before it
(`HeirPlan.Sees`) and accepted every transaction with an input of the contract.

The lock does not hold as such (`heir_spends_locked_plan`). `CHeirSpendValidator` knows the heir
by one form of one output, the funding transaction is the one that the spender names, and
`_FindLatestFundingTx` sees an activity only by an unspent output at the address for coins, in
a transaction all of whose crypto condition inputs are the owner's. In a run whose
transactions are `Orderly`, none of them escaping one of these, it does hold
(`locked_plan_keeps`): what `_FindLatestFundingTx` finds then stands in the block of the last
activity (`findLatestFundingTx_block`).
-/

import Komodo.CC.Heir
import Komodo.Script.Serialize

namespace Komodo

open List

/-! ### The loop of `_FindLatestFundingTx` -/

namespace HeirEnv

variable (env : HeirEnv) (fundingtxid : Uint256) (funding : HeirOpRet)

theorem latestStep_spec (latest : LatestTx) (u : Uint256 × ℤ) :
    (env.latestStep fundingtxid funding latest u = latest ∨
      ∃ d, env.ownerOpRet fundingtxid funding u.1 = some d ∧
        env.latestStep fundingtxid funding latest u = ⟨u.2, u.1, d.hasHeirSpendingBegun⟩) ∧
    latest.maxBlockHeight ≤ (env.latestStep fundingtxid funding latest u).maxBlockHeight ∧
    ∀ d, env.ownerOpRet fundingtxid funding u.1 = some d →
      u.2 ≤ (env.latestStep fundingtxid funding latest u).maxBlockHeight := by
  unfold latestStep
  cases env.ownerOpRet fundingtxid funding u.1 with
  | none => simp
  | some d =>
    by_cases hlt : latest.maxBlockHeight < u.2
    · simp [hlt, Int.le_of_lt hlt]
    · simp [hlt, Int.not_lt.1 hlt]

theorem ownerOpRet_eq_some {txid : Uint256} {d : HeirOpRet} :
    env.ownerOpRet fundingtxid funding txid = some d ↔
      ∃ regtx, env.lookup txid = some regtx ∧ decodeHeirEitherOpRet (opretOf regtx) = some d
        ∧ d.fundingTxid = fundingtxid ∧ (funding.tokenid = 0 ∨ funding.tokenid = d.tokenid)
        ∧ env.checkVinPubkey regtx.vin funding.ownerPubkey = (true, false) := by
  simp only [ownerOpRet, Option.bind_eq_bind, Option.bind_eq_some_iff, Option.ite_none_right_eq_some,
    Option.some.injEq]
  grind

/-- What the loop ends with: where it began, or a transaction that it counts, and no
transaction that it counts is higher. -/
theorem foldl_latestStep (unspents : List (Uint256 × ℤ)) (start : LatestTx) :
    (unspents.foldl (env.latestStep fundingtxid funding) start = start ∨
      ∃ u ∈ unspents, ∃ d, env.ownerOpRet fundingtxid funding u.1 = some d ∧
        unspents.foldl (env.latestStep fundingtxid funding) start
          = ⟨u.2, u.1, d.hasHeirSpendingBegun⟩) ∧
    start.maxBlockHeight
      ≤ (unspents.foldl (env.latestStep fundingtxid funding) start).maxBlockHeight ∧
    ∀ u ∈ unspents, ∀ d, env.ownerOpRet fundingtxid funding u.1 = some d →
      u.2 ≤ (unspents.foldl (env.latestStep fundingtxid funding) start).maxBlockHeight := by
  induction unspents generalizing start with
  | nil => simp
  | cons u us ih =>
    obtain ⟨hres, hle, hall⟩ := ih (env.latestStep fundingtxid funding start u)
    obtain ⟨hone, hle1, hall1⟩ := env.latestStep_spec fundingtxid funding start u
    rw [foldl_cons]
    refine ⟨?_, by omega, fun v hv d hd => ?_⟩
    · rcases hres with hres | ⟨v, hv, d, hd, hres⟩
      · rw [hres]
        rcases hone with hone | ⟨d, hd, hone⟩
        · exact Or.inl hone
        · exact Or.inr ⟨u, mem_cons_self, d, hd, hone⟩
      · exact Or.inr ⟨v, mem_cons_of_mem u hv, d, hd, hres⟩
    · rcases mem_cons.1 hv with rfl | hv
      · have hone := hall1 d hd
        omega
      · exact hall v hv d hd

/-- What `_FindLatestFundingTx` finds. -/
theorem findLatestFundingTx_spec :
    (env.findLatestFundingTx fundingtxid funding = ⟨0, fundingtxid, 0⟩ ∨
      ∃ u ∈ env.unspents (env.ccAddress1of2 EVAL_HEIR funding.ownerPubkey funding.heirPubkey),
        ∃ d, env.ownerOpRet fundingtxid funding u.1 = some d ∧
          env.findLatestFundingTx fundingtxid funding
            = ⟨u.2, u.1, d.hasHeirSpendingBegun⟩) ∧
    ∀ u ∈ env.unspents (env.ccAddress1of2 EVAL_HEIR funding.ownerPubkey funding.heirPubkey),
      ∀ d, env.ownerOpRet fundingtxid funding u.1 = some d →
        u.2 ≤ (env.findLatestFundingTx fundingtxid funding).maxBlockHeight := by
  obtain ⟨hresult, -, hmax⟩ := env.foldl_latestStep fundingtxid funding
    (env.unspents (env.ccAddress1of2 EVAL_HEIR funding.ownerPubkey funding.heirPubkey))
    ⟨0, fundingtxid, 0⟩
  exact ⟨hresult, hmax⟩

/-! ### The check of the heir -/

@[simp] theorem about_eq_ok {what : String} {check : Checked Unit} {u : Unit} :
    about what check = .ok u ↔ check = .ok u := by
  rcases check with ⟨_ | _⟩ | _ <;> simp [about]

/-- `CHeirSpendValidator` lets an output to the heir pass once the heir has begun or the time is
over. -/
theorem heirSpend_heir {h : Helper} {fundingOpretScript : CScript} {latesttxid : Uint256}
    {began : UInt8} {vout : CTxOut} {funding : HeirOpRet} {inactivityTime : ℤ}
    (hfunding : decodeHeirEitherOpRet fundingOpretScript = some funding)
    (htime : funding.inactivityTime = some inactivityTime)
    (hscript : vout.scriptPubKey = env.makeUserScript h funding.heirPubkey) :
    env.heirSpend h fundingOpretScript latesttxid began vout = .ok () ↔
      began ≠ 0 ∨ inactivityTime < (env.ccDuration latesttxid).1 := by
  by_cases hbegan : began = 0
  · simp [heirSpend, hfunding, htime, hscript, hbegan, expect, defined, Checked.bind_eq_ok]
  · simp [heirSpend, hfunding, hbegan, expect]

end HeirEnv

theorem ContractEnv.ccDuration_le (env : ContractEnv) {txid hashBlock : Uint256}
    {tx : CTransaction} {b : BlockTime} (htx : env.getTransaction txid = some (tx, hashBlock))
    (hb : env.blockIndex hashBlock = some b) :
    (env.ccDuration txid).1 ≤ max 0 (env.tip.nTime - b.nTime) := by
  simp only [ccDuration, htx, hb]
  split_ifs <;> dsimp only <;> omega

theorem ContractEnv.ccDuration_pending (env : ContractEnv) {txid : Uint256}
    (h : ∀ tx hashBlock, env.getTransaction txid = some (tx, hashBlock) → hashBlock = 0) :
    (env.ccDuration txid).1 = 0 := by
  unfold ccDuration
  cases htx : env.getTransaction txid with
  | none => rfl
  | some found => simp [h found.1 found.2 htx]

/-! ### A plan -/

/-- A plan, funded by an `'F'`. -/
structure HeirPlan where
  /-- The codec and the addresses, the same for every node, and all transactions there are. -/
  world : HeirEnv
  fundingtx : CTransaction
  funding : HeirOpRet
  inactivityTime : ℤ
  lookup_fundingtx : world.lookup fundingtx.hash = some fundingtx
  decode_fundingtx : decodeHeirEitherOpRet (opretOf fundingtx) = some funding
  funcid_funding : funding.funcid = fid 'F'
  inactivityTime_funding : funding.inactivityTime = some inactivityTime

namespace HeirPlan

variable (plan : HeirPlan)

/-- The owner's key. -/
def owner : CPubKey := plan.funding.ownerPubkey

/-- The heir's key. -/
def heir : CPubKey := plan.funding.heirPubkey

/-- Which of the helpers the plan is for. -/
def helper : HeirEnv.Helper := if plan.funding.tokenid ≠ 0 then .token else .coin

/-- A transaction that names the plan's `'F'`. -/
def Names (tx : CTransaction) : Prop :=
  ∃ d, decodeHeirEitherOpRet (opretOf tx) = some d ∧ d.fundingTxid = plan.fundingtx.hash

/-- An output of the plan: of the `'F'` or a transaction that names it, at the 1of2 address of
the owner and the heir. -/
def IsOutput (prev : CTransaction) (out : CTxOut) : Prop :=
  (prev.hash = plan.fundingtx.hash ∨ plan.Names prev)
    ∧ isPayToCryptoCondition out.scriptPubKey = true
    ∧ ∃ h, plan.world.getscriptaddress out.scriptPubKey
        = some (plan.world.address1of2 h plan.owner plan.heir)

/-- An input that spends an output of the plan. -/
def Spends (vin : CTxIn) : Prop :=
  ∃ prev out, plan.world.spent vin = some (prev, out) ∧ plan.IsOutput prev out

/-- An input that a key signs. -/
def SignedBy (pk : CPubKey) (vin : CTxIn) : Prop :=
  plan.world.checkSigningPubkey vin.scriptSig = pk

/-- An input of the owner: it signs a crypto condition, or what is spent was paid to it. -/
def OwnerInput (vin : CTxIn) : Prop :=
  plan.SignedBy plan.owner vin ∨
    ∃ prev out, plan.world.spent vin = some (prev, out)
      ∧ isPayToCryptoCondition out.scriptPubKey = false
      ∧ plan.world.getscriptaddress out.scriptPubKey = some (plan.world.normalAddress plan.owner)

/-- The owner's activity on the plan. -/
def Activity (tx : CTransaction) : Prop :=
  tx.hash = plan.fundingtx.hash ∨
    ((∃ vin ∈ tx.vin, plan.OwnerInput vin) ∧ (plan.Names tx ∨ ∃ vin ∈ tx.vin, plan.Spends vin))

/-- A transaction that spends an output of the plan with the heir's signature. -/
def HeirSpends (tx : CTransaction) : Prop :=
  ∃ vin ∈ tx.vin, plan.Spends vin ∧ plan.SignedBy plan.heir vin

/-! ### Orderly transactions -/

/-- A transaction that `_FindLatestFundingTx` can see: it names the plan and its token, only the
owner signs crypto conditions in it, it says that the heir has not begun, and it leaves an
output at the 1of2 address for coins. -/
def Visible (tx : CTransaction) : Prop :=
  (∃ d, decodeHeirEitherOpRet (opretOf tx) = some d
    ∧ d.fundingTxid = plan.fundingtx.hash
    ∧ (plan.funding.tokenid = 0 ∨ plan.funding.tokenid = d.tokenid)
    ∧ plan.world.checkVinPubkey tx.vin plan.owner = (true, false)
    ∧ d.hasHeirSpendingBegun = 0)
  ∧ ∃ out ∈ tx.vout, isPayToCryptoCondition out.scriptPubKey = true
    ∧ plan.world.getscriptaddress out.scriptPubKey
        = some (plan.world.address1of2 .coin plan.owner plan.heir)

/-- A transaction that makes no detour around the lock: if the transaction that it names is
found, then it is the plan's, and a spend pays first to the heir, by the one form of its script.
An `'A'` is looked into only for tokens. -/
def Straight (env : HeirEnv) (tx : CTransaction) : Prop :=
  ∀ d, decodeHeirEitherOpRet (opretOf tx) = some d → (env.lookup d.fundingTxid).isSome →
    d.fundingTxid = plan.fundingtx.hash
      ∧ (d.funcid = fid 'A' → plan.funding.tokenid = 0)
      ∧ (d.funcid ≠ fid 'A' →
          (tx.vout.head?).map CTxOut.scriptPubKey
            = some (plan.world.makeUserScript plan.helper plan.heir))

/-- Activity of the owner can be seen, and spends of the heir make no detour. -/
def Orderly (env : HeirEnv) (tx : CTransaction) : Prop :=
  (plan.Activity tx → tx.hash = plan.fundingtx.hash ∨ plan.Visible tx)
    ∧ (plan.HeirSpends tx → plan.Straight env tx)

end HeirPlan

/-! ### Runs -/

/-- A connected block, its transactions the newest first, and what the node saw when it
connected it. -/
structure HeirBlock where
  hash : Uint256
  index : BlockTime
  env : HeirEnv
  vtx : List CTransaction

/-- A transaction in a block. -/
structure Mined where
  block : HeirBlock
  tx : CTransaction

/-- The transactions of a chain, the newest first. -/
def mined (blocks : List HeirBlock) : List Mined :=
  blocks.flatMap fun block => block.vtx.map fun tx => ⟨block, tx⟩

/-- A transaction that spends an output of another or names it. -/
def DependsOn (tx other : CTransaction) : Prop :=
  (∃ vin ∈ tx.vin, vin.prevout.hash = other.hash) ∨
    ∃ d, decodeHeirEitherOpRet (opretOf tx) = some d ∧ d.fundingTxid = other.hash

namespace HeirPlan

variable (plan : HeirPlan)

/-- What a node sees with a chain: the transactions in their blocks, those of no block without
one, and for each address the unspent outputs of crypto conditions. -/
structure Sees (env : HeirEnv) (blocks : List HeirBlock) : Prop where
  codec : env.toCCEnv = plan.world.toCCEnv
  address : env.getscriptaddress = plan.world.getscriptaddress
  lookup : ∀ {txid tx}, env.lookup txid = some tx → plan.world.lookup txid = some tx
  getTransaction : ∀ m ∈ mined blocks,
    env.getTransaction m.tx.hash = some (m.tx, m.block.hash)
  pending : ∀ {txid tx hashBlock}, env.getTransaction txid = some (tx, hashBlock) →
    hashBlock ≠ 0 → ∃ m ∈ mined blocks, m.tx.hash = txid
  blockIndex : ∀ m ∈ mined blocks, env.blockIndex m.block.hash = some m.block.index
  listed : ∀ addr, ∀ u ∈ env.unspents addr,
    ∃ m ∈ mined blocks, u = (m.tx.hash, m.block.index.nHeight)
  unspent : ∀ m ∈ mined blocks, ∀ n out addr, m.tx.vout[n]? = some out →
    isPayToCryptoCondition out.scriptPubKey = true →
    env.getscriptaddress out.scriptPubKey = some addr →
    (∀ m' ∈ mined blocks, ∀ vin ∈ m'.tx.vin, vin.prevout ≠ ⟨m.tx.hash, n⟩) →
    (m.tx.hash, m.block.index.nHeight) ∈ env.unspents addr

/-- When a block is connected to a chain. An input that spends an output of the plan has
fulfilled its condition, so it is one of the contract and the owner's or the heir's; and no
transaction depends on itself or on a newer one, the hash of which it would have to know. -/
structure Connects (block : HeirBlock) (blocks : List HeirBlock) : Prop where
  sees : plan.Sees block.env blocks
  nHeight_pos : 0 < block.index.nHeight
  nHeight_lt : ∀ b ∈ blocks, b.index.nHeight < block.index.nHeight
  known : ∀ tx ∈ block.vtx, plan.world.lookup tx.hash = some tx
  irreflexive : ∀ tx ∈ block.vtx, ¬ DependsOn tx tx
  ordered : (mined (block :: blocks)).Pairwise fun newer older => ¬ DependsOn older.tx newer.tx
  signed : ∀ tx ∈ block.vtx, ∀ vin ∈ tx.vin, plan.Spends vin →
    plan.world.isMyVin EVAL_HEIR vin.scriptSig = true
      ∧ (plan.SignedBy plan.owner vin ∨ plan.SignedBy plan.heir vin)
  accepted : ∀ tx ∈ block.vtx,
    (∃ vin ∈ tx.vin, plan.world.isMyVin EVAL_HEIR vin.scriptSig = true) →
    block.env.heirValidate tx = .ok ()

end HeirPlan

/-- The runs of accepted transactions. -/
inductive HeirRun (plan : HeirPlan) : List HeirBlock → Prop
  | start : HeirRun plan []
  | connect {block : HeirBlock} {blocks : List HeirBlock} (hrun : HeirRun plan blocks)
      (hconnects : plan.Connects block blocks) : HeirRun plan (block :: blocks)

namespace HeirPlan

variable (plan : HeirPlan)

/-- The last activity of the owner in a chain. -/
def IsLast (blocks : List HeirBlock) (last : Mined) : Prop :=
  plan.Activity last.tx ∧ ∃ newer older, mined blocks = newer ++ last :: older
    ∧ ∀ m ∈ newer, ¬ plan.Activity m.tx

/-- Less than the plan's time has passed since the last activity of the owner; none has if the
first one is not in a block yet. -/
def Locked (env : HeirEnv) (blocks : List HeirBlock) : Prop :=
  0 < plan.inactivityTime ∧
    ∀ last, plan.IsLast blocks last →
      env.tip.nTime - last.block.index.nTime < plan.inactivityTime

/-- The heir has legitimately begun to spend: it has spent when the plan was not locked. -/
def Begun (blocks : List HeirBlock) : Prop :=
  ∃ block rest, block :: rest <:+ blocks ∧ (∃ tx ∈ block.vtx, plan.HeirSpends tx)
    ∧ ¬ plan.Locked block.env rest

end HeirPlan

/-! ### What holds along a run -/

theorem mem_mined {blocks : List HeirBlock} {m : Mined} :
    m ∈ mined blocks ↔ m.block ∈ blocks ∧ m.tx ∈ m.block.vtx := by
  simp only [mined, mem_flatMap, mem_map]
  constructor
  · rintro ⟨block, hblock, tx, htx, rfl⟩
    exact ⟨hblock, htx⟩
  · rintro ⟨hblock, htx⟩
    exact ⟨m.block, hblock, m.tx, htx, rfl⟩

theorem mined_cons (block : HeirBlock) (blocks : List HeirBlock) :
    mined (block :: blocks) = block.vtx.map (fun tx => ⟨block, tx⟩) ++ mined blocks := rfl

namespace HeirRun

variable {plan : HeirPlan} {blocks : List HeirBlock}

theorem connects_of_mem (hrun : HeirRun plan blocks) {m : Mined} (hm : m ∈ mined blocks) :
    ∃ rest, plan.Connects m.block rest := by
  induction hrun with
  | start => simp [mined] at hm
  | @connect block blocks hrun hconnects ih =>
    rw [mined_cons, mem_append, mem_map] at hm
    rcases hm with ⟨tx, -, rfl⟩ | hm
    · exact ⟨blocks, hconnects⟩
    · exact ih hm

theorem pairwise_ordered (hrun : HeirRun plan blocks) :
    (mined blocks).Pairwise fun newer older => ¬ DependsOn older.tx newer.tx := by
  cases hrun with
  | start => exact List.Pairwise.nil
  | connect _ hconnects => exact hconnects.ordered

theorem pairwise_block (hrun : HeirRun plan blocks) :
    (mined blocks).Pairwise fun newer older =>
      older.block = newer.block ∨ older.block.index.nHeight < newer.block.index.nHeight := by
  induction hrun with
  | start => exact List.Pairwise.nil
  | @connect block blocks hrun hconnects ih =>
    rw [mined_cons, pairwise_append, pairwise_map]
    refine ⟨pairwise_of_forall fun _ _ => Or.inl rfl, ih, ?_⟩
    intro newer hnewer older holder
    obtain ⟨tx, -, rfl⟩ := mem_map.1 hnewer
    exact Or.inr (hconnects.nHeight_lt older.block (mem_mined.1 holder).1)

end HeirRun

/-! ### The last activity is found -/

namespace HeirPlan

variable {plan : HeirPlan} {blocks : List HeirBlock} {env : HeirEnv}

theorem exists_isLast {m : Mined} (hm : m ∈ mined blocks) (hactivity : plan.Activity m.tx) :
    ∃ last, plan.IsLast blocks last := by
  classical
  have hsome : ((mined blocks).find? fun m => plan.Activity m.tx).isSome := by
    rw [find?_isSome]
    exact ⟨m, hm, by simpa using hactivity⟩
  obtain ⟨last, hlast⟩ := Option.isSome_iff_exists.1 hsome
  obtain ⟨hlast, newer, older, heq, hnewer⟩ := find?_eq_some_iff_append.1 hlast
  exact ⟨last, by simpa using hlast, newer, older, heq, by simpa using hnewer⟩

theorem IsLast.mem {last : Mined} (hlast : plan.IsLast blocks last) : last ∈ mined blocks := by
  obtain ⟨-, newer, older, heq, -⟩ := hlast
  rw [heq]
  exact mem_append_right newer mem_cons_self

/-- An activity other than the last one is older, so it depends neither on the last one nor the
last one is in a lower block. -/
theorem IsLast.compare (hrun : HeirRun plan blocks) {last m : Mined}
    (hlast : plan.IsLast blocks last) (hm : m ∈ mined blocks) (hactivity : plan.Activity m.tx) :
    ¬ DependsOn m.tx last.tx ∧
      (m.block = last.block ∨ m.block.index.nHeight < last.block.index.nHeight) := by
  have hmem := hlast.mem
  obtain ⟨-, newer, older, heq, hnewer⟩ := hlast
  have hordered := hrun.pairwise_ordered
  have hblock := hrun.pairwise_block
  rw [heq, pairwise_append, pairwise_cons] at hordered hblock
  rw [heq, mem_append, mem_cons] at hm
  rcases hm with hm | rfl | hm
  · exact absurd hactivity (hnewer m hm)
  · obtain ⟨rest, hconnects⟩ := hrun.connects_of_mem hmem
    exact ⟨hconnects.irreflexive m.tx (mem_mined.1 hmem).2, Or.inl rfl⟩
  · exact ⟨hordered.2.1.1 m hm, hblock.2.1.1 m hm⟩

namespace Sees

/-- Where `_FindLatestFundingTx` looks. -/
theorem coinAddress (hsees : plan.Sees env blocks) :
    env.ccAddress1of2 EVAL_HEIR plan.owner plan.heir
      = plan.world.address1of2 .coin plan.owner plan.heir := by
  simp only [HeirEnv.address1of2, ContractEnv.ccAddress1of2, hsees.codec, hsees.address]

theorem makeUserScript (hsees : plan.Sees env blocks) (h : HeirEnv.Helper) (pk : CPubKey) :
    env.makeUserScript h pk = plan.world.makeUserScript h pk := by
  cases h <;> simp only [HeirEnv.makeUserScript, hsees.codec]

theorem lookup_mined (hsees : plan.Sees env blocks) {m : Mined} (hm : m ∈ mined blocks) :
    env.lookup m.tx.hash = some m.tx := by
  simp [ContractEnv.lookup, hsees.getTransaction m hm]

/-- What the loop counts is an activity of the owner other than the `'F'`. -/
theorem activity_of_ownerOpRet (hsees : plan.Sees env blocks) {m : Mined}
    (hm : m ∈ mined blocks) {d : HeirOpRet}
    (hd : env.ownerOpRet plan.fundingtx.hash plan.funding m.tx.hash = some d) :
    decodeHeirEitherOpRet (opretOf m.tx) = some d ∧ d.fundingTxid = plan.fundingtx.hash
      ∧ plan.Activity m.tx := by
  obtain ⟨regtx, hregtx, hdecode, hnames, -, hvin⟩ := env.ownerOpRet_eq_some _ _ |>.1 hd
  obtain rfl : m.tx = regtx := Option.some.inj ((hsees.lookup_mined hm).symm.trans hregtx)
  refine ⟨hdecode, hnames, Or.inr ⟨?_, Or.inl ⟨d, hdecode, hnames⟩⟩⟩
  rw [hsees.codec] at hvin
  have hsigner := congrArg Prod.fst hvin
  simp only [CCEnv.checkVinPubkey, mem_filter, mem_map, decide_eq_true_eq] at hsigner
  obtain ⟨⟨vin, hvin, hsigned⟩, -⟩ := hsigner
  exact ⟨vin, hvin, Or.inl hsigned⟩

theorem begun_of_ownerOpRet (hsees : plan.Sees env blocks) (hrun : HeirRun plan blocks)
    (horderly : ∀ m ∈ mined blocks, plan.Orderly m.block.env m.tx) {m : Mined}
    (hm : m ∈ mined blocks) {d : HeirOpRet}
    (hd : env.ownerOpRet plan.fundingtx.hash plan.funding m.tx.hash = some d) :
    d.hasHeirSpendingBegun = 0 := by
  obtain ⟨hdecode, hnames, hactivity⟩ := hsees.activity_of_ownerOpRet hm hd
  rcases (horderly m hm).1 hactivity with hhash | ⟨⟨d', hdecode', -, -, -, hbegun⟩, -⟩
  · obtain ⟨rest, hconnects⟩ := hrun.connects_of_mem hm
    exact absurd (Or.inr ⟨d, hdecode, hnames.trans hhash.symm⟩)
      (hconnects.irreflexive m.tx (mem_mined.1 hm).2)
  · rw [hdecode, Option.some.injEq] at hdecode'
    rwa [hdecode']

/-- An output of the last activity at the 1of2 address is unspent: the owner's spending it would
be a later activity, and the heir has spent nothing. -/
theorem last_unspent (hrun : HeirRun plan blocks)
    (hnone : ∀ m ∈ mined blocks, ¬ plan.HeirSpends m.tx) {last : Mined}
    (hlast : plan.IsLast blocks last) (hmem : last ∈ mined blocks) {n : ℕ} {out : CTxOut}
    (hout : last.tx.vout[n]? = some out) (hplan : plan.IsOutput last.tx out) :
    ∀ m ∈ mined blocks, ∀ vin ∈ m.tx.vin, vin.prevout ≠ ⟨last.tx.hash, n⟩ := by
  intro m hm vin hvin heq
  obtain ⟨rest, hconnects⟩ := hrun.connects_of_mem hm
  obtain ⟨restLast, hconnectsLast⟩ := hrun.connects_of_mem hmem
  have hlookup := hconnectsLast.known last.tx (mem_mined.1 hmem).2
  have hspends : plan.Spends vin :=
    ⟨last.tx, out, by simp [ContractEnv.spent, heq, hlookup, hout], hplan⟩
  obtain ⟨-, howner | hheir⟩ := hconnects.signed m.tx (mem_mined.1 hm).2 vin hvin hspends
  · have hactivity : plan.Activity m.tx :=
      Or.inr ⟨⟨vin, hvin, Or.inl howner⟩, Or.inr ⟨vin, hvin, hspends⟩⟩
    exact (hlast.compare hrun hm hactivity).1 (Or.inl ⟨vin, hvin, by rw [heq]⟩)
  · exact hnone m hm ⟨vin, hvin, hspends, hheir⟩

/-- The loop comes to the last activity and counts it. -/
theorem last_counted (hsees : plan.Sees env blocks) (hrun : HeirRun plan blocks)
    (horderly : ∀ m ∈ mined blocks, plan.Orderly m.block.env m.tx)
    (hnone : ∀ m ∈ mined blocks, ¬ plan.HeirSpends m.tx) {last : Mined}
    (hlast : plan.IsLast blocks last) (hmem : last ∈ mined blocks)
    (hhash : last.tx.hash ≠ plan.fundingtx.hash) :
    (last.tx.hash, last.block.index.nHeight)
        ∈ env.unspents (plan.world.address1of2 .coin plan.owner plan.heir) ∧
      ∃ d, env.ownerOpRet plan.fundingtx.hash plan.funding last.tx.hash = some d := by
  obtain ⟨⟨d, hdecode, hnames, htoken, hvin, -⟩, out, hout, hcc, haddress⟩ :=
    ((horderly last hmem).1 hlast.1).resolve_left hhash
  constructor
  · obtain ⟨n, hn⟩ := mem_iff_getElem?.1 hout
    refine hsees.unspent last hmem n out _ hn hcc (hsees.address ▸ haddress) ?_
    exact last_unspent hrun hnone hlast hmem hn ⟨Or.inr ⟨d, hdecode, hnames⟩, hcc, .coin, haddress⟩
  · refine ⟨d, (env.ownerOpRet_eq_some _ _).2
      ⟨last.tx, hsees.lookup_mined hmem, hdecode, hnames, htoken, ?_⟩⟩
    rw [hsees.codec]
    exact hvin

/-- **`_FindLatestFundingTx` finds the time of the last activity** in an orderly run in which the
heir has not spent: it does not say that the heir has begun, and it ends at a transaction of
the block of the last activity, or at the `'F'` while there is no activity. -/
theorem findLatestFundingTx_block (hsees : plan.Sees env blocks) (hrun : HeirRun plan blocks)
    (horderly : ∀ m ∈ mined blocks, plan.Orderly m.block.env m.tx)
    (hnone : ∀ m ∈ mined blocks, ¬ plan.HeirSpends m.tx) :
    (env.findLatestFundingTx plan.fundingtx.hash plan.funding).hasHeirSpendingBegun = 0 ∧
      (((∀ m ∈ mined blocks, ¬ plan.Activity m.tx) ∧
          (env.findLatestFundingTx plan.fundingtx.hash plan.funding).latesttxid
            = plan.fundingtx.hash) ∨
        ∃ last m, plan.IsLast blocks last ∧ m ∈ mined blocks ∧ m.block = last.block ∧
          m.tx.hash = (env.findLatestFundingTx plan.fundingtx.hash plan.funding).latesttxid) := by
  obtain ⟨hresult, hmax⟩ := env.findLatestFundingTx_spec plan.fundingtx.hash plan.funding
  change ∀ u ∈ env.unspents (env.ccAddress1of2 EVAL_HEIR plan.owner plan.heir), _ at hmax
  rw [hsees.coinAddress] at hmax
  rcases hresult with hstart | ⟨u, hu, d, hd, hcounted⟩
  · -- nothing is counted: the last activity, if there is one, is the funding
    rw [hstart] at hmax ⊢
    refine ⟨rfl, ?_⟩
    by_cases hactivity : ∃ m ∈ mined blocks, plan.Activity m.tx
    · obtain ⟨m, hm, hactivity⟩ := hactivity
      obtain ⟨last, hlast⟩ := exists_isLast hm hactivity
      have hmem := hlast.mem
      refine Or.inr ⟨last, last, hlast, hmem, rfl, ?_⟩
      by_contra hhash
      obtain ⟨hlisted, d, hd⟩ := hsees.last_counted hrun horderly hnone hlast hmem hhash
      obtain ⟨rest, hconnects⟩ := hrun.connects_of_mem hmem
      have hle : last.block.index.nHeight ≤ 0 := hmax _ hlisted d hd
      have hpos := hconnects.nHeight_pos
      omega
    · exact Or.inl ⟨fun m hm h => hactivity ⟨m, hm, h⟩, rfl⟩
  · obtain ⟨m, hm, rfl⟩ := hsees.listed _ u hu
    obtain ⟨hdecode, hnames, hactivity⟩ := hsees.activity_of_ownerOpRet hm hd
    obtain ⟨last, hlast⟩ := exists_isLast hm hactivity
    have hmem := hlast.mem
    obtain ⟨hindependent, hblock⟩ := hlast.compare hrun hm hactivity
    rw [hcounted] at hmax ⊢
    refine ⟨hsees.begun_of_ownerOpRet hrun horderly hm hd, Or.inr ⟨last, m, hlast, hm, ?_, rfl⟩⟩
    -- the last activity is not the funding, which the counted one names
    have hhash : last.tx.hash ≠ plan.fundingtx.hash := fun hhash =>
      hindependent (Or.inr ⟨d, hdecode, hnames.trans hhash.symm⟩)
    obtain ⟨hlisted, d', hd'⟩ := hsees.last_counted hrun horderly hnone hlast hmem hhash
    have hle : last.block.index.nHeight ≤ m.block.index.nHeight := hmax _ hlisted d' hd'
    exact hblock.resolve_right (by omega)

/-- While the plan is locked, no more than its time has passed since what
`_FindLatestFundingTx` finds. -/
theorem ccDuration_le_of_locked (hsees : plan.Sees env blocks) (hrun : HeirRun plan blocks)
    (horderly : ∀ m ∈ mined blocks, plan.Orderly m.block.env m.tx)
    (hnone : ∀ m ∈ mined blocks, ¬ plan.HeirSpends m.tx) (hlocked : plan.Locked env blocks) :
    (env.ccDuration (env.findLatestFundingTx plan.fundingtx.hash plan.funding).latesttxid).1
      ≤ plan.inactivityTime := by
  obtain ⟨hpos, hlast⟩ := hlocked
  obtain ⟨-, ⟨hidle, htxid⟩ | ⟨last, m, hislast, hm, hblock, htxid⟩⟩ :=
    hsees.findLatestFundingTx_block hrun horderly hnone
  · have hzero : (env.ccDuration plan.fundingtx.hash).1 = 0 := by
      refine env.ccDuration_pending fun tx hashBlock hfound => ?_
      by_contra hne
      obtain ⟨m, hm, hhash⟩ := hsees.pending hfound hne
      exact hidle m hm (Or.inl hhash)
    rw [htxid, hzero]
    exact Int.le_of_lt hpos
  · have hle := env.ccDuration_le (hsees.getTransaction m hm) (hsees.blockIndex m hm)
    have hlt := hlast last hislast
    rw [← htxid]
    rw [hblock] at hle
    omega

end Sees

/-! ### The lock -/

/-- A transaction that makes no detour is rejected while the plan is locked, if the heir has not
spent in the run. -/
theorem Straight.rejected (hrun : HeirRun plan blocks)
    (horderly : ∀ m ∈ mined blocks, plan.Orderly m.block.env m.tx)
    (hnone : ∀ m ∈ mined blocks, ¬ plan.HeirSpends m.tx) (hsees : plan.Sees env blocks)
    (hlocked : plan.Locked env blocks) {tx : CTransaction} (hstraight : plan.Straight env tx) :
    env.heirValidate tx ≠ .ok () := by
  intro h
  simp only [HeirEnv.heirValidate, Checked.bind_eq_ok, require_eq_ok, expect_eq_ok,
    decide_eq_true_eq, exists_const] at h
  obtain ⟨-, d, hd, h⟩ := h
  split at h
  · cases h
  simp only [HeirEnv.validateHeirTx, Checked.bind_eq_ok, require_eq_ok, expect_eq_ok,
    decide_eq_true_eq, exists_const] at h
  obtain ⟨-, fundingtx, hfundingtx, funding, hfunding, -, -, h⟩ := h
  obtain ⟨hnames, hadd, hspend⟩ := hstraight d hd (by simp [hfundingtx])
  rw [hnames] at hfundingtx h
  -- the funding transaction found is the plan's
  obtain rfl : plan.fundingtx = fundingtx :=
    Option.some.inj (plan.lookup_fundingtx.symm.trans (hsees.lookup hfundingtx))
  obtain rfl : plan.funding = funding :=
    Option.some.inj (plan.decode_fundingtx.symm.trans hfunding)
  by_cases hfuncid : d.funcid = fid 'A'
  · simp [hfuncid, hadd hfuncid] at h
  · rw [if_neg hfuncid] at h
    obtain ⟨out, hout, hscript⟩ := Option.map_eq_some_iff.1 (hspend hfuncid)
    have hout : tx.vout[0]? = some out := by rw [← head?_eq_getElem?, hout]
    have hbegun := (hsees.findLatestFundingTx_block hrun horderly hnone).1
    have htime := hsees.ccDuration_le_of_locked hrun horderly hnone hlocked
    simp only [HeirEnv.validateSpend, HeirEnv.validateOutputs, Checked.bind_eq_ok, expect_eq_ok,
      HeirEnv.about_eq_ok] at h
    obtain ⟨_, -, out', hout', _, hcheck, -⟩ := h
    obtain rfl : out = out' := Option.some.inj (hout.symm.trans hout')
    have hscript : out.scriptPubKey
        = env.makeUserScript plan.helper plan.funding.heirPubkey := by
      rw [hscript, hsees.makeUserScript]
      rfl
    change env.heirSpend plan.helper _ _ _ _ = _ at hcheck
    rw [env.heirSpend_heir plan.decode_fundingtx plan.inactivityTime_funding hscript]
      at hcheck
    rcases hcheck with hbegan | hover
    · exact hbegan hbegun
    · omega

end HeirPlan

namespace HeirRun

variable {plan : HeirPlan} {blocks : List HeirBlock}

/-- **In an orderly run the heir spends nothing before it may**: whatever it has spent, it had
legitimately begun. -/
theorem not_heirSpends (hrun : HeirRun plan blocks)
    (horderly : ∀ m ∈ mined blocks, plan.Orderly m.block.env m.tx)
    (hbegun : ¬ plan.Begun blocks) : ∀ m ∈ mined blocks, ¬ plan.HeirSpends m.tx := by
  induction hrun with
  | start => simp [mined]
  | @connect block blocks hrun hconnects ih =>
    have horderly' : ∀ m ∈ mined blocks, plan.Orderly m.block.env m.tx := fun m hm =>
      horderly m (mined_cons block blocks ▸ mem_append_right _ hm)
    have hbegun' : ¬ plan.Begun blocks := fun ⟨b, rest, hsuffix, h⟩ =>
      hbegun ⟨b, rest, hsuffix.trans (suffix_cons block blocks), h⟩
    intro m hm hspends
    rw [mined_cons, mem_append] at hm
    rcases hm with hm' | hm
    · have hm : m ∈ mined (block :: blocks) := mined_cons block blocks ▸ mem_append_left _ hm'
      obtain ⟨tx, htx, rfl⟩ := mem_map.1 hm'
      by_cases hlocked : plan.Locked block.env blocks
      · -- locked: the block would not have been accepted
        have hstraight := (horderly _ hm).2 hspends
        obtain ⟨vin, hvin, hplan, -⟩ := hspends
        have hmine := (hconnects.signed tx htx vin hvin hplan).1
        exact hstraight.rejected hrun horderly' (ih horderly' hbegun')
          hconnects.sees hlocked (hconnects.accepted tx htx ⟨vin, hvin, hmine⟩)
      · exact hbegun ⟨block, blocks, suffix_rfl, ⟨tx, htx, hspends⟩, hlocked⟩
    · exact ih horderly' hbegun' m hm hspends

end HeirRun

/-- **The time lock holds along orderly runs.** For every plan and every run of accepted
transactions, if activity of the owner can be seen and spends of the heir make no detour, then
while the plan is locked and the heir has not legitimately begun, `HeirValidate` rejects every
transaction that spends an output of the plan with the heir's signature and makes no detour. -/
theorem locked_plan_keeps (plan : HeirPlan) {blocks : List HeirBlock} (hrun : HeirRun plan blocks)
    (horderly : ∀ m ∈ mined blocks, plan.Orderly m.block.env m.tx) {env : HeirEnv}
    (hsees : plan.Sees env blocks) (hlocked : plan.Locked env blocks)
    (hbegun : ¬ plan.Begun blocks) {tx : CTransaction} (htx : plan.Orderly env tx)
    (hspends : plan.HeirSpends tx) : env.heirValidate tx ≠ .ok () :=
  (htx.2 hspends).rejected hrun horderly (hrun.not_heirSpends horderly hbegun) hsees hlocked

/-! ### A plan of one coin -/

namespace HeirSample

/-- The keys of the owner and of the heir. -/
def owner : CPubKey := 0x02 :: List.replicate 32 0x11
@[inherit_doc owner] def heir : CPubKey := 0x02 :: List.replicate 32 0x22

/-- `cc_conditionBinary(MakeCCcond1of2(EVAL_HEIR, owner, heir))`. -/
def planCondition : Bytes :=
  [0xa2, 0x2c, 0x80, 0x20, 0xf5, 0x82, 0x9e, 0xa0, 0xd3, 0xa8, 0x34, 0xfe, 0x1a, 0x25, 0x3b,
   0x90, 0x6a, 0x7d, 0x9f, 0x66, 0x9a, 0x2c, 0x4c, 0x8f, 0xe4, 0x64, 0xa4, 0xe7, 0xfb, 0xec,
   0x0e, 0x6e, 0x75, 0xe9, 0xfc, 0xfe, 0x81, 0x03, 0x12, 0x10, 0x00, 0x82, 0x03, 0x00, 0x04,
   0x01]

/-- `cc_conditionBinary` of the marker, for the key `HeirCChexstr`. -/
def markerCondition : Bytes :=
  [0xa2, 0x2c, 0x80, 0x20, 0x28, 0x6b, 0x36, 0xb2, 0x33, 0xcc, 0x03, 0xc9, 0x16, 0x52, 0x56,
   0x0f, 0x4e, 0xcf, 0x94, 0x04, 0xbc, 0xf1, 0x0b, 0x61, 0x03, 0x39, 0x16, 0xd6, 0x7e, 0xdf,
   0x4a, 0x21, 0x6c, 0x92, 0xcf, 0x75, 0x81, 0x03, 0x12, 0x0c, 0x00, 0x82, 0x03, 0x00, 0x04,
   0x01]

/-- The script of a condition. -/
def scriptOf (condition : Bytes) : CScript := pushData condition ++ [OP_CHECKCRYPTOCONDITION]

/-- `Hash160` of the heir's key. -/
def heirHash : Bytes :=
  [0x43, 0x77, 0xa5, 0xac, 0xd6, 0x6d, 0xc5, 0xcb, 0x67, 0x14, 0x8a, 0x24, 0x81, 0x8d, 0x1e,
   0x51, 0xfa, 0x18, 0x3b, 0xd2]

/-- The heir's address as a script: the other form in which it can be paid. -/
def payToHeirHash : CScript := [0x76, 0xa9] ++ pushData heirHash ++ [0x88, OP_CHECKSIG]

/-- The owner's key as a condition of its own. -/
def ownerFingerprint : Bytes :=
  [0x97, 0x78, 0x32, 0x5f, 0x67, 0x1b, 0x5d, 0xa2, 0xdc, 0x60, 0x70, 0xdc, 0x98, 0xde, 0x28,
   0xd1, 0x0d, 0x35, 0xfc, 0x32, 0xee, 0x2b, 0x0a, 0x2b, 0xa3, 0x50, 0x98, 0x6d, 0xd7, 0x45,
   0xd1, 0x65]

/-- The 1of2 condition fulfilled by the heir, the signature left as a placeholder. -/
def heirFulfillment : Bytes :=
  [0xa2, 0x81, 0xa1, 0xa0, 0x81, 0x9c, 0xa2, 0x81, 0x94, 0xa0, 0x67, 0xa5, 0x65, 0x80, 0x21]
    ++ heir ++ [0x81, 0x40] ++ List.replicate 64 1
    ++ [0xa1, 0x29, 0xa5, 0x27, 0x80, 0x20] ++ ownerFingerprint
    ++ [0x81, 0x03, 0x02, 0x00, 0x00, 0xaf, 0x03, 0x80, 0x01, 0xea, 0xa1, 0x00]

/-- The `'F'`: one coin for the owner and the heir, who may spend it after a year. -/
def fundingtx : CTransaction where
  hash := 1
  vin := [⟨⟨90, 0⟩, [], 0⟩]
  vout := [⟨100000000, scriptOf planCondition⟩, ⟨10000, scriptOf markerCondition⟩,
    ⟨0, opReturnScript ([EVAL_HEIR, fid 'F'] ++ 33 :: owner ++ 33 :: heir ++ leBytes 8 31536000
      ++ [0, 0])⟩]

/-- A coin of the heir for the fee. -/
def feetx : CTransaction where
  hash := 2
  vin := [⟨⟨91, 0⟩, [], 0⟩]
  vout := [⟨10000, payToPubkey heir⟩]

/-- A `'C'` by the heir that pays the coin of the plan to a script. -/
def claim (script : CScript) : CTransaction where
  hash := 3
  vin := [⟨⟨2, 0⟩, [], 0⟩, ⟨⟨1, 0⟩, pushData (heirFulfillment ++ [1]), 0⟩]
  vout := [⟨100000000, script⟩,
    ⟨0, opReturnScript ([EVAL_HEIR, fid 'C'] ++ uint256Bytes (revuint256 1) ++ [0])⟩]

/-- A node that finds these transactions and unspent outputs. -/
def envOf (getTransaction : Uint256 → Option (CTransaction × Uint256))
    (unspents : String → List (Uint256 × ℤ)) : HeirEnv where
  conditionBinary
    | .threshold 2 2 [.eval [0xea], .threshold 1 2 [.secp256k1 _ _, .secp256k1 _ _]] =>
      planCondition
    | .threshold 2 2 [.eval [0xea], .threshold 1 1 [.secp256k1 _ _]] => markerCondition
    | _ => []
  readFulfillmentBinary b :=
    if b = heirFulfillment then
      some (.threshold 2 2 [.threshold 1 2 [.secp256k1 heir (some (List.replicate 64 1)),
        .anon .secp256k1 ownerFingerprint 0 131072], .eval [EVAL_HEIR]])
    else none
  anonPublicKey _ := []
  anonHasCode _ _ := false
  solver _ := none
  hash160 _ := []
  getscriptaddress s :=
    if s = scriptOf planCondition then some "RBwmyt3eCMRWrPA5mNjrbZQxTjJn1SJSq9"
    else if s = scriptOf markerCondition then some "RDVHcSekmXgeYBqRupNTmqo3Rn8QRXNduy"
    else if s = payToPubkey owner then some "RR99wCxGetvnJdzExfRDJbVeDFLjg8W7xU"
    else if s = payToPubkey heir ∨ s = payToHeirHash then
      some "RFRvgbjgZYnHtwP7gdQQ1TJNC5AbQs78Nt"
    else none
  getTransaction := getTransaction
  blockIndex h := if h = 100 then some ⟨10, 1600000000⟩ else none
  tip := ⟨1000, 1600060000⟩
  lastNotarizedHeight := 0
  sha256 _ := []
  unspents := unspents

/-- The node before the plan is funded. -/
def before : HeirEnv := envOf (findTx [feetx] 0) fun _ => []

/-- The node when the plan has been funded for less than a day. -/
def after : HeirEnv :=
  envOf (fun txid => if txid = 1 then some (fundingtx, 100) else findTx [feetx] 0 txid)
    fun addr => if addr = "RBwmyt3eCMRWrPA5mNjrbZQxTjJn1SJSq9"
      ∨ addr = "RDVHcSekmXgeYBqRupNTmqo3Rn8QRXNduy" then [(1, 10)] else []

/-- The block of the funding. -/
def block : HeirBlock := ⟨100, ⟨10, 1600000000⟩, before, [fundingtx]⟩

/-- The plan. -/
def plan : HeirPlan where
  world := after
  fundingtx := fundingtx
  funding := ⟨fid 'F', 0, owner, heir, some 31536000, 0, 0⟩
  inactivityTime := 31536000
  lookup_fundingtx := by decide
  decode_fundingtx := by decide
  funcid_funding := rfl
  inactivityTime_funding := rfl

theorem eq_of_mem_mined {m : Mined} (hm : m ∈ mined [block]) : m = ⟨block, fundingtx⟩ := by
  simpa [mined, block] using hm

theorem not_spends_fundingtx {vin : CTxIn} (hvin : vin ∈ fundingtx.vin) : ¬ plan.Spends vin := by
  rintro ⟨prev, out, hspent, -⟩
  obtain rfl : vin = ⟨⟨90, 0⟩, [], 0⟩ := by simpa [fundingtx] using hvin
  have hnone : plan.world.spent ⟨⟨90, 0⟩, [], 0⟩ = none := by decide
  rw [hnone] at hspent
  cases hspent

theorem not_heirSpends_fundingtx : ¬ plan.HeirSpends fundingtx := fun ⟨_, hvin, hspends, _⟩ =>
  not_spends_fundingtx hvin hspends

theorem lookup_before {txid : Uint256} {tx : CTransaction} (h : before.lookup txid = some tx) :
    txid = 2 ∧ tx = feetx := by
  obtain ⟨hmem, hhash⟩ := findTx_eq_some h
  obtain rfl := mem_singleton.1 hmem
  exact ⟨hhash.symm, rfl⟩

theorem sees_before : plan.Sees before [] where
  codec := rfl
  address := rfl
  lookup h := by
    obtain ⟨rfl, rfl⟩ := lookup_before h
    decide
  getTransaction m hm := by simp [mined] at hm
  pending h hne := by
    simp only [before, envOf, findTx, Option.map_eq_some_iff, Prod.mk.injEq] at h
    obtain ⟨_, _, _, rfl⟩ := h
    exact absurd rfl hne
  blockIndex m hm := by simp [mined] at hm
  listed addr u hu := by simp [before, envOf] at hu
  unspent m hm := by simp [mined] at hm

theorem connects_block : plan.Connects block [] where
  sees := sees_before
  nHeight_pos := by decide
  nHeight_lt b hb := by cases hb
  known tx htx := by
    obtain rfl := mem_singleton.1 htx
    exact plan.lookup_fundingtx
  irreflexive tx htx := by
    obtain rfl := mem_singleton.1 htx
    rintro (⟨vin, hvin, h⟩ | ⟨d, hd, h⟩)
    · obtain rfl : vin = ⟨⟨90, 0⟩, [], 0⟩ := by simpa [fundingtx] using hvin
      cases h
    · obtain rfl : plan.funding = d := Option.some.inj (plan.decode_fundingtx.symm.trans hd)
      cases h
  ordered := pairwise_singleton _ _
  signed tx htx vin hvin hspends := by
    obtain rfl := mem_singleton.1 htx
    exact absurd hspends (not_spends_fundingtx hvin)
  accepted tx htx h := by
    obtain rfl := mem_singleton.1 htx
    obtain ⟨vin, hvin, hmine⟩ := h
    obtain rfl : vin = ⟨⟨90, 0⟩, [], 0⟩ := by simpa [fundingtx] using hvin
    cases hmine

theorem run : HeirRun plan [block] := .connect .start connects_block

theorem sees_after : plan.Sees after [block] where
  codec := rfl
  address := rfl
  lookup h := h
  getTransaction m hm := by
    obtain rfl := eq_of_mem_mined hm
    rfl
  pending {txid tx hashBlock} h hne := by
    by_cases htxid : txid = 1
    · exact ⟨⟨block, fundingtx⟩, by simp [mined, block], htxid.symm⟩
    · simp only [after, envOf, htxid, if_false, findTx, Option.map_eq_some_iff, Prod.mk.injEq] at h
      obtain ⟨_, _, _, rfl⟩ := h
      exact absurd rfl hne
  blockIndex m hm := by
    obtain rfl := eq_of_mem_mined hm
    rfl
  listed addr u hu := by
    refine ⟨⟨block, fundingtx⟩, by simp [mined, block], ?_⟩
    simp only [after, envOf] at hu
    split at hu
    · exact mem_singleton.1 hu
    · cases hu
  unspent m hm n out addr hout hcc haddr _ := by
    obtain rfl := eq_of_mem_mined hm
    rcases n with _ | _ | _ | n
    · cases hout
      have hplan : after.getscriptaddress (scriptOf planCondition)
          = some "RBwmyt3eCMRWrPA5mNjrbZQxTjJn1SJSq9" := by decide
      obtain rfl := Option.some.inj (hplan.symm.trans haddr)
      decide
    · cases hout
      have hmarker : after.getscriptaddress (scriptOf markerCondition)
          = some "RDVHcSekmXgeYBqRupNTmqo3Rn8QRXNduy" := by decide
      obtain rfl := Option.some.inj (hmarker.symm.trans haddr)
      decide
    · cases hout
      cases hcc
    · cases hout

theorem locked : plan.Locked after [block] := by
  refine ⟨by decide, fun last hlast => ?_⟩
  obtain rfl := eq_of_mem_mined hlast.mem
  decide

theorem not_begun : ¬ plan.Begun [block] := by
  rintro ⟨b, rest, hsuffix, ⟨tx, htx, hspends⟩, -⟩
  have hmem : (⟨b, tx⟩ : Mined) ∈ mined [block] :=
    mem_mined.2 ⟨hsuffix.subset mem_cons_self, htx⟩
  obtain ⟨rfl, rfl⟩ := Mined.mk.inj (eq_of_mem_mined hmem)
  exact not_heirSpends_fundingtx hspends

theorem heirSpends_claim (script : CScript) : plan.HeirSpends (claim script) := by
  refine ⟨⟨⟨1, 0⟩, pushData (heirFulfillment ++ [1]), 0⟩, by simp [claim],
    ⟨fundingtx, ⟨100000000, scriptOf planCondition⟩, ?_, Or.inl rfl, ?_, .coin, ?_⟩, ?_⟩
  · decide
  · decide
  · decide
  · unfold HeirPlan.SignedBy
    decide +kernel

/-- The owner takes no part in the claims. -/
theorem not_ownerInput_claim {script : CScript} {vin : CTxIn} (hvin : vin ∈ (claim script).vin) :
    ¬ plan.OwnerInput vin := by
  have hfee : plan.world.spent ⟨⟨2, 0⟩, [], 0⟩ = some (feetx, ⟨10000, payToPubkey heir⟩) := by
    decide
  have hcoin : plan.world.spent ⟨⟨1, 0⟩, pushData (heirFulfillment ++ [1]), 0⟩
      = some (fundingtx, ⟨100000000, scriptOf planCondition⟩) := by decide
  simp only [claim, mem_cons, not_mem_nil, or_false] at hvin
  unfold HeirPlan.OwnerInput HeirPlan.SignedBy
  rcases hvin with rfl | rfl
  · rintro (h | ⟨prev, out, hspent, -, haddress⟩)
    · revert h
      decide
    · obtain ⟨rfl, rfl⟩ := Prod.mk.inj (Option.some.inj (hfee.symm.trans hspent))
      revert haddress
      decide
  · rintro (h | ⟨prev, out, hspent, hcc, -⟩)
    · revert h
      decide +kernel
    · obtain ⟨rfl, rfl⟩ := Prod.mk.inj (Option.some.inj (hcoin.symm.trans hspent))
      revert hcc
      decide

theorem orderly_claim : plan.Orderly after (claim (payToPubkey heir)) := by
  constructor
  · rintro (hhash | ⟨⟨vin, hvin, howner⟩, -⟩)
    · cases hhash
    · exact absurd howner (not_ownerInput_claim hvin)
  · intro _ d hd _
    have hdecode : decodeHeirEitherOpRet (opretOf (claim (payToPubkey heir)))
        = some ⟨fid 'C', 0, [], [], none, 1, 0⟩ := by decide
    obtain rfl := Option.some.inj (hdecode.symm.trans hd)
    exact ⟨rfl, fun _ => rfl, fun _ => rfl⟩

theorem orderly_block (m : Mined) (hm : m ∈ mined [block]) : plan.Orderly m.block.env m.tx := by
  obtain rfl := eq_of_mem_mined hm
  exact ⟨fun _ => Or.inl rfl, fun h => absurd h not_heirSpends_fundingtx⟩

end HeirSample

open HeirSample in
/-- The hypotheses of `locked_plan_keeps` are satisfiable: the heir pays the coin of a plan to its
key on the day of the funding. -/
theorem locked_plan_keeps_coin : after.heirValidate (claim (payToPubkey heir)) ≠ .ok () :=
  locked_plan_keeps plan run orderly_block sees_after locked not_begun orderly_claim
    (heirSpends_claim _)

open HeirSample in
/-- The lock is passed by paying to the heir's address instead of its key: on the day of the
funding of a plan for a year the heir takes the coin. -/
theorem heir_spends_locked_plan :
    HeirRun plan [block] ∧ plan.Sees after [block] ∧ plan.Locked after [block]
      ∧ ¬ plan.Begun [block] ∧ plan.HeirSpends (claim payToHeirHash)
      ∧ after.heirValidate (claim payToHeirHash) = .ok () :=
  ⟨run, sees_after, locked, not_begun, heirSpends_claim _, by decide +kernel⟩

end Komodo
