/-
# The inputs that are added to a transaction

`AddNormalinputsLocal` and `AddNormalinputsRemote` of `src/src/cc/CCtx.cpp`, `NSPV_addinputs` and
`NSPV_AddNormalinputs` of `src/src/komodo_nSPV_wallet.h`, in a build with the wallet.

Outputs that are large enough are collected in an array; from them the nearest one is taken for what
is still missing, again and again, and an input is appended for it.  An entry of the array is
written behind those that are there, and a write behind its end ends the run.
-/

import Komodo.NSPV.VinSelect

namespace Komodo
namespace NormalInputs

open NSPV
open NSPV.Server
open Wire hiding CTransaction

def NSPV_MAXVINS : ℕ := 64

def SAPLING_TX_VERSION : ℤ := 4

/-- A write behind the end of an array. -/
inductive BadWrite
  /-- The array of the outputs that are collected. -/
  | utxos
deriving DecidableEq

/-- `COutput`: an output of a transaction of the wallet. -/
structure COutput where
  tx : Wire.CTransaction
  i : Fin tx.vout.length
  fSpendable : Bool

/-- The entry of an output of the wallet. -/
def COutput.utxo (out : COutput) : CCUtxo where
  txid := out.tx.hash
  nValue := out.tx.vout[out.i].nValue
  vout := out.i

/-- The entry of a row of the index. -/
def indexUtxo (it : Unspent) : CCUtxo where
  txid := it.txhash
  nValue := it.satoshis
  vout := it.index

/-- What `NSPV_vinselect` and the new input have of an entry of a response. -/
def respUtxo (up : UtxoResp) : CCUtxo where
  txid := up.txid
  nValue := up.satoshis
  vout := up.vout

/-- A node that adds inputs. -/
structure Node where
  /-- `KOMODO_NSPV_SUPERLITE`. -/
  superlite : Bool
  /-- `AvailableCoins` of the wallet. -/
  availableCoins : List COutput
  /-- `SetCCunspents`. -/
  ccUnspents : Bytes → Bool → List Unspent
  /-- `myGetTransaction`. -/
  getTransaction : Uint256 → Option Wire.CTransaction
  /-- `myIsutxo_spentinmempool`. -/
  isutxoSpentinmempool : Uint256 → ℤ → Bool
  /-- `Getscriptaddress`: what it leaves in its buffer. -/
  getscriptaddress : CScript → Bytes
  /-- The outputs in `NSPV_utxosresult` after `NSPV_addressutxos`. -/
  addressutxos : Bytes → List UtxoResp

/-! ### Collecting outputs -/

/-- The number of inputs, for an array of a size. -/
def clampInputs (size : ℕ) (maxinputs : ℤ) : ℤ := if size < maxinputs then size else maxinputs

/-- The least value of an output that is collected. -/
def threshold (total maxinputs : ℤ) : ℤ := if 0 < maxinputs then total.tdiv maxinputs else total

/-- `utxos[n++] = up`. -/
def store {α : Type} (size : ℕ) (utxos : List α) (up : α) : Except BadWrite (List α) :=
  if utxos.length < size then pure (utxos ++ [up]) else throw .utxos

/-- The `uint32_t` of an `int32_t`. -/
def uint32Of (n : ℤ) : ℕ := (n % 2 ^ 32).toNat

namespace Node

variable (node : Node)

/-- The output pays to no condition, no input spends it, it is not in the array and no transaction
of the mempool spends it. -/
def passes (vin : List CTxIn) (threshold : ℤ) (utxos : List CCUtxo) (up : CCUtxo) : Bool :=
  threshold ≤ up.nValue
    && (node.getTransaction up.txid).any (fun tx =>
      (at? tx.vout up.vout).any fun out => !isPayToCryptoCondition out.scriptPubKey)
    && !vin.any (fun txin => up.txid = txin.prevout.hash ∧ uint32Of up.vout = txin.prevout.n)
    && !utxos.any (fun u => up.txid = u.txid ∧ up.vout = u.vout)
    && !node.isutxoSpentinmempool up.txid up.vout

/-- The loop that fills the array. -/
def collect (vin : List CTxIn) (maxinputs threshold total : ℤ) :
    (utxos : List CCUtxo) → (sum : ℤ) → List CCUtxo → Except BadWrite (List CCUtxo)
  | utxos, _, [] => pure utxos
  | utxos, sum, up :: rest =>
    if node.passes vin threshold utxos up then do
      let utxos ← store CC_MAXVINS utxos up
      let sum := sum + up.nValue
      if maxinputs ≤ utxos.length ∨ total ≤ sum then return utxos
      collect vin maxinputs threshold total utxos sum rest
    else collect vin maxinputs threshold total utxos sum rest

end Node

/-- The loop that fills the array of `NSPV_addinputs`; `num` is the number of all outputs. -/
def collectResp (num : ℕ) (threshold : ℤ) :
    (utxos : List UtxoResp) → List UtxoResp → Except BadWrite (List UtxoResp)
  | utxos, [] => pure utxos
  | utxos, up :: rest =>
    if num < NSPV_MAXVINS ∨ threshold < up.satoshis then do
      collectResp num threshold (← store NSPV_MAXVINS utxos up) rest
    else collectResp num threshold utxos rest

/-! ### Taking from them -/

variable {α : Type} (cc : α → CCUtxo)

/-- The loop that takes outputs: those that are taken, in their order, and `totalinputs`, or none
when the function returns in the loop. -/
def takeInputs (total : ℤ) : (rounds : ℕ) → (utxos : List α) → (totalinputs remains : ℤ) →
    List α × Option ℤ
  | 0, _, totalinputs, _ => ([], some totalinputs)
  | rounds + 1, utxos, totalinputs, remains =>
    if utxos = [] then ([], some totalinputs)
    else
      match vinselect (utxos.map cc) remains with
      | none => ([], none)
      | some ind =>
        match utxos[ind]?, utxos.getLast? with
        | some up, some last =>
          let totalinputs := totalinputs + (cc up).nValue
          if total ≤ totalinputs ∨ rounds = 0 then ([up], some totalinputs)
          else
            let (taken, outcome) := takeInputs total rounds (utxos.set ind last).dropLast
              totalinputs (remains - (cc up).nValue)
            (up :: taken, outcome)
        | _, _ => ([], none)

/-- The value that is returned. -/
def returned (total : ℤ) : Option ℤ → ℤ
  | some totalinputs => if total ≤ totalinputs then totalinputs else 0
  | none => 0

/-- `CTxIn(up->txid, up->vout, CScript())`. -/
def txInOf (up : CCUtxo) : CTxIn where
  prevout := ⟨up.txid, uint32Of up.vout⟩

/-- The transaction with an input for every output that is taken. -/
def appendInputs (mtx : CMutableTransaction) (taken : List α) : CMutableTransaction :=
  { mtx with vin := mtx.vin ++ taken.map fun up => txInOf (cc up) }

/-! ### The selectors -/

/-- `NSPV_addinputs`: the value, the transaction and the entries of `used`. -/
def addinputs (mtx : CMutableTransaction) (total maxinputs : ℤ) (ptr : List UtxoResp) :
    Except BadWrite (ℤ × CMutableTransaction × List UtxoResp) := do
  let maxinputs := clampInputs NSPV_MAXVINS maxinputs
  let utxos ← collectResp ptr.length (threshold total maxinputs) [] ptr
  let (taken, outcome) := takeInputs respUtxo total maxinputs.toNat utxos 0 total
  return (returned total outcome, appendInputs respUtxo mtx taken, taken)

namespace Node

variable (node : Node)

/-- `NSPV_AddNormalinputs` with `NSPV_U`. -/
def nspvAddNormalinputs (mtx : CMutableTransaction) (mypk : CPubKey) (total maxinputs : ℤ) :
    Except BadWrite (ℤ × CMutableTransaction) := do
  let mtx := { mtx with
    fOverwintered := true
    nExpiryHeight := 0
    nVersionGroupId := SAPLING_VERSION_GROUP_ID
    nVersion := SAPLING_TX_VERSION }
  let coinaddr := node.getscriptaddress (payToPubkey mypk)
  let (value, mtx, _) ← addinputs mtx total maxinputs (node.addressutxos coinaddr)
  return (value, mtx)

/-- What the two selectors of a full node do with the outputs that they look at. -/
def addFrom (rows : List CCUtxo) (mtx : CMutableTransaction) (total maxinputs : ℤ) :
    Except BadWrite (ℤ × CMutableTransaction) := do
  let maxinputs := clampInputs CC_MAXVINS maxinputs
  let utxos ← node.collect mtx.vin maxinputs (threshold total maxinputs) total [] 0 rows
  let (taken, outcome) := takeInputs id total maxinputs.toNat utxos 0 total
  return (returned total outcome, appendInputs id mtx taken)

/-- The outputs that `AddNormalinputsLocal` looks at. -/
def walletRows : List CCUtxo := (node.availableCoins.filter COutput.fSpendable).map COutput.utxo

/-- The outputs that `AddNormalinputsRemote` looks at. -/
def addressRows (mypk : CPubKey) : List CCUtxo :=
  (node.ccUnspents (node.getscriptaddress (payToPubkey mypk)) false).map indexUtxo

def addNormalinputsLocal (mtx : CMutableTransaction) (mypk : CPubKey) (total maxinputs : ℤ) :
    Except BadWrite (ℤ × CMutableTransaction) :=
  if node.superlite then node.nspvAddNormalinputs mtx mypk total maxinputs
  else node.addFrom node.walletRows mtx total maxinputs

def addNormalinputsRemote (mtx : CMutableTransaction) (mypk : CPubKey) (total maxinputs : ℤ) :
    Except BadWrite (ℤ × CMutableTransaction) :=
  if node.superlite then node.nspvAddNormalinputs mtx mypk total maxinputs
  else node.addFrom (node.addressRows mypk) mtx total maxinputs

end Node

end NormalInputs
end Komodo
