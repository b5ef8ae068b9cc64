import Komodo.BlockIndexDB.GutsFast
import Komodo.BlockTree.Candidates
import Komodo.BlockTree.Finality
import Komodo.BlockTree.Locator
import Komodo.BlockTree.StatusWord
import Komodo.CC.AssetsAsks
import Komodo.CC.AssetsFills
import Komodo.CC.AssetsReads
import Komodo.CC.ChannelsReads
import Komodo.CC.ChannelsRefunds
import Komodo.CC.DepositProof
import Komodo.CC.DicePlans
import Komodo.CC.DispatchVerdict
import Komodo.CC.FaucetLimit
import Komodo.CC.HeirLock
import Komodo.CC.ImportRoundTrip
import Komodo.CC.ImportValue
import Komodo.CC.InputsAdded
import Komodo.CC.OraclesPrice
import Komodo.CC.OraclesRegister
import Komodo.CC.PaymentsEncode
import Komodo.CC.PaymentsReads
import Komodo.CC.RewardsBounds
import Komodo.CC.TokenTransfer
import Komodo.Chain.EraSubsidy
import Komodo.Chain.Fees
import Komodo.Chain.HeaderChain
import Komodo.Chain.InterestMachine
import Komodo.Chain.MerkleRoot
import Komodo.Chain.Reorganise
import Komodo.Chain.TransactionSums
import Komodo.Coins.AnchorRefinement
import Komodo.CrossChain.CrossChainProof
import Komodo.CrossChain.MerkleAgreement
import Komodo.CrossChain.NotariesApproval
import Komodo.CrossChain.PartialMerkleMatches
import Komodo.CrossChain.TxAuthority
import Komodo.CryptoConditions.Accesses
import Komodo.CryptoConditions.OrderFree
import Komodo.Equihash.Solution
import Komodo.KV.Reads
import Komodo.Mempool.CheckBlock
import Komodo.Mempool.Reorg
import Komodo.NSPV.ContractUtxos
import Komodo.NSPV.GetTransaction
import Komodo.NSPV.MempoolAnswers
import Komodo.NSPV.ResponseReads
import Komodo.NSPV.UtxoAnswers
import Komodo.Notary.CoinbaseWalk
import Komodo.Notary.ConnectBlock
import Komodo.Notary.Priority
import Komodo.Script.SignatureCover
import Komodo.Staking.AgeCredit
import Komodo.Staking.Segids
import Komodo.StateFile.Agreement
import Komodo.StateFile.Rewind
import Komodo.StateFile.RoundTrip
import Komodo.Zcash.Reload
