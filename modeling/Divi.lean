import Divi.Proofs.StakeModifierService
import Divi.Proofs.StakeModifiers
import Divi.Proofs.MoneySupply
import Divi.Proofs.CycleRewards
import Divi.Proofs.TwelfthCandidate
import Divi.Proofs.CoinsLayers
import Divi.Proofs.Reprocess
import Divi.Proofs.ProofOfStake
import Divi.Proofs.CoinstakeCreation
import Divi.Proofs.Retarget
import Divi.Proofs.SubsidySplit
import Divi.Proofs.SporkRestart
import Divi.Proofs.SporkValues
import Divi.Proofs.CrashRecovery
import Divi.Proofs.IndexReversal
import Divi.Proofs.SpentIndex
import Divi.Proofs.CoinsSerialization
import Divi.Proofs.VaultSync
import Divi.Proofs.WalletOrder
import Divi.Proofs.CreateTransaction
import Divi.Proofs.CoinSelection
import Divi.Proofs.LotteryRestart
import Divi.Proofs.WalletBalances
import Divi.Proofs.BIP9ActivationTracker
import Divi.Proofs.BIP9ActivationManager
import Divi.Proofs.MasternodeBroadcasts
import Divi.Proofs.MempoolAddresses
import Divi.Proofs.MinerPolicyEstimator
import Divi.Proofs.LimitedMap
import Divi.Proofs.MoneyStrings
