import Qwertycoin.Common.Math
import Qwertycoin.Core.Types
import Qwertycoin.Core.RingOffsets
import Qwertycoin.Core.Currency
import Qwertycoin.Core.Reward
import Qwertycoin.Core.Blockchain.State
import Qwertycoin.Core.Blockchain.Transactions
import Qwertycoin.Core.Blockchain.Inputs
import Qwertycoin.Core.Difficulty
import Qwertycoin.Core.FormatUtils
import Qwertycoin.Core.Blockchain.Upgrade
import Qwertycoin.Core.Blockchain.PushBlock
import Qwertycoin.Lib.StateRun
import Qwertycoin.Lib.Bisection
import Qwertycoin.Core.Blockchain.Run
import Qwertycoin.Core.Blockchain.MinerReward
import Qwertycoin.Core.TransactionPool
import Qwertycoin.Core.Blockchain.Alternative
import Qwertycoin.Core.Blockchain.ForkChoice
import Qwertycoin.Core.Node
import Qwertycoin.Lib.ByteReader
import Qwertycoin.Core.Serialization
import Qwertycoin.Core.Serialization.TransactionRoundTrip
import Qwertycoin.Core.Difficulty.CheckHash
import Qwertycoin.Core.Serialization.BlockRoundTrip
import Qwertycoin.Core.Blockchain.Multisignature
import Qwertycoin.Lib.FixedDigits
import Qwertycoin.Common.Base58
import Qwertycoin.Common.Varint
import Qwertycoin.Core.Blockchain.DifficultyWindow
import Qwertycoin.Core.Blockchain.UpgradeVoting
import Qwertycoin.Lib.IndexedList
import Qwertycoin.Transfers.Atomicity
import Qwertycoin.Transfers.Detach
import Qwertycoin.Core.Decompose
import Qwertycoin.Core.Blockchain.SparseChain
import Qwertycoin.Wallet.Inputs
import Qwertycoin.Core.Amount
import Qwertycoin.Core.Serialization.ExtraRoundTrip
import Qwertycoin.Core.SwappedVector
import Qwertycoin.Lib.ByteFile
import Qwertycoin.Lib.SparseArray
import Qwertycoin.Common.ShuffleGenerator
import Qwertycoin.Lib.BitSearch
import Qwertycoin.Lib.MerkleLevels
import Qwertycoin.Crypto.TreeHash
import Qwertycoin.Lib.OrderedIndex
import Qwertycoin.P2p.PeerListManager
import Qwertycoin.Lib.Tokens
import Qwertycoin.Mnemonics.ElectrumWords
import Qwertycoin.Lib.OrderedMap
import Qwertycoin.Common.JsonValue
import Qwertycoin.Common.JsonRoundTrip
import Qwertycoin.Common.FileMappedVector
import Qwertycoin.Common.FileMappedVector.Steps
import Qwertycoin.Common.FileMappedVector.Layout
import Qwertycoin.Common.FileMappedVector.Refinement
import Qwertycoin.Common.FileMappedVector.Operations
import Qwertycoin.Common.FileMappedVector.Calls
