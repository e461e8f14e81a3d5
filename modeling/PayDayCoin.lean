import PayDayCoin.AcceptableInputs
import PayDayCoin.AddrManRuns
import PayDayCoin.Alert
import PayDayCoin.AskFor
import PayDayCoin.Atomicity
import PayDayCoin.Base58
import PayDayCoin.BlockHashCache
import PayDayCoin.CachedCredit
import PayDayCoin.CachedCreditRuns
import PayDayCoin.ChainHistory
import PayDayCoin.ChainTrust
import PayDayCoin.ChainedTxs
import PayDayCoin.CoinSelection
import PayDayCoin.CoinSelectionSums
import PayDayCoin.CoinStake
import PayDayCoin.CoinStakeValue
import PayDayCoin.CreateTransaction
import PayDayCoin.CryptoKeyStore
import PayDayCoin.DarksendPool
import PayDayCoin.DarksendRounds
import PayDayCoin.ForkSearch
import PayDayCoin.InstantXChain
import PayDayCoin.KernelAgreement
import PayDayCoin.KeyPool
import PayDayCoin.KeyPoolInvariant
import PayDayCoin.KeyPoolRuns
import PayDayCoin.Library.Digits
import PayDayCoin.Library.Forests
import PayDayCoin.Library.Framing
import PayDayCoin.Library.InverseIndex
import PayDayCoin.Library.MerkleTrees
import PayDayCoin.Library.Placement
import PayDayCoin.Library.Splice
import PayDayCoin.LockRequests
import PayDayCoin.LockedInputs
import PayDayCoin.Masternode
import PayDayCoin.MasternodeLastSeen
import PayDayCoin.MasternodeMessages
import PayDayCoin.MasternodeRanks
import PayDayCoin.MasternodeReward
import PayDayCoin.MemPoolPurge
import PayDayCoin.MerkleBranch
import PayDayCoin.MixingClient
import PayDayCoin.MoneySupply
import PayDayCoin.NetMessages
import PayDayCoin.NextTarget
import PayDayCoin.OrphanStakes
import PayDayCoin.OrphanTxs
import PayDayCoin.Reload
import PayDayCoin.RoundsMemo
import PayDayCoin.SendMessages
import PayDayCoin.SessionEntries
import PayDayCoin.SessionSignatures
import PayDayCoin.SignFinalTransaction
import PayDayCoin.SignatureCache
import PayDayCoin.Signatures
import PayDayCoin.SmsgBunch
import PayDayCoin.SmsgCrypt
import PayDayCoin.SmsgExchange
import PayDayCoin.SmsgPayload
import PayDayCoin.SmsgQueue
import PayDayCoin.SmsgRoundTrip
import PayDayCoin.SmsgScan
import PayDayCoin.SmsgStore
import PayDayCoin.SporkConvergence
import PayDayCoin.SporkText
import PayDayCoin.Stealth
import PayDayCoin.StealthWallet
import PayDayCoin.SyncCheckpoint
import PayDayCoin.TxDBBatch
import PayDayCoin.TxPositions
import PayDayCoin.VoteQuorum
import PayDayCoin.WalletOrder
import PayDayCoin.WalletReorder
import PayDayCoin.WalletSpends
import PayDayCoin.WalletSpendsRuns
import PayDayCoin.SmsgAgreement
import PayDayCoin.AddrIndex
import PayDayCoin.AddressGroupings
import PayDayCoin.BlockByHeight
import PayDayCoin.BlockLocator
import PayDayCoin.DenominatedCoins
import PayDayCoin.MerkleTx
import PayDayCoin.StakeModifier
import PayDayCoin.Narrations
import PayDayCoin.ExternalBlocks
import PayDayCoin.Base58Inverse
import PayDayCoin.AddrManEviction
import PayDayCoin.InvMessages
import PayDayCoin.MoneyText
import PayDayCoin.TimeOffset
import PayDayCoin.WalletRecords
import PayDayCoin.PassphraseChange
import PayDayCoin.PreparedCoins
import PayDayCoin.ServiceText
import PayDayCoin.Subnets
import PayDayCoin.BaseUint
import PayDayCoin.Destinations
import PayDayCoin.LimitedMap
import PayDayCoin.MasternodeDraw
import PayDayCoin.MasternodeErase
import PayDayCoin.ScriptStructure
import PayDayCoin.SigningParties
import PayDayCoin.Library.Numerals
import PayDayCoin.ScriptCompressor
import PayDayCoin.ScriptCompressor
import PayDayCoin.BanList
import PayDayCoin.BanList
