import AnonChain.Safety.FinalizedPrefix
import AnonChain.Safety.Resume
import AnonChain.Safety.PowerAgreement
import AnonChain.Safety.Expansion
import AnonChain.Safety.ActiveStake
import AnonChain.Safety.HeaderChain
import AnonChain.Safety.Randomness
import AnonChain.Safety.CheckpointStatus
import AnonChain.Safety.SubmissionStore
import AnonChain.Safety.Coinbase
import AnonChain.Safety.SubmissionPairs
import AnonChain.Safety.Scores
import AnonChain.Safety.IncentiveSolvency
import AnonChain.Safety.CostakingSolvency
import AnonChain.Safety.WireFormat
import AnonChain.Safety.UnbondingMaturity
import AnonChain.Safety.DelegatePool
import AnonChain.Safety.BlockDelivery
import AnonChain.Safety.StoredProofs
import AnonChain.Safety.ConfirmedBlocks
import AnonChain.Safety.MonitorChannels
import AnonChain.Safety.EvidenceCursor
import AnonChain.Safety.SelectiveSlashing
import AnonChain.Safety.CovenantSignatures
import AnonChain.Safety.CheckpointRelay
import AnonChain.Safety.ActiveSet
import AnonChain.Safety.AdaptorKeys
import AnonChain.Safety.ValidatorRecords
import AnonChain.Safety.SlashedPower
import AnonChain.Safety.Denominations
import AnonChain.Safety.Rewarding
import AnonChain.Safety.ProviderState
import AnonChain.Safety.BatchSending
import AnonChain.Safety.Commission
import AnonChain.Safety.AnnualProvisions
import AnonChain.Safety.ExpansionAmounts
import AnonChain.Safety.StakingEventWatcher
import AnonChain.Safety.FeeBump
import AnonChain.Safety.SpendPaths
