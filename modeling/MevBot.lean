import MevBot.BackrunTrades
import MevBot.BlacklistReload
import MevBot.BreakerGate
import MevBot.BreakerLaws
import MevBot.BufferReuse
import MevBot.CacheLaws
import MevBot.CoarseFilter
import MevBot.ConfigOverlay
import MevBot.ConfiguredRun
import MevBot.DataFeed
import MevBot.DecodedFees
import MevBot.DecoderOverflow
import MevBot.Delivery
import MevBot.DetectorAgreement
import MevBot.DfsCorrectness
import MevBot.Discriminators
import MevBot.DisjointCycles
import MevBot.DryRun
import MevBot.DuplicateCycles
import MevBot.EnvSubstitution
import MevBot.ExecutedTrades
import MevBot.GraphHandles
import MevBot.GraphStructure
import MevBot.IdleBreaker
import MevBot.LiquidationGate
import MevBot.MetricLabels
import MevBot.NetProfit
import MevBot.ObligationTotals
import MevBot.ObligationValues
import MevBot.OptimizerBounds
import MevBot.OptimizerSearch
import MevBot.PoolEdges
import MevBot.PredecessorGraph
import MevBot.PriceImpact
import MevBot.RoundingBound
import MevBot.Schedules
import MevBot.SearchRounds
import MevBot.Shutdown
import MevBot.SignedProfit
import MevBot.SlippageGuard
import MevBot.SlotOrder
import MevBot.StalePools
import MevBot.SubmittedSwaps
import MevBot.Subscription
import MevBot.SwapInstructions
import MevBot.SwapLaws
import MevBot.TipBounds
import MevBot.TrackerDeadlines
import MevBot.TrackerLaws
import MevBot.VaultStreams
