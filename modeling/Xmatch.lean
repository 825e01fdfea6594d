import Xmatch.Lib.Buffer
import Xmatch.Lib.Drawing
import Xmatch.Lib.Effect
import Xmatch.Lib.LinkedQueue
import Xmatch.Lib.Probing
import Xmatch.Lib.StableSort
import Xmatch.Lib.WordBits
import Xmatch.Api
import Xmatch.TickTable
import Xmatch.PriceLadder
import Xmatch.LevelBitset
import Xmatch.FlatHashMap
import Xmatch.HashMapRuns
import Xmatch.OrderPool
import Xmatch.OrderBook
import Xmatch.BookShape
import Xmatch.BookOps
import Xmatch.Engine
import Xmatch.Venue
import Xmatch.BookView
import Xmatch.Simulation
import Xmatch.EngineSteps
import Xmatch.TradeStep
import Xmatch.Refinement
import Xmatch.MatchingLoop
import Xmatch.Feasibility
import Xmatch.Entry
import Xmatch.SubmitSteps
import Xmatch.ReplaceSteps
import Xmatch.Configuration
import Xmatch.Growth
import Xmatch.Runs
import Xmatch.Resting
import Xmatch.WellFormed
import Xmatch.VenueSteps
import Xmatch.Uncrossed
import Xmatch.TopOfBook
import Xmatch.FillOrKill
import Xmatch.Reference
import Xmatch.ConfiguredLadder
import Xmatch.Admission
import Xmatch.Twins
import Xmatch.Rejections
import Xmatch.Isolation
import Xmatch.Starvation
import Xmatch.Requeueing
import Xmatch.Throwing
import Xmatch.History
import Xmatch.Ledger
import Xmatch.Conservation
import Xmatch.Lifecycle
import Xmatch.Priority
import Xmatch.Bounds
import Xmatch.Crowding
import Xmatch.MarketEdge
import Xmatch.BitsetRuns
import Xmatch.PoolRuns
import Xmatch.ValidationOrder
import Xmatch.ClosedRecords
import Xmatch.Progress
import Xmatch.HotPath
import Xmatch.Symmetry
import Xmatch.Retelling
import Xmatch.Replay
import Xmatch.Forgetting
import Xmatch.Draining
import Xmatch.Taking
import Xmatch.FirmQuotes
import Xmatch.Interrupting
import Xmatch.Waiting
import Xmatch.Equivalences
import Xmatch.Reporting
import Xmatch.Restoring
