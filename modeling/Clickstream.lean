import Clickstream.Conservation
import Clickstream.Totality
import Clickstream.Refinement
import Clickstream.Alignment
import Clickstream.Duplicates
import Clickstream.WireFormat
import Clickstream.Producer
import Clickstream.RateLimit
import Clickstream.Allowlist
import Clickstream.ReadOnly
import Clickstream.Replay
import Clickstream.ProducerRuns
import Clickstream.Transactions
import Clickstream.Accounting
import Clickstream.Outlier
import Clickstream.Storable
import Clickstream.Admission
import Clickstream.Cache
import Clickstream.FailsClosed
import Clickstream.DistinctUsers
import Clickstream.Pacing
import Clickstream.AnomalyDetection
import Clickstream.DeltaLakehouse
import Clickstream.Grammar
import Clickstream.DedupKey
import Clickstream.SimulatedTime
import Clickstream.Builder
import Clickstream.Layout
import Clickstream.UtcDays
import Clickstream.SeriesAnomalies
import Clickstream.ClickHouseRuns
import Clickstream.TopLists
import Clickstream.RecentRows
import Clickstream.Serving
import Clickstream.Kit.Delivery
import Clickstream.Pipeline
import Clickstream.Marts
import Clickstream.Quality
import Clickstream.Kit.Lateness
import Clickstream.LateData
import Clickstream.DeadLetter
import Clickstream.CachedFreshness
import Clickstream.LagGauges
import Clickstream.Nightly
import Clickstream.Lakehouse
import Clickstream.InitTopics
import Clickstream.Python.IntText
import Clickstream.Configuration
