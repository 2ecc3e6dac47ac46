import Sage.Core.Int64
import Sage.Core.Binary64
import Sage.Core.Timing
import Sage.Types.FixedPoint
import Sage.Types.Message
import Sage.Infra.RingBuffer
import Sage.Infra.RingBufferSteps
import Sage.Infra.RingBufferQueue
import Sage.Infra.RingBufferFifo
import Sage.Rme.PositionTracker
import Sage.Rme.BreakerRaces
import Sage.Poe.Printf
import Sage.Poe.FixEncoder
import Sage.Poe.FixEncoderLaws
import Sage.Poe.AuditLog
import Sage.Poe.AuditRecords
import Sage.Poe.AuditCounters
import Sage.Poe.Engine
import Sage.Poe.Lifecycle
import Sage.Poe.Shutdown
import Sage.Rme.RiskEngine
import Sage.Cal.Connector
import Sage.Ade.Statistics
import Sage.Ade.StatisticsLaws
import Sage.Ade.TickBufferLaws
import Sage.Ade.AdaptiveWindow
import Sage.Ade.Winsorized
import Sage.Ade.Latency
import Sage.Ade.IntegerSqrt
import Sage.Ade.Variance
import Sage.Ade.Engine
import Sage.Ade.PerSymbol
import Sage.Ade.Output
import Sage.Ade.Accounting
import Sage.Ade.Gate
import Sage.Hpcm.Statistics
