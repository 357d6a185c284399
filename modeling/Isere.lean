import Isere.Answers
import Isere.CString
import Isere.CallbackCalls
import Isere.CheckedArrays
import Isere.ClientReads
import Isere.Components
import Isere.ConnCount
import Isere.ConnLife
import Isere.ConnProtocol
import Isere.ContextFailures
import Isere.Crlf
import Isere.DeletedTimers
import Isere.Delivery
import Isere.DrainOrder
import Isere.DrainTurn
import Isere.Emitter
import Isere.EventDelivery
import Isere.EventObject
import Isere.Exports
import Isere.FailedTimeouts
import Isere.FreedTimers
import Isere.FuncRefs
import Isere.HandlerCb
import Isere.HandlerEnds
import Isere.HeaderPointers
import Isere.HeaderTable
import Isere.Httpd
import Isere.HttpdEffects
import Isere.HttpdInvariant
import Isere.HttpdSteps
import Isere.IntrusiveRing
import Isere.JerryCalls
import Isere.JerryContexts
import Isere.JerryEntries
import Isere.JerryOwnership
import Isere.JerryProgress
import Isere.JerryScript
import Isere.JerryServer
import Isere.JerryValues
import Isere.JsMalloc
import Isere.JsQueue
import Isere.JsTimers
import Isere.MetricExport
import Isere.MetricStrings
import Isere.Nanopb
import Isere.Otel
import Isere.OtelConnection
import Isere.OtelMetrics
import Isere.OtelSockets
import Isere.OtelUptime
import Isere.OwnedFrames
import Isere.OwnedValues
import Isere.PollSlots
import Isere.PowersOfTwo
import Isere.PushList
import Isere.QuickJsOwnership
import Isere.QuickJsValues
import Isere.Quiescence
import Isere.Received
import Isere.Regions
import Isere.Request
import Isere.RequestBuffers
import Isere.RequestHead
import Isere.RequestLimit
import Isere.RequestMemory
import Isere.ResourceAttributes
import Isere.Response
import Isere.ResponseBlocks
import Isere.RoundRobin
import Isere.Routing
import Isere.Runs
import Isere.Runtimes
import Isere.Segments
import Isere.SentBody
import Isere.ServerLoop
import Isere.Sessions
import Isere.SharedCounter
import Isere.SlotTable
import Isere.Sockets
import Isere.Splitting
import Isere.StaleEvents
import Isere.StatusLine
import Isere.TableSize
import Isere.Tcp
import Isere.TcpPorts
import Isere.TimerHandles
import Isere.TimerLedger
import Isere.TimerLimit
import Isere.TimerPeriod
import Isere.UrlParser
import Isere.UvCalls
import Isere.UvLoop
import Isere.UvMemory
import Isere.UvQueue
import Isere.UvRefinement
import Isere.ValueOwnership
import Isere.WatcherTable
import Isere.WireFormat
