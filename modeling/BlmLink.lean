import BlmLink.Lib.Between
import BlmLink.Lib.BinaryHeap
import BlmLink.Lib.BlockStream
import BlmLink.Lib.ByteField
import BlmLink.Lib.Cbc
import BlmLink.Lib.Compaction
import BlmLink.Lib.ErrorMark
import BlmLink.Lib.Fifo
import BlmLink.Lib.Framer
import BlmLink.Lib.Hoare
import BlmLink.Lib.KeyedRounds
import BlmLink.Lib.Numerals
import BlmLink.Lib.Objects
import BlmLink.Lib.Parsing
import BlmLink.Lib.Pieces
import BlmLink.Lib.Sextets
import BlmLink.Lib.Substring
import BlmLink.Lib.SwapRemove
import BlmLink.Lib.Trace
import BlmLink.Source.Aes
import BlmLink.Source.Aes128Cipher
import BlmLink.Source.Arc4
import BlmLink.Source.Base64
import BlmLink.Source.BlmClient
import BlmLink.Source.BlmIoqueue
import BlmLink.Source.BlmLog
import BlmLink.Source.Bytes
import BlmLink.Source.CJson
import BlmLink.Source.CJsonErrors
import BlmLink.Source.CJsonPrint
import BlmLink.Source.CallbackRegistry
import BlmLink.Source.ClientTcp
import BlmLink.Source.ConnectQueue
import BlmLink.Source.Hash
import BlmLink.Source.HttpResponse
import BlmLink.Source.HttpUrl
import BlmLink.Source.JsonObjects
import BlmLink.Source.PjHttp
import BlmLink.Source.PjTcpClose
import BlmLink.Source.PjTcpRead
import BlmLink.Source.PjTcpWrite
import BlmLink.Source.PjTimer
import BlmLink.Source.ProConPool
import BlmLink.Source.SingleComm
import BlmLink.Source.UtilFun
import BlmLink.Source.UtilStrings
import BlmLink.Source.Zlib
import BlmLink.Guarantees.AesRounds
import BlmLink.Guarantees.AesStandard
import BlmLink.Guarantees.AesTables
import BlmLink.Guarantees.BareStrings
import BlmLink.Guarantees.BareWords
import BlmLink.Guarantees.Base64RoundTrip
import BlmLink.Guarantees.BodyRoundTrip
import BlmLink.Guarantees.CallbackRemoval
import BlmLink.Guarantees.CaseCompare
import BlmLink.Guarantees.CipherPadding
import BlmLink.Guarantees.ConnectPhase
import BlmLink.Guarantees.DelimitedText
import BlmLink.Guarantees.DescriptorReuse
import BlmLink.Guarantees.Digests
import BlmLink.Guarantees.Dispatch
import BlmLink.Guarantees.DispatchEdits
import BlmLink.Guarantees.FreshMemory
import BlmLink.Guarantees.HeaderCheck
import BlmLink.Guarantees.HttpDelivery
import BlmLink.Guarantees.HttpPages
import BlmLink.Guarantees.IntLists
import BlmLink.Guarantees.JsonDialect
import BlmLink.Guarantees.JsonLocality
import BlmLink.Guarantees.JsonOwners
import BlmLink.Guarantees.JsonPrinter
import BlmLink.Guarantees.JsonRecursion
import BlmLink.Guarantees.JsonRoundTrip
import BlmLink.Guarantees.KeyExchange
import BlmLink.Guarantees.KeyStream
import BlmLink.Guarantees.Lifetime
import BlmLink.Guarantees.LinkDelivery
import BlmLink.Guarantees.LogFilter
import BlmLink.Guarantees.ObjectRemoval
import BlmLink.Guarantees.Ownership
import BlmLink.Guarantees.ParseErrors
import BlmLink.Guarantees.PjTimerArrays
import BlmLink.Guarantees.PjTimerState
import BlmLink.Guarantees.PjTimers
import BlmLink.Guarantees.PollLoop
import BlmLink.Guarantees.PoolRefinement
import BlmLink.Guarantees.ReadCompletions
import BlmLink.Guarantees.SendOrder
import BlmLink.Guarantees.SessionKeys
import BlmLink.Guarantees.StreamReassembly
import BlmLink.Guarantees.StringPasses
import BlmLink.Guarantees.TextReplacement
import BlmLink.Guarantees.TickArithmetic
import BlmLink.Guarantees.TimerDelay
import BlmLink.Guarantees.TimerHeap
import BlmLink.Guarantees.TimerRegistry
import BlmLink.Guarantees.WgetCompletion
import BlmLink.Guarantees.WriteBuffers
import BlmLink.Guarantees.ZlibGrowth
