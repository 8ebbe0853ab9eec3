import Join.Library.Program
import Join.Library.Ieee
import Join.Library.JsonText
import Join.Data.Value
import Join.Data.View
import Join.Data.Sax
import Join.Data.Reading
import Join.Data.JsonNumber
import Join.Data.JsonReader
import Join.Data.ViewRefinement
import Join.Data.ReadingViews
import Join.Data.JsonViews
import Join.Data.JsonScanner
import Join.Data.JsonEvents
import Join.Data.JsonSoundness
import Join.Data.JsonMeaning
import Join.Data.JsonGrammar
import Join.Library.JsonItems
import Join.Data.JsonComments
import Join.Data.JsonWriter
import Join.Data.JsonRoundTrip
import Join.Core.ByteSwap
import Join.Data.PackReader
import Join.Data.PackWriter
import Join.Data.PackViews
import Join.Data.PackMeaning
import Join.Data.PackItems
import Join.Data.PackRoundTrip
import Join.Data.PackTruncation
import Join.Data.ReaderReuse
import Join.Core.Queue
import Join.Library.TicketRing
import Join.Core.RingThreads
import Join.Core.RingProducer
import Join.Core.RingSystem
import Join.Core.MpmcSafety
import Join.Core.MpscSafety
import Join.Core.Fifo
import Join.Core.RingSequence
import Join.Core.MpscSequence
import Join.Core.MpmcSequence
import Join.Core.RingFifo
import Join.Core.Spsc
import Join.Core.SpscSafety
import Join.Core.SpscReopen
import Join.Core.Pool
import Join.Core.PoolSafety
import Join.Core.Address
import Join.Fabric.DnsMessage
import Join.Fabric.DnsNames
import Join.Fabric.DnsWire
import Join.Fabric.DnsRoundTrip
import Join.Library.Pieces
import Join.Fabric.DnsTruncation
import Join.Fabric.DhcpOption
import Join.Fabric.DhcpMessage
import Join.Fabric.DhcpTyping
import Join.Fabric.DhcpRoundTrip
import Join.Core.Utils
import Join.Library.Numerals
import Join.Services.ChunkStream
import Join.Services.HttpMessage
import Join.Services.HttpPath
import Join.Services.HttpRoundTrip
import Join.Services.HttpWorker
import Join.Data.ValueOrder
import Join.Data.JsonCanonicalizer
import Join.Data.Zstream
import Join.Library.MessagePack
import Join.Data.PackConformance
import Join.Library.Doorbell
import Join.Core.Reactor
import Join.Core.ReactorSystem
import Join.Core.ReactorCommands
import Join.Core.ReactorDispatch
import Join.Core.ReactorStop
import Join.Core.EpollProactor
import Join.Core.EpollCommands
import Join.Core.EpollStop
import Join.Core.UringProactor
import Join.Core.UringStop
import Join.Core.ProactorStop
import Join.Core.Futex
import Join.Core.ThreadPool
import Join.Core.ThreadPoolJobs
import Join.Fabric.TlsResolver
import Join.Fabric.DhcpFrame
import Join.Core.EpollOperations
import Join.Core.EpollSlots
import Join.Core.EpollStream
import Join.Core.UringOperations
import Join.Library.Roster
import Join.Core.UringListing
import Join.Core.UringCompletions
import Join.Core.ProactorShutdown
import Join.Fabric.DnsDecoding
import Join.Fabric.DnsFraming
import Join.Data.JsonScanning
import Join.Core.Percentile
import Join.Library.DotStuffing
import Join.Core.Splitting
import Join.Fabric.DnsMail
import Join.Services.HttpNormalize
import Join.Services.HttpQuery
import Join.Services.HttpDecoding
import Join.Core.Arena
import Join.Core.ArenaRuns
import Join.Core.SocketStream
import Join.Core.SocketStreamRuns
import Join.Services.SmtpMessage
import Join.Core.SocketStreamLines
import Join.Services.SmtpClient
import Join.Services.SmtpDialogue
import Join.Services.SmtpStartTls
import Join.Core.MacArithmetic
import Join.Core.EpollSubmit
import Join.Core.StatisticsRuns
import Join.Core.Timer
import Join.Data.WideProduct
import Join.Core.Ipv6Text
import Join.Crypto.Evp
import Join.Library.PutArea
import Join.Crypto.Base64Stream
import Join.Crypto.DigestStream
import Join.Crypto.DecoderRoom
import Join.Crypto.DecoderFaith
import Join.Crypto.Hostname
import Join.Fabric.RouteCache
import Join.Fabric.LinkCache
import Join.Fabric.NetlinkRequests
import Join.Fabric.DhcpExchange
import Join.Fabric.DnsQuery
import Join.Core.ErrorCode
import Join.Fabric.PingAnswer
import Join.Fabric.PingEcho
import Join.Fabric.Traceroute
import Join.Fabric.NetlinkAttributes
import Join.Core.Variant
import Join.Data.PackSwap
import Join.Data.DiyFp
import Join.Library.IeeeNeighbours
import Join.Library.Overflow
import Join.Data.DigitsGen
import Join.Data.DtoaPow
import Join.Data.Grisu
import Join.Data.Prettify
import Join.Data.AtodPow
import Join.Data.StrtodFast
import Join.Fabric.NeighborCache
import Join.Services.Cache
import Join.Services.HttpServer
