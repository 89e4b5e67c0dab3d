import VideoCdn.Lib.Checked
import VideoCdn.Lib.CString
import VideoCdn.Lib.DnsMessage
import VideoCdn.Lib.DnsGrammar
import VideoCdn.Lib.FirstMin
import VideoCdn.Lib.LinkedList
import VideoCdn.Lib.Machine
import VideoCdn.Lib.Ownership
import VideoCdn.Lib.ShortestPath
import VideoCdn.Lib.Smoothing
import VideoCdn.Lib.Worklist
import VideoCdn.Lib.BreadthFirst
import VideoCdn.Lib.Datagrams
import VideoCdn.Lib.Erasure
import VideoCdn.Lib.Protocol
import VideoCdn.Mydns
import VideoCdn.HostName
import VideoCdn.WireName
import VideoCdn.Servers
import VideoCdn.Graph
import VideoCdn.Dijkstra
import VideoCdn.DijkstraInt
import VideoCdn.LoaderSteps
import VideoCdn.QueryDns
import VideoCdn.ServerMatch
import VideoCdn.LsaOrder
import VideoCdn.Genlsa
import VideoCdn.GenlsaOrder
import VideoCdn.LoaderBounds
import VideoCdn.ServersAgree
import VideoCdn.AnswerOrder
import VideoCdn.ServerChanges
import VideoCdn.Nameserver
import VideoCdn.NameserverLoop
import VideoCdn.Resolve
import VideoCdn.NameService
import VideoCdn.Rejection
import VideoCdn.ReplyFormat
import VideoCdn.Bitrate
import VideoCdn.Handle
import VideoCdn.ChunkPath
import VideoCdn.ChunkQueue
import VideoCdn.TrackerHeap
import VideoCdn.Manifest
import VideoCdn.StartWith
import VideoCdn.LinePieces
import VideoCdn.ManifestRewrite
import VideoCdn.Proxy
import VideoCdn.HeaderEnd
import VideoCdn.ServerResponse
import VideoCdn.ResponseLines
import VideoCdn.ResponseType
import VideoCdn.ContentLength
import VideoCdn.Allocation
import VideoCdn.ManifestLoops
import VideoCdn.ManifestBody
import VideoCdn.Chained
import VideoCdn.Listening
import VideoCdn.SplitRequest
import VideoCdn.Descriptors
import VideoCdn.Deadlock
import VideoCdn.RequestWords
import VideoCdn.ClientFailure
import VideoCdn.Isolation
import VideoCdn.Exchanges
import VideoCdn.Leak
import VideoCdn.Measurement
import VideoCdn.RequestBounds
import VideoCdn.AdvertisedRates
import VideoCdn.UnusedRates
import VideoCdn.Estimates
import VideoCdn.RateChoice
import VideoCdn.TrackerEvents
import VideoCdn.Adaptation
import VideoCdn.LoggedRates
import VideoCdn.ApacheSetup
import VideoCdn.Grapher
import VideoCdn.LogText
import VideoCdn.NoFaults
import VideoCdn.ClientConnections
