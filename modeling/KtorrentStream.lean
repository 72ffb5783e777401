import KtorrentStream.Bcodec.BNode
import KtorrentStream.Bcodec.BDecoder
import KtorrentStream.Bcodec.Grammar
import KtorrentStream.Bcodec.Decoding
import KtorrentStream.Bcodec.BEncoder
import KtorrentStream.Bcodec.Ranges
import KtorrentStream.Lib.Reassembly
import KtorrentStream.Lib.Effects
import KtorrentStream.Util.CircularBuffer
import KtorrentStream.Utp.SeqNr
import KtorrentStream.Utp.Protocol
import KtorrentStream.Utp.LocalWindow
import KtorrentStream.Utp.Window
import KtorrentStream.Utp.Acknowledgement
import KtorrentStream.Utp.PacketBuffer
import KtorrentStream.Utp.Connection
import KtorrentStream.Utp.Steps
import KtorrentStream.Utp.Handlers
import KtorrentStream.Utp.Lifecycle
import KtorrentStream.Utp.SelectiveAck
import KtorrentStream.Utp.Sender
import KtorrentStream.Utp.Receiver
import KtorrentStream.Utp.Stream
import KtorrentStream.Lib.Bits
import KtorrentStream.Util.BitSet
import KtorrentStream.Util.PtrMap
import KtorrentStream.Diskio.PieceData
import KtorrentStream.Download.PieceDownloader
import KtorrentStream.Util.File
import KtorrentStream.Download.ChunkDownload
import KtorrentStream.Download.PieceHash
import KtorrentStream.Download.ContentHash
import KtorrentStream.Download.Session
import KtorrentStream.Download.Downloader
import KtorrentStream.Download.Run
import KtorrentStream.Download.Grabbing
import KtorrentStream.Download.GrabCount
import KtorrentStream.Download.PieceBounds
import KtorrentStream.Download.ManagerOfStream
import KtorrentStream.Util.Word
import KtorrentStream.Torrent.TorrentFile
import KtorrentStream.Torrent.TorrentFileStream
import KtorrentStream.Torrent.StreamPosition
import KtorrentStream.Torrent.StreamReading
import KtorrentStream.Torrent.StreamRun
import KtorrentStream.Torrent.StreamCursor
import KtorrentStream.Torrent.Files
import KtorrentStream.Diskio.MultiFileCache
import KtorrentStream.Diskio.AddressMap
import KtorrentStream.Diskio.SavedBytes
import KtorrentStream.Torrent.Load
import KtorrentStream.Torrent.Metadata
import KtorrentStream.Download.Packet
import KtorrentStream.Lib.Framing
import KtorrentStream.Peer.Availability
import KtorrentStream.Peer.ChunkCounter
import KtorrentStream.Peer.PacketFraming
import KtorrentStream.Peer.PacketReader
import KtorrentStream.Peer.PeerManager
import KtorrentStream.Peer.PeerUploader
import KtorrentStream.Peer.Uploads
import KtorrentStream.Util.Bytes
import KtorrentStream.Bcodec.Fields
import KtorrentStream.Dht.BucketNodes
import KtorrentStream.Dht.KBucket
import KtorrentStream.Dht.KBucketTable
import KtorrentStream.Dht.Key
import KtorrentStream.Dht.Partition
import KtorrentStream.Dht.RPCCalls
import KtorrentStream.Dht.RPCServer
import KtorrentStream.Lib.BigEndian
import KtorrentStream.Net.Address
import KtorrentStream.Dht.RPCMsg
import KtorrentStream.Magnet.MetadataDownload
import KtorrentStream.Peer.MetadataExchange
import KtorrentStream.Peer.UTMetaData
import KtorrentStream.Dht.AnnounceTask
import KtorrentStream.Dht.MessageRoundTrip
import KtorrentStream.Dht.TokenEcho
import KtorrentStream.Diskio.ChunkManager
import KtorrentStream.Util.PtrMapTotal
import KtorrentStream.Diskio.BytesLeft
import KtorrentStream.Download.CurrentChunks
import KtorrentStream.Torrent.TorrentControl
import KtorrentStream.Lib.MarkedSum
import KtorrentStream.Download.PieceBytes
import KtorrentStream.Download.Steady
import KtorrentStream.Torrent.ByteCount
import KtorrentStream.Net.NetworkThread
import KtorrentStream.Net.SocketGroup
import KtorrentStream.Peer.ConnectionLimit
import KtorrentStream.Tracker.UDPTrackerSocket
import KtorrentStream.Mse.KeyExchange
import KtorrentStream.Net.RateCaps
import KtorrentStream.Dht.Database
import KtorrentStream.Mse.KeyAgreement
import KtorrentStream.Dht.AnnouncedPeers
import KtorrentStream.Peer.UTPex
import KtorrentStream.Download.WebSeed
import KtorrentStream.Download.WebSeedRanges
import KtorrentStream.Download.WebSeedRun
import KtorrentStream.Net.PacketSocket
import KtorrentStream.Net.PacketStream
import KtorrentStream.Torrent.CreatedTorrent
import KtorrentStream.Torrent.CreatorHashes
import KtorrentStream.Torrent.TorrentCreator
import KtorrentStream.Mse.Buffering
import KtorrentStream.Mse.ClientStream
import KtorrentStream.Mse.EncryptedServerAuthenticate
import KtorrentStream.Mse.Fragmentation
import KtorrentStream.Mse.Handover
import KtorrentStream.Utp.Account
import KtorrentStream.Utp.Duplicates
import KtorrentStream.Utp.Emptiness
import KtorrentStream.Utp.FlowControl
import KtorrentStream.Utp.Ledger
import KtorrentStream.Utp.LossDetection
import KtorrentStream.Utp.Renumbering
import KtorrentStream.Lib.Isolation
import KtorrentStream.Utp.Slots
import KtorrentStream.Utp.UTPServer
import KtorrentStream.Utp.Interference
import KtorrentStream.Lib.RoundRobin
import KtorrentStream.Util.ResourceManager
import KtorrentStream.Util.FairShare
import KtorrentStream.Torrent.ChunkFiles
import KtorrentStream.Util.BoundedQueue
import KtorrentStream.Utp.PacketLayout
import KtorrentStream.Utp.ParserSafety
import KtorrentStream.Lib.Along
import KtorrentStream.Utp.CongestionWindow
import KtorrentStream.Lib.SuffixMinima
import KtorrentStream.Utp.BaseDelay
import KtorrentStream.Util.BitSetOperations
import KtorrentStream.Util.IndexSets
import KtorrentStream.Diskio.DNDFile
import KtorrentStream.Diskio.ExcludedFiles
import KtorrentStream.Diskio.Exclusion
import KtorrentStream.Diskio.PartReads
import KtorrentStream.Diskio.FilePriorities
import KtorrentStream.Diskio.PriorityFrame
import KtorrentStream.Peer.SuperSeeder
import KtorrentStream.Peer.SuperSeederMaps
import KtorrentStream.Peer.SuperSeeding
import KtorrentStream.Diskio.ChunksLeft
import KtorrentStream.Diskio.FileMappings
import KtorrentStream.Torrent.Recording
import KtorrentStream.Download.Selection
import KtorrentStream.Download.StreamingBuffers
import KtorrentStream.Torrent.BytesAvailable
import KtorrentStream.Download.Reassignment
import KtorrentStream.Lib.Sorting
import KtorrentStream.Download.PeerAssignment
import KtorrentStream.Download.ReassignmentPass
import KtorrentStream.Download.PieceRequests
import KtorrentStream.Lib.Runs
import KtorrentStream.Download.RangeSelection
import KtorrentStream.Download.RequestLimits
import KtorrentStream.Peer.NewConnection
import KtorrentStream.Lib.Transducer
import KtorrentStream.Mse.ReadPath
import KtorrentStream.Peer.Handshake
import KtorrentStream.Peer.ExtendedHandshake
import KtorrentStream.Peer.MetadataSafety
import KtorrentStream.Lib.Radix
import KtorrentStream.Magnet.MagnetLink
import KtorrentStream.Lib.Traced
import KtorrentStream.Tracker.DatagramBounds
import KtorrentStream.Download.ChunkFrame
import KtorrentStream.Torrent.AdvancedChokeAlgorithm
import KtorrentStream.Peer.OfferedChunk
import KtorrentStream.Util.ResourceAcquisition
import KtorrentStream.Dht.KClosestNodesSearch
import KtorrentStream.Dht.Pack
import KtorrentStream.Lib.Smallest
import KtorrentStream.Dht.ClosestNodes
import KtorrentStream.Dht.TokenHistory
import KtorrentStream.Dht.RPCAnswers
import KtorrentStream.Lib.Rounds
import KtorrentStream.Dht.NodeLookup
import KtorrentStream.Dht.Lookups
import KtorrentStream.Dht.TablePersistence
import KtorrentStream.Dht.BucketSplits
import KtorrentStream.Tracker.TrackerManager
import KtorrentStream.Tracker.CurrentTracker
import KtorrentStream.Net.Socks
import KtorrentStream.Download.HttpConnection
import KtorrentStream.Datachecker.IntactChunks
import KtorrentStream.Datachecker.MultiDataChecker
import KtorrentStream.Diskio.ExclusionLaw
import KtorrentStream.Utp.Closing
import KtorrentStream.Diskio.ChunkView
import KtorrentStream.Diskio.ChunkStates
import KtorrentStream.Diskio.Restart
import KtorrentStream.Download.ChunkSelector
import KtorrentStream.Download.SavedDownloads
import KtorrentStream.Peer.PacketDelivery
import KtorrentStream.Peer.ConnectionPool
import KtorrentStream.Datachecker.SingleDataChecker
