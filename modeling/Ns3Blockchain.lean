import Ns3Blockchain.Library.Loop
import Ns3Blockchain.Library.Arrivals
import Ns3Blockchain.Library.RunningMean
import Ns3Blockchain.Library.KeyPool
import Ns3Blockchain.Library.Registers
import Ns3Blockchain.Library.Independence
import Ns3Blockchain.Library.Entries
import Ns3Blockchain.Library.Network
import Ns3Blockchain.Library.RankedLog
import Ns3Blockchain.Library.Scanning
import Ns3Blockchain.Library.Framing
import Ns3Blockchain.Library.Decimal
import Ns3Blockchain.Model.Blockchain
import Ns3Blockchain.Model.Rapidjson
import Ns3Blockchain.Model.BlockchainNode
import Ns3Blockchain.Model.Itoa
import Ns3Blockchain.Model.Events
import Ns3Blockchain.Model.Writer
import Ns3Blockchain.Model.Reader
import Ns3Blockchain.Model.Document
import Ns3Blockchain.Model.Application
import Ns3Blockchain.Verified.BlockCalls
import Ns3Blockchain.Verified.BlockHeader
import Ns3Blockchain.Verified.BlockTransactions
import Ns3Blockchain.Verified.Copies
import Ns3Blockchain.Verified.Store
import Ns3Blockchain.Verified.ForkChoice
import Ns3Blockchain.Verified.Lineage
import Ns3Blockchain.Verified.Orphans
import Ns3Blockchain.Verified.BlockLookup
import Ns3Blockchain.Verified.Traversal
import Ns3Blockchain.Verified.StoreHeights
import Ns3Blockchain.Verified.FrameLoop
import Ns3Blockchain.Verified.Reassembly
import Ns3Blockchain.Verified.Advertisement
import Ns3Blockchain.Verified.Traffic
import Ns3Blockchain.Verified.FrameShape
import Ns3Blockchain.Verified.InvLookup
import Ns3Blockchain.Verified.Endorsement
import Ns3Blockchain.Verified.EndorsementMean
import Ns3Blockchain.Verified.Replies
import Ns3Blockchain.Verified.InvTables
import Ns3Blockchain.Verified.InvSpellings
import Ns3Blockchain.Verified.InvRequest
import Ns3Blockchain.Verified.Redelivery
import Ns3Blockchain.Verified.Interleaving
import Ns3Blockchain.Verified.FrameRepeats
import Ns3Blockchain.Verified.Itoa
import Ns3Blockchain.Verified.Writer
import Ns3Blockchain.Verified.WriterRuns
import Ns3Blockchain.Verified.JsonText
import Ns3Blockchain.Verified.Document
import Ns3Blockchain.Verified.JsonStrings
import Ns3Blockchain.Verified.JsonNumbers
import Ns3Blockchain.Verified.JsonReader
import Ns3Blockchain.Verified.JsonRoundTrip
import Ns3Blockchain.Verified.JsonFrames
import Ns3Blockchain.Verified.JsonPrefixes
import Ns3Blockchain.Verified.JsonUnicode
import Ns3Blockchain.Verified.Sockets
import Ns3Blockchain.Verified.SocketLife
import Ns3Blockchain.Verified.Gossip
