import Ns3Blockchain.Model.BlockchainNode

/-! # The life of a node

`StartApplication` and `StopApplication` of `blockchain-node.cc`, with the members of the
node that no handler uses, up to its disposal.  The sockets are numbered as
`Socket::CreateSocket` makes them; what is done to them is an `ApplicationEffect`.
`SetNodeStats` is taken to have been called.
-/

namespace Ns3Blockchain

open Library

/-- The fields of `nodeStatistics` that only `StartApplication` and `StopApplication`
    write. -/
structure ApplicationStatistics where
  nodeId : CInt
  meanBlockReceiveTime : ℚ
  meanBlockPropagationTime : ℚ
  meanBlockSize : ℚ
  totalBlocks : CInt
  miner : CInt
  minerGeneratedBlocks : CInt
  minerAverageBlockGenInterval : ℚ
  minerAverageBlockSize : ℚ
  hashRate : ℚ
  getHeadersReceivedBytes : Int
  getHeadersSentBytes : Int
  headersReceivedBytes : Int
  headersSentBytes : Int
  getDataSentBytes : Int
  blockReceivedBytes : Int
  blockSentBytes : Int
  longestFork : CInt
  blocksInForks : CInt
  connections : CInt
  blockTimeouts : Int
  nodeGeneratedTransaction : CInt
  meanEndorsementTime : ℚ
  meanOrderingTime : ℚ
  meanValidationTime : ℚ
  meanLatency : ℚ
  nodeType : CInt
deriving DecidableEq

inductive ApplicationEffect where
  /-- `Socket::CreateSocket`. -/
  | createSocket (socket : Socket)
  | bind (socket : Socket) (address : Address)
  | listen (socket : Socket)
  | shutdownSend (socket : Socket)
  | multicastJoinGroup (socket : Socket) (address : Address)
  /-- `SetRecvCallback`, `SetAcceptCallback` and `SetCloseCallbacks`. -/
  | setCallbacks (socket : Socket)
  | connect (socket : Socket) (ipv4 : Ipv4Address) (port : UInt16)
  | close (socket : Socket)
  /-- `SetRecvCallback` with a null callback. -/
  | clearRecvCallback (socket : Socket)
  | createTransaction
  /-- `Simulator::Cancel(m_nextTransaction)`. -/
  | cancelNextTransaction
  /-- What `AdvertiseNewBlock` does. -/
  | node (effect : Effect)

/-- The ways a call on the application ends abnormally. -/
inductive ApplicationFault where
  | node (fault : Fault)
  /-- `NS_FATAL_ERROR`. -/
  | fatalError
deriving DecidableEq

abbrev ApplicationExec := Except ApplicationFault

structure ApplicationExternal extends External where
  /-- `addressUtils::IsMulticast`. -/
  isMulticast : Address → Bool
  createTransaction : BlockchainNode → BlockchainNode

structure NodeApplication where
  node : BlockchainNode
  /-- `m_local`. -/
  localAddress : Address
  /-- The sockets of the factory `m_tid` are `UdpSocket`s. -/
  udpSocket : Bool
  /-- `m_socket`; `none` is the null `Ptr<Socket>`. -/
  socket : Option Socket
  meanBlockReceiveTime : ℚ
  meanBlockPropagationTime : ℚ
  meanBlockSize : ℚ
  meanOrderingTime : ℚ
  meanValidationTime : ℚ
  meanLatency : ℚ
  stats : ApplicationStatistics
  /-- How many sockets `Socket::CreateSocket` has made. -/
  created : Nat
  trace : List ApplicationEffect

namespace NodeApplication

/-- The constructor, on a node, its attributes and the `nodeStatistics` it is given. -/
def new (node : BlockchainNode) (localAddress : Address) (udpSocket : Bool)
    (stats : ApplicationStatistics) : NodeApplication where
  node := node
  localAddress := localAddress
  udpSocket := udpSocket
  socket := none
  meanBlockReceiveTime := 0
  meanBlockPropagationTime := 0
  meanBlockSize := 0
  meanOrderingTime := 0
  meanValidationTime := 0
  meanLatency := 0
  stats := stats
  created := 0
  trace := []

def blockchainPort : UInt16 := 8333

def emit (app : NodeApplication) (effects : List ApplicationEffect) : NodeApplication :=
  { app with trace := app.trace ++ effects }

def getListeningSocket (app : NodeApplication) : Option Socket := app.socket

def getPeerAddress (app : NodeApplication) : List Ipv4Address := app.node.peersAddresses

def setPeersAddresses (app : NodeApplication) (peers : List Ipv4Address) : NodeApplication :=
  { app with node := { app.node with peersAddresses := peers } }

/-- `Socket::CreateSocket`. -/
def createSocket (app : NodeApplication) : NodeApplication × Socket :=
  let socket : Socket := { id := app.created }
  ({ app with created := app.created + 1, trace := app.trace ++ [.createSocket socket] }, socket)

section

variable (env : ApplicationExternal)

/-- The branch of a null `m_socket`. -/
def openSocket (app : NodeApplication) : ApplicationExec NodeApplication := do
  let (app, socket) := app.createSocket
  let app := { app with socket := some socket }
  let app := app.emit [.bind socket app.localAddress, .listen socket, .shutdownSend socket]
  if env.isMulticast app.localAddress then
    if app.udpSocket then
      return app.emit [.multicastJoinGroup socket app.localAddress]
    else
      .error .fatalError
  else
    return app

/-- One pass of the peer loop: a new socket takes the place of the one the map has for
    the address. -/
def connectPeer (app : NodeApplication) (peer : Ipv4Address) : NodeApplication :=
  let (app, socket) := app.createSocket
  let peersSockets := app.node.peersSockets.insert peer (some socket)
  { app with node := { app.node with peersSockets } }.emit [.connect socket peer blockchainPort]

/-- What `StartApplication` writes to `m_nodeStats`. -/
def resetStats (app : NodeApplication) : NodeApplication :=
  { app with
    stats := {
      nodeId := CInt.ofUInt32 app.node.id
      meanBlockReceiveTime := 0
      meanBlockPropagationTime := 0
      meanBlockSize := 0
      totalBlocks := CInt.lit 0
      miner := CInt.lit 0
      minerGeneratedBlocks := CInt.lit 0
      minerAverageBlockGenInterval := 0
      minerAverageBlockSize := 0
      hashRate := 0
      getHeadersReceivedBytes := 0
      getHeadersSentBytes := 0
      headersReceivedBytes := 0
      headersSentBytes := 0
      getDataSentBytes := 0
      blockReceivedBytes := 0
      blockSentBytes := 0
      longestFork := CInt.lit 0
      blocksInForks := CInt.lit 0
      connections := CInt.lit app.node.peersAddresses.length
      blockTimeouts := 0
      nodeGeneratedTransaction := CInt.lit 0
      meanEndorsementTime := 0
      meanOrderingTime := 0
      meanValidationTime := 0
      meanLatency := 0
      nodeType :=
        match app.node.committerType with
        | .committer => CInt.lit 0
        | .endorser => CInt.lit 1
        | .client => CInt.lit 2
        | .order => CInt.lit 3 }
    node := {
      app.node with
      nodeStats := { invReceivedBytes := 0, invSentBytes := 0, getDataReceivedBytes := 0 } } }

/-- The `CLIENT` branch at the end of `StartApplication`. -/
def startClient (app : NodeApplication) : NodeApplication :=
  if app.node.committerType = .client then
    { app with node := env.createTransaction app.node }.emit [.createTransaction]
  else
    app

/-- `if(!m_socket)`. -/
def ensureSocket (app : NodeApplication) : ApplicationExec NodeApplication :=
  match app.socket with
  | none => app.openSocket env
  | some _ => .ok app

def startApplication (app : NodeApplication) : ApplicationExec NodeApplication := do
  let app ← app.ensureSocket env
  let app := app.emit (app.socket.toList.map .setCallbacks)
  let app := app.node.peersAddresses.foldl connectPeer app
  return app.resetStats.startClient env

end

/-- `m_peersSockets[peer]->Close()`: a missing entry is made, with a null socket. -/
def closePeer (app : NodeApplication) (peer : Ipv4Address) : ApplicationExec NodeApplication :=
  match app.node.peersSockets.lookup peer with
  | some (some socket) => .ok (app.emit [.close socket])
  | _ => .error (.node .nullSocket)

/-- What `StopApplication` writes to `m_nodeStats`. -/
def publishStats (app : NodeApplication) : NodeApplication :=
  { app with
    stats := {
      app.stats with
      meanBlockReceiveTime := app.meanBlockReceiveTime
      meanBlockPropagationTime := app.meanBlockPropagationTime
      meanBlockSize := app.meanBlockSize
      totalBlocks := app.node.blockchain.getTotalBlocks
      meanEndorsementTime := app.node.meanEndorsementTime
      meanOrderingTime := app.meanOrderingTime
      meanValidationTime := app.meanValidationTime
      meanLatency := app.meanLatency } }

def stopApplication (app : NodeApplication) : ApplicationExec NodeApplication := do
  let app ← foldChecked closePeer app app.node.peersAddresses
  let app :=
    match app.socket with
    | some socket => app.emit [.close socket, .clearRecvCallback socket]
    | none => app
  return (app.emit [.cancelNextTransaction]).publishStats

/-- `AdvertiseNewBlock`, of the node the application is. -/
def advertiseNewBlock (env : ApplicationExternal) (newBlock : Block) (app : NodeApplication) :
    ApplicationExec NodeApplication :=
  match BlockchainNode.advertiseNewBlock env.toExternal newBlock app.node with
  | .ok run => .ok ({ app with node := run.node }.emit (run.trace.map .node))
  | .error fault => .error (.node fault)

end NodeApplication

end Ns3Blockchain
