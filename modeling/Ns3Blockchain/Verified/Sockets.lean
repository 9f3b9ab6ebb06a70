import Ns3Blockchain.Model.Application
import Ns3Blockchain.Verified.Advertisement

/-! # The sockets over the life of a node

`StopApplication` and `AdvertiseNewBlock` call through `m_peersSockets` for whatever
addresses are listed at the time; only `StartApplication` fills the map, for those
listed then.  `StartApplication` opens `m_socket` only if it is null, and
`StopApplication` closes it without making it so.
-/

namespace Ns3Blockchain

open Library Rapidjson BlockchainNode

namespace NodeApplication

/-- The calls of the simulator, of the helper that sets a node up, and of the node on
    itself, before `DoDispose`. -/
inductive Call where
  | setPeersAddresses (peers : List Ipv4Address)
  | startApplication
  | stopApplication
  | advertiseNewBlock (newBlock : Block)

def apply (env : ApplicationExternal) (app : NodeApplication) :
    Call → ApplicationExec NodeApplication
  | .setPeersAddresses peers => .ok (app.setPeersAddresses peers)
  | .startApplication => app.startApplication env
  | .stopApplication => app.stopApplication
  | .advertiseNewBlock newBlock => app.advertiseNewBlock env newBlock

/-- `CreateTransaction` leaves the peers and their sockets. -/
def KeepsPeers (env : ApplicationExternal) : Prop :=
  ∀ node, (env.createTransaction node).peersAddresses = node.peersAddresses ∧
    (env.createTransaction node).peersSockets = node.peersSockets

variable {env : ApplicationExternal}

/-! ## What each call does -/

/-- The socket the map has for a peer. -/
def socketOf (app : NodeApplication) (peer : Ipv4Address) : Option Socket :=
  (app.node.peersSockets.lookup peer).join

theorem isSome_socketOf_iff (app : NodeApplication) (peer : Ipv4Address) :
    (app.socketOf peer).isSome ↔ app.node.Connected peer := by
  unfold socketOf Connected
  cases app.node.peersSockets.lookup peer with
  | none => simp
  | some socket => cases socket <;> simp

/-- The listening socket, made if there is none. -/
def opened (env : ApplicationExternal) (app : NodeApplication) : NodeApplication :=
  match app.socket with
  | some _ => app
  | none =>
    { app with
      socket := some ⟨app.created⟩
      created := app.created + 1
      trace := app.trace ++ [.createSocket ⟨app.created⟩, .bind ⟨app.created⟩ app.localAddress,
        .listen ⟨app.created⟩, .shutdownSend ⟨app.created⟩] ++
          if env.isMulticast app.localAddress then
            [.multicastJoinGroup ⟨app.created⟩ app.localAddress]
          else [] }

/-- A multicast address is bound by a UDP socket, or nothing is bound. -/
def Binds (env : ApplicationExternal) (app : NodeApplication) : Prop :=
  app.socket = none → env.isMulticast app.localAddress = true → app.udpSocket = true

/-- The application before its peer loop. -/
def ready (env : ApplicationExternal) (app : NodeApplication) : NodeApplication :=
  (app.opened env).emit ((app.opened env).socket.toList.map .setCallbacks)

/-- The application after it. -/
def linked (env : ApplicationExternal) (app : NodeApplication) : NodeApplication :=
  (app.ready env).node.peersAddresses.foldl connectPeer (app.ready env)

def started (env : ApplicationExternal) (app : NodeApplication) : NodeApplication :=
  (app.linked env).resetStats.startClient env

theorem ensureSocket_eq_ok_iff {app app' : NodeApplication} :
    app.ensureSocket env = .ok app' ↔ app.Binds env ∧ app' = app.opened env := by
  unfold ensureSocket Binds opened
  cases there : app.socket with
  | some socket => simp [eq_comm (b := app')]
  | none =>
    unfold openSocket createSocket emit
    by_cases multicast : env.isMulticast app.localAddress = true
    · by_cases udp : app.udpSocket = true
      · simp [multicast, udp, eq_comm (b := app')]
      · simp [multicast, udp]
    · simp [multicast, eq_comm (b := app')]

theorem startApplication_eq_ok_iff {app app' : NodeApplication} :
    app.startApplication env = .ok app' ↔ app.Binds env ∧ app' = app.started env := by
  unfold startApplication
  rw [bind_eq_ok_iff]
  constructor
  · rintro ⟨between, ensured, result⟩
    obtain ⟨binds, rfl⟩ := ensureSocket_eq_ok_iff.mp ensured
    cases result
    exact ⟨binds, rfl⟩
  · rintro ⟨binds, rfl⟩
    exact ⟨_, ensureSocket_eq_ok_iff.mpr ⟨binds, rfl⟩, rfl⟩

theorem closePeer_eq_ok_iff {app app' : NodeApplication} {peer : Ipv4Address} :
    app.closePeer peer = .ok app' ↔
      app.node.Connected peer ∧ app' = app.emit ((app.socketOf peer).toList.map .close) := by
  unfold closePeer socketOf Connected
  cases app.node.peersSockets.lookup peer with
  | none => simp
  | some socket =>
    cases socket with
    | none => simp
    | some socket => simp [eq_comm]

/-- The sockets `StopApplication` closes for the peers. -/
def closing (app : NodeApplication) : List Socket := app.node.peersAddresses.filterMap app.socketOf

theorem closePeers_eq_ok_iff {peers : List Ipv4Address} {app app' : NodeApplication} :
    foldChecked closePeer app peers = .ok app' ↔
      (∀ peer ∈ peers, app.node.Connected peer) ∧
        app' = app.emit ((peers.filterMap app.socketOf).map .close) := by
  induction peers generalizing app with
  | nil => simp [emit, eq_comm (b := app')]
  | cons peer peers inductionHypothesis =>
    have first : foldChecked closePeer app (peer :: peers) =
        app.closePeer peer >>= fun app => foldChecked closePeer app peers := rfl
    have others : ∀ effects, (app.emit effects).socketOf = app.socketOf := fun _ => rfl
    rw [first, bind_eq_ok_iff, List.forall_mem_cons]
    constructor
    · rintro ⟨between, closed, finished⟩
      obtain ⟨connected, rfl⟩ := closePeer_eq_ok_iff.mp closed
      obtain ⟨allConnected, rfl⟩ := inductionHypothesis.mp finished
      obtain ⟨socket, found⟩ := Option.isSome_iff_exists.mp ((isSome_socketOf_iff app peer).mpr connected)
      refine ⟨⟨connected, allConnected⟩, ?_⟩
      rw [others, List.filterMap_cons_some found]
      simp [emit, found]
    · rintro ⟨⟨connected, allConnected⟩, rfl⟩
      obtain ⟨socket, found⟩ := Option.isSome_iff_exists.mp ((isSome_socketOf_iff app peer).mpr connected)
      refine ⟨_, closePeer_eq_ok_iff.mpr ⟨connected, rfl⟩,
        inductionHypothesis.mpr ⟨allConnected, ?_⟩⟩
      rw [others, List.filterMap_cons_some found]
      simp [emit, found]

def stopped (app : NodeApplication) : NodeApplication :=
  publishStats (app.emit (app.closing.map .close ++
    app.socket.toList.flatMap (fun socket => [.close socket, .clearRecvCallback socket]) ++
      [.cancelNextTransaction]))

theorem stopApplication_eq_ok_iff {app app' : NodeApplication} :
    app.stopApplication = .ok app' ↔
      (∀ peer ∈ app.node.peersAddresses, app.node.Connected peer) ∧ app' = app.stopped := by
  unfold stopApplication
  rw [bind_eq_ok_iff]
  have same : ∀ effects, (app.emit effects).socket = app.socket := fun _ => rfl
  have result :
      publishStats (emit (match (app.emit (app.closing.map .close)).socket with
        | some socket =>
          (app.emit (app.closing.map .close)).emit [.close socket, .clearRecvCallback socket]
        | none => app.emit (app.closing.map .close)) [.cancelNextTransaction]) = app.stopped := by
    unfold stopped
    rw [same]
    cases app.socket <;> simp [emit]
  constructor
  · rintro ⟨between, closed, finished⟩
    obtain ⟨connected, rfl⟩ := closePeers_eq_ok_iff.mp closed
    cases finished
    exact ⟨connected, result⟩
  · rintro ⟨connected, rfl⟩
    exact ⟨_, closePeers_eq_ok_iff.mpr ⟨connected, rfl⟩, congrArg Except.ok result⟩

/-- What `AdvertiseNewBlock` leaves as it was. -/
structure SamePeers (node node' : BlockchainNode) : Prop where
  peersAddresses : node'.peersAddresses = node.peersAddresses
  peersSockets : node'.peersSockets = node.peersSockets

theorem samePeers_bookSent (protocolType : ProtocolType) (newBlock : Block) (peer : Ipv4Address)
    (node : BlockchainNode) : SamePeers node (bookSent protocolType newBlock peer node) := by
  unfold bookSent
  split
  next => exact ⟨rfl, rfl⟩
  next => exact ⟨rfl, rfl⟩

theorem advertiseNewBlock_eq_ok {external : External} {newBlock : Block} {node : BlockchainNode}
    {run : NodeRun} (advertised : BlockchainNode.advertiseNewBlock external newBlock node = .ok run) :
    SamePeers node run.node ∧
      ∀ peer ∈ node.peersAddresses, peer ≠ newBlock.getReceivedFromIpv4 → node.Connected peer := by
  have loop := foldChecked_invariant
    (fun consumed run => (SamePeers node run.node ∧ run.node.protocolType = node.protocolType) ∧
      ∀ peer ∈ consumed, peer ≠ newBlock.getReceivedFromIpv4 → node.Connected peer)
    ⟨⟨⟨rfl, rfl⟩, rfl⟩, nofun⟩ ?_ advertised
  · exact ⟨loop.1.1, loop.2⟩
  · rintro consumed peer s s' _ ⟨⟨same, protocol⟩, connected⟩ pass
    obtain ⟨reachable, rfl⟩ := (advertiseTo_eq_ok_iff protocol).mp pass
    have kept := samePeers_bookSent node.protocolType newBlock peer s.node
    refine ⟨⟨⟨kept.peersAddresses.trans same.peersAddresses,
      kept.peersSockets.trans same.peersSockets⟩,
      (bookSent_protocolType _ _ _ _).trans protocol⟩, fun other member outside => ?_⟩
    rcases List.mem_append.mp member with old | new
    · exact connected other old outside
    · rw [List.mem_singleton.mp new] at outside ⊢
      obtain ⟨socket, found⟩ := reachable outside
      exact ⟨socket, by rw [← same.peersSockets, found]⟩

/-! ## What `StartApplication` connects -/

theorem connected_connectPeer (app : NodeApplication) (peer other : Ipv4Address) :
    (app.connectPeer peer).node.Connected other ↔ app.node.Connected other ∨ other = peer := by
  show (∃ socket, (app.node.peersSockets.insert peer (some ⟨app.created⟩)).lookup other = _) ↔ _
  by_cases same : other = peer
  · subst same
    rw [AList.lookup_insert]
    exact iff_of_true ⟨_, rfl⟩ (.inr rfl)
  · rw [AList.lookup_insert_ne same, or_iff_left same]
    rfl

/-- What the calls on the sockets leave as it was. -/
structure SameSetting (app app' : NodeApplication) : Prop where
  peersAddresses : app'.node.peersAddresses = app.node.peersAddresses
  localAddress : app'.localAddress = app.localAddress
  udpSocket : app'.udpSocket = app.udpSocket

theorem connectPeers_setting (peers : List Ipv4Address) (app : NodeApplication) :
    SameSetting app (peers.foldl connectPeer app) ∧
      (peers.foldl connectPeer app).socket = app.socket := by
  induction peers generalizing app with
  | nil => exact ⟨⟨rfl, rfl, rfl⟩, rfl⟩
  | cons peer peers inductionHypothesis =>
    obtain ⟨same, sameSocket⟩ := inductionHypothesis (app.connectPeer peer)
    exact ⟨⟨same.peersAddresses, same.localAddress, same.udpSocket⟩, sameSocket⟩

theorem connected_connectPeers (peers : List Ipv4Address) (app : NodeApplication)
    (other : Ipv4Address) :
    (peers.foldl connectPeer app).node.Connected other ↔ app.node.Connected other ∨ other ∈ peers := by
  induction peers generalizing app with
  | nil => simp
  | cons peer peers inductionHypothesis =>
    rw [List.foldl_cons, inductionHypothesis, connected_connectPeer, List.mem_cons, or_assoc]

theorem opened_setting (env : ApplicationExternal) (app : NodeApplication) :
    SameSetting app (app.opened env) ∧ (app.opened env).node = app.node ∧
      (app.opened env).socket.isSome := by
  unfold opened
  split
  next socket there => exact ⟨⟨rfl, rfl, rfl⟩, rfl, by rw [there]; rfl⟩
  next => exact ⟨⟨rfl, rfl, rfl⟩, rfl, rfl⟩

theorem startClient_setting (keeps : KeepsPeers env) (app : NodeApplication) :
    SameSetting app (app.startClient env) ∧
      (app.startClient env).node.peersSockets = app.node.peersSockets ∧
      (app.startClient env).socket = app.socket := by
  unfold startClient
  split
  next => exact ⟨⟨(keeps app.node).1, rfl, rfl⟩, (keeps app.node).2, rfl⟩
  next => exact ⟨⟨rfl, rfl, rfl⟩, rfl, rfl⟩

theorem linked_setting (env : ApplicationExternal) (app : NodeApplication) :
    SameSetting app (app.linked env) ∧ (app.linked env).socket.isSome ∧
      ∀ other, (app.linked env).node.Connected other ↔
        app.node.Connected other ∨ other ∈ app.node.peersAddresses := by
  obtain ⟨first, sameNode, some⟩ := opened_setting env app
  obtain ⟨second, sameSocket⟩ := connectPeers_setting (app.ready env).node.peersAddresses (app.ready env)
  have listed : (app.ready env).node.peersAddresses = app.node.peersAddresses := first.peersAddresses
  refine ⟨⟨second.peersAddresses.trans listed, second.localAddress.trans first.localAddress,
    second.udpSocket.trans first.udpSocket⟩, ?_, fun other => ?_⟩
  · rw [linked, sameSocket]
    exact some
  · have before : (app.ready env).node.Connected other ↔ app.node.Connected other := by
      show (app.opened env).node.Connected other ↔ _
      rw [sameNode]
    rw [linked, connected_connectPeers, before, listed]

theorem started_setting (keeps : KeepsPeers env) (app : NodeApplication) :
    SameSetting app (app.started env) ∧ (app.started env).socket.isSome ∧
      ∀ other, (app.started env).node.Connected other ↔
        app.node.Connected other ∨ other ∈ app.node.peersAddresses := by
  obtain ⟨first, some, connected⟩ := linked_setting env app
  obtain ⟨second, sameSockets, sameSocket⟩ := startClient_setting keeps (app.linked env).resetStats
  refine ⟨⟨second.peersAddresses.trans first.peersAddresses,
    second.localAddress.trans first.localAddress, second.udpSocket.trans first.udpSocket⟩, ?_,
    fun other => ?_⟩
  · rw [started, sameSocket]
    exact some
  · rw [← connected]
    show (∃ socket, ((app.linked env).resetStats.startClient env).node.peersSockets.lookup other = _) ↔ _
    rw [sameSockets]
    rfl

/-! ## The plan of the connections -/

/-- The peers listed now, those some `StartApplication` found listed, and whether
    `m_socket` is null. -/
structure Links where
  listed : List Ipv4Address
  connected : List Ipv4Address
  hasSocket : Bool

def Links.next (links : Links) : Call → Links
  | .setPeersAddresses peers => { links with listed := peers }
  | .startApplication =>
    { links with connected := links.connected ++ links.listed, hasSocket := true }
  | .stopApplication => links
  | .advertiseNewBlock _ => links

/-- The call goes through no null socket, and binds no multicast address to a TCP one. -/
def Links.Allows (unfit : Prop) (links : Links) : Call → Prop
  | .setPeersAddresses _ => True
  | .startApplication => links.hasSocket = true ∨ ¬ unfit
  | .stopApplication => ∀ peer ∈ links.listed, peer ∈ links.connected
  | .advertiseNewBlock newBlock =>
    ∀ peer ∈ links.listed, peer ≠ newBlock.getReceivedFromIpv4 → peer ∈ links.connected

/-- The plan of a node on which nothing has been called. -/
def Links.start (app : NodeApplication) : Links where
  listed := app.node.peersAddresses
  connected := []
  hasSocket := false

/-- `m_local` is a multicast address, and `m_tid` makes no UDP sockets. -/
def Unfit (env : ApplicationExternal) (app : NodeApplication) : Prop :=
  env.isMulticast app.localAddress = true ∧ app.udpSocket = false

structure Agrees (env : ApplicationExternal) (unfit : Prop) (app : NodeApplication) (links : Links) :
    Prop where
  listed : app.node.peersAddresses = links.listed
  connected : ∀ peer, app.node.Connected peer ↔ peer ∈ links.connected
  hasSocket : app.socket.isSome = links.hasSocket
  unfit_iff : app.Unfit env ↔ unfit

theorem binds_iff (env : ApplicationExternal) (app : NodeApplication) :
    app.Binds env ↔ app.socket.isSome = true ∨ ¬ app.Unfit env := by
  unfold Binds Unfit
  cases app.socket with
  | none => simp
  | some socket => simp

theorem Agrees.guard {unfit : Prop} {app : NodeApplication} {links : Links}
    (agrees : Agrees env unfit app links) (call : Call) :
    (∃ app', app.apply env call = .ok app') ↔ links.Allows unfit call := by
  cases call with
  | setPeersAddresses peers => exact iff_of_true ⟨_, rfl⟩ trivial
  | startApplication =>
    -- The multicast error stands behind `if (!m_socket)`.
    have guard : links.Allows unfit .startApplication ↔ app.Binds env := by
      rw [binds_iff, agrees.hasSocket, agrees.unfit_iff]
      rfl
    rw [guard]
    exact ⟨fun ⟨_, done⟩ => (startApplication_eq_ok_iff.mp done).1,
      fun binds => ⟨_, startApplication_eq_ok_iff.mpr ⟨binds, rfl⟩⟩⟩
  | stopApplication =>
    have guard : links.Allows unfit .stopApplication ↔
        ∀ peer ∈ app.node.peersAddresses, app.node.Connected peer := by
      simp only [agrees.connected, agrees.listed]
      rfl
    rw [guard]
    exact ⟨fun ⟨_, done⟩ => (stopApplication_eq_ok_iff.mp done).1,
      fun connected => ⟨_, stopApplication_eq_ok_iff.mpr ⟨connected, rfl⟩⟩⟩
  | advertiseNewBlock newBlock =>
    -- The block goes to every peer but the one it came from.
    have guard : links.Allows unfit (.advertiseNewBlock newBlock) ↔
        ∀ peer ∈ app.node.peersAddresses, peer ≠ newBlock.getReceivedFromIpv4 →
          app.node.Connected peer := by
      simp only [agrees.connected, agrees.listed]
      rfl
    rw [guard]
    show (∃ app', app.advertiseNewBlock env newBlock = .ok app') ↔ _
    unfold advertiseNewBlock
    constructor
    · rintro ⟨app', done⟩
      split at done
      next run advertised => exact (advertiseNewBlock_eq_ok advertised).2
      next => cases done
    · intro connected
      obtain ⟨run, advertised⟩ :
          ∃ run, BlockchainNode.advertiseNewBlock env.toExternal newBlock app.node = .ok run :=
        BlockchainNode.advertiseNewBlock_succeeds connected
      rw [advertised]
      exact ⟨_, rfl⟩

theorem Agrees.keeps (keeps : KeepsPeers env) {unfit : Prop} {app app' : NodeApplication}
    {links : Links} (agrees : Agrees env unfit app links) {call : Call}
    (done : app.apply env call = .ok app') : Agrees env unfit app' (links.next call) := by
  cases call with
  | setPeersAddresses peers =>
    cases done
    exact ⟨rfl, agrees.connected, agrees.hasSocket, agrees.unfit_iff⟩
  | startApplication =>
    obtain ⟨_, rfl⟩ := startApplication_eq_ok_iff.mp done
    -- The table gains the peers of the list and loses none.
    obtain ⟨same, some, connected⟩ := started_setting keeps app
    refine ⟨same.peersAddresses.trans agrees.listed, fun peer => ?_, some, ?_⟩
    · rw [connected, agrees.connected, agrees.listed]
      exact List.mem_append.symm
    · rw [Unfit, same.localAddress, same.udpSocket]
      exact agrees.unfit_iff
  | stopApplication =>
    obtain ⟨_, rfl⟩ := stopApplication_eq_ok_iff.mp done
    exact ⟨agrees.listed, agrees.connected, agrees.hasSocket, agrees.unfit_iff⟩
  | advertiseNewBlock newBlock =>
    unfold apply advertiseNewBlock at done
    dsimp only at done
    split at done
    next run advertised =>
      cases done
      obtain ⟨same, _⟩ := advertiseNewBlock_eq_ok advertised
      -- Sending reads the table only.
      refine ⟨same.peersAddresses.trans agrees.listed, fun peer => ?_, agrees.hasSocket,
        agrees.unfit_iff⟩
      show (∃ socket, run.node.peersSockets.lookup peer = _) ↔ peer ∈ links.connected
      rw [same.peersSockets, ← agrees.connected peer]
      rfl
    next => cases done

theorem Agrees.start (env : ApplicationExternal) (node : BlockchainNode) (localAddress : Address)
    (udpSocket : Bool) (stats : ApplicationStatistics) (unconnected : node.peersSockets = ∅) :
    Agrees env ((new node localAddress udpSocket stats).Unfit env)
      (new node localAddress udpSocket stats) (Links.start (new node localAddress udpSocket stats)) := by
  refine ⟨rfl, fun peer => ?_, rfl, Iff.rfl⟩
  refine iff_of_false ?_ List.not_mem_nil
  rintro ⟨socket, found⟩
  have absent : node.peersSockets.lookup peer = none := by rw [unconnected]; rfl
  rw [new] at found
  rw [absent] at found
  cases found

/-! ## Main result -/

/-- A run of calls on a new node goes through exactly when every call in it is allowed
    where it stands: `StopApplication` finds no peer listed that no `StartApplication`
    found listed before it, `AdvertiseNewBlock` none but the block's source, and the
    first socket can be bound. -/
theorem calls_succeed_iff (env : ApplicationExternal) (node : BlockchainNode)
    (localAddress : Address) (udpSocket : Bool) (stats : ApplicationStatistics) (calls : List Call)
    (keeps : KeepsPeers env) (unconnected : node.peersSockets = ∅) :
    (∃ app, foldChecked (apply env) (new node localAddress udpSocket stats) calls = .ok app) ↔
      ∀ before call after, calls = before ++ call :: after →
        (before.foldl Links.next (Links.start (new node localAddress udpSocket stats))).Allows
          ((new node localAddress udpSocket stats).Unfit env) call :=
  foldChecked_ok_iff _ (fun _ _ call agrees => agrees.guard call)
    (fun _ _ _ _ agrees done => agrees.keeps keeps done)
    (Agrees.start env node localAddress udpSocket stats unconnected)

/-- No multicast address, and a `CreateTransaction` that leaves the node. -/
def unicast : ApplicationExternal where
  toExternal := knowing []
  isMulticast _ := false
  createTransaction node := node

/-- A `nodeStatistics` of zeros. -/
def blankStats : ApplicationStatistics where
  nodeId := CInt.lit 0
  meanBlockReceiveTime := 0
  meanBlockPropagationTime := 0
  meanBlockSize := 0
  totalBlocks := CInt.lit 0
  miner := CInt.lit 0
  minerGeneratedBlocks := CInt.lit 0
  minerAverageBlockGenInterval := 0
  minerAverageBlockSize := 0
  hashRate := 0
  getHeadersReceivedBytes := 0
  getHeadersSentBytes := 0
  headersReceivedBytes := 0
  headersSentBytes := 0
  getDataSentBytes := 0
  blockReceivedBytes := 0
  blockSentBytes := 0
  longestFork := CInt.lit 0
  blocksInForks := CInt.lit 0
  connections := CInt.lit 0
  blockTimeouts := 0
  nodeGeneratedTransaction := CInt.lit 0
  meanEndorsementTime := 0
  meanOrderingTime := 0
  meanValidationTime := 0
  meanLatency := 0
  nodeType := CInt.lit 0

/-- A new node with them. -/
def blank : NodeApplication :=
  new (idle 0 .standardProtocol .committer) (.inetSocket ⟨0⟩ 8333) false blankStats

/-- A peer listed after the start, when the node stops. -/
theorem calls_succeed_iff_relisted :
    ¬ ∃ app, foldChecked (apply unicast) blank
      [.setPeersAddresses [⟨1⟩], .startApplication, .setPeersAddresses [⟨1⟩, ⟨2⟩],
        .stopApplication] = .ok app := by
  intro succeeds
  have allowed := (calls_succeed_iff unicast (idle 0 .standardProtocol .committer)
    (.inetSocket ⟨0⟩ 8333) false blankStats _ (fun _ => ⟨rfl, rfl⟩) rfl).mp succeeds
  have stops := allowed [.setPeersAddresses [⟨1⟩], .startApplication,
    .setPeersAddresses [⟨1⟩, ⟨2⟩]] .stopApplication [] rfl
  have unlisted : ∀ peer ∈ [Ipv4Address.mk 1, ⟨2⟩], peer ∈ [Ipv4Address.mk 1] := stops
  exact absurd unlisted (by decide)

end NodeApplication

end Ns3Blockchain
