import Ns3Blockchain.Verified.Sockets
import Mathlib.Data.List.Dedup

/-! # Which sockets are open

The map of the peers holds one socket an address.  A socket that leaves the map before
`StopApplication` has closed it is never closed, and a listening socket that has been
closed is never replaced while the node lives.
-/

namespace Ns3Blockchain

open Library Rapidjson BlockchainNode

namespace NodeApplication

variable {env : ApplicationExternal}

/-! ## The sockets of a trace -/

/-- The sockets closed. -/
def closes (trace : List ApplicationEffect) : List Socket :=
  trace.filterMap fun
    | .close socket => some socket
    | _ => none

/-- The sockets `Listen` was called on. -/
def listens (trace : List ApplicationEffect) : List Socket :=
  trace.filterMap fun
    | .listen socket => some socket
    | _ => none

/-- The sockets connected to a peer. -/
def connects (trace : List ApplicationEffect) : List Socket :=
  trace.filterMap fun
    | .connect socket _ _ => some socket
    | _ => none

/-- What the calls that make no socket and close none leave as it was. -/
structure SameSockets (app app' : NodeApplication) : Prop where
  socket : app'.socket = app.socket
  peersSockets : app'.node.peersSockets = app.node.peersSockets
  created : app'.created = app.created
  closes : closes app'.trace = closes app.trace
  listens : listens app'.trace = listens app.trace
  connects : connects app'.trace = connects app.trace

theorem SameSockets.socketOf {app app' : NodeApplication} (same : SameSockets app app')
    (peer : Ipv4Address) : app'.socketOf peer = app.socketOf peer := by
  rw [NodeApplication.socketOf, same.peersSockets]
  rfl

theorem SameSockets.trans {app app' app'' : NodeApplication} (first : SameSockets app app')
    (second : SameSockets app' app'') : SameSockets app app'' where
  socket := second.socket.trans first.socket
  peersSockets := second.peersSockets.trans first.peersSockets
  created := second.created.trans first.created
  closes := second.closes.trans first.closes
  listens := second.listens.trans first.listens
  connects := second.connects.trans first.connects

/-- `count` sockets in the order they are made. -/
def ids (base count : Nat) : List Socket := (List.range' base count).map Socket.mk

theorem socketOf_connectPeer (app : NodeApplication) (peer other : Ipv4Address) :
    (app.connectPeer peer).socketOf other =
      if other = peer then some ⟨app.created⟩ else app.socketOf other := by
  show ((app.node.peersSockets.insert peer (some ⟨app.created⟩)).lookup other).join = _
  by_cases same : other = peer
  · rw [same, AList.lookup_insert, if_pos rfl]
    rfl
  · rw [AList.lookup_insert_ne same, if_neg same]
    rfl

theorem connectPeers_trace (peers : List Ipv4Address) (app : NodeApplication) :
    (peers.foldl connectPeer app).created = app.created + peers.length ∧
      closes (peers.foldl connectPeer app).trace = closes app.trace ∧
      listens (peers.foldl connectPeer app).trace = listens app.trace ∧
      connects (peers.foldl connectPeer app).trace =
        connects app.trace ++ ids app.created peers.length := by
  induction peers generalizing app with
  | nil => exact ⟨rfl, rfl, rfl, by simp [ids]⟩
  | cons peer peers inductionHypothesis =>
    obtain ⟨created, closed, listening, connected⟩ := inductionHypothesis (app.connectPeer peer)
    have made : (app.connectPeer peer).created = app.created + 1 := rfl
    have trace : (app.connectPeer peer).trace =
        app.trace ++ [.createSocket ⟨app.created⟩] ++
          [.connect ⟨app.created⟩ peer blockchainPort] := rfl
    refine ⟨?_, ?_, ?_, ?_⟩
    · rw [List.foldl_cons, created, made, List.length_cons]
      omega
    · rw [List.foldl_cons, closed, trace]
      simp [closes]
    · rw [List.foldl_cons, listening, trace]
      simp [listens]
    · rw [List.foldl_cons, connected, made, trace]
      simp [connects, ids, List.range'_succ]

theorem socketOf_connectPeers_of_notMem {peers : List Ipv4Address} {peer : Ipv4Address}
    (absent : peer ∉ peers) (app : NodeApplication) :
    (peers.foldl connectPeer app).socketOf peer = app.socketOf peer := by
  induction peers generalizing app with
  | nil => rfl
  | cons first peers inductionHypothesis =>
    rw [List.mem_cons, not_or] at absent
    rw [List.foldl_cons, inductionHypothesis absent.2, socketOf_connectPeer, if_neg absent.1]

theorem socketOf_connectPeers_of_mem {peers : List Ipv4Address} {peer : Ipv4Address}
    (member : peer ∈ peers) (app : NodeApplication) :
    ∃ id, app.created ≤ id ∧ id < app.created + peers.length ∧
      (peers.foldl connectPeer app).socketOf peer = some ⟨id⟩ := by
  induction peers generalizing app with
  | nil => cases member
  | cons first peers inductionHypothesis =>
    have made : (app.connectPeer first).created = app.created + 1 := rfl
    by_cases later : peer ∈ peers
    · obtain ⟨id, lower, upper, found⟩ := inductionHypothesis later (app.connectPeer first)
      exact ⟨id, by omega, by rw [List.length_cons]; omega, found⟩
    · have here : peer = first := (List.mem_cons.mp member).resolve_right later
      refine ⟨app.created, Nat.le_refl _, by rw [List.length_cons]; omega, ?_⟩
      rw [List.foldl_cons, socketOf_connectPeers_of_notMem later, socketOf_connectPeer, if_pos here]

theorem mem_ids_iff {base count : Nat} {socket : Socket} :
    socket ∈ ids base count ↔ base ≤ socket.id ∧ socket.id < base + count := by
  obtain ⟨id⟩ := socket
  simp [ids, List.mem_range'_1]

/-! ## The sockets of each call -/

theorem opened_null (env : ApplicationExternal) {app : NodeApplication} (null : app.socket = none) :
    (app.opened env).socket = some ⟨app.created⟩ ∧ (app.opened env).created = app.created + 1 ∧
      closes (app.opened env).trace = closes app.trace ∧
      listens (app.opened env).trace = listens app.trace ++ [⟨app.created⟩] ∧
      connects (app.opened env).trace = connects app.trace := by
  unfold opened
  rw [null]
  by_cases multicast : env.isMulticast app.localAddress = true
  · simp [multicast, closes, listens, connects]
  · simp [multicast, closes, listens, connects]

theorem opened_some (env : ApplicationExternal) {app : NodeApplication} {socket : Socket}
    (there : app.socket = some socket) : app.opened env = app := by
  rw [opened, there]

theorem ready_sockets (env : ApplicationExternal) (app : NodeApplication) :
    SameSockets (app.opened env) (app.ready env) := by
  unfold ready
  cases (app.opened env).socket with
  | none => exact ⟨rfl, rfl, rfl, by simp [emit], by simp [emit], by simp [emit]⟩
  | some socket =>
    exact ⟨rfl, rfl, rfl, by simp [emit, closes], by simp [emit, listens], by simp [emit, connects]⟩

theorem started_sockets (keeps : KeepsPeers env) (app : NodeApplication) :
    SameSockets (app.linked env) (app.started env) := by
  obtain ⟨_, sameSockets, sameSocket⟩ := startClient_setting keeps (app.linked env).resetStats
  refine ⟨sameSocket, sameSockets, ?_, ?_, ?_, ?_⟩
  · unfold started startClient
    split <;> rfl
  · unfold started startClient
    split
    next => simp [emit, resetStats, closes]
    next => rfl
  · unfold started startClient
    split
    next => simp [emit, resetStats, listens]
    next => rfl
  · unfold started startClient
    split
    next => simp [emit, resetStats, connects]
    next => rfl

theorem closes_stopped (app : NodeApplication) :
    closes app.stopped.trace = closes app.trace ++ app.closing ++ app.socket.toList := by
  cases there : app.socket with
  | none => simp [stopped, publishStats, emit, closes, there]
  | some socket => simp [stopped, publishStats, emit, closes, there]

theorem listens_stopped (app : NodeApplication) :
    listens app.stopped.trace = listens app.trace := by
  cases there : app.socket with
  | none => simp [stopped, publishStats, emit, listens, there]
  | some socket => simp [stopped, publishStats, emit, listens, there]

theorem connects_stopped (app : NodeApplication) :
    connects app.stopped.trace = connects app.trace := by
  cases there : app.socket with
  | none => simp [stopped, publishStats, emit, connects, there]
  | some socket => simp [stopped, publishStats, emit, connects, there]

theorem advertised_sockets {app app' : NodeApplication} {newBlock : Block}
    (done : app.advertiseNewBlock env newBlock = .ok app') :
    SameSockets app app' ∧ SameSetting app app' := by
  unfold advertiseNewBlock at done
  split at done
  next run advertised =>
    cases done
    obtain ⟨same, _⟩ := advertiseNewBlock_eq_ok advertised
    refine ⟨⟨rfl, same.peersSockets, rfl, ?_, ?_, ?_⟩, same.peersAddresses, rfl, rfl⟩
    · simp [emit, closes]
    · simp [emit, listens]
    · simp [emit, connects]
  next => cases done

/-! ## Numbers -/

/-- Every socket a node uses has been made, and the listening one is no peer's. -/
structure Numbered (app : NodeApplication) : Prop where
  closed : ∀ socket ∈ closes app.trace, socket.id < app.created
  connected : ∀ socket ∈ connects app.trace, socket.id < app.created
  peers : ∀ peer socket, app.socketOf peer = some socket → socket ∈ connects app.trace
  own : ∀ socket, app.socket = some socket →
    socket.id < app.created ∧ socket ∈ listens app.trace ∧ socket ∉ connects app.trace

theorem Numbered.congr {app app' : NodeApplication} (numbered : Numbered app)
    (same : SameSockets app app') : Numbered app' where
  closed := by rw [same.closes, same.created]; exact numbered.closed
  connected := by rw [same.connects, same.created]; exact numbered.connected
  peers := by
    intro peer socket
    rw [same.socketOf, same.connects]
    exact numbered.peers peer socket
  own := by
    rw [same.socket, same.created, same.listens, same.connects]
    exact numbered.own

theorem Numbered.opened {app : NodeApplication} (numbered : Numbered app) :
    Numbered (app.opened env) := by
  cases there : app.socket with
  | some socket =>
    rw [opened_some env there]
    exact numbered
  | none =>
    -- The new socket is the next number, above every one closed or connected so far.
    obtain ⟨socket, created, closed, listening, connected⟩ := opened_null env there
    have sameNode := (opened_setting env app).2.1
    refine ⟨?_, ?_, ?_, ?_⟩
    · intro other member
      rw [closed] at member
      have bound := numbered.closed other member
      omega
    · intro other member
      rw [connected] at member
      have bound := numbered.connected other member
      omega
    · intro peer other found
      rw [connected]
      rw [socketOf, sameNode] at found
      exact numbered.peers peer other found
    · intro other isOwn
      rw [socket] at isOwn
      cases isOwn
      refine ⟨by rw [created]; exact Nat.lt_succ_self _, by rw [listening]; simp, ?_⟩
      rw [connected]
      intro member
      have bound := numbered.connected _ member
      exact Nat.lt_irrefl _ bound

theorem Numbered.connectPeers {app : NodeApplication} (numbered : Numbered app)
    (peers : List Ipv4Address) : Numbered (peers.foldl connectPeer app) := by
  obtain ⟨created, closed, listening, connected⟩ := connectPeers_trace peers app
  have sameSocket := (connectPeers_setting peers app).2
  refine ⟨?_, ?_, ?_, ?_⟩
  · intro socket member
    rw [closed] at member
    have bound := numbered.closed socket member
    omega
  · intro socket member
    rw [connected] at member
    rcases List.mem_append.mp member with old | new
    · have bound := numbered.connected socket old
      omega
    · have bound := (mem_ids_iff.mp new).2
      omega
  · intro peer socket found
    rw [connected, List.mem_append]
    -- A listed peer's entry is overwritten by the socket just made; the others keep theirs.
    by_cases listed : peer ∈ peers
    · obtain ⟨id, lower, upper, made⟩ := socketOf_connectPeers_of_mem listed app
      rw [made] at found
      cases found
      exact .inr (mem_ids_iff.mpr ⟨lower, upper⟩)
    · rw [socketOf_connectPeers_of_notMem listed] at found
      exact .inl (numbered.peers peer socket found)
  · intro socket isOwn
    rw [sameSocket] at isOwn
    obtain ⟨bound, isListening, noPeer⟩ := numbered.own socket isOwn
    refine ⟨by omega, by rw [listening]; exact isListening, ?_⟩
    rw [connected, List.mem_append, not_or]
    refine ⟨noPeer, fun member => ?_⟩
    have lower := (mem_ids_iff.mp member).1
    omega

theorem Numbered.started (keeps : KeepsPeers env) {app : NodeApplication}
    (numbered : Numbered app) : Numbered (app.started env) :=
  ((numbered.opened.congr (ready_sockets env app)).connectPeers _).congr (started_sockets keeps app)

theorem Numbered.closing {app : NodeApplication} (numbered : Numbered app) {socket : Socket}
    (member : socket ∈ app.closing) : socket ∈ connects app.trace := by
  obtain ⟨peer, _, found⟩ := List.mem_filterMap.mp member
  exact numbered.peers peer socket found

theorem Numbered.stopped {app : NodeApplication} (numbered : Numbered app) :
    Numbered app.stopped := by
  refine ⟨?_, ?_, ?_, ?_⟩
  · intro socket member
    rw [closes_stopped, List.append_assoc, List.mem_append, List.mem_append] at member
    rcases member with old | peer | own
    · exact numbered.closed socket old
    · exact numbered.connected socket (numbered.closing peer)
    · exact (numbered.own socket (Option.mem_toList.mp own)).1
  · rw [connects_stopped]
    exact numbered.connected
  · rw [connects_stopped]
    exact numbered.peers
  · rw [connects_stopped, listens_stopped]
    exact numbered.own

theorem Numbered.apply (keeps : KeepsPeers env) {app app' : NodeApplication}
    (numbered : Numbered app) {call : Call} (done : app.apply env call = .ok app') :
    Numbered app' := by
  cases call with
  | setPeersAddresses peers =>
    cases done
    exact numbered.congr ⟨rfl, rfl, rfl, rfl, rfl, rfl⟩
  | startApplication =>
    obtain ⟨_, rfl⟩ := startApplication_eq_ok_iff.mp done
    exact numbered.started keeps
  | stopApplication =>
    obtain ⟨_, rfl⟩ := stopApplication_eq_ok_iff.mp done
    exact numbered.stopped
  | advertiseNewBlock newBlock => exact numbered.congr (advertised_sockets done).1

theorem Numbered.new (node : BlockchainNode) (localAddress : Address) (udpSocket : Bool)
    (stats : ApplicationStatistics) (unconnected : node.peersSockets = ∅) :
    Numbered (new node localAddress udpSocket stats) := by
  refine ⟨nofun, nofun, fun peer socket found => ?_, nofun⟩
  rw [socketOf, NodeApplication.new, unconnected] at found
  cases found

/-! ## The listening socket -/

/-- A `StopApplication` comes after a `StartApplication`. -/
def StoppedAfterStart (calls : List Call) : Prop :=
  ∃ before after, calls = before ++ .startApplication :: after ∧ .stopApplication ∈ after

theorem stoppedAfterStart_append_iff (calls : List Call) (call : Call) :
    StoppedAfterStart (calls ++ [call]) ↔
      StoppedAfterStart calls ∨ call = .stopApplication ∧ .startApplication ∈ calls := by
  constructor
  · rintro ⟨before, after, whole, stops⟩
    rcases List.eq_nil_or_concat after with rfl | ⟨after, last, rfl⟩
    · cases stops
    · rw [List.concat_eq_append, ← List.cons_append, ← List.append_assoc] at whole
      obtain ⟨rfl, sameLast⟩ := List.append_inj' whole rfl
      cases sameLast
      rw [List.concat_eq_append, List.mem_append, List.mem_singleton] at stops
      rcases stops with earlier | last
      · exact .inl ⟨before, after, rfl, earlier⟩
      · exact .inr ⟨last.symm, by simp⟩
  · rintro (⟨before, after, rfl, stops⟩ | ⟨rfl, starts⟩)
    · exact ⟨before, after ++ [call], by simp, List.mem_append_left _ stops⟩
    · obtain ⟨before, after, rfl⟩ := List.append_of_mem starts
      exact ⟨before, after ++ [.stopApplication], by simp, by simp⟩

/-- `m_socket` after these calls. -/
structure Listening (app : NodeApplication) (calls : List Call) : Prop where
  isSome_iff : app.socket.isSome ↔ .startApplication ∈ calls
  closed_iff : ∀ socket, app.socket = some socket →
    (socket ∈ closes app.trace ↔ StoppedAfterStart calls)

theorem Listening.quiet {app app' : NodeApplication} {calls : List Call} {call : Call}
    (listening : Listening app calls) (same : SameSockets app app')
    (noStart : call ≠ .startApplication) (noStop : call ≠ .stopApplication) :
    Listening app' (calls ++ [call]) := by
  refine ⟨?_, fun socket isOwn => ?_⟩
  · rw [same.socket, listening.isSome_iff, List.mem_append, List.mem_singleton,
      or_iff_left noStart.symm]
  · rw [same.socket] at isOwn
    rw [same.closes, listening.closed_iff socket isOwn, stoppedAfterStart_append_iff]
    simp only [noStop, false_and, or_false]

theorem Listening.started (keeps : KeepsPeers env) {app : NodeApplication} {calls : List Call}
    (listening : Listening app calls) (numbered : Numbered app) :
    Listening (app.started env) (calls ++ [.startApplication]) := by
  have same := started_sockets keeps app
  have loop := connectPeers_trace (app.ready env).node.peersAddresses (app.ready env)
  have before := ready_sockets env app
  have sameClosed : closes (app.started env).trace = closes (app.opened env).trace := by
    rw [same.closes, linked, loop.2.1, before.closes]
  have sameSocket : (app.started env).socket = (app.opened env).socket := by
    rw [same.socket, linked, (connectPeers_setting _ _).2, before.socket]
  refine ⟨iff_of_true (started_setting keeps app).2.1 (by simp), fun socket isOwn => ?_⟩
  rw [sameSocket] at isOwn
  rw [sameClosed, stoppedAfterStart_append_iff]
  simp only [reduceCtorEq, false_and, or_false]
  cases there : app.socket with
  | some old =>
    rw [opened_some env there] at isOwn ⊢
    exact listening.closed_iff socket isOwn
  | none =>
    obtain ⟨made, _, closed, _, _⟩ := opened_null env there
    rw [made] at isOwn
    cases isOwn
    rw [closed]
    refine iff_of_false (fun member => Nat.lt_irrefl _ (numbered.closed _ member)) ?_
    rintro ⟨start, after, whole, _⟩
    have starts : Call.startApplication ∈ calls := by simp [whole]
    have isSome := listening.isSome_iff.mpr starts
    rw [there] at isSome
    cases isSome

theorem Listening.apply (keeps : KeepsPeers env) {app app' : NodeApplication} {calls : List Call}
    (listening : Listening app calls) (numbered : Numbered app) {call : Call}
    (done : app.apply env call = .ok app') :
    Listening app' (calls ++ [call]) := by
  cases call with
  | setPeersAddresses peers =>
    cases done
    exact listening.quiet ⟨rfl, rfl, rfl, rfl, rfl, rfl⟩ nofun nofun
  | startApplication =>
    obtain ⟨_, rfl⟩ := startApplication_eq_ok_iff.mp done
    exact listening.started keeps numbered
  | stopApplication =>
    obtain ⟨_, rfl⟩ := stopApplication_eq_ok_iff.mp done
    refine ⟨?_, fun socket isOwn => ?_⟩
    · show app.socket.isSome ↔ _ ∈ calls ++ [_]
      rw [listening.isSome_iff, List.mem_append, List.mem_singleton]
      simp
    · have there : app.socket = some socket := isOwn
      have starts := listening.isSome_iff.mp (by rw [there]; rfl)
      refine iff_of_true ?_ ((stoppedAfterStart_append_iff _ _).mpr (.inr ⟨rfl, starts⟩))
      rw [closes_stopped, there]
      exact List.mem_append_right _ (List.mem_singleton_self socket)
  | advertiseNewBlock newBlock =>
    exact listening.quiet (advertised_sockets done).1 nofun nofun

/-- However a node is started and stopped: `m_socket` is a socket on which `Listen` was
    called and `Close` was not exactly when the node has been started and has not been
    stopped after a start.  A second start does not undo a stop. -/
theorem listens_iff (env : ApplicationExternal) (node : BlockchainNode) (localAddress : Address)
    (udpSocket : Bool) (stats : ApplicationStatistics) (calls : List Call) (app : NodeApplication)
    (keeps : KeepsPeers env) (unconnected : node.peersSockets = ∅)
    (finished : foldChecked (apply env) (new node localAddress udpSocket stats) calls = .ok app) :
    (∃ socket, app.getListeningSocket = some socket ∧ socket ∈ listens app.trace ∧
        socket ∉ closes app.trace) ↔
      .startApplication ∈ calls ∧ ¬ StoppedAfterStart calls := by
  obtain ⟨numbered, listening⟩ := foldChecked_invariant
    (fun consumed app => Numbered app ∧ Listening app consumed)
    ⟨Numbered.new node localAddress udpSocket stats unconnected, by simp [new], nofun⟩
    (fun _ _ _ _ _ before done =>
      ⟨before.1.apply keeps done, before.2.apply keeps before.1 done⟩) finished
  constructor
  · rintro ⟨socket, isOwn, _, isOpen⟩
    have isSome : app.socket.isSome := by rw [← getListeningSocket, isOwn]; rfl
    exact ⟨listening.isSome_iff.mp isSome, fun stops =>
      isOpen ((listening.closed_iff socket isOwn).mpr stops)⟩
  · rintro ⟨starts, running⟩
    obtain ⟨socket, isOwn⟩ := Option.isSome_iff_exists.mp (listening.isSome_iff.mpr starts)
    exact ⟨socket, isOwn, (numbered.own socket isOwn).2.1, fun closed =>
      running ((listening.closed_iff socket isOwn).mp closed)⟩

/-- Started again after a stop. -/
theorem listens_iff_restarted :
    (∃ socket, (((blank.started unicast).stopped).started unicast).getListeningSocket = some socket ∧
        socket ∈ listens (((blank.started unicast).stopped).started unicast).trace ∧
        socket ∉ closes (((blank.started unicast).stopped).started unicast).trace) ↔
      .startApplication ∈ [Call.startApplication, .stopApplication, .startApplication] ∧
        ¬ StoppedAfterStart [.startApplication, .stopApplication, .startApplication] :=
  listens_iff unicast (idle 0 .standardProtocol .committer) (.inetSocket ⟨0⟩ 8333) false blankStats
    [.startApplication, .stopApplication, .startApplication]
    (((blank.started unicast).stopped).started unicast) (fun _ => ⟨rfl, rfl⟩) rfl rfl

/-! ## The sockets of the peers -/

/-- The sockets connected to a peer and not closed. -/
def leaked (app : NodeApplication) : List Socket :=
  (connects app.trace).filter fun socket => socket ∉ closes app.trace

/-- The sockets made for the addresses that are listed again later. -/
def replaced : Nat → List Ipv4Address → List Socket
  | _, [] => []
  | base, peer :: peers =>
    if peer ∈ peers then ⟨base⟩ :: replaced (base + 1) peers else replaced (base + 1) peers

theorem length_replaced (base : Nat) (peers : List Ipv4Address) :
    (replaced base peers).length + peers.dedup.length = peers.length := by
  induction peers generalizing base with
  | nil => rfl
  | cons peer peers inductionHypothesis =>
    have others := inductionHypothesis (base + 1)
    rw [replaced]
    split
    next again =>
      rw [List.dedup_cons_of_mem again, List.length_cons, List.length_cons]
      omega
    next last =>
      rw [List.dedup_cons_of_notMem last, List.length_cons, List.length_cons]
      omega

/-- Of the sockets one peer loop makes, those that stay in the map are the others. -/
theorem filter_ids (peers : List Ipv4Address) (app : NodeApplication) :
    (ids app.created peers.length).filter
        (fun socket => socket ∉ peers.filterMap (peers.foldl connectPeer app).socketOf) =
      replaced app.created peers := by
  induction peers generalizing app with
  | nil => rfl
  | cons peer peers inductionHypothesis =>
    have others := inductionHypothesis (app.connectPeer peer)
    have made : (app.connectPeer peer).created = app.created + 1 := rfl
    have cons : ids app.created (peer :: peers).length =
        ⟨app.created⟩ :: ids (app.created + 1) peers.length := by
      simp [ids, List.range'_succ]
    -- The sockets of the later passes have greater numbers.
    have fresh : ⟨app.created⟩ ∉ peers.filterMap
        (peers.foldl connectPeer (app.connectPeer peer)).socketOf := by
      intro member
      obtain ⟨other, listed, found⟩ := List.mem_filterMap.mp member
      obtain ⟨id, lower, _, made'⟩ := socketOf_connectPeers_of_mem listed (app.connectPeer peer)
      rw [made'] at found
      cases found
      omega
    rw [made] at others
    rw [List.foldl_cons, cons, replaced]
    split
    next again =>
      have same : ∀ socket, socket ∈ (peer :: peers).filterMap
            (peers.foldl connectPeer (app.connectPeer peer)).socketOf ↔
          socket ∈ peers.filterMap (peers.foldl connectPeer (app.connectPeer peer)).socketOf := by
        intro socket
        simp only [List.mem_filterMap, List.mem_cons, exists_eq_or_imp, or_iff_right_iff_imp]
        exact fun found => ⟨peer, again, found⟩
      simp only [same]
      rw [List.filter_cons_of_pos (by simpa using fresh), others]
    next last =>
      have here : (peers.foldl connectPeer (app.connectPeer peer)).socketOf peer =
          some ⟨app.created⟩ := by
        rw [socketOf_connectPeers_of_notMem last, socketOf_connectPeer, if_pos rfl]
      rw [List.filterMap_cons_some here, List.filter_cons_of_neg (by simp), ← others]
      refine List.filter_congr fun socket member => ?_
      have lower := (mem_ids_iff.mp member).1
      have differs : socket ≠ ⟨app.created⟩ := by
        rintro rfl
        exact Nat.not_succ_le_self _ lower
      simp [differs]

/-- One use of a node: the peers it is given, and the blocks it advertises between
    `StartApplication` and `StopApplication`. -/
structure Session where
  peers : List Ipv4Address
  blocks : List Block

def Session.calls (session : Session) : List Call :=
  .setPeersAddresses session.peers :: .startApplication ::
    session.blocks.map .advertiseNewBlock ++ [.stopApplication]

theorem advertisements_sockets {blocks : List Block} {app app' : NodeApplication}
    (finished : foldChecked (apply env) app (blocks.map .advertiseNewBlock) = .ok app') :
    SameSockets app app' ∧ SameSetting app app' := by
  induction blocks generalizing app with
  | nil =>
    cases finished
    exact ⟨⟨rfl, rfl, rfl, rfl, rfl, rfl⟩, rfl, rfl, rfl⟩
  | cons block blocks inductionHypothesis =>
    obtain ⟨between, done, finished⟩ := bind_eq_ok_iff.mp finished
    obtain ⟨first, firstSetting⟩ := advertised_sockets done
    obtain ⟨others, otherSetting⟩ := inductionHypothesis finished
    exact ⟨first.trans others, otherSetting.peersAddresses.trans firstSetting.peersAddresses,
      otherSetting.localAddress.trans firstSetting.localAddress,
      otherSetting.udpSocket.trans firstSetting.udpSocket⟩

theorem opened_peers (env : ApplicationExternal) (app : NodeApplication) :
    app.created ≤ (app.opened env).created ∧ closes (app.opened env).trace = closes app.trace ∧
      connects (app.opened env).trace = connects app.trace := by
  cases there : app.socket with
  | some socket =>
    rw [opened_some env there]
    exact ⟨Nat.le_refl _, rfl, rfl⟩
  | none =>
    obtain ⟨_, created, closed, _, connected⟩ := opened_null env there
    exact ⟨by rw [created]; exact Nat.le_succ _, closed, connected⟩

/-- `StopApplication` after the peer loop: what was open stays open, and so does every
    socket that a later one of the loop took the place of. -/
theorem leaked_stopped {app last : NodeApplication} (numbered : Numbered app)
    (numbered' : Numbered last) (same : SameSockets (app.linked env) last)
    (listed : last.node.peersAddresses = app.node.peersAddresses) :
    leaked last.stopped =
      leaked app ++ replaced (app.opened env).created app.node.peersAddresses := by
  obtain ⟨grown, sameCloses, sameConnects⟩ := opened_peers env app
  have ready := ready_sockets env app
  have peers : (app.ready env).node.peersAddresses = app.node.peersAddresses :=
    (opened_setting env app).1.peersAddresses
  obtain ⟨_, loopCloses, _, loopConnects⟩ := connectPeers_trace app.node.peersAddresses (app.ready env)
  have kept := filter_ids app.node.peersAddresses (app.ready env)
  have linked : app.linked env = app.node.peersAddresses.foldl connectPeer (app.ready env) := by
    rw [NodeApplication.linked, peers]
  rw [← linked] at loopCloses loopConnects kept
  rw [ready.created] at loopConnects kept
  have closing : last.closing = app.node.peersAddresses.filterMap (app.linked env).socketOf := by
    rw [NodeApplication.closing, listed]
    exact List.filterMap_congr fun peer _ => same.socketOf peer
  have closed : closes last.stopped.trace = closes app.trace ++ last.closing ++ last.socket.toList := by
    rw [closes_stopped, same.closes, loopCloses, ready.closes, sameCloses]
  have connected : connects last.stopped.trace =
      connects app.trace ++ ids (app.opened env).created app.node.peersAddresses.length := by
    rw [connects_stopped, same.connects, loopConnects, ready.connects, sameConnects]
  have notOwn : ∀ socket ∈ connects last.stopped.trace, socket ∉ last.socket.toList := by
    intro socket member own
    rw [connects_stopped] at member
    exact (numbered'.own socket (Option.mem_toList.mp own)).2.2 member
  -- The numbers tell the sockets of this loop from those before.
  have later : ∀ socket ∈ last.closing, (app.opened env).created ≤ socket.id := by
    intro socket member
    rw [closing, linked] at member
    obtain ⟨peer, isListed, found⟩ := List.mem_filterMap.mp member
    obtain ⟨id, lower, _, made⟩ := socketOf_connectPeers_of_mem isListed (app.ready env)
    rw [made] at found
    cases found
    rw [ready.created] at lower
    exact lower
  rw [leaked, connected, List.filter_append]
  congr 1
  · refine List.filter_congr fun socket member => ?_
    have own := notOwn socket (by rw [connected]; exact List.mem_append_left _ member)
    have earlier := numbered.connected socket member
    have notClosing : socket ∉ last.closing := fun closes => by
      have lower := later socket closes
      omega
    simp [closed, own, notClosing]
  · rw [← kept, ← closing]
    refine List.filter_congr fun socket member => ?_
    have own := notOwn socket (by rw [connected]; exact List.mem_append_right _ member)
    have lower := (mem_ids_iff.mp member).1
    have notClosed : socket ∉ closes app.trace := fun closes => by
      have upper := numbered.closed socket closes
      omega
    simp [closed, own, notClosed]

theorem session_leaks (keeps : KeepsPeers env) {session : Session} {app app' : NodeApplication}
    (numbered : Numbered app) (finished : foldChecked (apply env) app session.calls = .ok app') :
    Numbered app' ∧
      (leaked app').length = (leaked app).length + (session.peers.length - session.peers.dedup.length) := by
  rw [Session.calls, foldChecked_append] at finished
  obtain ⟨advertised, running, ended⟩ := bind_eq_ok_iff.mp finished
  obtain ⟨first, listed, running⟩ := bind_eq_ok_iff.mp running
  obtain ⟨second, starts, running⟩ := bind_eq_ok_iff.mp running
  obtain ⟨last, stops, ended⟩ := bind_eq_ok_iff.mp ended
  cases listed
  cases ended
  obtain ⟨_, rfl⟩ := startApplication_eq_ok_iff.mp starts
  obtain ⟨_, rfl⟩ := stopApplication_eq_ok_iff.mp stops
  obtain ⟨sockets, setting⟩ := advertisements_sockets running
  have given : Numbered (app.setPeersAddresses session.peers) :=
    numbered.congr ⟨rfl, rfl, rfl, rfl, rfl, rfl⟩
  have numbered' := (given.started keeps).congr sockets
  refine ⟨numbered'.stopped, ?_⟩
  have linkedTo := started_sockets keeps (app.setPeersAddresses session.peers)
  have whole := leaked_stopped given numbered' (linkedTo.trans sockets)
    (setting.peersAddresses.trans (started_setting keeps _).1.peersAddresses)
  have count := length_replaced ((app.setPeersAddresses session.peers).opened env).created session.peers
  have before : leaked (app.setPeersAddresses session.peers) = leaked app := rfl
  rw [whole, before, List.length_append]
  show _ + (replaced _ session.peers).length = _
  omega

theorem sessions_leak {sessions : List Session} (keeps : KeepsPeers env) {app app' : NodeApplication}
    (numbered : Numbered app)
    (finished : foldChecked (apply env) app (sessions.flatMap Session.calls) = .ok app') :
    (leaked app').length = (leaked app).length +
      (sessions.map fun session => session.peers.length - session.peers.dedup.length).sum := by
  induction sessions generalizing app with
  | nil =>
    cases finished
    simp
  | cons session sessions inductionHypothesis =>
    rw [List.flatMap_cons, foldChecked_append] at finished
    obtain ⟨between, first, others⟩ := bind_eq_ok_iff.mp finished
    obtain ⟨numbered', here⟩ := session_leaks keeps numbered first
    rw [inductionHypothesis numbered' others, here, List.map_cons, List.sum_cons, Nat.add_assoc]

theorem length_sub_dedup_eq_zero_iff (peers : List Ipv4Address) :
    peers.length - peers.dedup.length = 0 ↔ peers.Nodup := by
  have shorter := peers.dedup_sublist.length_le
  rw [← List.dedup_eq_self]
  constructor
  · intro same
    exact peers.dedup_sublist.eq_of_length (by omega)
  · intro same
    rw [same, Nat.sub_self]

/-- However often a node is set up, started, made to advertise and stopped: of the
    sockets it has connected to its peers, it has left as many open as its lists repeat
    addresses, and none at all exactly when no list does. -/
theorem leaked_sockets (env : ApplicationExternal) (node : BlockchainNode) (localAddress : Address)
    (udpSocket : Bool) (stats : ApplicationStatistics) (sessions : List Session)
    (app : NodeApplication) (keeps : KeepsPeers env) (unconnected : node.peersSockets = ∅)
    (finished : foldChecked (apply env) (new node localAddress udpSocket stats)
      (sessions.flatMap Session.calls) = .ok app) :
    (leaked app).length =
        (sessions.map fun session => session.peers.length - session.peers.dedup.length).sum ∧
      (leaked app = [] ↔ ∀ session ∈ sessions, session.peers.Nodup) := by
  have count := sessions_leak keeps
    (Numbered.new node localAddress udpSocket stats unconnected) finished
  have nothing : leaked (new node localAddress udpSocket stats) = [] := rfl
  rw [nothing, List.length_nil, Nat.zero_add] at count
  refine ⟨count, ?_⟩
  rw [← List.length_eq_zero_iff, count, List.sum_eq_zero_iff_forall_eq_nat, List.forall_mem_map]
  exact forall₂_congr fun session _ => length_sub_dedup_eq_zero_iff session.peers

/-- An address listed twice. -/
def doubled : List Session := [⟨[⟨1⟩, ⟨2⟩, ⟨1⟩], []⟩]

theorem leaked_sockets_doubled :
    (leaked ((blank.setPeersAddresses [⟨1⟩, ⟨2⟩, ⟨1⟩]).started unicast).stopped).length =
        (doubled.map fun session => session.peers.length - session.peers.dedup.length).sum ∧
      (leaked ((blank.setPeersAddresses [⟨1⟩, ⟨2⟩, ⟨1⟩]).started unicast).stopped = [] ↔
        ∀ session ∈ doubled, session.peers.Nodup) :=
  leaked_sockets unicast (idle 0 .standardProtocol .committer) (.inetSocket ⟨0⟩ 8333) false blankStats
    doubled _ (fun _ => ⟨rfl, rfl⟩) rfl rfl

end NodeApplication

end Ns3Blockchain
