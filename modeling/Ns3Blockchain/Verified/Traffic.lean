import Ns3Blockchain.Library.Network
import Ns3Blockchain.Verified.InvTables

/-! # The bytes of advertisements

`AdvertiseNewBlock` books `invSentBytes` for each frame it sends, `case INV` books
`invReceivedBytes` for the document it reads.  The two formulas agree on every
advertisement, so over a network of nodes they differ by the frames in flight.
-/

namespace Ns3Blockchain

open Library Rapidjson Relation

namespace BlockchainNode

/-- A frame on its way to a peer. -/
structure Frame where
  peer : Ipv4Address
  text : Str

/-- The two `Send` calls of a frame. -/
def Frame.sends (frame : Frame) : List Effect :=
  [.send frame.peer frame.text, .send frame.peer ['#']]

/-- One frame for every listed peer that is not the block's source. -/
def advertised (newBlock : Block) (text : Str) (peers : List Ipv4Address) : List Frame :=
  (peers.filter fun peer => peer ≠ newBlock.getReceivedFromIpv4).map fun peer => { peer, text }

/-- `AdvertiseNewBlock` of some block at a node of the standard protocol, with the
    frames it has put on the wire. -/
def Advertises (env : External) (node : BlockchainNode) (sent : List Frame) (node' : BlockchainNode) :
    Prop :=
  node.protocolType = .standardProtocol ∧
    ∃ newBlock run, advertiseNewBlock env newBlock node = .ok run ∧
      run.trace = sent.flatMap Frame.sends ∧ run.node = node'

/-- A node that is no `CLIENT` dispatches the frame, from any peer and at any time. -/
def Dispatches (env : External) (node : BlockchainNode) (frame : Frame) (node' : BlockchainNode) :
    Prop :=
  node.committerType ≠ .client ∧
    ∃ document ipv4 port now trace run, frameDocument env frame.text = some document ∧
      dispatch env ipv4 port now document { node, trace } = .ok run ∧ run.node = node'

/-- What `AdvertiseNewBlock` writes under the standard protocol. -/
def advertisementText (env : External) (newBlock : Block) : Str :=
  write env.dtoa (advertisement .standardProtocol newBlock)

def IsAdvertisement (env : External) (frame : Frame) : Prop :=
  ∃ newBlock, frame.text = advertisementText env newBlock

/-- `SendMessage` leaves the two counters. -/
def KeepsTraffic (env : External) : Prop :=
  ∀ received response document address node,
    (env.sendMessage received response document address node).1.nodeStats.invSentBytes =
      node.nodeStats.invSentBytes ∧
    (env.sendMessage received response document address node).1.nodeStats.invReceivedBytes =
      node.nodeStats.invReceivedBytes

/-- `Parse` inverts `Writer` on the advertisements. -/
def ParsesAdvertisements (env : External) : Prop :=
  ∀ newBlock, env.parse (advertisementText env newBlock) =
    some (advertisement .standardProtocol newBlock)

/-- The two counters. -/
def sentBytes (node : BlockchainNode) : Int := node.nodeStats.invSentBytes

def receivedBytes (node : BlockchainNode) : Int := node.nodeStats.invReceivedBytes

variable {env : External}

/-- Header, count and one inventory entry. -/
theorem messageBytes_one : messageBytes 1 = 130 := rfl

/-! ## The frames sent -/

theorem flatMap_sentTo (newBlock : Block) (text : Str) (peers : List Ipv4Address) :
    peers.flatMap (sentTo newBlock text) = (advertised newBlock text peers).flatMap Frame.sends := by
  induction peers with
  | nil => rfl
  | cons peer peers inductionHypothesis =>
    rw [List.flatMap_cons, inductionHypothesis, sentTo]
    by_cases source : peer = newBlock.getReceivedFromIpv4
    · simp [advertised, source]
    · simp [advertised, source, Frame.sends]

/-- The wire tells the frames apart. -/
theorem flatMap_sends_injective {sent sent' : List Frame}
    (same : sent.flatMap Frame.sends = sent'.flatMap Frame.sends) : sent = sent' := by
  induction sent generalizing sent' with
  | nil =>
    cases sent' with
    | nil => rfl
    | cons frame' sent' => cases same
  | cons frame sent inductionHypothesis =>
    cases sent' with
    | nil => cases same
    | cons frame' sent' =>
      simp only [List.flatMap_cons, Frame.sends, List.cons_append, List.nil_append, List.cons.injEq,
        Effect.send.injEq] at same
      obtain ⟨⟨samePeer, sameText⟩, _, sameRest⟩ := same
      cases frame
      cases frame'
      cases samePeer
      cases sameText
      rw [inductionHypothesis sameRest]

theorem count_advertised (newBlock : Block) (text : Str) (peers : List Ipv4Address)
    (peer : Ipv4Address) :
    ((advertised newBlock text peers).filter fun frame => frame.peer = peer).length =
      if peer = newBlock.getReceivedFromIpv4 then 0 else peers.count peer := by
  induction peers with
  | nil => simp [advertised]
  | cons head peers inductionHypothesis =>
    rw [advertised] at inductionHypothesis ⊢
    by_cases source : head = newBlock.getReceivedFromIpv4
    · rw [List.filter_cons_of_neg (by simp [source]), inductionHypothesis]
      split
      next => rfl
      next other => rw [List.count_cons_of_ne fun same => other (same.symm.trans source)]
    · rw [List.filter_cons_of_pos (by simp [source]), List.map_cons]
      by_cases own : head = peer
      · subst own
        rw [List.filter_cons_of_pos (by simp), List.length_cons, inductionHypothesis, if_neg source,
          if_neg source, List.count_cons_self]
      · rw [List.filter_cons_of_neg (by simp [own]), inductionHypothesis, List.count_cons_of_ne own]

/-! ## The sender's book -/

theorem afterPeer_traffic (newBlock : Block) (packetInfo : Str) (run : NodeRun) (peer : Ipv4Address) :
    (afterPeer .standardProtocol newBlock packetInfo run peer).node.sentBytes =
        run.node.sentBytes + messageBytes 1 * (advertised newBlock packetInfo [peer]).length ∧
      (afterPeer .standardProtocol newBlock packetInfo run peer).node.receivedBytes =
        run.node.receivedBytes := by
  rw [afterPeer, bookSent]
  by_cases source : peer = newBlock.getReceivedFromIpv4
  · simp [advertised, source]
  · simp [advertised, source, sentBytes, receivedBytes]

/-- The step rule of a sender: the frames on the wire are those of the block, and
    the book grows by one message for each. -/
theorem advertises_traffic {node node' : BlockchainNode} {sent : List Frame}
    (advertises : Advertises env node sent node') :
    (∀ frame ∈ sent, IsAdvertisement env frame) ∧
      node'.sentBytes = node.sentBytes + messageBytes 1 * sent.length ∧
      node'.receivedBytes = node.receivedBytes := by
  obtain ⟨standard, newBlock, run, finished, wire, rfl⟩ := advertises
  have traced := advertiseNewBlock_ok finished
  rw [wire, flatMap_sentTo, standard] at traced
  have frames := flatMap_sends_injective traced
  have booked := foldChecked_invariant (fun consumed (run : NodeRun) =>
      run.node.protocolType = .standardProtocol ∧
      run.node.sentBytes = node.sentBytes + messageBytes 1 * (advertised newBlock
        (write env.dtoa (advertisement node.protocolType newBlock)) consumed).length ∧
      run.node.receivedBytes = node.receivedBytes)
    ⟨standard, by simp [advertised], rfl⟩ ?_ finished
  · rw [standard, ← frames] at booked
    refine ⟨fun frame member => ?_, booked.2⟩
    rw [frames, advertised] at member
    obtain ⟨peer, _, rfl⟩ := List.mem_map.mp member
    exact ⟨newBlock, rfl⟩
  · intro consumed peer s s' _ ⟨protocol, sentSoFar, receivedSoFar⟩ pass
    rw [standard] at pass sentSoFar ⊢
    obtain ⟨_, rfl⟩ := (advertiseTo_eq_ok_iff protocol).mp pass
    obtain ⟨grown, kept⟩ := afterPeer_traffic newBlock
      (write env.dtoa (advertisement .standardProtocol newBlock)) s peer
    refine ⟨(bookSent_protocolType _ _ _ _).trans protocol, ?_, kept.trans receivedSoFar⟩
    rw [grown, sentSoFar, advertised, advertised, advertised, List.filter_append, List.map_append,
      List.length_append, Nat.cast_add, Int.mul_add, Int.add_assoc]

/-! ## The receiver's book -/

theorem invItem_nodeStats {sender : Address} {scan scan' : InvScan} {element : Value}
    (handled : invItem env sender scan element = .ok scan') :
    scan'.node.nodeStats = scan.node.nodeStats := by
  obtain ⟨chars, _, handled⟩ := bind_eq_ok_iff.mp handled
  obtain ⟨known, _, handled⟩ := bind_eq_ok_iff.mp handled
  cases known with
  | true =>
    cases handled
    rfl
  | false =>
    cases handled
    dsimp only
    -- Asking for the block and queueing its sender touch the tables only.
    split <;> rfl

theorem requestFrom_traffic (keeps : KeepsTraffic env) {sender : Address} {document : Value}
    {scan scan' : InvScan} (requested : requestFrom env sender document scan = .ok scan') :
    scan'.node.sentBytes = scan.node.sentBytes ∧
      scan'.node.receivedBytes = scan.node.receivedBytes := by
  unfold requestFrom at requested
  split at requested
  next =>
    cases requested
    exact ⟨rfl, rfl⟩
  next =>
    obtain ⟨_, _, requested⟩ := bind_eq_ok_iff.mp requested
    obtain ⟨_, _, requested⟩ := bind_eq_ok_iff.mp requested
    cases requested
    exact ⟨(keeps _ _ _ _ _).1.trans (keeps _ _ _ _ _).1,
      (keeps _ _ _ _ _).2.trans (keeps _ _ _ _ _).2⟩

/-- The step rule of a receiver of an advertisement. -/
theorem dispatches_traffic (keeps : KeepsTraffic env) (parses : ParsesAdvertisements env)
    {node node' : BlockchainNode} {frame : Frame} (isAdvertisement : IsAdvertisement env frame)
    (dispatches : Dispatches env node frame node') :
    node'.sentBytes = node.sentBytes ∧ node'.receivedBytes = node.receivedBytes + messageBytes 1 := by
  obtain ⟨newBlock, text⟩ := isAdvertisement
  obtain ⟨peer, document, ipv4, port, now, trace, run, framed, dispatched, rfl⟩ := dispatches
  have reads := readsAsInv_advertisement (parses newBlock)
  rw [text, advertisementText, reads.object, Option.some.injEq] at framed
  subst framed
  have there : (advertisement .standardProtocol newBlock).findMember "inv".toList =
      some (.array [.string (blockHash newBlock)]) := rfl
  rw [reads.selected, bind_eq_ok_iff] at dispatched
  obtain ⟨scan, handled, same⟩ := dispatched
  cases same
  rw [caseInv_eq there _ peer, bind_eq_ok_iff] at handled
  obtain ⟨looped, loop, requested⟩ := handled
  have kept : looped.node.nodeStats = (invStart 1 { node, trace }).node.nodeStats :=
    foldChecked_invariant (fun _ (scan : InvScan) =>
        scan.node.nodeStats = (invStart 1 { node, trace }).node.nodeStats)
      rfl (fun _ _ _ _ _ sofar pass => (invItem_nodeStats pass).trans sofar) loop
  obtain ⟨sameSent, sameReceived⟩ := requestFrom_traffic keeps requested
  constructor
  · rw [sameSent, sentBytes, kept]
    rfl
  · rw [sameReceived, receivedBytes, kept]
    rfl

/-! ## The network -/

theorem traffic_accounts (keeps : KeepsTraffic env) (parses : ParsesAdvertisements env) :
    Network.Accounts (Advertises env) (Dispatches env) (IsAdvertisement env)
      (fun _ => messageBytes 1) sentBytes receivedBytes where
  good_of_sends := fun _ _ _ advertises => (advertises_traffic advertises).1
  sends_sent := by
    intro node sent node' advertises
    rw [(advertises_traffic advertises).2.1, List.map_const', List.sum_replicate, nsmul_eq_mul,
      mul_comm]
  sends_received := fun _ _ _ advertises => (advertises_traffic advertises).2.2
  receives_sent := fun _ _ _ good dispatches => (dispatches_traffic keeps parses good dispatches).1
  receives_received := fun _ _ _ good dispatches =>
    (dispatches_traffic keeps parses good dispatches).2

/-- An advertisement puts on the wire one frame, ended by its only `#`, for each
    listed peer but the block's source, and none for that one, and books 130 bytes for
    each; a dispatch books 130 bytes received and none sent.  Over any network, in any
    interleaving of advertisements and dispatches that takes each frame at most once,
    the bytes booked as sent are those booked as received and those of the frames in
    flight. -/
theorem advertised_traffic_conserved (env : External) (keeps : KeepsTraffic env)
    (parses : ParsesAdvertisements env) :
    (∀ (node : BlockchainNode) (newBlock : Block), node.protocolType = .standardProtocol →
      (∀ peer ∈ node.peersAddresses, node.Connected peer) →
      '#' ∉ advertisementText env newBlock ∧
        ∃ run, advertiseNewBlock env newBlock node = .ok run ∧
          run.trace = (advertised newBlock (advertisementText env newBlock)
            node.peersAddresses).flatMap Frame.sends ∧
          (∀ peer, ((advertised newBlock (advertisementText env newBlock)
              node.peersAddresses).filter fun frame => frame.peer = peer).length =
            if peer = newBlock.getReceivedFromIpv4 then 0 else node.peersAddresses.count peer) ∧
          run.node.nodeStats.invSentBytes = node.nodeStats.invSentBytes +
            130 * (advertised newBlock (advertisementText env newBlock)
              node.peersAddresses).length ∧
          run.node.nodeStats.invReceivedBytes = node.nodeStats.invReceivedBytes) ∧
    (∀ node frame node', IsAdvertisement env frame → Dispatches env node frame node' →
      node'.nodeStats.invSentBytes = node.nodeStats.invSentBytes ∧
      node'.nodeStats.invReceivedBytes = node.nodeStats.invReceivedBytes + 130) ∧
    ∀ (ι : Type) [Fintype ι] [DecidableEq ι] (start reached : Network ι BlockchainNode Frame),
      start.inFlight = [] →
      ReflTransGen (Network.Step (Advertises env) (Dispatches env)) start reached →
      ((∑ i, (reached.party i).nodeStats.invSentBytes) -
          ∑ i, (start.party i).nodeStats.invSentBytes =
        (∑ i, (reached.party i).nodeStats.invReceivedBytes) -
          (∑ i, (start.party i).nodeStats.invReceivedBytes) +
          130 * reached.inFlight.length) ∧
      (reached.inFlight = [] →
        (∑ i, (reached.party i).nodeStats.invSentBytes) -
            ∑ i, (start.party i).nodeStats.invSentBytes =
          (∑ i, (reached.party i).nodeStats.invReceivedBytes) -
            ∑ i, (start.party i).nodeStats.invReceivedBytes) := by
  refine ⟨?_, ?_, ?_⟩
  · intro node newBlock standard connected
    obtain ⟨run, finished⟩ := @advertiseNewBlock_succeeds env node newBlock fun peer listed _ =>
      connected peer listed
    have wire : run.trace = (advertised newBlock (advertisementText env newBlock)
        node.peersAddresses).flatMap Frame.sends := by
      rw [advertiseNewBlock_ok finished, flatMap_sentTo, standard]
      rfl
    obtain ⟨_, sent, received⟩ := advertises_traffic ⟨standard, newBlock, run, finished, wire, rfl⟩
    refine ⟨?_, run, finished, wire, count_advertised newBlock _ node.peersAddresses, ?_, received⟩
    · exact not_mem_write_advertisement env.dtoa newBlock (by decide) (by decide) (by decide)
        (by decide) (by decide)
    · rw [messageBytes_one] at sent
      exact sent
  · intro node frame node' isAdvertisement dispatches
    have booked := dispatches_traffic keeps parses isAdvertisement dispatches
    rw [messageBytes_one] at booked
    exact booked
  · intro ι _ _ start reached quiet run
    have balance := Network.conserved (traffic_accounts keeps parses) quiet run
    rw [Network.weightInFlight, List.map_const', List.sum_replicate, nsmul_eq_mul, mul_comm,
      messageBytes_one] at balance
    refine ⟨balance, ?_⟩
    intro drained
    rw [drained, List.length_nil, Nat.cast_zero, mul_zero, add_zero] at balance
    exact balance

/-- A parser of advertisements. -/
def parseAdvertisement (text : Str) : Option Value :=
  if textBefore <+: text ∧ textAfter <:+ text then
    some (.object
      [("type".toList, .string "blocks".toList), ("message".toList, .int Messages.inv.code),
        ("inv".toList, .array [.string ((text.drop textBefore.length).take
          (text.length - textBefore.length - textAfter.length))])])
  else none

def advertisementParser : External := { knowing [] with parse := parseAdvertisement }

theorem advertisementParser_parses : ParsesAdvertisements advertisementParser := by
  intro newBlock
  rw [advertisementText, write_advertisement]
  change parseAdvertisement _ = _
  have whole : textBefore <+: textBefore ++ (blockHash newBlock ++ textAfter) ∧
      textAfter <:+ textBefore ++ (blockHash newBlock ++ textAfter) :=
    ⟨List.prefix_append _ _, (List.suffix_append _ _).trans (List.suffix_append _ _)⟩
  have middle : (textBefore ++ (blockHash newBlock ++ textAfter)).length - textBefore.length -
      textAfter.length = (blockHash newBlock).length := by
    rw [List.length_append, List.length_append]
    omega
  rw [parseAdvertisement, if_pos whole, middle, List.drop_left, List.take_left]
  rfl

/-- A node with one peer. -/
def peerNode : BlockchainNode :=
  { idle 0 .standardProtocol .committer with
    peersAddresses := [⟨2⟩]
    peersSockets := AList.singleton ⟨2⟩ (some ⟨0⟩) }

/-- The frame it sends for a block one above the genesis block. -/
def firstFrame : Frame where
  peer := ⟨2⟩
  text := advertisementText advertisementParser
    (Blockchain.lineageBlock (CInt.lit 1) (CInt.lit 5) (CInt.lit 0))

/-- Two nodes: one advertises a block, the other dispatches the frame. -/
theorem advertised_traffic_conserved_pair :
    ∃ reached : Network Bool BlockchainNode Frame,
      ReflTransGen (Network.Step (Advertises advertisementParser) (Dispatches advertisementParser))
        { party := fun _ => peerNode, inFlight := [] } reached ∧
      (reached.party false).nodeStats.invSentBytes = 130 ∧
      (reached.party true).nodeStats.invReceivedBytes = 130 ∧
      (∑ i, (reached.party i).nodeStats.invSentBytes) -
          ∑ _ : Bool, peerNode.nodeStats.invSentBytes =
        (∑ i, (reached.party i).nodeStats.invReceivedBytes) -
          ∑ _ : Bool, peerNode.nodeStats.invReceivedBytes := by
  obtain ⟨sends, receives, conserved⟩ := advertised_traffic_conserved advertisementParser
    (fun _ _ _ _ _ => ⟨rfl, rfl⟩) advertisementParser_parses
  have connected : ∀ peer ∈ peerNode.peersAddresses, peerNode.Connected peer := by
    intro peer listed
    rw [List.mem_singleton.mp listed]
    exact ⟨⟨0⟩, rfl⟩
  obtain ⟨_, run, finished, wire, _, sent, _⟩ := sends peerNode
    (Blockchain.lineageBlock (CInt.lit 1) (CInt.lit 5) (CInt.lit 0)) rfl connected
  have dispatched : ∃ run', dispatch advertisementParser ⟨1⟩ 8333 0 (advertisement .standardProtocol
      (Blockchain.lineageBlock (CInt.lit 1) (CInt.lit 5) (CInt.lit 0)))
      { node := peerNode, trace := [] } = .ok run' := ⟨_, rfl⟩
  obtain ⟨run', dispatched⟩ := dispatched
  have reads := readsAsInv_advertisement (advertisementParser_parses
    (Blockchain.lineageBlock (CInt.lit 1) (CInt.lit 5) (CInt.lit 0)))
  have first : Advertises advertisementParser peerNode [firstFrame] run.node :=
    ⟨rfl, _, run, finished, wire, rfl⟩
  have second : Dispatches advertisementParser peerNode firstFrame run'.node :=
    ⟨by decide, _, ⟨1⟩, 8333, 0, [], run', reads.object, dispatched, rfl⟩
  have sending := @Network.Step.send Bool BlockchainNode Frame _ (Advertises advertisementParser)
    (Dispatches advertisementParser) { party := fun _ => peerNode, inFlight := [] } false _ _ first
  have receiving := @Network.Step.receive Bool BlockchainNode Frame _ (Advertises advertisementParser)
    (Dispatches advertisementParser)
    { party := Function.update (fun _ => peerNode) false run.node, inFlight := [firstFrame] } true []
    [] firstFrame run'.node rfl second
  have steps := (ReflTransGen.single sending).tail receiving
  have received := (receives _ _ _ ⟨_, rfl⟩ second).2
  exact ⟨_, steps, sent, received, (conserved Bool _ _ rfl steps).2 rfl⟩

end BlockchainNode

end Ns3Blockchain
