import Ns3Blockchain.Verified.FrameLoop

/-! # Reassembly of a peer's stream

`m_bufferedData` is read before every packet and never written, so each packet
is cut into frames for itself.  The frames of a stream come out whole exactly
when its packets end where frames end.
-/

namespace Ns3Blockchain

open Library Library.Framing Rapidjson

namespace BlockchainNode

/-- A `HandleRead` callback and the packets `RecvFrom` returns in it. -/
structure ReadCall where
  now : ℚ
  packets : List Packet

def deliveries (calls : List ReadCall) : List Packet := calls.flatMap ReadCall.packets

def handleReads (env : External) (fuel : Nat) (run : NodeRun) (calls : List ReadCall) :
    Except (Stop Fault) NodeRun :=
  foldChecked (fun run call => handleRead env fuel call.now run call.packets) run calls

/-- The packets of one peer, in order. -/
def segments (sender : Address) (packets : List Packet) : List Str :=
  (packets.filter fun packet => packet.sender = sender).map Packet.data

/-- The `parsedPacket` strings of one peer. -/
def extracted (sender : Address) (trace : List Effect) : List Str :=
  trace.filterMap fun
    | .parsedPacket peer parsedPacket => if peer = sender then some parsedPacket else none
    | _ => none

def buffered (node : BlockchainNode) (sender : Address) : Str :=
  (node.bufferedData.lookup sender).getD []

/-- The calls return, and give the frames of the peer's stream and its unfinished
    tail as the stream in one packet does. -/
def Reassembles (env : External) (node : BlockchainNode) (sender : Address)
    (calls : List ReadCall) : Prop :=
  ∃ fuel run whole,
    handleReads env fuel { node, trace := [] } calls = .ok run ∧
    handleRead env fuel 0 { node, trace := [] }
      [⟨sender, (segments sender (deliveries calls)).flatten⟩] = .ok whole ∧
    extracted sender run.trace = extracted sender whole.trace ∧
    extracted sender run.trace = frames '#' (segments sender (deliveries calls)).flatten ∧
    buffered run.node sender = residue '#' (segments sender (deliveries calls)).flatten

def NothingBuffered (node : BlockchainNode) : Prop := ∀ sender, buffered node sender = []

/-- The characters of a packet the frame loop gets to see. -/
def visible (packet : Packet) : Str :=
  match packet.sender with
  | .inetSocket _ _ => packet.data.cStr
  | .other _ _ => []

def NoObjects (env : External) (packet : Packet) : Prop :=
  ∀ frame ∈ frames '#' (visible packet), frameDocument env frame = none

/-- What `HandleRead` logs for a packet without objects. -/
def packetLog (env : External) (packet : Packet) : List Effect :=
  match packet.sender with
  | .inetSocket ipv4 port => (frames '#' packet.data.cStr).flatMap (frameLog env ipv4 port)
  | .other _ _ => []

variable {env : External} {fuel : Nat} {now : ℚ}

/-! ## One packet -/

theorem bufferedDataAt_of_nothingBuffered {node : BlockchainNode} (nothing : NothingBuffered node)
    (sender : Address) :
    (node.bufferedDataAt sender).2 = [] ∧ NothingBuffered (node.bufferedDataAt sender).1 := by
  have here := nothing sender
  unfold buffered at here
  unfold bufferedDataAt
  split
  next data found =>
    rw [found, Option.getD_some] at here
    exact ⟨here, nothing⟩
  next =>
    refine ⟨rfl, fun peer => ?_⟩
    by_cases same : peer = sender
    · rw [buffered, same, AList.lookup_insert]
      rfl
    · rw [buffered, AList.lookup_insert_ne same]
      exact nothing peer

theorem totalStream_of_nothingBuffered {run : NodeRun} (nothing : NothingBuffered run.node)
    (sender : Address) (packetInfo : Str) :
    (totalStream sender packetInfo run).totalReceivedData = packetInfo.cStr ∧
      (totalStream sender packetInfo run).trace = run.trace ∧
      NothingBuffered (totalStream sender packetInfo run).node := by
  obtain ⟨empty, still⟩ := bufferedDataAt_of_nothingBuffered nothing sender
  refine ⟨?_, rfl, still⟩
  rw [totalStream]
  dsimp only
  rw [empty, List.nil_append]

theorem handlePacket_inetSocket (ipv4 : Ipv4Address) (port : UInt16) (data : Str) (run : NodeRun) :
    handlePacket env fuel now ⟨.inetSocket ipv4 port, data⟩ run =
      runLoop (frameStep env ipv4 port now) fuel
        (totalStream (.inetSocket ipv4 port) data run) >>= fun loop => .ok loop.toNodeRun := rfl

theorem handlePacket_ok {packet : Packet} {run run' : NodeRun} (nothing : NothingBuffered run.node)
    (handled : handlePacket env fuel now packet run = .ok run') :
    NoObjects env packet ∧ NothingBuffered run'.node ∧
      run'.trace = run.trace ++ packetLog env packet := by
  obtain ⟨sender, data⟩ := packet
  cases sender with
  | other type bytes =>
    cases handled
    refine ⟨?_, nothing, (List.append_nil _).symm⟩
    intro frame member
    rw [visible, frames_nil] at member
    cases member
  | inetSocket ipv4 port =>
    obtain ⟨received, traced, still⟩ :=
      totalStream_of_nothingBuffered nothing (.inetSocket ipv4 port) data
    obtain ⟨loop, left, handled⟩ := bind_eq_ok_iff.mp handled
    cases handled
    obtain ⟨passes, _, exits⟩ := runLoop_eq_ok_iff.mp left
    have corrupted := exits_iff.mp ⟨_, _, exits⟩
    have final := (exits.unique (exitsAfter_of_corrupted ipv4 port now corrupted)).2
    rw [received] at corrupted
    refine ⟨corrupted, ?_, ?_⟩
    · rw [final]
      exact still
    · rw [final, received, traced]
      rfl

theorem handlePacket_succeeds (now : ℚ) {packet : Packet} {run : NodeRun}
    (nothing : NothingBuffered run.node) (corrupted : NoObjects env packet)
    (enough : (visible packet).count '#' < fuel) :
    ∃ run', handlePacket env fuel now packet run = .ok run' := by
  obtain ⟨sender, data⟩ := packet
  cases sender with
  | other type bytes => exact ⟨run, rfl⟩
  | inetSocket ipv4 port =>
    obtain ⟨received, _, _⟩ := totalStream_of_nothingBuffered nothing (.inetSocket ipv4 port) data
    rw [NoObjects, visible, ← received] at corrupted
    rw [visible, ← received] at enough
    have exits := exitsAfter_of_corrupted ipv4 port now corrupted
    have finished := runLoop_eq_ok_iff.mpr ⟨_, enough, exits⟩
    exact ⟨_, by rw [handlePacket_inetSocket, finished, ok_bind]⟩

/-! ## Runs of packets -/

/-- A packet with the time of its call. -/
def handleTimed (env : External) (fuel : Nat) (run : NodeRun) (item : ℚ × Packet) :
    Except (Stop Fault) NodeRun :=
  handlePacket env fuel item.1 item.2 run

/-- The packets of the calls, each with the time of its call. -/
def timed (calls : List ReadCall) : List (ℚ × Packet) :=
  calls.flatMap fun call => call.packets.map fun packet => (call.now, packet)

theorem map_timed (calls : List ReadCall) : (timed calls).map Prod.snd = deliveries calls := by
  simp [timed, deliveries, List.map_flatMap, Function.comp_def]

theorem handleRead_eq_fold (run : NodeRun) {packets : List Packet}
    (nonempty : ∀ packet ∈ packets, packet.data ≠ []) :
    handleRead env fuel now run packets =
      foldChecked (handleTimed env fuel) run (packets.map fun packet => (now, packet)) := by
  induction packets generalizing run with
  | nil => rfl
  | cons packet packets inductionHypothesis =>
    have first := nonempty packet List.mem_cons_self
    rw [handleRead, if_neg (mt List.length_eq_zero_iff.mp first), List.map_cons, foldChecked]
    congr 1
    funext run'
    exact inductionHypothesis run' fun other member => nonempty other (List.mem_cons_of_mem _ member)

theorem handleReads_eq_fold (run : NodeRun) {calls : List ReadCall}
    (nonempty : ∀ packet ∈ deliveries calls, packet.data ≠ []) :
    handleReads env fuel run calls = foldChecked (handleTimed env fuel) run (timed calls) := by
  induction calls generalizing run with
  | nil => rfl
  | cons call calls inductionHypothesis =>
    simp only [deliveries, List.flatMap_cons, List.mem_append] at nonempty
    rw [handleReads, foldChecked, timed, List.flatMap_cons, foldChecked_append,
      handleRead_eq_fold run fun packet member => nonempty packet (.inl member)]
    congr 1
    funext run'
    exact inductionHypothesis run' fun packet member => nonempty packet (.inr member)

theorem fold_ok {items : List (ℚ × Packet)} {node : BlockchainNode} {run : NodeRun}
    (nothing : NothingBuffered node)
    (finished : foldChecked (handleTimed env fuel) { node, trace := [] } items = .ok run) :
    (∀ packet ∈ items.map Prod.snd, NoObjects env packet) ∧ NothingBuffered run.node ∧
      run.trace = (items.map Prod.snd).flatMap (packetLog env) := by
  refine foldChecked_invariant
    (fun consumed run => (∀ packet ∈ consumed.map Prod.snd, NoObjects env packet) ∧
      NothingBuffered run.node ∧ run.trace = (consumed.map Prod.snd).flatMap (packetLog env))
    ⟨by simp, nothing, rfl⟩ ?_ finished
  intro consumed item s s' _ ⟨corrupted, nothing, traced⟩ handled
  obtain ⟨uncorrupted, still, appended⟩ := handlePacket_ok nothing handled
  refine ⟨?_, still, ?_⟩
  · intro packet member
    rw [List.map_append, List.mem_append] at member
    cases member with
    | inl member => exact corrupted packet member
    | inr member =>
      obtain rfl := List.mem_singleton.mp member
      exact uncorrupted
  · rw [appended, traced]
    simp

theorem fold_succeeds {items : List (ℚ × Packet)} {node : BlockchainNode}
    (nothing : NothingBuffered node)
    (corrupted : ∀ packet ∈ items.map Prod.snd, NoObjects env packet)
    (enough : ∀ packet ∈ items.map Prod.snd, (visible packet).count '#' < fuel) :
    ∃ run, foldChecked (handleTimed env fuel) { node, trace := [] } items = .ok run := by
  have progress : ∃ run, foldChecked (handleTimed env fuel) { node, trace := [] } items = .ok run ∧
      NothingBuffered run.node := by
    refine foldChecked_progress (fun _ (run : NodeRun) => NothingBuffered run.node) nothing ?_
    intro consumed item s ⟨rest, whole⟩ still
    have member : item.2 ∈ items.map Prod.snd := by simp [← whole]
    obtain ⟨s', handled⟩ := handlePacket_succeeds item.1 still (corrupted _ member) (enough _ member)
    exact ⟨s', handled, (handlePacket_ok still handled).2.1⟩
  obtain ⟨run, finished, _⟩ := progress
  exact ⟨run, finished⟩

/-! ## The frames of one peer -/

theorem extracted_frameLog (env : External) (sender : Address) (ipv4 : Ipv4Address) (port : UInt16)
    (frame : Str) :
    extracted sender (frameLog env ipv4 port frame) =
      if .inetSocket ipv4 port = sender then [frame] else [] := by
  unfold extracted frameLog
  split <;> split <;> simp [*]

theorem extracted_packetLog (env : External) (ipv4 : Ipv4Address) (port : UInt16) (packet : Packet) :
    extracted (.inetSocket ipv4 port) (packetLog env packet) =
      if packet.sender = .inetSocket ipv4 port then frames '#' packet.data.cStr else [] := by
  obtain ⟨sender, data⟩ := packet
  cases sender with
  | other type bytes => rfl
  | inetSocket peer peerPort =>
    have each : ∀ fs : List Str,
        extracted (.inetSocket ipv4 port) (fs.flatMap (frameLog env peer peerPort)) =
          if Address.inetSocket peer peerPort = .inetSocket ipv4 port then fs else [] := by
      intro fs
      induction fs with
      | nil => simp [extracted]
      | cons f fs inductionHypothesis =>
        have first := extracted_frameLog env (.inetSocket ipv4 port) peer peerPort f
        rw [extracted] at first inductionHypothesis ⊢
        rw [List.flatMap_cons, List.filterMap_append, first, inductionHypothesis]
        split <;> rfl
    exact each _

/-- A run that ends has cut every packet of the peer for itself. -/
theorem extracted_run (ipv4 : Ipv4Address) (port : UInt16) {packets : List Packet}
    (nulFree : ∀ packet ∈ packets, packet.sender = .inetSocket ipv4 port → nul ∉ packet.data) :
    extracted (.inetSocket ipv4 port) (packets.flatMap (packetLog env)) =
      (segments (.inetSocket ipv4 port) packets).flatMap (frames '#') := by
  induction packets with
  | nil => rfl
  | cons packet packets inductionHypothesis =>
    have others := inductionHypothesis fun other member =>
      nulFree other (List.mem_cons_of_mem _ member)
    have first := extracted_packetLog env ipv4 port packet
    rw [extracted] at first others ⊢
    rw [List.flatMap_cons, List.filterMap_append, first, others, segments]
    by_cases own : packet.sender = .inetSocket ipv4 port
    · rw [if_pos own, Str.cStr_of_nulFree (nulFree packet List.mem_cons_self own)]
      simp [own, segments]
    · simp [own, segments]

/-- A stream in one packet. -/
theorem handleRead_single (now : ℚ) {node : BlockchainNode} {data : Str} (ipv4 : Ipv4Address)
    (port : UInt16)
    (nothing : NothingBuffered node) (nulFree : nul ∉ data)
    (corrupted : NoObjects env ⟨.inetSocket ipv4 port, data⟩)
    (enough : (visible ⟨.inetSocket ipv4 port, data⟩).count '#' < fuel) :
    ∃ whole, handleRead env fuel now { node, trace := [] } [⟨.inetSocket ipv4 port, data⟩] =
        .ok whole ∧
      extracted (.inetSocket ipv4 port) whole.trace = frames '#' data := by
  by_cases empty : data = []
  · subst empty
    exact ⟨_, rfl, by rw [frames_nil]; rfl⟩
  · have start : NothingBuffered (NodeRun.mk node []).node := nothing
    obtain ⟨whole, handled⟩ := handlePacket_succeeds now start corrupted enough
    obtain ⟨_, _, traced⟩ := handlePacket_ok start handled
    refine ⟨whole, ?_, ?_⟩
    · rw [handleRead, if_neg (mt List.length_eq_zero_iff.mp empty), handled]
      rfl
    · rw [traced, List.nil_append, extracted_packetLog, if_pos rfl, Str.cStr_of_nulFree nulFree]

theorem mem_segments {sender : Address} {packets : List Packet} {s : Str} :
    s ∈ segments sender packets ↔ ∃ packet ∈ packets, packet.sender = sender ∧ packet.data = s := by
  simp [segments, and_assoc]

theorem exists_fuel (packets : List Packet) :
    ∃ fuel, ∀ packet ∈ packets, (visible packet).count '#' < fuel := by
  induction packets with
  | nil => exact ⟨0, by simp⟩
  | cons packet packets inductionHypothesis =>
    obtain ⟨fuel, enough⟩ := inductionHypothesis
    refine ⟨max fuel ((visible packet).count '#' + 1), ?_⟩
    intro other member
    cases member with
    | head => omega
    | tail _ member =>
      have := enough other member
      omega

/-- The frames of a run that ends, and the buffer it leaves. -/
theorem handleReads_ok {node : BlockchainNode} {calls : List ReadCall} {run : NodeRun}
    (ipv4 : Ipv4Address) (port : UInt16) (nothing : NothingBuffered node)
    (nonempty : ∀ packet ∈ deliveries calls, packet.data ≠ [])
    (nulFree : ∀ packet ∈ deliveries calls,
      packet.sender = .inetSocket ipv4 port → nul ∉ packet.data)
    (finished : handleReads env fuel { node, trace := [] } calls = .ok run) :
    (∀ packet ∈ deliveries calls, NoObjects env packet) ∧ NothingBuffered run.node ∧
      extracted (.inetSocket ipv4 port) run.trace =
        (segments (.inetSocket ipv4 port) (deliveries calls)).flatMap (frames '#') := by
  rw [handleReads_eq_fold _ nonempty] at finished
  obtain ⟨corrupted, still, traced⟩ := fold_ok nothing finished
  rw [map_timed] at corrupted traced
  exact ⟨corrupted, still, by rw [traced, extracted_run ipv4 port nulFree]⟩

theorem handleReads_succeeds {node : BlockchainNode} {calls : List ReadCall}
    (nothing : NothingBuffered node) (nonempty : ∀ packet ∈ deliveries calls, packet.data ≠ [])
    (corrupted : ∀ packet ∈ deliveries calls, NoObjects env packet)
    (enough : ∀ packet ∈ deliveries calls, (visible packet).count '#' < fuel) :
    ∃ run, handleReads env fuel { node, trace := [] } calls = .ok run := by
  rw [handleReads_eq_fold _ nonempty]
  refine fold_succeeds nothing ?_ ?_
  · rw [map_timed]
    exact corrupted
  · rw [map_timed]
    exact enough

/-! ## The whole stream of one peer -/

section Stream

variable {ipv4 : Ipv4Address} {port : UInt16} {packets : List Packet}

theorem residue_segments_iff (nonempty : ∀ packet ∈ packets, packet.data ≠ []) {sender : Address} :
    (∀ s ∈ segments sender packets, residue '#' s = []) ↔
      ∀ packet ∈ packets, packet.sender = sender → packet.data.getLast? = some '#' := by
  constructor
  · intro finished packet member own
    exact (residue_eq_nil_iff (nonempty packet member)).mp
      (finished _ (mem_segments.mpr ⟨packet, member, own, rfl⟩))
  · intro ended s segment
    obtain ⟨packet, member, own, rfl⟩ := mem_segments.mp segment
    exact (residue_eq_nil_iff (nonempty packet member)).mpr (ended packet member own)

theorem nul_not_mem_stream
    (nulFree : ∀ packet ∈ packets, packet.sender = .inetSocket ipv4 port → nul ∉ packet.data) :
    nul ∉ (segments (.inetSocket ipv4 port) packets).flatten := by
  intro member
  obtain ⟨s, segment, member⟩ := List.mem_flatten.mp member
  obtain ⟨packet, delivered, own, rfl⟩ := mem_segments.mp segment
  exact nulFree packet delivered own member

/-- The whole stream as one packet, where it has the frames of its segments. -/
theorem noObjects_stream
    (nulFree : ∀ packet ∈ packets, packet.sender = .inetSocket ipv4 port → nul ∉ packet.data)
    (corrupted : ∀ packet ∈ packets, NoObjects env packet)
    (sameFrames : (segments (.inetSocket ipv4 port) packets).flatMap (frames '#') =
      frames '#' (segments (.inetSocket ipv4 port) packets).flatten) :
    NoObjects env
      ⟨.inetSocket ipv4 port, (segments (.inetSocket ipv4 port) packets).flatten⟩ := by
  intro frame member
  rw [visible, Str.cStr_of_nulFree (nul_not_mem_stream nulFree), ← sameFrames] at member
  obtain ⟨s, segment, member⟩ := List.mem_flatMap.mp member
  obtain ⟨packet, delivered, own, rfl⟩ := mem_segments.mp segment
  refine corrupted packet delivered frame ?_
  rwa [visible, own, Str.cStr_of_nulFree (nulFree packet delivered own)]

end Stream

/-! ## Main result -/

/-- From a node with nothing buffered, for every peer and every sequence of
    calls: the peer's stream is reassembled exactly when each of its packets
    ends with `#` and no frame of any packet is an object. -/
theorem reassembles_iff (env : External) (node : BlockchainNode) (ipv4 : Ipv4Address)
    (port : UInt16) (calls : List ReadCall) (nothing : NothingBuffered node)
    (nonempty : ∀ packet ∈ deliveries calls, packet.data ≠ [])
    (nulFree : ∀ packet ∈ deliveries calls,
      packet.sender = .inetSocket ipv4 port → nul ∉ packet.data) :
    Reassembles env node (.inetSocket ipv4 port) calls ↔
      (∀ packet ∈ deliveries calls, packet.sender = .inetSocket ipv4 port →
        packet.data.getLast? = some '#') ∧
      ∀ packet ∈ deliveries calls, ∀ frame ∈ frames '#' (visible packet),
        frameDocument env frame = none := by
  rw [← residue_segments_iff nonempty, ← memoryless_iff]
  constructor
  · intro ⟨fuel, run, whole, finished, _, _, sameFrames, tail⟩
    obtain ⟨corrupted, still, cut⟩ := handleReads_ok ipv4 port nothing nonempty nulFree finished
    exact ⟨⟨by rw [← cut, sameFrames], by rw [← tail, still]⟩, corrupted⟩
  · intro ⟨⟨sameFrames, tail⟩, corrupted⟩
    -- The whole stream as one packet has the frames of the segments, so the
    -- frame loop leaves it too; one fuel serves both runs.
    have singleCorrupted := noObjects_stream nulFree corrupted sameFrames
    obtain ⟨fuel, enough⟩ := exists_fuel
      (⟨.inetSocket ipv4 port, (segments (.inetSocket ipv4 port) (deliveries calls)).flatten⟩ ::
        deliveries calls)
    obtain ⟨run, finished⟩ := handleReads_succeeds nothing nonempty corrupted
      fun packet member => enough packet (List.mem_cons_of_mem _ member)
    obtain ⟨_, still, cut⟩ := handleReads_ok ipv4 port nothing nonempty nulFree finished
    obtain ⟨whole, handled, wholeCut⟩ := handleRead_single 0 ipv4 port nothing
      (nul_not_mem_stream nulFree) singleCorrupted (enough _ List.mem_cons_self)
    refine ⟨fuel, run, whole, finished, handled, ?_, ?_, ?_⟩
    · rw [cut, wholeCut, sameFrames]
    · rw [cut, sameFrames]
    · rw [still, tail]

theorem idle_nothingBuffered (id : UInt32) (protocolType : ProtocolType)
    (committerType : CommitterType) : NothingBuffered (idle id protocolType committerType) :=
  fun _ => rfl

/-- Two calls, with a packet of another peer between the packets of the first. -/
def alignedCalls : List ReadCall :=
  [{ now := 0, packets := [⟨.inetSocket ⟨1⟩ 8333, "ab#".toList⟩, ⟨.inetSocket ⟨2⟩ 8333, "x".toList⟩] },
    { now := 1, packets := [⟨.inetSocket ⟨1⟩ 8333, "c#d#".toList⟩] }]

theorem reassembles_iff_aligned :
    Reassembles (knowing []) (idle 0 .standardProtocol .committer) (.inetSocket ⟨1⟩ 8333)
      alignedCalls :=
  (reassembles_iff (knowing []) (idle 0 .standardProtocol .committer) ⟨1⟩ 8333 alignedCalls
    (idle_nothingBuffered 0 .standardProtocol .committer) (by decide) (by decide)).mpr
    ⟨by decide, fun _ _ _ _ => rfl⟩

/-- The frame `abc` in two packets. -/
def splitCalls : List ReadCall :=
  [{ now := 0, packets := [⟨.inetSocket ⟨1⟩ 8333, "ab".toList⟩] },
    { now := 1, packets := [⟨.inetSocket ⟨1⟩ 8333, "c#".toList⟩] }]

/-- The first half of a frame cut in two is lost. -/
theorem split_frame_lost :
    ¬ Reassembles (knowing []) (idle 0 .standardProtocol .committer) (.inetSocket ⟨1⟩ 8333)
      splitCalls := by
  intro ⟨fuel, run, whole, finished, _, _, sameFrames, _⟩
  obtain ⟨_, _, cut⟩ := handleReads_ok ⟨1⟩ 8333
    (idle_nothingBuffered 0 .standardProtocol .committer) (by decide) (by decide) finished
  rw [cut] at sameFrames
  exact absurd sameFrames (by decide)

end BlockchainNode

end Ns3Blockchain
