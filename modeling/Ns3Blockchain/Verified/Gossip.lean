import Ns3Blockchain.Verified.JsonRoundTrip
import Ns3Blockchain.Verified.Reassembly
import Ns3Blockchain.Verified.Traffic
import Mathlib.Logic.Relation

/-! # Announcements on the wire

The nodes of a network write their announcements with `Writer` and read with
`Document::Parse`, and what one sends another reaches it cut anywhere.  A part that has
the whole of an announcement keeps `HandleRead` from returning; every other part is
logged as corrupted and forgotten.  So no call that returns has told a node anything.
-/

namespace Ns3Blockchain

open Library Library.Framing Rapidjson Relation

namespace Rapidjson

theorem JsonText.brace_mem {strtod : Str → Option ℚ} {text : Str} {members : List (Str × Value)}
    (isText : JsonText strtod text (.object members)) : '\x7b' ∈ text := by
  cases isText with
  | document blank root blank' =>
    cases root with
    | number isNumber => cases isNumber
    | emptyObject blank => simp
    | object blank inside => simp

end Rapidjson

namespace BlockchainNode

/-- `document.Parse` is the reader of `reader.h`. -/
def ParsesJson (env : External) : Prop :=
  ∃ strtod, ∀ s, Document.parse strtod s = .ok (env.parse s)

/-- The text `AdvertiseNewBlock` sends for some block. -/
def IsAnnouncement (env : External) (text : Str) : Prop :=
  ∃ protocolType newBlock, text = write env.dtoa (advertisement protocolType newBlock)

/-- What is left of a stream of announcements after some of it was read. -/
def Announces (env : External) (wire : Str) : Prop :=
  ∃ (before : Str) (texts : List Str), (∀ text ∈ texts, IsAnnouncement env text) ∧
    before ++ wire = texts.flatMap fun text => text ++ ['#']

/-- The nodes, and what each has sent to each that is not read yet. -/
structure Wires (ι : Type) where
  run : ι → NodeRun
  wire : ι → ι → Str

variable {ι : Type} [DecidableEq ι]

/-- A node announces a block, or reads a part of what another sent it, or does
    something else; `ip i` is the address of node `i`. -/
inductive Wires.Step (env : External) (ip : ι → Ipv4Address) (port : UInt16) :
    Wires ι → Wires ι → Prop where
  | advertise {net : Wires ι} {i : ι} {newBlock : Block} {sent : NodeRun}
      (done : advertiseNewBlock env newBlock (net.run i).node = .ok sent) :
      Wires.Step env ip port net
        { run := Function.update net.run i
            { node := sent.node, trace := (net.run i).trace ++ sent.trace }
          wire := Function.update net.wire i fun j => net.wire i j ++ bytesTo (ip j) sent.trace }
  | read {net : Wires ι} {i j : ι} {now : ℚ} {chunk rest : Str} {fuel : ℕ} {run : NodeRun}
      (pending : net.wire i j = chunk ++ rest) (nonempty : chunk ≠ [])
      (returned : handleRead env fuel now (net.run j) [⟨.inetSocket (ip i) port, chunk⟩] = .ok run) :
      Wires.Step env ip port net
        { run := Function.update net.run j run
          wire := Function.update net.wire i (Function.update (net.wire i) j rest) }
  | other {net : Wires ι} {i : ι} {run : NodeRun}
      (untouched : run.node.bufferedData = (net.run i).node.bufferedData) :
      Wires.Step env ip port net { net with run := Function.update net.run i run }

variable {env : External}

/-! ## The texts -/

theorem advertisement_fits (protocolType : ProtocolType) (newBlock : Block) :
    (advertisement protocolType newBlock).Fits := by
  cases protocolType with
  | standardProtocol =>
    exact ⟨trivial, ⟨by decide, by decide⟩, ⟨trivial, trivial⟩, trivial⟩
  | sendHeaders => exact ⟨trivial, trivial⟩

theorem announcement_nulFree {text : Str} (isAnnouncement : IsAnnouncement env text) : nul ∉ text := by
  obtain ⟨protocolType, newBlock, rfl⟩ := isAnnouncement
  cases protocolType with
  | standardProtocol =>
    exact not_mem_write_advertisement env.dtoa newBlock (by decide) (by decide) (by decide) (by decide)
      (by decide)
  | sendHeaders =>
    change nul ∉ sendHeadersText
    decide

theorem announcement_whole {text : Str} (isAnnouncement : IsAnnouncement env text) : '#' ∉ text := by
  obtain ⟨protocolType, newBlock, rfl⟩ := isAnnouncement
  cases protocolType with
  | standardProtocol =>
    exact not_mem_write_advertisement env.dtoa newBlock (by decide) (by decide) (by decide) (by decide)
      (by decide)
  | sendHeaders =>
    change '#' ∉ sendHeadersText
    decide

/-- The brace at its start is the only one that opens. -/
theorem announcement_brace {text : Str} (isAnnouncement : IsAnnouncement env text) :
    ∃ rest, text = '\x7b' :: rest ∧ '\x7b' ∉ rest := by
  obtain ⟨protocolType, newBlock, rfl⟩ := isAnnouncement
  cases protocolType with
  | standardProtocol =>
    refine ⟨textBefore.tail ++ (blockHash newBlock ++ textAfter), write_advertisement _ _, ?_⟩
    rw [List.mem_append, List.mem_append, not_or, not_or]
    exact ⟨by decide, not_mem_blockHash (by decide) (by decide) (by decide), by decide⟩
  | sendHeaders => exact ⟨sendHeadersText.tail, rfl, by decide⟩

theorem announcement_object (json : ParsesJson env) {text : Str}
    (isAnnouncement : IsAnnouncement env text) :
    ∃ document, frameDocument env text = some document := by
  obtain ⟨strtod, parses⟩ := json
  have nulFree := announcement_nulFree isAnnouncement
  obtain ⟨protocolType, newBlock, rfl⟩ := isAnnouncement
  have noDoubles : (advertisement protocolType newBlock).doubles = [] := by
    cases protocolType <;> rfl
  have read := @Document.parse_write strtod env.dtoa (fun d => d) _ (advertisement_fits protocolType newBlock)
    (by simp [noDoubles])
  rw [parses] at read
  have object : ((advertisement protocolType newBlock).mapDouble fun d => d).isObject = true := by
    cases protocolType <;> rfl
  rw [frameDocument, Str.cStr_of_nulFree nulFree, Except.ok.inj read, Option.filter_some, if_pos object]
  exact ⟨_, rfl⟩

theorem frameDocument_of_noBrace (json : ParsesJson env) {frame : Str} (noBrace : '\x7b' ∉ frame) :
    frameDocument env frame = none := by
  obtain ⟨strtod, parses⟩ := json
  rw [frameDocument, Option.filter_eq_none_iff]
  intro document found object
  have read := parses frame.cStr
  rw [found, Document.parse_eq_some_iff] at read
  obtain ⟨members, rfl⟩ : ∃ members, document = .object members := by
    cases document with
    | object members => exact ⟨members, rfl⟩
    | null | bool | int | double | string | array => cases object
  exact noBrace (List.takeWhile_subset _ (List.takeWhile_subset _ read.brace_mem))

/-- The end of an announcement is an object when it is all of it, and no other way. -/
theorem frameDocument_announced (json : ParsesJson env) {g frame : Str}
    (isAnnouncement : IsAnnouncement env (g ++ frame)) :
    frameDocument env frame = none ↔ ¬ IsAnnouncement env frame := by
  constructor
  · intro corrupted whole
    obtain ⟨document, object⟩ := announcement_object json whole
    rw [corrupted] at object
    cases object
  · intro part
    cases g with
    | nil => exact absurd isAnnouncement part
    | cons c g =>
      obtain ⟨rest, split, noBrace⟩ := announcement_brace isAnnouncement
      rw [List.cons_append, List.cons.injEq] at split
      refine frameDocument_of_noBrace json fun member => noBrace ?_
      rw [← split.2]
      exact List.mem_append_right g member

/-! ## One call -/

/-- The log of a frame that is no object. -/
def corruptedLog (sender : Address) (frame : Str) : List Effect :=
  [.parsedPacket sender frame, .corruptedPacket]

/-- The run after a packet without objects. -/
def skipped (sender : Address) (chunk : Str) (run : NodeRun) : NodeRun where
  node := (run.node.bufferedDataAt sender).1
  trace := run.trace ++ (frames '#' chunk).flatMap (corruptedLog sender)

theorem flatMap_frameLog {ipv4 : Ipv4Address} {port : UInt16} {chunk : Str}
    (corrupted : ∀ frame ∈ frames '#' chunk, frameDocument env frame = none) :
    (frames '#' chunk).flatMap (frameLog env ipv4 port) =
      (frames '#' chunk).flatMap (corruptedLog (.inetSocket ipv4 port)) := by
  refine List.flatMap_congr fun frame member => ?_
  rw [frameLog, corrupted frame member, corruptedLog]

/-- A call for one packet returns when no frame of it is an object, and then forgets it. -/
theorem handleRead_iff {ipv4 : Ipv4Address} {port : UInt16} {now : ℚ} {chunk : Str}
    {run run' : NodeRun} (nothing : NothingBuffered run.node) (nonempty : chunk ≠ [])
    (nulFree : nul ∉ chunk) :
    (∃ fuel, handleRead env fuel now run [⟨.inetSocket ipv4 port, chunk⟩] = .ok run') ↔
      (∀ frame ∈ frames '#' chunk, frameDocument env frame = none) ∧
        run' = skipped (.inetSocket ipv4 port) chunk run := by
  -- With nothing buffered for the sender, the stream is the packet itself.
  obtain ⟨received, _, _⟩ := totalStream_of_nothingBuffered nothing (.inetSocket ipv4 port) chunk
  rw [Str.cStr_of_nulFree nulFree] at received
  have call (fuel : ℕ) : handleRead env fuel now run [⟨.inetSocket ipv4 port, chunk⟩] =
      runLoop (frameStep env ipv4 port now) fuel (totalStream (.inetSocket ipv4 port) chunk run) >>=
        fun loop => .ok loop.toNodeRun := by
    rw [handleRead, if_neg (mt List.length_eq_zero_iff.mp nonempty), handlePacket_inetSocket]
    cases runLoop (frameStep env ipv4 port now) fuel (totalStream (.inetSocket ipv4 port) chunk run) <;>
      rfl
  have exits (corrupted : ∀ frame ∈ frames '#' chunk, frameDocument env frame = none) :
      ExitsAfter (frameStep env ipv4 port now) (chunk.count '#')
        (totalStream (.inetSocket ipv4 port) chunk run)
        { skipped (.inetSocket ipv4 port) chunk run with totalReceivedData := residue '#' chunk } := by
    have corruptedHere : ∀ frame ∈
        frames '#' (totalStream (.inetSocket ipv4 port) chunk run).totalReceivedData,
        frameDocument env frame = none := by
      rw [received]
      exact corrupted
    have run := exitsAfter_of_corrupted ipv4 port now corruptedHere
    rw [received, flatMap_frameLog corrupted] at run
    exact run
  constructor
  · rintro ⟨fuel, returned⟩
    rw [call] at returned
    obtain ⟨loop, looped, returned⟩ := bind_eq_ok_iff.mp returned
    cases returned
    -- A loop that returns has left through its exit, which an object frame never reaches.
    obtain ⟨passes, _, left⟩ := runLoop_eq_ok_iff.mp looped
    have corrupted := exits_iff.mp ⟨_, _, left⟩
    rw [received] at corrupted
    exact ⟨corrupted, by rw [(left.unique (exits corrupted)).2]⟩
  · rintro ⟨corrupted, rfl⟩
    -- One pass for each delimiter.
    refine ⟨chunk.count '#' + 1, ?_⟩
    rw [call, runLoop_eq_ok_iff.mpr ⟨_, Nat.lt_succ_self _, exits corrupted⟩]
    rfl

theorem skipped_nothingBuffered {run : NodeRun} (nothing : NothingBuffered run.node)
    (sender : Address) (chunk : Str) : NothingBuffered (skipped sender chunk run).node :=
  (bufferedDataAt_of_nothingBuffered nothing sender).2

theorem skipped_node (sender : Address) (chunk : Str) (run : NodeRun) :
    { (skipped sender chunk run).node with bufferedData := run.node.bufferedData } = run.node := by
  rw [skipped, bufferedDataAt]
  cases run.node.bufferedData.lookup sender <;> rfl

/-! ## The network -/

theorem bytesTo_advertised {node : BlockchainNode} {newBlock : Block} {sent : NodeRun}
    (done : advertiseNewBlock env newBlock node = .ok sent) (peer : Ipv4Address) :
    ∃ texts : List Str, (∀ text ∈ texts, IsAnnouncement env text) ∧
      bytesTo peer sent.trace = texts.flatMap fun text => text ++ ['#'] := by
  refine ⟨List.replicate (if peer = newBlock.getReceivedFromIpv4 then 0
    else node.peersAddresses.count peer) (write env.dtoa (advertisement node.protocolType newBlock)),
    fun text member => ⟨_, _, List.eq_of_mem_replicate member⟩, ?_⟩
  rw [advertiseNewBlock_ok done, bytesTo_sentTo, List.flatMap_replicate]

theorem Announces.append {wire more : Str} (announces : Announces env wire) {texts : List Str}
    (announcements : ∀ text ∈ texts, IsAnnouncement env text)
    (sent : more = texts.flatMap fun text => text ++ ['#']) : Announces env (wire ++ more) := by
  obtain ⟨before, earlier, areAnnouncements, stream⟩ := announces
  refine ⟨before, earlier ++ texts, fun text member => ?_, ?_⟩
  · exact (List.mem_append.mp member).elim (areAnnouncements text) (announcements text)
  · rw [← List.append_assoc, stream, sent, List.flatMap_append]

theorem Announces.read {chunk rest : Str} (announces : Announces env (chunk ++ rest)) :
    Announces env rest := by
  obtain ⟨before, texts, announcements, stream⟩ := announces
  exact ⟨before ++ chunk, texts, announcements, by rw [List.append_assoc, stream]⟩

/-- The frames of a part of a stream are the ends of its announcements. -/
theorem Announces.frames {chunk rest frame : Str} (announces : Announces env (chunk ++ rest))
    (member : frame ∈ Framing.frames '#' chunk) : ∃ g, IsAnnouncement env (g ++ frame) := by
  obtain ⟨before, texts, announcements, stream⟩ := announces
  obtain ⟨g, joined⟩ := @mem_frames_of_split _ _ '#' before chunk rest frame member
  rw [stream, frames_flatMap fun text member => announcement_whole (announcements text member)] at joined
  exact ⟨g, announcements _ joined⟩

theorem Announces.nulFree {wire : Str} (announces : Announces env wire) : nul ∉ wire := by
  obtain ⟨before, texts, announcements, stream⟩ := announces
  intro member
  have inside : nul ∈ texts.flatMap fun text => text ++ ['#'] :=
    stream ▸ List.mem_append_right before member
  obtain ⟨text, sent, inside⟩ := List.mem_flatMap.mp inside
  rcases List.mem_append.mp inside with inText | isHash
  · exact announcement_nulFree (announcements text sent) inText
  · exact absurd (List.mem_singleton.mp isHash) (by decide)

/-- The invariant of a network. -/
structure Quiet (env : External) (net : Wires ι) : Prop where
  nothing : ∀ i, NothingBuffered (net.run i).node
  wires : ∀ i j, Announces env (net.wire i j)

theorem bufferedData_of_advertised {node : BlockchainNode} {newBlock : Block} {sent : NodeRun}
    (done : advertiseNewBlock env newBlock node = .ok sent) :
    sent.node.bufferedData = node.bufferedData := by
  have loop := foldChecked_invariant
    (fun _ (run : NodeRun) => run.node.bufferedData = node.bufferedData ∧
      run.node.protocolType = node.protocolType)
    ⟨rfl, rfl⟩ ?_ done
  · exact loop.1
  · intro _ peer s s' _ ⟨same, protocol⟩ pass
    obtain ⟨_, rfl⟩ := (advertiseTo_eq_ok_iff protocol).mp pass
    refine ⟨?_, (bookSent_protocolType _ _ _ _).trans protocol⟩
    rw [afterPeer, ← same, bookSent]
    split <;> rfl

theorem NothingBuffered.congr {node node' : BlockchainNode} (nothing : NothingBuffered node)
    (same : node'.bufferedData = node.bufferedData) : NothingBuffered node' := by
  intro sender
  rw [buffered, same]
  exact nothing sender

theorem nothing_update {net : Wires ι} (quiet : Quiet env net) {i : ι} {run : NodeRun}
    (nothing : NothingBuffered run.node) :
    ∀ k, NothingBuffered (Function.update net.run i run k).node :=
  (Function.forall_update_iff net.run fun _ run => NothingBuffered run.node).mpr
    ⟨nothing, fun k _ => quiet.nothing k⟩

theorem wires_update {net : Wires ι} (quiet : Quiet env net) {i : ι} {wire : ι → Str}
    (announces : ∀ j, Announces env (wire j)) :
    ∀ k j, Announces env (Function.update net.wire i wire k j) :=
  (Function.forall_update_iff net.wire fun _ wire => ∀ j, Announces env (wire j)).mpr
    ⟨announces, fun k _ => quiet.wires k⟩

theorem Quiet.step {ip : ι → Ipv4Address} {port : UInt16} {net net' : Wires ι} (quiet : Quiet env net)
    (step : Wires.Step env ip port net net') : Quiet env net' := by
  cases step with
  | @advertise i newBlock sent done =>
    refine ⟨nothing_update quiet ?_, wires_update quiet fun j => ?_⟩
    · have same := bufferedData_of_advertised done
      exact (quiet.nothing i).congr same
    · obtain ⟨texts, announcements, bytes⟩ := bytesTo_advertised done (ip j)
      exact (quiet.wires i j).append announcements bytes
  | @read i j now chunk rest fuel run pending nonempty returned =>
    have announces := quiet.wires i j
    rw [pending] at announces
    have nulFree : nul ∉ chunk := fun member => announces.nulFree (List.mem_append_left _ member)
    obtain ⟨_, rfl⟩ := (handleRead_iff (quiet.nothing j) nonempty nulFree).mp ⟨fuel, returned⟩
    refine ⟨nothing_update quiet (skipped_nothingBuffered (quiet.nothing j) _ _),
      wires_update quiet ?_⟩
    exact (Function.forall_update_iff (net.wire i) fun _ wire => Announces env wire).mpr
      ⟨announces.read, fun l _ => quiet.wires i l⟩
  | other untouched =>
    exact ⟨nothing_update quiet ((quiet.nothing _).congr untouched), quiet.wires⟩

theorem quiet_of_steps {ip : ι → Ipv4Address} {port : UInt16} {start reached : Wires ι}
    (nothing : ∀ i, NothingBuffered (start.run i).node) (silent : ∀ i j, start.wire i j = [])
    (steps : ReflTransGen (Wires.Step env ip port) start reached) : Quiet env reached := by
  induction steps with
  | refl => exact ⟨nothing, fun i j => ⟨[], [], nofun, by rw [silent]; rfl⟩⟩
  | tail _ step inductionHypothesis => exact inductionHypothesis.step step

/-! ## Main result -/

/-- In every network that starts with nothing sent and nothing buffered, whatever its
    nodes announce, read and do: a call that hands a node the next part of a stream
    returns exactly when that part has no whole announcement in it, and has then told
    the node nothing. -/
theorem announcement_stuck_or_lost (env : External) (json : ParsesJson env) (ip : ι → Ipv4Address)
    (port : UInt16) (start reached : Wires ι)
    (nothing : ∀ i, NothingBuffered (start.run i).node) (silent : ∀ i j, start.wire i j = [])
    (steps : ReflTransGen (Wires.Step env ip port) start reached) (i j : ι) (chunk rest : Str)
    (pending : reached.wire i j = chunk ++ rest) (nonempty : chunk ≠ []) (now : ℚ) :
    ((∃ fuel run, handleRead env fuel now (reached.run j) [⟨.inetSocket (ip i) port, chunk⟩] = .ok run) ↔
        ∀ frame ∈ frames '#' chunk, ¬ IsAnnouncement env frame) ∧
      ∀ fuel run, handleRead env fuel now (reached.run j) [⟨.inetSocket (ip i) port, chunk⟩] = .ok run →
        { run.node with bufferedData := (reached.run j).node.bufferedData } = (reached.run j).node ∧
        run.trace = (reached.run j).trace ++
          (frames '#' chunk).flatMap (corruptedLog (.inetSocket (ip i) port)) := by
  have quiet := quiet_of_steps nothing silent steps
  have announces := quiet.wires i j
  rw [pending] at announces
  have nulFree : nul ∉ chunk := fun member => announces.nulFree (List.mem_append_left _ member)
  have corrupted : (∀ frame ∈ frames '#' chunk, frameDocument env frame = none) ↔
      ∀ frame ∈ frames '#' chunk, ¬ IsAnnouncement env frame := by
    refine forall₂_congr fun frame member => ?_
    obtain ⟨_, isEnd⟩ := announces.frames member
    exact frameDocument_announced json isEnd
  have returns {run : NodeRun} := @handleRead_iff env (ip i) port now chunk (reached.run j) run
    (quiet.nothing j) nonempty nulFree
  refine ⟨?_, fun fuel run returned => ?_⟩
  · rw [← corrupted]
    constructor
    · rintro ⟨fuel, run, returned⟩
      exact (returns.mp ⟨fuel, returned⟩).1
    · intro skips
      obtain ⟨fuel, returned⟩ := returns.mpr ⟨skips, rfl⟩
      exact ⟨fuel, _, returned⟩
  · obtain ⟨_, rfl⟩ := returns.mp ⟨fuel, returned⟩
    exact ⟨skipped_node _ _ _, rfl⟩

/-- `Document::Parse` for an environment that knows no fraction. -/
def jsonEnv : External :=
  { knowing [] with
    parse s := match Document.parse (fun _ => none) s with
      | .ok document => document
      | .error _ => none }

theorem jsonEnv_parsesJson : ParsesJson jsonEnv := by
  refine ⟨fun _ => none, fun s => ?_⟩
  obtain failed | ⟨value, read, _⟩ := Document.parse_cases (fun _ => none) s
  · simp only [jsonEnv, failed]
  · simp only [jsonEnv, read]

theorem peerNode_nothingBuffered : NothingBuffered peerNode := fun _ => rfl

/-- Two nodes that announce to the second one. -/
def pair : Wires Bool := { run := fun _ => { node := peerNode, trace := [] }, wire := fun _ _ => [] }

def pairAddress (i : Bool) : Ipv4Address := if i then ⟨2⟩ else ⟨1⟩

def announced : Block := Blockchain.lineageBlock (CInt.lit 1) (CInt.lit 5) (CInt.lit 0)

/-- The second node gets an announcement of the first in one piece, or all of it but the
    last character. -/
theorem announcement_stuck_or_lost_pair :
    ∃ reached, ReflTransGen (Wires.Step jsonEnv pairAddress 8333) pair reached ∧
      (¬ ∃ fuel run, handleRead jsonEnv fuel 0 (reached.run true)
        [⟨.inetSocket ⟨1⟩ 8333, reached.wire false true⟩] = .ok run) ∧
      ∃ fuel run, handleRead jsonEnv fuel 0 (reached.run true)
        [⟨.inetSocket ⟨1⟩ 8333, (reached.wire false true).dropLast⟩] = .ok run := by
  obtain ⟨sent, done⟩ : ∃ sent, advertiseNewBlock jsonEnv announced peerNode = .ok sent := by
    refine advertiseNewBlock_succeeds fun peer listed _ => ?_
    rw [List.mem_singleton.mp listed]
    exact ⟨⟨0⟩, rfl⟩
  have text : IsAnnouncement jsonEnv
      (write jsonEnv.dtoa (advertisement .standardProtocol announced)) := ⟨_, _, rfl⟩
  have bytes : bytesTo ⟨2⟩ sent.trace =
      write jsonEnv.dtoa (advertisement .standardProtocol announced) ++ ['#'] := by
    rw [advertiseNewBlock_ok done, bytesTo_sentTo]
    exact List.append_nil _
  obtain ⟨reached, steps, wired⟩ : ∃ reached,
      ReflTransGen (Wires.Step jsonEnv pairAddress 8333) pair reached ∧
      reached.wire false true =
        write jsonEnv.dtoa (advertisement .standardProtocol announced) ++ ['#'] :=
    ⟨_, .single (@Wires.Step.advertise Bool _ jsonEnv pairAddress 8333 pair false announced sent done), bytes⟩
  have nonempty : write jsonEnv.dtoa (advertisement .standardProtocol announced) ≠ [] := by
    obtain ⟨_, starts, _⟩ := announcement_brace text
    rw [starts]
    exact List.cons_ne_nil _ _
  have whole := announcement_whole text
  obtain ⟨stuck, _⟩ := announcement_stuck_or_lost jsonEnv jsonEnv_parsesJson pairAddress 8333 pair
    reached (fun _ => peerNode_nothingBuffered) (fun _ _ => rfl) steps false true
    (write jsonEnv.dtoa (advertisement .standardProtocol announced) ++ ['#']) []
    (by rw [wired, List.append_nil]) (by simp) 0
  obtain ⟨lost, _⟩ := announcement_stuck_or_lost jsonEnv jsonEnv_parsesJson pairAddress 8333 pair
    reached (fun _ => peerNode_nothingBuffered) (fun _ _ => rfl) steps false true
    (write jsonEnv.dtoa (advertisement .standardProtocol announced)) ['#'] wired nonempty 0
  refine ⟨reached, steps, ?_, ?_⟩
  · rw [wired]
    intro returned
    refine stuck.mp returned _ ?_ text
    rw [frames_frame [] whole]
    exact List.mem_cons_self
  · rw [wired, List.dropLast_concat]
    refine lost.mpr fun frame member => ?_
    rw [frames_of_not_mem whole] at member
    cases member

end BlockchainNode

end Ns3Blockchain
