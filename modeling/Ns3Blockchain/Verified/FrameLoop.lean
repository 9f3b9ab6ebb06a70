import Ns3Blockchain.Model.BlockchainNode
import Ns3Blockchain.Library.Framing

/-! # The frame loop of `HandleRead`

The loop shortens the received string on one of its two paths only, that of a
frame that is no object.  Without object frames it makes one pass for each `#`
and stops; an object frame is found again by every later pass, so the loop is
never left.
-/

namespace Ns3Blockchain

open Library Library.Framing Rapidjson

namespace Str

theorem find_eq_none {s : Str} {delimiter : Char} (absent : delimiter ∉ s) :
    find s delimiter = none := by
  rw [find, List.findIdx?_eq_none_iff]
  intro c member
  rw [beq_eq_false_iff_ne]
  rintro rfl
  exact absent member

theorem find_frame {f : Str} (rest : Str) {delimiter : Char} (whole : delimiter ∉ f) :
    find (f ++ delimiter :: rest) delimiter = some f.length := by
  have absent : List.findIdx? (fun c => c == delimiter) f = none := find_eq_none whole
  rw [find, List.findIdx?_append, absent]
  simp [List.findIdx?_cons]

end Str

namespace BlockchainNode

/-- The document of a frame that passes the `IsObject` guard. -/
def frameDocument (env : External) (frame : Str) : Option Value :=
  (env.parse frame.cStr).filter Value.isObject

/-- The log lines `HandleRead` writes for one frame; `received` is the one before
    the `switch`. -/
def frameLog (env : External) (ipv4 : Ipv4Address) (port : UInt16) (frame : Str) : List Effect :=
  match frameDocument env frame with
  | some document =>
    [.parsedPacket (.inetSocket ipv4 port) frame, .received ipv4 port document]
  | none => [.parsedPacket (.inetSocket ipv4 port) frame, .corruptedPacket]

def isFrameLog : Effect → Bool
  | .parsedPacket _ _ | .corruptedPacket | .received _ _ _ => true
  | _ => false

/-- The loop stops after one pass for each `#`, leaves what follows the last one,
    and has logged every frame once and in order: as dispatched, when it is an
    object, and as corrupted otherwise. -/
def ConsumesEveryFrameOnce (env : External) (ipv4 : Ipv4Address) (port : UInt16) (now : ℚ)
    (start : FrameLoop) : Prop :=
  ∃ final, ExitsAfter (frameStep env ipv4 port now) (start.totalReceivedData.count '#') start final ∧
    final.totalReceivedData = residue '#' start.totalReceivedData ∧
    final.trace.filter isFrameLog = start.trace.filter isFrameLog ++
      (frames '#' start.totalReceivedData).flatMap (frameLog env ipv4 port)

variable {env : External} {ipv4 : Ipv4Address} {port : UInt16} {now : ℚ}

/-! ## One pass -/

theorem frameStep_unfinished {loop : FrameLoop} (unfinished : '#' ∉ loop.totalReceivedData) :
    frameStep env ipv4 port now loop = .ok none := by
  rw [frameStep, Str.find_eq_none unfinished]
  rfl

theorem frameStep_corrupted (ipv4 : Ipv4Address) (port : UInt16) (now : ℚ) (run : NodeRun)
    {frame : Str} (rest : Str) (whole : '#' ∉ frame)
    (corrupted : frameDocument env frame = none) :
    frameStep env ipv4 port now { run with totalReceivedData := frame ++ '#' :: rest } = .ok (some
      { node := run.node
        trace := run.trace ++ frameLog env ipv4 port frame
        totalReceivedData := rest }) := by
  have taken : (frame ++ '#' :: rest).take frame.length = frame := List.take_left
  have dropped : (frame ++ '#' :: rest).drop (frame.length + 1) = rest := by simp
  have guard : ((env.parse frame.cStr).getD .null).isObject = false := by
    cases parsed : env.parse frame.cStr with
    | none => rfl
    | some document =>
      rw [frameDocument, parsed, Option.filter_some] at corrupted
      simpa using corrupted
  rw [frameStep, Str.find_frame rest whole]
  simp only [taken, dropped, guard, frameLog, corrupted]
  simp [NodeRun.emit]

/-- An object frame is dispatched, and stays where it is. -/
theorem frameStep_dispatches (ipv4 : Ipv4Address) (port : UInt16) (now : ℚ) (run : NodeRun)
    {frame : Str} (rest : Str) {document : Value} (whole : '#' ∉ frame)
    (object : frameDocument env frame = some document) :
    frameStep env ipv4 port now { run with totalReceivedData := frame ++ '#' :: rest } =
      dispatch env ipv4 port now document
          ((run.emit (.parsedPacket (.inetSocket ipv4 port) frame)).emit
            (.received ipv4 port document)) >>=
        fun run => .ok (some { run with totalReceivedData := frame ++ '#' :: rest }) := by
  obtain ⟨parsed, guard⟩ := Option.filter_eq_some_iff.mp object
  have taken : (frame ++ '#' :: rest).take frame.length = frame := List.take_left
  rw [frameStep, Str.find_frame rest whole]
  simp only [taken, parsed, Option.getD_some, guard, if_true]
  rfl

theorem frameStep_unfinished_iff {loop : FrameLoop} :
    frameStep env ipv4 port now loop = .ok none ↔ '#' ∉ loop.totalReceivedData := by
  refine ⟨fun guardFalse unread => ?_, frameStep_unfinished⟩
  obtain ⟨run, data⟩ := loop
  obtain ⟨frame, rest, rfl, whole⟩ := List.eq_append_cons_of_mem unread
  -- Either path through the body goes on to another test of the guard.
  cases object : frameDocument env frame with
  | none =>
    rw [frameStep_corrupted ipv4 port now run rest whole object] at guardFalse
    cases guardFalse
  | some document =>
    rw [frameStep_dispatches ipv4 port now run rest whole object] at guardFalse
    obtain ⟨_, _, absurdity⟩ := bind_eq_ok_iff.mp guardFalse
    cases absurdity

/-! ## Whole runs -/

/-- Without object frames the loop stops, and this is where. -/
theorem exitsAfter_of_corrupted (ipv4 : Ipv4Address) (port : UInt16) (now : ℚ) {start : FrameLoop}
    (corrupted : ∀ frame ∈ frames '#' start.totalReceivedData, frameDocument env frame = none) :
    ExitsAfter (frameStep env ipv4 port now) (start.totalReceivedData.count '#') start
      { node := start.node
        trace := start.trace ++
          (frames '#' start.totalReceivedData).flatMap (frameLog env ipv4 port)
        totalReceivedData := residue '#' start.totalReceivedData } := by
  obtain ⟨run, data⟩ := start
  induction data using stream_induction (d := '#') generalizing run with
  | tail r unfinished =>
    have guardFalse : frameStep env ipv4 port now { run with totalReceivedData := r } = .ok none :=
      frameStep_unfinished unfinished
    simpa [frames_of_not_mem unfinished, residue_of_not_mem unfinished,
      List.count_eq_zero.mpr unfinished] using ExitsAfter.exit guardFalse
  | frame f rest whole inductionHypothesis =>
    rw [frames_frame rest whole] at corrupted
    have pass := frameStep_corrupted ipv4 port now run rest whole (corrupted f List.mem_cons_self)
    have others := inductionHypothesis
      { node := run.node, trace := run.trace ++ frameLog env ipv4 port f }
      fun frame member => corrupted frame (List.mem_cons_of_mem _ member)
    have passes : (f ++ '#' :: rest).count '#' = rest.count '#' + 1 := by
      rw [List.count_append, List.count_eq_zero.mpr whole, List.count_cons_self, Nat.zero_add]
    rw [passes, frames_frame rest whole, residue_frame rest whole, List.flatMap_cons,
      ← List.append_assoc]
    exact .pass pass others

/-- Some frame still to come is an object. -/
def Stuck (env : External) (loop : FrameLoop) : Prop :=
  ∃ frame ∈ frames '#' loop.totalReceivedData, (frameDocument env frame).isSome

theorem mem_of_stuck {loop : FrameLoop} (stuck : Stuck env loop) :
    '#' ∈ loop.totalReceivedData := by
  obtain ⟨frame, member, _⟩ := stuck
  by_contra unfinished
  rw [frames_of_not_mem unfinished] at member
  cases member

theorem stuck_of_pass {loop loop' : FrameLoop} (stuck : Stuck env loop)
    (pass : frameStep env ipv4 port now loop = .ok (some loop')) : Stuck env loop' := by
  have unread := mem_of_stuck stuck
  obtain ⟨run, data⟩ := loop
  obtain ⟨first, rest, rfl, whole⟩ := List.eq_append_cons_of_mem unread
  cases parsed : frameDocument env first with
  | some document =>
    -- The object frame is not erased, so the string, and with it `Stuck`, is the same.
    rw [frameStep_dispatches ipv4 port now run rest whole parsed] at pass
    obtain ⟨run', _, pass⟩ := bind_eq_ok_iff.mp pass
    cases pass
    exact stuck
  | none =>
    -- A corrupted first frame is not the object one, which is still to come.
    rw [frameStep_corrupted ipv4 port now run rest whole parsed] at pass
    cases pass
    obtain ⟨frame, member, object⟩ := stuck
    rw [frames_frame rest whole] at member
    cases member with
    | head =>
      rw [parsed] at object
      cases object
    | tail _ member => exact ⟨frame, member, object⟩

theorem not_exitsAfter_of_object {start final : FrameLoop} {passes : Nat} {frame : Str}
    (member : frame ∈ frames '#' start.totalReceivedData)
    (object : (frameDocument env frame).isSome) :
    ¬ ExitsAfter (frameStep env ipv4 port now) passes start final := by
  refine not_exitsAfter_of_stuck (Stuck env) ?_ (fun _ _ => stuck_of_pass) ⟨frame, member, object⟩
  intro loop stuck guardFalse
  exact frameStep_unfinished_iff.mp guardFalse (mem_of_stuck stuck)

/-- The frame loop is left exactly when no frame of the string is an object. -/
theorem exits_iff {start : FrameLoop} :
    (∃ passes final, ExitsAfter (frameStep env ipv4 port now) passes start final) ↔
      ∀ frame ∈ frames '#' start.totalReceivedData, frameDocument env frame = none := by
  constructor
  · intro ⟨passes, final, run⟩ frame member
    by_contra object
    exact not_exitsAfter_of_object member (Option.isSome_iff_ne_none.mpr object) run
  · intro corrupted
    exact ⟨_, _, exitsAfter_of_corrupted ipv4 port now corrupted⟩

/-! ## Main result -/

theorem isFrameLog_of_mem {frame : Str} {effect : Effect}
    (member : effect ∈ frameLog env ipv4 port frame) : isFrameLog effect = true := by
  unfold frameLog at member
  split at member <;> simp at member <;> obtain rfl | rfl := member <;> rfl

/-- Over every node state, sender, buffered text and packet: the frame loop
    consumes every frame once exactly when no frame of the received string is an
    object. -/
theorem frame_loop_consumes_iff (env : External) (ipv4 : Ipv4Address) (port : UInt16) (now : ℚ)
    (packetInfo : Str) (run : NodeRun) :
    ConsumesEveryFrameOnce env ipv4 port now (totalStream (.inetSocket ipv4 port) packetInfo run) ↔
      ∀ frame ∈
          frames '#' (totalStream (.inetSocket ipv4 port) packetInfo run).totalReceivedData,
        frameDocument env frame = none := by
  constructor
  · intro ⟨final, run, _, _⟩
    exact exits_iff.mp ⟨_, final, run⟩
  · intro corrupted
    refine ⟨_, exitsAfter_of_corrupted ipv4 port now corrupted, rfl, ?_⟩
    have logged : ∀ effect ∈ (frames '#' (totalStream (.inetSocket ipv4 port) packetInfo
        run).totalReceivedData).flatMap (frameLog env ipv4 port), isFrameLog effect = true := by
      intro effect member
      obtain ⟨frame, _, member⟩ := List.mem_flatMap.mp member
      exact isFrameLog_of_mem member
    rw [List.filter_append, List.filter_eq_self.mpr logged]

/-! ## A node at the end of `StartApplication` -/

/-- An environment whose parser knows these documents only, and in which
    `SendMessage` and `ExecuteTransaction` leave the node as it is. -/
def knowing (documents : List (Str × Value)) : External where
  parse text := (documents.find? fun entry => entry.1 == text).map Prod.snd
  dtoa _ := ['0', '.', '0']
  atoiOutOfRange _ := CInt.lit (-1)
  schedule _ _ := 0
  receivedButNotValidated node blockHash := (node.receivedNotValidated.lookup blockHash).isSome
  sendMessage _ _ document _ node := (node, document)
  executeTransaction _ _ node := node

/-- The node `new` gives, with its blockchain written out. -/
def idle (id : UInt32) (protocolType : ProtocolType) (committerType : CommitterType) :
    BlockchainNode where
  id := id
  blockchain := { totalBlocks := CInt.lit 1, blocks := [[Blockchain.genesisBlock]], orphans := [] }
  protocolType := protocolType
  committerType := committerType
  meanEndorsementTime := 0
  totalEndorsement := CInt.lit 0
  transaction := []
  replyTransaction := []
  peersAddresses := []
  peersSockets := ∅
  queueInv := ∅
  invTimeouts := ∅
  bufferedData := ∅
  receivedNotValidated := ∅
  nodeStats := { invReceivedBytes := 0, invSentBytes := 0, getDataReceivedBytes := 0 }

theorem new_eq_idle (id : UInt32) (protocolType : ProtocolType) (committerType : CommitterType) :
    new id protocolType committerType = .ok (idle id protocolType committerType) := rfl

def resultTransText : Str := "\x7b\"message\":9\x7d".toList

/-- A `RESULT_TRANS` message, which the `switch` only logs. -/
def resultTransDocument : Value := .object [("message".toList, .int Messages.resultTrans.code)]

/-- One such frame, and the loop does not stop. -/
theorem object_frame_never_consumed :
    ¬ ConsumesEveryFrameOnce (knowing [(resultTransText, resultTransDocument)]) ⟨1⟩ 8333 0
      (totalStream (.inetSocket ⟨1⟩ 8333) (resultTransText ++ ['#'])
        { node := idle 0 .standardProtocol .committer, trace := [] }) := by
  intro ⟨final, run, _, _⟩
  have received : (totalStream (.inetSocket ⟨1⟩ 8333) (resultTransText ++ ['#'])
      { node := idle 0 .standardProtocol .committer, trace := [] }).totalReceivedData =
      resultTransText ++ ['#'] := by decide
  have framed : frames '#' (resultTransText ++ ['#']) = [resultTransText] := by decide
  have member : resultTransText ∈ frames '#' (totalStream (.inetSocket ⟨1⟩ 8333)
      (resultTransText ++ ['#'])
      { node := idle 0 .standardProtocol .committer, trace := [] }).totalReceivedData := by
    rw [received, framed]
    exact List.mem_singleton_self _
  exact not_exitsAfter_of_object member rfl run

end BlockchainNode

end Ns3Blockchain
