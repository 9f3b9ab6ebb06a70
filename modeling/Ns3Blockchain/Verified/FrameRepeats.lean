import Ns3Blockchain.Verified.Redelivery

/-! # The frame that is handled for ever

The frame loop erases the frames before the first object frame and never that one.  If
its first handling fails, so does the loop; if not, every later pass handles it again,
and by then the message is settled: the trace, the queues and the byte counters grow by
the same amount with each pass, and nothing else changes.
-/

namespace Ns3Blockchain

open Library Library.Framing Rapidjson

namespace BlockchainNode

/-- What one more pass over an object frame leaves behind. -/
def frameEcho (env : External) (ipv4 : Ipv4Address) (port : UInt16) (node : BlockchainNode)
    (frame : Str) (document : Value) : Echo :=
  let handled := echo env node (.inetSocket ipv4 port) document
  { handled with log := frameLog env ipv4 port frame ++ handled.log }

/-- The run that handles an object frame, after the corrupted ones before it. -/
def arriving (env : External) (ipv4 : Ipv4Address) (port : UInt16) (corrupted : List Str)
    (frame : Str) (run : NodeRun) : NodeRun where
  node := run.node
  trace := run.trace ++ corrupted.flatMap (frameLog env ipv4 port) ++ frameLog env ipv4 port frame

variable {env : External} {run : NodeRun} {frame : Str} {document : Value}

/-! ## One pass -/

theorem frameStep_object (ipv4 : Ipv4Address) (port : UInt16) (now : ℚ) (run : NodeRun)
    (rest : Str) (whole : '#' ∉ frame) (object : frameDocument env frame = some document) :
    frameStep env ipv4 port now { run with totalReceivedData := frame ++ '#' :: rest } =
      dispatch env ipv4 port now document (arriving env ipv4 port [] frame run) >>=
        fun run => .ok (some { run with totalReceivedData := frame ++ '#' :: rest }) := by
  rw [frameStep_dispatches ipv4 port now run rest whole object, arriving, frameLog, object]
  simp [NodeRun.emit]

/-- A pass over an object frame whose message is settled. -/
theorem frameStep_settled (reads : ReadsReceived env) (ipv4 : Ipv4Address) (port : UInt16) (now : ℚ)
    (rest : Str) (whole : '#' ∉ frame) (object : frameDocument env frame = some document)
    (settled : Settled env run.node document) :
    ∃ run', frameStep env ipv4 port now { run with totalReceivedData := frame ++ '#' :: rest } =
        .ok (some { run' with totalReceivedData := frame ++ '#' :: rest }) ∧
      Echoed [frameEcho env ipv4 port run.node frame document] run run' := by
  have settledHere : Settled env (arriving env ipv4 port [] frame run).node document := settled
  obtain ⟨run', handled, echoed⟩ := dispatch_settled reads ipv4 port now settledHere
  refine ⟨run', by rw [frameStep_object ipv4 port now run rest whole object, handled]; rfl, ?_⟩
  exact ⟨by simpa [arriving, frameEcho] using echoed.trace, echoed.queueInv,
    echoed.invReceivedBytes, echoed.getDataReceivedBytes, echoed.others⟩

/-! ## Whole runs -/

theorem passesTo_of_corrupted (ipv4 : Ipv4Address) (port : UInt16) (now : ℚ) {start : FrameLoop}
    {corrupted later : List Str}
    (framed : frames '#' start.totalReceivedData = corrupted ++ later)
    (skipped : ∀ frame ∈ corrupted, frameDocument env frame = none) :
    ∃ data, start.totalReceivedData = (corrupted.flatMap fun frame => frame ++ ['#']) ++ data ∧
      frames '#' data = later ∧
      PassesTo (frameStep env ipv4 port now) corrupted.length start
        { node := start.node
          trace := start.trace ++ corrupted.flatMap (frameLog env ipv4 port)
          totalReceivedData := data } := by
  induction corrupted generalizing start with
  | nil => exact ⟨start.totalReceivedData, rfl, framed, by simpa using PassesTo.refl start⟩
  | cons frame corrupted inductionHypothesis =>
    obtain ⟨run, received⟩ := start
    obtain ⟨rest, rfl, whole, others⟩ := frames_eq_cons framed
    have pass := frameStep_corrupted ipv4 port now run rest whole (skipped frame List.mem_cons_self)
    obtain ⟨data, split, left, passes⟩ := @inductionHypothesis
      { node := run.node, trace := run.trace ++ frameLog env ipv4 port frame
        totalReceivedData := rest } others
      fun other member => skipped other (List.mem_cons_of_mem _ member)
    refine ⟨data, ?_, left, ?_⟩
    · change frame ++ '#' :: rest = _
      change rest = _ at split
      rw [List.flatMap_cons, split]
      simp
    · rw [List.flatMap_cons, ← List.append_assoc]
      exact .pass pass passes

/-- The loop before the frame again, `n` passes after `run`. -/
def Repeated (env : External) (ipv4 : Ipv4Address) (port : UInt16) (run : NodeRun) (data frame : Str)
    (document : Value) (n : ℕ) (loop : FrameLoop) : Prop :=
  loop.totalReceivedData = data ∧
    Echoed (List.replicate n (frameEcho env ipv4 port run.node frame document)) run loop.toNodeRun

theorem Repeated.again (reads : ReadsReceived env) {ipv4 : Ipv4Address} {port : UInt16} (now : ℚ)
    {rest : Str} (whole : '#' ∉ frame) (object : frameDocument env frame = some document)
    (settled : Settled env run.node document) {n : ℕ} {loop : FrameLoop}
    (repeated : Repeated env ipv4 port run (frame ++ '#' :: rest) frame document n loop) :
    ∃ loop', frameStep env ipv4 port now loop = .ok (some loop') ∧
      Repeated env ipv4 port run (frame ++ '#' :: rest) frame document (n + 1) loop' := by
  obtain ⟨before, data⟩ := loop
  obtain ⟨rfl, echoed⟩ := repeated
  have here := echoed.grows.settled reads settled
  obtain ⟨after, pass, once⟩ := frameStep_settled reads ipv4 port now rest whole object here
  have same : frameEcho env ipv4 port before.node frame document =
      frameEcho env ipv4 port run.node frame document := by
    rw [frameEcho, frameEcho, echoed.echo_eq reads]
  rw [same] at once
  refine ⟨_, pass, rfl, ?_⟩
  rw [List.replicate_succ']
  exact echoed.trans once

/-! ## Main result -/

/-- For every received string with an object frame: the frames before the first one are
    logged and erased; then the loop stops with the fault of that frame, or never stops,
    and every pass after the first over it adds the same. -/
theorem object_frame_repeats (env : External) (keeps : KeepsRequests env) (reads : ReadsReceived env)
    (ipv4 : Ipv4Address) (port : UInt16) (now : ℚ) (start : FrameLoop) (corrupted later : List Str)
    (frame : Str) (document : Value)
    (framed : frames '#' start.totalReceivedData = corrupted ++ frame :: later)
    (skipped : ∀ frame ∈ corrupted, frameDocument env frame = none)
    (object : frameDocument env frame = some document) :
    match dispatch env ipv4 port now document
        (arriving env ipv4 port corrupted frame start.toNodeRun) with
    | .error fault => ∀ fuel, corrupted.length < fuel →
        runLoop (frameStep env ipv4 port now) fuel start = .error (.fault fault)
    | .ok first =>
        (∀ fuel, runLoop (frameStep env ipv4 port now) fuel start = .error .outOfFuel) ∧
        ∃ data, start.totalReceivedData = (corrupted.flatMap fun frame => frame ++ ['#']) ++ data ∧
          ∀ n, ∃ loop, PassesTo (frameStep env ipv4 port now) (corrupted.length + 1 + n) start loop ∧
            loop.totalReceivedData = data ∧
            Echoed (List.replicate n (frameEcho env ipv4 port first.node frame document)) first
              loop.toNodeRun := by
  obtain ⟨data, split, left, before⟩ := passesTo_of_corrupted ipv4 port now framed skipped
  obtain ⟨rest, rfl, whole, _⟩ := frames_eq_cons left
  have pass := frameStep_object ipv4 port now
    { node := start.node, trace := start.trace ++ corrupted.flatMap (frameLog env ipv4 port) } rest
    whole object
  have arrived : arriving env ipv4 port [] frame
      { node := start.node, trace := start.trace ++ corrupted.flatMap (frameLog env ipv4 port) } =
      arriving env ipv4 port corrupted frame start.toNodeRun := by
    simp [arriving]
  rw [arrived] at pass
  -- The corrupted frames are gone; the first pass over the object frame decides.
  cases handled : dispatch env ipv4 port now document
      (arriving env ipv4 port corrupted frame start.toNodeRun) with
  | error fault =>
    intro fuel enough
    rw [handled] at pass
    obtain ⟨spare, rfl⟩ := Nat.exists_eq_add_of_lt enough
    rw [Nat.add_assoc, before.runLoop_add, runLoop, pass]
    rfl
  | ok first =>
    rw [handled] at pass
    -- From here on the message changes nothing, so one pass is like another.
    have settled : Settled env first.node document := settled_of_dispatch keeps reads handled
    have run (n : ℕ) : ∃ loop,
        PassesTo (frameStep env ipv4 port now) (corrupted.length + 1 + n) start loop ∧
        Repeated env ipv4 port first (frame ++ '#' :: rest) frame document n loop := by
      obtain ⟨loop, passes, repeated⟩ := passesTo_of_invariant
        (Repeated env ipv4 port first (frame ++ '#' :: rest) frame document)
        (fun _ _ repeated => repeated.again reads now whole object settled)
        (s := { first with totalReceivedData := frame ++ '#' :: rest }) ⟨rfl, echoed_nil first⟩ n
      exact ⟨loop, (before.trans (.pass pass (.refl _))).trans passes, repeated⟩
    refine ⟨fun fuel => ?_, _, split, run⟩
    obtain ⟨_, passes, _⟩ := run fuel
    exact passes.outOfFuel (by omega)

def missingText : Str := "\x7b\"message\":0,\"inv\":[\"1/5\"]\x7d".toList

/-- The parser knows an `INV` message for a block that is missing. -/
def missingEnv : External := knowing [(missingText, invDocument ["1/5".toList])]

/-- The message is received behind a corrupted frame. -/
def missingStart : FrameLoop :=
  totalStream (.inetSocket ⟨1⟩ 8333) ("x#".toList ++ missingText ++ ['#'])
    { node := idle 0 .standardProtocol .committer, trace := [] }

/-- The sender joins the queue of the block once with every pass. -/
theorem object_frame_repeats_missing :
    (∀ fuel, runLoop (frameStep missingEnv ⟨1⟩ 8333 0) fuel missingStart = .error .outOfFuel) ∧
      ∀ n, ∃ loop, PassesTo (frameStep missingEnv ⟨1⟩ 8333 0) (2 + n) missingStart loop ∧
        (loop.node.queueInv.lookup "1/5".toList).getD [] =
          List.replicate (n + 1) (.inetSocket ⟨1⟩ 8333) := by
  have result := object_frame_repeats missingEnv (knowing_keepsRequests _) (knowing_readsReceived _)
    ⟨1⟩ 8333 0 missingStart ["x".toList] [] missingText (invDocument ["1/5".toList]) (by decide)
    (by simp; rfl) rfl
  obtain ⟨first, handled, joined, pushed, sender⟩ : ∃ first,
      dispatch missingEnv ⟨1⟩ 8333 0 (invDocument ["1/5".toList])
        (arriving missingEnv ⟨1⟩ 8333 ["x".toList] missingText missingStart.toNodeRun) = .ok first ∧
      (first.node.queueInv.lookup "1/5".toList).getD [] = [.inetSocket ⟨1⟩ 8333] ∧
      (frameEcho missingEnv ⟨1⟩ 8333 first.node missingText
        (invDocument ["1/5".toList])).pushed = ["1/5".toList] ∧
      (frameEcho missingEnv ⟨1⟩ 8333 first.node missingText
        (invDocument ["1/5".toList])).sender = .inetSocket ⟨1⟩ 8333 := ⟨_, rfl, rfl, rfl, rfl⟩
  rw [handled] at result
  obtain ⟨endless, _, _, repeats⟩ := result
  refine ⟨endless, fun n => ?_⟩
  obtain ⟨loop, passes, _, echoed⟩ := repeats n
  refine ⟨loop, passes, ?_⟩
  rw [echoed.queueInv, joined, List.flatMap_replicate, pushed, sender, List.count_singleton_self,
    List.flatten_replicate_replicate, Nat.mul_one, List.singleton_append, List.replicate_succ]

end BlockchainNode

end Ns3Blockchain
