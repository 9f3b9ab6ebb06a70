import Ns3Blockchain.Library.Independence
import Ns3Blockchain.Verified.Redelivery

/-! # Messages of different kinds

An inventory and a message about transactions read and write different parts of the
node, and what each logs and calls is its own.  So the messages a node handles can be
taken apart by their kind: the ones of a kind leave what they would have left without
the others, wherever those came between them.
-/

namespace Ns3Blockchain

open Library Rapidjson

namespace BlockchainNode

/-! ## Kinds and their views -/

inductive MessageKind where
  | inventory
  | transactions
  | rest
deriving DecidableEq

/-- What the `switch` makes of the `message` member. -/
def messageKind (document : Value) : MessageKind :=
  match document.findMember "message".toList with
  | some (.int code) =>
    if code = Messages.inv.code then
      .inventory
    else if code = Messages.requestTrans.code ∨ code = Messages.replyTrans.code then
      .transactions
    else
      .rest
  | _ => .rest

def Delivery.kind (delivery : Delivery) : MessageKind := messageKind delivery.document

/-- The messages that cause the effect. -/
def effectKind : Effect → MessageKind
  | .alreadyReceived .. | .scheduleInvTimeout .. | .sendMessage .. => .inventory
  | .hasTransaction .. | .executeTransaction .. | .hasReplyTransaction .. => .transactions
  | .parsedPacket .. | .corruptedPacket | .received .. | .send .. => .rest

/-- The nodes are the same to an inventory.  It does not look at the event ids. -/
structure SameInventory (node node' : BlockchainNode) : Prop where
  committerType : node'.committerType = node.committerType
  blockchain : node'.blockchain = node.blockchain
  receivedNotValidated : node'.receivedNotValidated = node.receivedNotValidated
  invTimeouts : ∀ s, s ∈ node'.invTimeouts ↔ s ∈ node.invTimeouts
  queueInv : node'.queueInv = node.queueInv
  invReceivedBytes : node'.nodeStats.invReceivedBytes = node.nodeStats.invReceivedBytes

/-- The nodes are the same to a message about transactions. -/
structure SameTransactions (node node' : BlockchainNode) : Prop where
  id : node'.id = node.id
  committerType : node'.committerType = node.committerType
  transaction : node'.transaction = node.transaction
  replyTransaction : node'.replyTransaction = node.replyTransaction
  totalEndorsement : node'.totalEndorsement = node.totalEndorsement
  meanEndorsementTime : node'.meanEndorsementTime = node.meanEndorsementTime
  getDataReceivedBytes : node'.nodeStats.getDataReceivedBytes = node.nodeStats.getDataReceivedBytes

def SameSide : MessageKind → BlockchainNode → BlockchainNode → Prop
  | .inventory => SameInventory
  | .transactions => SameTransactions
  | .rest => fun _ _ => True

/-- The runs are the same to messages of a kind, and did the same for them. -/
structure SameView (kind : MessageKind) (run run' : NodeRun) : Prop where
  node : SameSide kind run.node run'.node
  trace : ofKind effectKind kind run'.trace = ofKind effectKind kind run.trace

theorem SameInventory.refl (node : BlockchainNode) : SameInventory node node :=
  ⟨rfl, rfl, rfl, fun _ => .rfl, rfl, rfl⟩

theorem SameTransactions.refl (node : BlockchainNode) : SameTransactions node node :=
  ⟨rfl, rfl, rfl, rfl, rfl, rfl, rfl⟩

theorem SameSide.refl (kind : MessageKind) (node : BlockchainNode) : SameSide kind node node := by
  cases kind with
  | inventory => exact SameInventory.refl node
  | transactions => exact SameTransactions.refl node
  | rest => trivial

theorem SameSide.trans {kind : MessageKind} {node node' node'' : BlockchainNode}
    (first : SameSide kind node node') (second : SameSide kind node' node'') :
    SameSide kind node node'' := by
  cases kind with
  | inventory =>
    exact ⟨second.committerType.trans first.committerType, second.blockchain.trans first.blockchain,
      second.receivedNotValidated.trans first.receivedNotValidated,
      fun s => (second.invTimeouts s).trans (first.invTimeouts s),
      second.queueInv.trans first.queueInv, second.invReceivedBytes.trans first.invReceivedBytes⟩
  | transactions =>
    exact ⟨second.id.trans first.id, second.committerType.trans first.committerType,
      second.transaction.trans first.transaction,
      second.replyTransaction.trans first.replyTransaction,
      second.totalEndorsement.trans first.totalEndorsement,
      second.meanEndorsementTime.trans first.meanEndorsementTime,
      second.getDataReceivedBytes.trans first.getDataReceivedBytes⟩
  | rest => trivial

theorem SameSide.symm {kind : MessageKind} {node node' : BlockchainNode}
    (same : SameSide kind node node') : SameSide kind node' node := by
  cases kind with
  | inventory =>
    exact ⟨same.committerType.symm, same.blockchain.symm, same.receivedNotValidated.symm,
      fun s => (same.invTimeouts s).symm, same.queueInv.symm, same.invReceivedBytes.symm⟩
  | transactions =>
    exact ⟨same.id.symm, same.committerType.symm, same.transaction.symm,
      same.replyTransaction.symm, same.totalEndorsement.symm, same.meanEndorsementTime.symm,
      same.getDataReceivedBytes.symm⟩
  | rest => trivial

theorem SameView.refl (kind : MessageKind) (run : NodeRun) : SameView kind run run :=
  ⟨.refl kind run.node, rfl⟩

theorem SameView.trans {kind : MessageKind} {run run' run'' : NodeRun}
    (first : SameView kind run run') (second : SameView kind run' run'') :
    SameView kind run run'' :=
  ⟨first.node.trans second.node, second.trace.trans first.trace⟩

theorem SameView.symm {kind : MessageKind} {run run' : NodeRun} (same : SameView kind run run') :
    SameView kind run' run :=
  ⟨same.node.symm, same.trace.symm⟩

theorem SameView.emit {kind : MessageKind} {run run' : NodeRun} (same : SameView kind run run')
    (effect : Effect) : SameView kind (run.emit effect) (run'.emit effect) where
  node := same.node
  trace := by
    rw [NodeRun.emit_trace, NodeRun.emit_trace, ofKind_append, ofKind_append, same.trace]

theorem SameView.withNode {kind : MessageKind} {run run' : NodeRun} (same : SameView kind run run')
    {node node' : BlockchainNode} (nodes : SameSide kind node node') :
    SameView kind { run with node } { run' with node := node' } :=
  ⟨nodes, same.trace⟩

/-- An effect is not seen by the other kinds. -/
theorem sameView_emit {kind : MessageKind} (run : NodeRun) {effect : Effect}
    (other : effectKind effect ≠ kind) : SameView kind run (run.emit effect) where
  node := .refl kind run.node
  trace := by
    rw [NodeRun.emit_trace, ofKind_append, ofKind_singleton_of_ne other, List.append_nil]

/-- `SendMessage` is about inventories and `ExecuteTransaction` about transactions: each
    reads and writes what messages of its own kind do. -/
structure KeepsToSide (env : External) : Prop where
  sendMessage : ∀ received response document address node,
    SameTransactions node (env.sendMessage received response document address node).1
  sendsAlike : ∀ received response document address node node', SameInventory node node' →
    SameInventory (env.sendMessage received response document address node).1
        (env.sendMessage received response document address node').1 ∧
      (env.sendMessage received response document address node').2 =
        (env.sendMessage received response document address node).2
  executeTransaction : ∀ newTrans ipv4 node,
    SameInventory node (env.executeTransaction newTrans ipv4 node)
  executesAlike : ∀ newTrans ipv4 node node', SameTransactions node node' →
    SameTransactions (env.executeTransaction newTrans ipv4 node)
      (env.executeTransaction newTrans ipv4 node')

variable {env : External} {run run' : NodeRun} {document : Value}

/-! ## What the other kinds see of a message -/

/-- No kind but this sees what happened between the runs. -/
def StaysIn (kind : MessageKind) (run run' : NodeRun) : Prop :=
  ∀ other, kind ≠ other → SameView other run run'

theorem StaysIn.refl (kind : MessageKind) (run : NodeRun) : StaysIn kind run run :=
  fun other _ => .refl other run

theorem StaysIn.trans {kind : MessageKind} {run run' run'' : NodeRun}
    (first : StaysIn kind run run') (second : StaysIn kind run' run'') : StaysIn kind run run'' :=
  fun other differs => (first other differs).trans (second other differs)

theorem staysIn_emit (run : NodeRun) (effect : Effect) :
    StaysIn (effectKind effect) run (run.emit effect) :=
  fun _ differs => sameView_emit run differs

theorem staysIn_inventory {node : BlockchainNode} (same : SameTransactions run.node node) :
    StaysIn .inventory run { run with node } := by
  intro kind differs
  cases kind with
  | inventory => exact absurd rfl differs
  | transactions => exact ⟨same, rfl⟩
  | rest => exact ⟨trivial, rfl⟩

theorem staysIn_transactions {node : BlockchainNode} (same : SameInventory run.node node) :
    StaysIn .transactions run { run with node } := by
  intro kind differs
  cases kind with
  | inventory => exact ⟨same, rfl⟩
  | transactions => exact absurd rfl differs
  | rest => exact ⟨trivial, rfl⟩

/-! ### `INV` -/

theorem staysIn_requestBlock (parsedInv : Str) (scan : InvScan) :
    StaysIn .inventory scan.toNodeRun (requestBlock env parsedInv scan).toNodeRun := by
  have asked := staysIn_emit
    { scan.toNodeRun with
      node :=
        { scan.node with
          invTimeouts := scan.node.invTimeouts.insert parsedInv (env.schedule scan.node parsedInv) } }
    (.scheduleInvTimeout parsedInv)
  refine StaysIn.trans ?_ asked
  exact staysIn_inventory ⟨rfl, rfl, rfl, rfl, rfl, rfl, rfl⟩

theorem staysIn_invItem {sender : Address} {scan scan' : InvScan} {element : Value}
    (handled : invItem env sender scan element = .ok scan') :
    StaysIn .inventory scan.toNodeRun scan'.toNodeRun := by
  obtain ⟨chars, _, handled⟩ := bind_eq_ok_iff.mp handled
  obtain ⟨known, _, handled⟩ := bind_eq_ok_iff.mp handled
  cases known with
  | true =>
    cases handled
    exact staysIn_emit scan.toNodeRun (.alreadyReceived _ _)
  | false =>
    cases handled
    have queued (scan : InvScan) : StaysIn .inventory scan.toNodeRun
        { scan.toNodeRun with node := scan.node.pushQueueInv chars.cStr sender } :=
      staysIn_inventory ⟨rfl, rfl, rfl, rfl, rfl, rfl, rfl⟩
    by_cases pending : chars.cStr ∈ scan.node.invTimeouts
    · simp only [if_pos pending]
      exact queued scan
    · simp only [if_neg pending]
      exact (staysIn_requestBlock chars.cStr scan).trans (queued _)

theorem staysIn_sendMessage (sides : KeepsToSide env) (received response : Messages)
    (document : Value) (sender : Address) (run : NodeRun) :
    StaysIn .inventory run (sendMessage env received response document sender run).1 :=
  (staysIn_inventory (sides.sendMessage received response document sender run.node)).trans
    (staysIn_emit _ (.sendMessage received response document sender))

theorem staysIn_requestFrom (sides : KeepsToSide env) {sender : Address} {scan scan' : InvScan}
    (handled : requestFrom env sender document scan = .ok scan') :
    StaysIn .inventory scan.toNodeRun scan'.toNodeRun := by
  unfold requestFrom at handled
  split at handled
  next =>
    cases handled
    exact .refl _ _
  next =>
    obtain ⟨removed, _, handled⟩ := bind_eq_ok_iff.mp handled
    obtain ⟨added, _, handled⟩ := bind_eq_ok_iff.mp handled
    cases handled
    exact (staysIn_sendMessage sides _ _ _ _ _).trans (staysIn_sendMessage sides _ _ _ _ _)

theorem staysIn_caseInv (sides : KeepsToSide env) {sender : Address} {scan : InvScan}
    (handled : caseInv env sender document run = .ok scan) :
    StaysIn .inventory run scan.toNodeRun := by
  unfold caseInv at handled
  split at handled
  next =>
    cases handled
    exact .refl _ _
  next =>
    obtain ⟨inv, _, handled⟩ := bind_eq_ok_iff.mp handled
    obtain ⟨items, _, handled⟩ := bind_eq_ok_iff.mp handled
    obtain ⟨looped, loop, handled⟩ := bind_eq_ok_iff.mp handled
    have passes : StaysIn .inventory run looped.toNodeRun := by
      refine foldChecked_invariant
        (fun _ (scan : InvScan) => StaysIn .inventory run scan.toNodeRun) ?_ ?_ loop
      · exact staysIn_inventory ⟨rfl, rfl, rfl, rfl, rfl, rfl, rfl⟩
      · exact fun _ _ _ _ _ sofar pass => sofar.trans (staysIn_invItem pass)
    exact passes.trans (staysIn_requestFrom sides handled)

/-! ### `REQUEST_TRANS` and `REPLY_TRANS` -/

theorem staysIn_endorse (sides : KeepsToSide env) {ipv4 : Ipv4Address} {now : ℚ}
    {newTrans : Transaction} (handled : endorse env ipv4 now newTrans run = .ok run') :
    StaysIn .transactions run run' := by
  obtain ⟨total, _, handled⟩ := bind_eq_ok_iff.mp handled
  obtain ⟨before, _, handled⟩ := bind_eq_ok_iff.mp handled
  cases handled
  refine StaysIn.trans (staysIn_transactions ?_) (staysIn_emit _ (.executeTransaction _ _))
  have counted (node : BlockchainNode) (same : SameInventory run.node node) : SameInventory run.node
      (env.executeTransaction (newTrans.setExecution (CInt.ofUInt32 run.node.id)) ipv4 node) :=
    @SameSide.trans .inventory _ _ _ same (sides.executeTransaction _ _ _)
  exact counted _ ⟨rfl, rfl, rfl, fun _ => .rfl, rfl, rfl⟩

theorem staysIn_requestTransItem (sides : KeepsToSide env) {ipv4 : Ipv4Address} {now : ℚ}
    {element : Value} (handled : requestTransItem env ipv4 now run element = .ok run') :
    StaysIn .transactions run run' := by
  obtain ⟨item, read, handled⟩ := bind_eq_ok_iff.mp handled
  split at handled
  next =>
    cases handled
    exact staysIn_emit run (.hasTransaction _ _)
  next =>
    have stored : StaysIn .transactions run
        { run with
          node :=
            { run.node with
              transaction := run.node.transaction ++
                [Transaction.new item.nodeId item.transId item.timestamp] } } :=
      staysIn_transactions ⟨rfl, rfl, rfl, fun _ => .rfl, rfl, rfl⟩
    dsimp only at handled
    split at handled
    next => exact stored.trans (staysIn_endorse sides handled)
    next =>
      cases handled
      exact stored

theorem staysIn_caseRequestTrans (sides : KeepsToSide env) {ipv4 : Ipv4Address} {now : ℚ}
    (handled : caseRequestTrans env ipv4 now document run = .ok run') :
    StaysIn .transactions run run' := by
  unfold caseRequestTrans at handled
  split at handled
  next =>
    cases handled
    exact .refl _ _
  next =>
    obtain ⟨transactions, _, handled⟩ := bind_eq_ok_iff.mp handled
    obtain ⟨elements, _, loop⟩ := bind_eq_ok_iff.mp handled
    refine foldChecked_invariant (fun _ s => StaysIn .transactions run s) ?_ ?_ loop
    · exact staysIn_transactions ⟨rfl, rfl, rfl, fun _ => .rfl, rfl, rfl⟩
    · exact fun _ _ _ _ _ sofar pass => sofar.trans (staysIn_requestTransItem sides pass)

theorem staysIn_replyTransItem {element : Value}
    (handled : replyTransItem run element = .ok run') : StaysIn .transactions run run' := by
  obtain ⟨item, _, handled⟩ := bind_eq_ok_iff.mp handled
  obtain ⟨execution, _, handled⟩ := bind_eq_ok_iff.mp handled
  obtain ⟨transExecution, _, handled⟩ := bind_eq_ok_iff.mp handled
  split at handled
  next =>
    cases handled
    exact staysIn_emit run (.hasReplyTransaction _ _)
  next =>
    cases handled
    exact .refl _ _

theorem staysIn_caseReplyTrans (handled : caseReplyTrans document run = .ok run') :
    StaysIn .transactions run run' := by
  obtain ⟨transactions, _, handled⟩ := bind_eq_ok_iff.mp handled
  obtain ⟨elements, _, loop⟩ := bind_eq_ok_iff.mp handled
  refine foldChecked_invariant (fun _ s => StaysIn .transactions run s) ?_ ?_ loop
  · exact staysIn_transactions ⟨rfl, rfl, rfl, fun _ => .rfl, rfl, rfl⟩
  · exact fun _ _ _ _ _ sofar pass => sofar.trans (staysIn_replyTransItem pass)

/-! ## What its own kind sees of a message -/

/-- The item loops are the same to an inventory, and ask for the same blocks. -/
structure SameScan (scan scan' : InvScan) : Prop where
  view : SameView .inventory scan.toNodeRun scan'.toNodeRun
  requestBlocks : scan'.requestBlocks = scan.requestBlocks

theorem SameInventory.alreadyKnown {node node' : BlockchainNode} (reads : ReadsReceived env)
    (same : SameInventory node node') (height minerId : CInt) (s : Str) :
    alreadyKnown env node' height minerId s = alreadyKnown env node height minerId s := by
  unfold BlockchainNode.alreadyKnown
  rw [same.blockchain, reads node node' s same.receivedNotValidated]

theorem SameInventory.pushQueueInv {node node' : BlockchainNode} (same : SameInventory node node')
    (parsedInv : Str) (sender : Address) :
    SameInventory (node.pushQueueInv parsedInv sender) (node'.pushQueueInv parsedInv sender) where
  committerType := same.committerType
  blockchain := same.blockchain
  receivedNotValidated := same.receivedNotValidated
  invTimeouts := same.invTimeouts
  queueInv := by
    unfold BlockchainNode.pushQueueInv
    rw [same.queueInv]
  invReceivedBytes := same.invReceivedBytes

theorem SameScan.requestBlock {scan scan' : InvScan} (same : SameScan scan scan')
    (parsedInv : Str) :
    SameScan (requestBlock env parsedInv scan) (requestBlock env parsedInv scan') where
  view := by
    have node : SameInventory scan.node scan'.node := same.view.node
    refine (same.view.withNode (?_ : SameInventory _ _)).emit (.scheduleInvTimeout parsedInv)
    refine ⟨node.committerType, node.blockchain, node.receivedNotValidated, fun s => ?_,
      node.queueInv, node.invReceivedBytes⟩
    change s ∈ scan'.node.invTimeouts.insert parsedInv _ ↔ s ∈ scan.node.invTimeouts.insert parsedInv _
    rw [AList.mem_insert, AList.mem_insert, node.invTimeouts s]
  requestBlocks := congrArg (· ++ [parsedInv]) same.requestBlocks

theorem alike_invItem (reads : ReadsReceived env) {sender : Address} {scan scan' : InvScan}
    (same : SameScan scan scan') (element : Value) :
    Alike SameScan (invItem env sender scan element) (invItem env sender scan' element) := by
  have node : SameInventory scan.node scan'.node := same.view.node
  unfold invItem
  refine alike_bind _ fun chars _ => ?_
  dsimp only
  rw [node.alreadyKnown reads]
  refine alike_bind _ fun known _ => ?_
  have queued {before before' : InvScan} (same : SameScan before before') :
      SameScan
        { before with node := before.node.pushQueueInv chars.cStr sender }
        { before' with node := before'.node.pushQueueInv chars.cStr sender } :=
    ⟨⟨SameInventory.pushQueueInv same.view.node chars.cStr sender, same.view.trace⟩,
      same.requestBlocks⟩
  cases known with
  | true => exact .ok ⟨same.view.emit _, same.requestBlocks⟩
  | false =>
    refine .ok (queued ?_)
    by_cases pending : chars.cStr ∈ scan.node.invTimeouts
    · rw [if_pos pending, if_pos ((node.invTimeouts _).mpr pending)]
      exact same
    · rw [if_neg pending, if_neg fun there => pending ((node.invTimeouts _).mp there)]
      exact same.requestBlock chars.cStr

theorem alike_sendMessage (sides : KeepsToSide env) {run run' : NodeRun}
    (same : SameView .inventory run run') (received response : Messages) {document document' : Value}
    (documents : document' = document) (sender : Address) :
    SameView .inventory (sendMessage env received response document sender run).1
        (sendMessage env received response document' sender run').1 ∧
      (sendMessage env received response document' sender run').2 =
        (sendMessage env received response document sender run).2 := by
  subst documents
  obtain ⟨node, left⟩ :=
    sides.sendsAlike received response document' sender run.node run'.node same.node
  exact ⟨(same.withNode node).emit _, left⟩

theorem alike_requestFrom (sides : KeepsToSide env) {scan scan' : InvScan}
    (same : SameScan scan scan') (sender : Address) (document : Value) :
    Alike SameScan (requestFrom env sender document scan) (requestFrom env sender document scan') := by
  unfold requestFrom
  rw [same.requestBlocks]
  split
  next => exact .ok same
  next =>
    refine alike_bind _ fun removed _ => alike_bind _ fun added _ => .ok ?_
    obtain ⟨headers, left⟩ :=
      alike_sendMessage sides same.view .inv .getHeaders (Eq.refl added) sender
    exact ⟨(alike_sendMessage sides headers .inv .getData left sender).1, rfl⟩

theorem alike_caseInv (sides : KeepsToSide env) (reads : ReadsReceived env) {run run' : NodeRun}
    (same : SameView .inventory run run') (sender : Address) (document : Value) :
    Alike SameScan (caseInv env sender document run) (caseInv env sender document run') := by
  have node : SameInventory run.node run'.node := same.node
  unfold caseInv
  rw [node.committerType]
  split
  next => exact .ok ⟨same, rfl⟩
  next =>
    refine alike_bind _ fun inv _ => alike_bind _ fun items _ => ?_
    have start : SameScan (invStart items.length run) (invStart items.length run') := by
      refine ⟨⟨⟨node.committerType, node.blockchain, node.receivedNotValidated, node.invTimeouts,
        node.queueInv, ?_⟩, same.trace⟩, rfl⟩
      exact congrArg (· + messageBytes items.length) node.invReceivedBytes
    refine Alike.bind (alike_foldChecked ?_ start items) fun scan scan' looped => ?_
    · exact fun scan scan' element looped => alike_invItem reads looped element
    · exact alike_requestFrom sides looped sender document

theorem SameTransactions.hasTransaction {node node' : BlockchainNode}
    (same : SameTransactions node node') (nodeId transId : CInt) :
    node'.hasTransaction nodeId transId = node.hasTransaction nodeId transId := by
  rw [BlockchainNode.hasTransaction, same.transaction, BlockchainNode.hasTransaction]

theorem SameTransactions.addGetDataReceivedBytes {node node' : BlockchainNode}
    (same : SameTransactions node node') (size : Nat) :
    SameTransactions (node.addGetDataReceivedBytes size) (node'.addGetDataReceivedBytes size) :=
  ⟨same.id, same.committerType, same.transaction, same.replyTransaction, same.totalEndorsement,
    same.meanEndorsementTime, congrArg (· + messageBytes size) same.getDataReceivedBytes⟩

theorem alike_endorse (sides : KeepsToSide env) {run run' : NodeRun}
    (same : SameView .transactions run run') (ipv4 : Ipv4Address) (now : ℚ)
    (newTrans : Transaction) :
    Alike (SameView .transactions) (endorse env ipv4 now newTrans run)
      (endorse env ipv4 now newTrans run') := by
  have node : SameTransactions run.node run'.node := same.node
  unfold endorse
  dsimp only
  rw [node.id, node.totalEndorsement, node.meanEndorsementTime]
  refine alike_bind _ fun totalEndorsement _ => alike_bind _ fun before _ => .ok ?_
  refine (same.withNode (sides.executesAlike _ _ _ _ ?_)).emit (.executeTransaction _ _)
  exact ⟨rfl, node.committerType, node.transaction, node.replyTransaction, rfl, rfl,
    node.getDataReceivedBytes⟩

theorem alike_requestTransItem (sides : KeepsToSide env) {run run' : NodeRun}
    (same : SameView .transactions run run') (ipv4 : Ipv4Address) (now : ℚ) (element : Value) :
    Alike (SameView .transactions) (requestTransItem env ipv4 now run element)
      (requestTransItem env ipv4 now run' element) := by
  have node : SameTransactions run.node run'.node := same.node
  unfold requestTransItem
  refine alike_bind _ fun item _ => ?_
  rw [node.hasTransaction]
  split
  next => exact .ok (same.emit _)
  next =>
    have stored : SameTransactions
        { run.node with
          transaction := run.node.transaction ++
            [Transaction.new item.nodeId item.transId item.timestamp] }
        { run'.node with
          transaction := run'.node.transaction ++
            [Transaction.new item.nodeId item.transId item.timestamp] } :=
      ⟨node.id, node.committerType, congrArg (· ++ [_]) node.transaction, node.replyTransaction,
        node.totalEndorsement, node.meanEndorsementTime, node.getDataReceivedBytes⟩
    dsimp only
    by_cases endorser : run.node.committerType = .endorser
    · rw [if_pos endorser, if_pos (node.committerType.trans endorser)]
      exact alike_endorse sides (same.withNode stored) ipv4 now _
    · rw [if_neg endorser, if_neg fun there => endorser (node.committerType.symm.trans there)]
      exact .ok (same.withNode stored)

theorem alike_caseRequestTrans (sides : KeepsToSide env) {run run' : NodeRun}
    (same : SameView .transactions run run') (ipv4 : Ipv4Address) (now : ℚ) (document : Value) :
    Alike (SameView .transactions) (caseRequestTrans env ipv4 now document run)
      (caseRequestTrans env ipv4 now document run') := by
  have node : SameTransactions run.node run'.node := same.node
  unfold caseRequestTrans
  rw [node.committerType]
  split
  next => exact .ok same
  next =>
    refine alike_bind _ fun transactions _ => alike_bind _ fun elements _ => ?_
    refine alike_foldChecked ?_ (same.withNode (node.addGetDataReceivedBytes elements.length)) elements
    exact fun run run' element same => alike_requestTransItem sides same ipv4 now element

theorem alike_replyTransItem {run run' : NodeRun} (same : SameView .transactions run run')
    (element : Value) :
    Alike (SameView .transactions) (replyTransItem run element) (replyTransItem run' element) := by
  have node : SameTransactions run.node run'.node := same.node
  unfold replyTransItem hasReplyTransaction
  refine alike_bind _ fun item _ => alike_bind _ fun execution _ => alike_bind _ fun transExecution _ => ?_
  rw [node.replyTransaction]
  split
  next => exact .ok (same.emit _)
  next => exact .ok same

theorem alike_caseReplyTrans {run run' : NodeRun} (same : SameView .transactions run run')
    (document : Value) :
    Alike (SameView .transactions) (caseReplyTrans document run) (caseReplyTrans document run') := by
  have node : SameTransactions run.node run'.node := same.node
  unfold caseReplyTrans
  refine alike_bind _ fun transactions _ => alike_bind _ fun elements _ => ?_
  refine alike_foldChecked ?_ (same.withNode (node.addGetDataReceivedBytes elements.length)) elements
  exact fun run run' element same => alike_replyTransItem same element

/-! ## Whole runs -/

/-- The kind of a message, by its code. -/
theorem messageKind_of_message {message : CInt}
    (there : document.findMember "message".toList = some (.int message.val)) :
    messageKind document =
      if message.val = Messages.inv.code then
        .inventory
      else if message.val = Messages.requestTrans.code ∨ message.val = Messages.replyTrans.code then
        .transactions
      else
        .rest := by
  rw [messageKind, there]

theorem staysIn_deliver (sides : KeepsToSide env) {delivery : Delivery}
    (handled : deliver env run delivery = .ok run') : StaysIn delivery.kind run run' := by
  unfold Delivery.kind
  cases dispatched_iff.mp handled with
  | inv message handled result =>
    have kind := @messageKind_of_message _ (CInt.lit 0) message
    rw [kind, if_pos (by decide), result]
    exact staysIn_caseInv sides handled
  | requestTrans message handled =>
    have kind := @messageKind_of_message _ (CInt.lit 1) message
    rw [kind, if_neg (by decide), if_pos (by decide)]
    exact staysIn_caseRequestTrans sides handled
  | replyTrans message handled =>
    have kind := @messageKind_of_message _ (CInt.lit 7) message
    rw [kind, if_neg (by decide), if_pos (by decide)]
    exact staysIn_caseReplyTrans handled
  | other there noInv noRequest noReply result =>
    rw [messageKind_of_message there, if_neg noInv, if_neg (not_or.mpr ⟨noRequest, noReply⟩), result]
    exact .refl _ _

theorem alike_deliver (sides : KeepsToSide env) (reads : ReadsReceived env) (delivery : Delivery)
    (same : SameView delivery.kind run run') :
    Alike (SameView delivery.kind) (deliver env run delivery) (deliver env run' delivery) := by
  unfold deliver dispatch
  refine alike_bind _ fun value listed => alike_bind _ fun message isInt => ?_
  have there : delivery.document.findMember "message".toList = some (.int message.val) := by
    rw [Value.member_eq_ok_iff.mp listed, Value.getInt_eq_ok_iff.mp isInt]
  have kind : delivery.kind = _ := messageKind_of_message there
  rw [kind] at same ⊢
  by_cases inv : message.val = Messages.inv.code
  · rw [if_pos inv] at same ⊢
    rw [if_pos inv, if_pos inv]
    exact (alike_caseInv sides reads same _ _).bind fun _ _ scans => .ok scans.view
  · rw [if_neg inv] at same ⊢
    rw [if_neg inv, if_neg inv]
    by_cases requestTrans : message.val = Messages.requestTrans.code
    · rw [if_pos (.inl requestTrans)] at same ⊢
      rw [if_pos requestTrans, if_pos requestTrans]
      exact alike_caseRequestTrans sides same _ _ _
    · rw [if_neg requestTrans, if_neg requestTrans]
      by_cases replyTrans : message.val = Messages.replyTrans.code
      · rw [if_pos (.inr replyTrans)] at same ⊢
        rw [if_pos replyTrans, if_pos replyTrans]
        exact alike_caseReplyTrans same _
      · rw [if_neg (not_or.mpr ⟨requestTrans, replyTrans⟩)] at same ⊢
        rw [if_neg replyTrans, if_neg replyTrans]
        exact .ok same

theorem deliveries_independent (sides : KeepsToSide env) (reads : ReadsReceived env) :
    Independent (deliver env) Delivery.kind SameView where
  refl := SameView.refl
  own _ _ delivery same := alike_deliver sides reads delivery same
  others kind _ _ _ _ differs same handled :=
    (staysIn_deliver sides handled kind differs).symm.trans same

/-- However its messages interleave, a run goes through exactly if the messages of each
    kind go through on their own, and leaves each kind what those leave it. -/
theorem kinds_interleave (env : External) (sides : KeepsToSide env) (reads : ReadsReceived env)
    (run : NodeRun) (deliveries : List Delivery) :
    ((∃ run', foldChecked (deliver env) run deliveries = .ok run') ↔
        ∀ kind, ∃ part, foldChecked (deliver env) run (ofKind Delivery.kind kind deliveries) =
          .ok part) ∧
      ∀ run' kind part, foldChecked (deliver env) run deliveries = .ok run' →
        foldChecked (deliver env) run (ofKind Delivery.kind kind deliveries) = .ok part →
        SameView kind run' part :=
  (deliveries_independent sides reads).run run deliveries

theorem knowing_keepsToSide (documents : List (Str × Value)) : KeepsToSide (knowing documents) where
  sendMessage _ _ _ _ node := .refl node
  sendsAlike _ _ _ _ _ _ same := ⟨same, rfl⟩
  executeTransaction _ _ node := .refl node
  executesAlike _ _ _ _ same := same

/-- Two inventories, and between them the messages about one transaction. -/
def interleavedMessages : List Delivery :=
  [⟨⟨1⟩, 8333, 2, invDocument ["1/5".toList]⟩,
    ⟨⟨2⟩, 8333, 3, requestDocument [⟨CInt.lit 3, CInt.lit 4, 1⟩]⟩,
    ⟨⟨3⟩, 8333, 4, invDocument ["1/5".toList, "2/6".toList]⟩,
    replyDelivery [(CInt.lit 3, CInt.lit 4, CInt.lit 0)]]

theorem kinds_interleave_four :
    ∃ run' inventories transactions,
      foldChecked (deliver (knowing []))
        { node := idle 0 .standardProtocol .endorser, trace := [] } interleavedMessages = .ok run' ∧
      SameView .inventory run' inventories ∧ SameView .transactions run' transactions := by
  obtain ⟨_, agree⟩ := kinds_interleave (knowing []) (knowing_keepsToSide [])
    (knowing_readsReceived []) { node := idle 0 .standardProtocol .endorser, trace := [] }
    interleavedMessages
  obtain ⟨run', handled⟩ : ∃ run', foldChecked (deliver (knowing []))
      { node := idle 0 .standardProtocol .endorser, trace := [] } interleavedMessages = .ok run' :=
    ⟨_, rfl⟩
  obtain ⟨inventories, first⟩ : ∃ part, foldChecked (deliver (knowing []))
      { node := idle 0 .standardProtocol .endorser, trace := [] }
      (ofKind Delivery.kind .inventory interleavedMessages) = .ok part :=
    ⟨_, rfl⟩
  obtain ⟨transactions, second⟩ : ∃ part, foldChecked (deliver (knowing []))
      { node := idle 0 .standardProtocol .endorser, trace := [] }
      (ofKind Delivery.kind .transactions interleavedMessages) = .ok part :=
    ⟨_, rfl⟩
  exact ⟨run', inventories, transactions, handled, agree run' .inventory inventories handled first,
    agree run' .transactions transactions handled second⟩

end BlockchainNode

end Ns3Blockchain
