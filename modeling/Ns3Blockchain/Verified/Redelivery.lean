import Ns3Blockchain.Verified.Replies
import Ns3Blockchain.Verified.InvTables

/-! # A message that comes again

A message that has been handled once leaves the node so that nothing is left to do for
it: its blocks are known or asked for, its transactions are stored.  No later message
undoes that, so to handle it again is to log it, to count its bytes, and to queue its
sender once more for every block that is still missing.
-/

namespace Ns3Blockchain

open Library Rapidjson

namespace BlockchainNode

/-! ## What no message takes away -/

/-- What handling a message again reads is there as before. -/
structure Grows (node node' : BlockchainNode) : Prop where
  blockchain : node'.blockchain = node.blockchain
  receivedNotValidated : node'.receivedNotValidated = node.receivedNotValidated
  committerType : node'.committerType = node.committerType
  invTimeouts : ∀ s ∈ node.invTimeouts, s ∈ node'.invTimeouts
  transaction : node.transaction <+: node'.transaction

theorem Grows.refl (node : BlockchainNode) : Grows node node :=
  ⟨rfl, rfl, rfl, fun _ member => member, List.prefix_refl _⟩

theorem Grows.trans {node node' node'' : BlockchainNode} (first : Grows node node')
    (second : Grows node' node'') : Grows node node'' where
  blockchain := second.blockchain.trans first.blockchain
  receivedNotValidated := second.receivedNotValidated.trans first.receivedNotValidated
  committerType := second.committerType.trans first.committerType
  invTimeouts s member := second.invTimeouts s (first.invTimeouts s member)
  transaction := first.transaction.trans second.transaction

/-- `SendMessage` and `ExecuteTransaction` take nothing away. -/
structure KeepsRequests (env : External) : Prop where
  sendMessage : ∀ received response document address node,
    Grows node (env.sendMessage received response document address node).1
  executeTransaction : ∀ newTrans ipv4 node, Grows node (env.executeTransaction newTrans ipv4 node)

/-- `ReceivedButNotValidated` looks at `m_receivedNotValidated`. -/
def ReadsReceived (env : External) : Prop :=
  ∀ node node' s, node'.receivedNotValidated = node.receivedNotValidated →
    env.receivedButNotValidated node' s = env.receivedButNotValidated node s

variable {env : External} {run run' : NodeRun} {document : Value}

theorem grows_invItem {sender : Address} {scan scan' : InvScan} {element : Value}
    (handled : invItem env sender scan element = .ok scan') : Grows scan.node scan'.node := by
  obtain ⟨chars, _, handled⟩ := bind_eq_ok_iff.mp handled
  obtain ⟨known, _, handled⟩ := bind_eq_ok_iff.mp handled
  cases known with
  | true =>
    cases handled
    exact .refl _
  | false =>
    cases handled
    by_cases pending : chars.cStr ∈ scan.node.invTimeouts
    · simp only [if_pos pending]
      exact ⟨rfl, rfl, rfl, fun _ member => member, List.prefix_refl _⟩
    · simp only [if_neg pending]
      refine ⟨rfl, rfl, rfl, fun s member => ?_, List.prefix_refl _⟩
      change s ∈ scan.node.invTimeouts.insert chars.cStr _
      exact (AList.mem_insert _).mpr (.inr member)

theorem grows_requestFrom (keeps : KeepsRequests env) {sender : Address} {scan scan' : InvScan}
    (handled : requestFrom env sender document scan = .ok scan') : Grows scan.node scan'.node := by
  unfold requestFrom at handled
  split at handled
  next =>
    cases handled
    exact .refl _
  next =>
    obtain ⟨removed, _, handled⟩ := bind_eq_ok_iff.mp handled
    obtain ⟨added, _, handled⟩ := bind_eq_ok_iff.mp handled
    cases handled
    exact (keeps.sendMessage _ _ _ _ _).trans (keeps.sendMessage _ _ _ _ _)

theorem grows_caseInv (keeps : KeepsRequests env) {sender : Address} {scan : InvScan}
    (handled : caseInv env sender document run = .ok scan) : Grows run.node scan.node := by
  unfold caseInv at handled
  split at handled
  next =>
    cases handled
    exact .refl _
  next =>
    obtain ⟨inv, _, handled⟩ := bind_eq_ok_iff.mp handled
    obtain ⟨items, _, handled⟩ := bind_eq_ok_iff.mp handled
    obtain ⟨looped, loop, handled⟩ := bind_eq_ok_iff.mp handled
    have items : Grows run.node looped.node := by
      refine foldChecked_invariant (fun _ scan => Grows run.node scan.node) ?_ ?_ loop
      · exact ⟨rfl, rfl, rfl, fun _ member => member, List.prefix_refl _⟩
      · exact fun _ _ _ _ _ sofar pass => sofar.trans (grows_invItem pass)
    exact items.trans (grows_requestFrom keeps handled)

theorem grows_endorse (keeps : KeepsRequests env) {ipv4 : Ipv4Address} {now : ℚ}
    {newTrans : Transaction} (handled : endorse env ipv4 now newTrans run = .ok run') :
    Grows run.node run'.node := by
  obtain ⟨total, _, handled⟩ := bind_eq_ok_iff.mp handled
  obtain ⟨before, _, handled⟩ := bind_eq_ok_iff.mp handled
  cases handled
  have counted (node : BlockchainNode) (same : Grows run.node node) :
      Grows run.node (env.executeTransaction
        (newTrans.setExecution (CInt.ofUInt32 run.node.id)) ipv4 node) :=
    same.trans (keeps.executeTransaction _ _ _)
  exact counted _ ⟨rfl, rfl, rfl, fun _ member => member, List.prefix_refl _⟩

theorem grows_requestTransItem (keeps : KeepsRequests env) {ipv4 : Ipv4Address} {now : ℚ}
    {element : Value} (handled : requestTransItem env ipv4 now run element = .ok run') :
    Grows run.node run'.node := by
  obtain ⟨item, read, handled⟩ := bind_eq_ok_iff.mp handled
  split at handled
  next =>
    cases handled
    exact .refl _
  next =>
    have stored : Grows run.node { run.node with
        transaction := run.node.transaction ++
          [Transaction.new item.nodeId item.transId item.timestamp] } :=
      ⟨rfl, rfl, rfl, fun _ member => member, List.prefix_append _ _⟩
    dsimp only at handled
    split at handled
    next => exact stored.trans (grows_endorse keeps handled)
    next =>
      cases handled
      exact stored

theorem grows_caseRequestTrans (keeps : KeepsRequests env) {ipv4 : Ipv4Address} {now : ℚ}
    (handled : caseRequestTrans env ipv4 now document run = .ok run') :
    Grows run.node run'.node := by
  unfold caseRequestTrans at handled
  split at handled
  next =>
    cases handled
    exact .refl _
  next =>
    obtain ⟨transactions, _, handled⟩ := bind_eq_ok_iff.mp handled
    obtain ⟨elements, _, loop⟩ := bind_eq_ok_iff.mp handled
    refine foldChecked_invariant (fun _ s => Grows run.node s.node) ?_ ?_ loop
    · exact ⟨rfl, rfl, rfl, fun _ member => member, List.prefix_refl _⟩
    · exact fun _ _ _ _ _ sofar pass => sofar.trans (grows_requestTransItem keeps pass)

theorem replyTransItem_node {element : Value} (handled : replyTransItem run element = .ok run') :
    run'.node = run.node := by
  obtain ⟨item, _, handled⟩ := bind_eq_ok_iff.mp handled
  obtain ⟨execution, _, handled⟩ := bind_eq_ok_iff.mp handled
  obtain ⟨transExecution, _, handled⟩ := bind_eq_ok_iff.mp handled
  split at handled
  next => cases handled; rfl
  next => cases handled; rfl

theorem grows_caseReplyTrans (handled : caseReplyTrans document run = .ok run') :
    Grows run.node run'.node := by
  obtain ⟨transactions, _, handled⟩ := bind_eq_ok_iff.mp handled
  obtain ⟨elements, _, loop⟩ := bind_eq_ok_iff.mp handled
  refine foldChecked_invariant (fun _ s => Grows run.node s.node) ?_ ?_ loop
  · exact ⟨rfl, rfl, rfl, fun _ member => member, List.prefix_refl _⟩
  · intro _ _ s s' _ sofar pass
    rw [replyTransItem_node pass]
    exact sofar

/-- The paths through the `switch`. -/
inductive Dispatched (env : External) (ipv4 : Ipv4Address) (port : UInt16) (now : ℚ)
    (document : Value) (run run' : NodeRun) : Prop where
  | inv {scan : InvScan}
      (message : document.findMember "message".toList = some (.int Messages.inv.code))
      (handled : caseInv env (.inetSocket ipv4 port) document run = .ok scan)
      (result : run' = scan.toNodeRun)
  | requestTrans
      (message : document.findMember "message".toList = some (.int Messages.requestTrans.code))
      (handled : caseRequestTrans env ipv4 now document run = .ok run')
  | replyTrans
      (message : document.findMember "message".toList = some (.int Messages.replyTrans.code))
      (handled : caseReplyTrans document run = .ok run')
  | other {message : CInt} (there : document.findMember "message".toList = some (.int message.val))
      (noInv : message.val ≠ Messages.inv.code)
      (noRequest : message.val ≠ Messages.requestTrans.code)
      (noReply : message.val ≠ Messages.replyTrans.code) (result : run' = run)

theorem dispatched_iff {ipv4 : Ipv4Address} {port : UInt16} {now : ℚ} :
    dispatch env ipv4 port now document run = .ok run' ↔
      Dispatched env ipv4 port now document run run' := by
  constructor
  · intro handled
    -- The four cases of the `switch`: three handlers and the breaks that do nothing.
    obtain ⟨message, there, _⟩ := frameShape_of_dispatch handled
    rw [dispatch_of_message there] at handled
    split at handled
    next inv =>
      obtain ⟨scan, inCase, result⟩ := bind_eq_ok_iff.mp handled
      cases result
      exact .inv (inv ▸ there) inCase rfl
    next noInv =>
      split at handled
      next requestTrans => exact .requestTrans (requestTrans ▸ there) handled
      next noRequest =>
        split at handled
        next replyTrans => exact .replyTrans (replyTrans ▸ there) handled
        next noReply =>
          cases handled
          exact .other there noInv noRequest noReply rfl
  · intro dispatched
    cases dispatched with
    | inv message handled result =>
      rw [dispatch_inv env message, handled, result]
      rfl
    | requestTrans message handled =>
      have there : document.findMember "message".toList = some (.int (CInt.lit 1).val) := message
      rw [dispatch_of_message there, if_neg (by decide), if_pos (by decide), handled]
    | replyTrans message handled =>
      have there : document.findMember "message".toList = some (.int (CInt.lit 7).val) := message
      rw [dispatch_of_message there, if_neg (by decide), if_neg (by decide), if_pos (by decide),
        handled]
    | other there noInv noRequest noReply result =>
      rw [dispatch_of_message there, if_neg noInv, if_neg noRequest, if_neg noReply, result]

theorem grows_dispatched (keeps : KeepsRequests env) {ipv4 : Ipv4Address} {port : UInt16} {now : ℚ}
    (dispatched : Dispatched env ipv4 port now document run run') : Grows run.node run'.node := by
  cases dispatched with
  | inv _ handled result =>
    rw [result]
    exact grows_caseInv keeps handled
  | requestTrans _ handled => exact grows_caseRequestTrans keeps handled
  | replyTrans _ handled => exact grows_caseReplyTrans handled
  | other _ _ _ _ result =>
    rw [result]
    exact .refl _

/-! ## A message with nothing left to do -/

/-- `HasBlock`, `isOrphan` or `ReceivedButNotValidated` knows the block of an item. -/
def knows (env : External) (node : BlockchainNode) (s : Str) : Exec Bool :=
  alreadyKnown env node (decodeInv env s).1 (decodeInv env s).2 s

theorem Grows.knows {node node' : BlockchainNode} (reads : ReadsReceived env)
    (grows : Grows node node') (s : Str) :
    BlockchainNode.knows env node' s = BlockchainNode.knows env node s := by
  unfold BlockchainNode.knows alreadyKnown
  rw [grows.blockchain, reads node node' s grows.receivedNotValidated]

/-- The block of the item is known, or has been asked for. -/
def SettledItem (env : External) (node : BlockchainNode) (s : Str) : Prop :=
  ∃ known, knows env node s = .ok known ∧ (known = true ∨ s ∈ node.invTimeouts)

theorem Grows.settledItem {node node' : BlockchainNode} (reads : ReadsReceived env)
    (grows : Grows node node') {s : Str} (settled : SettledItem env node s) :
    SettledItem env node' s := by
  obtain ⟨known, found, isSettled⟩ := settled
  exact ⟨known, (grows.knows reads s).trans found, isSettled.imp_right (grows.invTimeouts s)⟩

theorem Grows.hasTransaction {node node' : BlockchainNode} (grows : Grows node node')
    {nodeId transId : CInt} (has : node.hasTransaction nodeId transId = true) :
    node'.hasTransaction nodeId transId = true := by
  obtain ⟨later, same⟩ := grows.transaction
  rw [BlockchainNode.hasTransaction, ← same, List.any_append, Bool.or_eq_true]
  exact .inl has

/-- The elements of a `REQUEST_TRANS` message. -/
def transactionsOf (document : Value) : List Value :=
  ((document.findMember "transactions".toList).bind Value.array?).getD []

/-- A message with which the node has nothing left to do. -/
structure Settled (env : External) (node : BlockchainNode) (document : Value) : Prop where
  shape : FrameShape node.committerType document
  items : document.findMember "message".toList = some (.int Messages.inv.code) →
    node.committerType ≠ .client → ∀ s, .string s ∈ inventory document → SettledItem env node s.cStr
  transactions : document.findMember "message".toList = some (.int Messages.requestTrans.code) →
    node.committerType ≠ .client → ∀ element ∈ transactionsOf document, ∀ item,
      readItem element = .ok item → node.hasTransaction item.nodeId item.transId = true

theorem Grows.settled {node node' : BlockchainNode} (reads : ReadsReceived env)
    (grows : Grows node node') (settled : Settled env node document) : Settled env node' document where
  shape := by
    rw [grows.committerType]
    exact settled.shape
  items message peer s member := by
    rw [grows.committerType] at peer
    exact grows.settledItem reads (settled.items message peer s member)
  transactions message peer element member item read := by
    rw [grows.committerType] at peer
    exact grows.hasTransaction (settled.transactions message peer element member item read)

theorem settledItem_of_invItem (reads : ReadsReceived env) {sender : Address}
    {scan scan' : InvScan} {s : Str} (handled : invItem env sender scan (.string s) = .ok scan') :
    SettledItem env scan'.node s.cStr := by
  have grows := grows_invItem handled
  obtain ⟨chars, isString, handled⟩ := bind_eq_ok_iff.mp handled
  cases isString
  obtain ⟨known, found, handled⟩ := bind_eq_ok_iff.mp handled
  refine ⟨known, (grows.knows reads s.cStr).trans found, ?_⟩
  cases known with
  | true => exact .inl rfl
  | false =>
    right
    cases handled
    by_cases pending : s.cStr ∈ scan.node.invTimeouts
    · simp only [if_pos pending]
      exact pending
    · simp only [if_neg pending]
      change s.cStr ∈ scan.node.invTimeouts.insert s.cStr _
      exact (AList.mem_insert _).mpr (.inl rfl)

theorem settledItems_of_caseInv (keeps : KeepsRequests env) (reads : ReadsReceived env)
    {sender : Address} {scan : InvScan} (peer : run.node.committerType ≠ .client)
    (handled : caseInv env sender document run = .ok scan) :
    ∀ s, .string s ∈ inventory document → SettledItem env scan.node s.cStr := by
  obtain ⟨_, there, _⟩ := readsArray_of_caseInv peer handled
  rw [caseInv_eq there sender peer] at handled
  obtain ⟨looped, loop, handled⟩ := bind_eq_ok_iff.mp handled
  have items : ∀ s, .string s ∈ inventory document → SettledItem env looped.node s.cStr := by
    refine foldChecked_invariant
      (fun consumed scan => ∀ s, .string s ∈ consumed → SettledItem env scan.node s.cStr) nofun ?_ loop
    intro consumed element before after _ settled pass s member
    rcases List.mem_append.mp member with old | new
    · exact (grows_invItem pass).settledItem reads (settled s old)
    · rw [← List.mem_singleton.mp new] at pass
      exact settledItem_of_invItem reads pass
  exact fun s member => (grows_requestFrom keeps handled).settledItem reads (items s member)

theorem hasTransaction_of_requestTransItem (keeps : KeepsRequests env) {ipv4 : Ipv4Address} {now : ℚ}
    {element : Value} {item : TransactionItem} (read : readItem element = .ok item)
    (handled : requestTransItem env ipv4 now run element = .ok run') :
    run'.node.hasTransaction item.nodeId item.transId = true := by
  by_cases seen : run.node.hasTransaction item.nodeId item.transId = true
  · exact (grows_requestTransItem keeps handled).hasTransaction seen
  · rw [requestTransItem_new env ipv4 now read seen] at handled
    have stored : (storeTransaction ⟨ipv4, item⟩ run).node.hasTransaction item.nodeId item.transId =
        true := by
      rw [hasTransaction, storeTransaction, List.any_append, Bool.or_eq_true]
      right
      simp [Arrival.transaction, Transaction.new, Transaction.getTransactionNodeId,
        Transaction.getTransactionId]
    split at handled
    next => exact (grows_endorse keeps handled).hasTransaction stored
    next =>
      cases handled
      exact stored

theorem caseRequestTrans_eq {elements : List Value}
    (there : document.findMember "transactions".toList = some (.array elements)) (ipv4 : Ipv4Address)
    (now : ℚ) (peer : run.node.committerType ≠ .client) :
    caseRequestTrans env ipv4 now document run =
      foldChecked (requestTransItem env ipv4 now)
        { run with node := run.node.addGetDataReceivedBytes (transactionsOf document).length }
        (transactionsOf document) := by
  rw [caseRequestTrans, if_neg peer, Value.member_eq_ok_iff.mpr there, ok_bind, Value.elements_array,
    ok_bind, transactionsOf, there]
  rfl

theorem hasTransactions_of_caseRequestTrans (keeps : KeepsRequests env) {ipv4 : Ipv4Address} {now : ℚ}
    (peer : run.node.committerType ≠ .client)
    (handled : caseRequestTrans env ipv4 now document run = .ok run') :
    ∀ element ∈ transactionsOf document, ∀ item, readItem element = .ok item →
      run'.node.hasTransaction item.nodeId item.transId = true := by
  obtain ⟨_, there, _⟩ := readsArray_of_caseRequestTrans peer handled
  rw [caseRequestTrans_eq there ipv4 now peer] at handled
  refine foldChecked_invariant
    (fun consumed (s : NodeRun) => ∀ element ∈ consumed, ∀ item, readItem element = .ok item →
      s.node.hasTransaction item.nodeId item.transId = true) nofun ?_ handled
  intro consumed element before after _ settled pass other member item read
  rcases List.mem_append.mp member with old | new
  · exact (grows_requestTransItem keeps pass).hasTransaction (settled other old item read)
  · rw [List.mem_singleton.mp new] at read
    exact hasTransaction_of_requestTransItem keeps read pass

/-- To handle a message is to settle it. -/
theorem settled_of_dispatch (keeps : KeepsRequests env) (reads : ReadsReceived env)
    {ipv4 : Ipv4Address} {port : UInt16} {now : ℚ}
    (handled : dispatch env ipv4 port now document run = .ok run') :
    Settled env run'.node document := by
  have grows := grows_dispatched keeps (dispatched_iff.mp handled)
  refine ⟨?_, fun message peer => ?_, fun message peer => ?_⟩
  · rw [grows.committerType]
    exact frameShape_of_dispatch handled
  · rw [grows.committerType] at peer
    rw [dispatch_inv env message] at handled
    obtain ⟨scan, inCase, result⟩ := bind_eq_ok_iff.mp handled
    cases result
    exact settledItems_of_caseInv keeps reads peer inCase
  · rw [grows.committerType] at peer
    have there : document.findMember "message".toList = some (.int (CInt.lit 1).val) := message
    rw [dispatch_of_message there, if_neg (by decide), if_pos (by decide)] at handled
    exact hasTransactions_of_caseRequestTrans keeps peer handled

/-! ## What handling it again comes to -/

/-- What a settled message leaves behind: its sender stands once more in the queues of
    `pushed`. -/
structure Echo where
  sender : Address
  log : List Effect
  pushed : List Str
  invBytes : Int
  getDataBytes : Int

/-- `run'` is `run` and these echoes. -/
structure Echoed (echoes : List Echo) (run run' : NodeRun) : Prop where
  trace : run'.trace = run.trace ++ echoes.flatMap Echo.log
  queueInv : ∀ s, (run'.node.queueInv.lookup s).getD [] = (run.node.queueInv.lookup s).getD [] ++
    echoes.flatMap fun echo => List.replicate (echo.pushed.count s) echo.sender
  invReceivedBytes : run'.node.nodeStats.invReceivedBytes =
    run.node.nodeStats.invReceivedBytes + (echoes.map Echo.invBytes).sum
  getDataReceivedBytes : run'.node.nodeStats.getDataReceivedBytes =
    run.node.nodeStats.getDataReceivedBytes + (echoes.map Echo.getDataBytes).sum
  others : { run'.node with
    queueInv := run.node.queueInv
    nodeStats :=
      { run.node.nodeStats with invSentBytes := run'.node.nodeStats.invSentBytes } } = run.node

/-- The log line for an item whose block is known. -/
def itemLog (env : External) (node : BlockchainNode) : Value → List Effect
  | .string s =>
    match knows env node s.cStr with
    | .ok true => [.alreadyReceived (decodeInv env s.cStr).1 (decodeInv env s.cStr).2]
    | _ => []
  | _ => []

/-- The queue the sender of an item joins when the block is missing. -/
def itemPushed (env : External) (node : BlockchainNode) : Value → List Str
  | .string s =>
    match knows env node s.cStr with
    | .ok false => [s.cStr]
    | _ => []
  | _ => []

def transactionLog (element : Value) : List Effect :=
  match readItem element with
  | .ok item => [.hasTransaction item.nodeId item.transId]
  | .error _ => []

def replyLog (node : BlockchainNode) (element : Value) : List Effect :=
  match readReply element with
  | .ok key => if key ∈ replies node then [.hasReplyTransaction key.1 key.2.1] else []
  | .error _ => []

/-- The echo of a settled message. -/
def echo (env : External) (node : BlockchainNode) (sender : Address) (document : Value) : Echo :=
  let silence : Echo := { sender, log := [], pushed := [], invBytes := 0, getDataBytes := 0 }
  match document.findMember "message".toList with
  | some (.int message) =>
    if message = Messages.inv.code then
      if node.committerType = .client then silence
      else
        { silence with
          log := (inventory document).flatMap (itemLog env node)
          pushed := (inventory document).flatMap (itemPushed env node)
          invBytes := messageBytes (inventory document).length }
    else if message = Messages.requestTrans.code then
      if node.committerType = .client then silence
      else
        { silence with
          log := (transactionsOf document).flatMap transactionLog
          getDataBytes := messageBytes (transactionsOf document).length }
    else if message = Messages.replyTrans.code then
      { silence with
        log := (transactionsOf document).flatMap (replyLog node)
        getDataBytes := messageBytes (transactionsOf document).length }
    else silence
  | _ => silence

def Delivery.echo (env : External) (node : BlockchainNode) (delivery : Delivery) : Echo :=
  BlockchainNode.echo env node (.inetSocket delivery.ipv4 delivery.port) delivery.document

theorem echoed_nil (run : NodeRun) : Echoed [] run run where
  trace := (List.append_nil _).symm
  queueInv _ := (List.append_nil _).symm
  invReceivedBytes := (Int.add_zero _).symm
  getDataReceivedBytes := (Int.add_zero _).symm
  others := rfl

theorem Echoed.trans {echoes echoes' : List Echo} {run run' run'' : NodeRun}
    (first : Echoed echoes run run') (second : Echoed echoes' run' run'') :
    Echoed (echoes ++ echoes') run run'' where
  trace := by rw [second.trace, first.trace, List.flatMap_append, List.append_assoc]
  queueInv s := by rw [second.queueInv, first.queueInv, List.flatMap_append, List.append_assoc]
  invReceivedBytes := by
    rw [second.invReceivedBytes, first.invReceivedBytes, List.map_append, List.sum_append,
      Int.add_assoc]
  getDataReceivedBytes := by
    rw [second.getDataReceivedBytes, first.getDataReceivedBytes, List.map_append, List.sum_append,
      Int.add_assoc]
  others := by
    have one := first.others
    have two := second.others
    rw [← two] at one
    exact one

theorem Echoed.emit {before : Echo} {run run' : NodeRun} (echoed : Echoed [before] run run')
    (effect : Effect) :
    Echoed [{ before with log := before.log ++ [effect] }] run (run'.emit effect) where
  trace := by simp [echoed.trace]
  queueInv := echoed.queueInv
  invReceivedBytes := echoed.invReceivedBytes
  getDataReceivedBytes := echoed.getDataReceivedBytes
  others := echoed.others

theorem Echoed.push {before : Echo} {run run' : NodeRun} (echoed : Echoed [before] run run')
    (item : Str) :
    Echoed [{ before with pushed := before.pushed ++ [item] }] run
      { run' with node := run'.node.pushQueueInv item before.sender } where
  trace := echoed.trace
  queueInv s := by
    have old := echoed.queueInv s
    by_cases same : s = item
    · subst same
      simp [pushQueueInv, old, List.replicate_succ']
    · simp [pushQueueInv, AList.lookup_insert_ne same, old, Ne.symm same]
  invReceivedBytes := echoed.invReceivedBytes
  getDataReceivedBytes := echoed.getDataReceivedBytes
  others := echoed.others

/-- What neither the queues nor the statistics hold is as it was. -/
theorem Echoed.same {α : Type} {echoes : List Echo} (echoed : Echoed echoes run run')
    (field : BlockchainNode → α)
    (untouched : ∀ node queueInv nodeStats, field { node with queueInv, nodeStats } = field node) :
    field run'.node = field run.node :=
  (untouched _ _ _).symm.trans (congrArg field echoed.others)

theorem Echoed.grows {echoes : List Echo} (echoed : Echoed echoes run run') :
    Grows run.node run'.node where
  blockchain := echoed.same BlockchainNode.blockchain fun _ _ _ => rfl
  receivedNotValidated := echoed.same BlockchainNode.receivedNotValidated fun _ _ _ => rfl
  committerType := echoed.same BlockchainNode.committerType fun _ _ _ => rfl
  invTimeouts s member := by
    rw [echoed.same BlockchainNode.invTimeouts fun _ _ _ => rfl]
    exact member
  transaction := by
    have same := echoed.same BlockchainNode.transaction fun _ _ _ => rfl
    exact ⟨[], by rw [List.append_nil, same]⟩

theorem Echoed.replies {echoes : List Echo} (echoed : Echoed echoes run run') :
    BlockchainNode.replies run'.node = BlockchainNode.replies run.node :=
  echoed.same BlockchainNode.replies fun _ _ _ => rfl

/-- An echo is the same before and after others. -/
theorem Echoed.echo_eq (reads : ReadsReceived env) {echoes : List Echo}
    (echoed : Echoed echoes run run') (sender : Address) (document : Value) :
    echo env run'.node sender document = echo env run.node sender document := by
  have grows := echoed.grows
  have log : itemLog env run'.node = itemLog env run.node := by
    funext element
    cases element <;> simp only [itemLog, grows.knows reads]
  have pushed : itemPushed env run'.node = itemPushed env run.node := by
    funext element
    cases element <;> simp only [itemPushed, grows.knows reads]
  have replied : replyLog run'.node = replyLog run.node := by
    funext element
    simp only [replyLog, echoed.replies]
  simp only [echo, log, pushed, replied, grows.committerType]

/-! ### The item loop -/

/-- The echo of the items handled so far. -/
def itemsEcho (env : External) (node : BlockchainNode) (sender : Address) (bytes : Int)
    (consumed : List Value) : Echo where
  sender := sender
  log := consumed.flatMap (itemLog env node)
  pushed := consumed.flatMap (itemPushed env node)
  invBytes := bytes
  getDataBytes := 0

theorem invItem_settled {sender : Address} {scan : InvScan} {s : Str} {known : Bool}
    (found : knows env scan.node s.cStr = .ok known)
    (settled : known = true ∨ s.cStr ∈ scan.node.invTimeouts) :
    invItem env sender scan (.string s) = .ok
      (if known then
        { scan with
          toNodeRun :=
            scan.emit (.alreadyReceived (decodeInv env s.cStr).1 (decodeInv env s.cStr).2) }
      else { scan with node := scan.node.pushQueueInv s.cStr sender }) := by
  have isString : (Value.string s).getString = .ok s := rfl
  rw [knows] at found
  rw [invItem, isString, ok_bind]
  dsimp only
  rw [found, ok_bind]
  cases known with
  | true => rfl
  | false =>
    have pending : s.cStr ∈ scan.node.invTimeouts := by simpa using settled
    simp [pending]

theorem itemLoop_settled (reads : ReadsReceived env) (sender : Address) {items : List Value}
    (shaped : ∀ element ∈ items, InvShape element)
    (settled : ∀ s, .string s ∈ items → SettledItem env run.node s.cStr) (size : ℕ) :
    ∃ scan, foldChecked (invItem env sender) (invStart size run) items = .ok scan ∧
      scan.requestBlocks = [] ∧
      Echoed [itemsEcho env run.node sender (messageBytes size) items] run scan.toNodeRun := by
  refine foldChecked_progress
    (fun consumed (scan : InvScan) => scan.requestBlocks = [] ∧
      Echoed [itemsEcho env run.node sender (messageBytes size) consumed] run scan.toNodeRun)
    ⟨rfl, ?_⟩ ?_
  · constructor <;> simp [itemsEcho, invStart, addInvReceivedBytes]
  · rintro consumed element scan ⟨rest, whole⟩ ⟨none, echoed⟩
    obtain ⟨s, rfl⟩ := shaped element (by simp [← whole])
    obtain ⟨known, found, isSettled⟩ := settled s (by simp [← whole])
    have here := (echoed.grows.knows reads s.cStr).trans found
    rw [invItem_settled here (isSettled.imp_right (echoed.grows.invTimeouts s.cStr))]
    refine ⟨_, rfl, ?_⟩
    cases known with
    | true =>
      refine ⟨none, ?_⟩
      have logged := echoed.emit (.alreadyReceived (decodeInv env s.cStr).1 (decodeInv env s.cStr).2)
      simpa [itemsEcho, itemLog, itemPushed, found] using logged
    | false =>
      refine ⟨none, ?_⟩
      have pushed := echoed.push s.cStr
      simpa [itemsEcho, itemLog, itemPushed, found] using pushed

/-! ### The element loops -/

theorem transactionLoop_settled (ipv4 : Ipv4Address) (now : ℚ) (sender : Address)
    {elements : List Value} (shaped : ∀ element ∈ elements, TransactionShape element)
    (settled : ∀ element ∈ elements, ∀ item, readItem element = .ok item →
      run.node.hasTransaction item.nodeId item.transId = true) (size : ℕ) :
    ∃ run', foldChecked (requestTransItem env ipv4 now)
        { run with node := run.node.addGetDataReceivedBytes size } elements = .ok run' ∧
      Echoed [{ sender, log := elements.flatMap transactionLog, pushed := [], invBytes := 0,
                getDataBytes := messageBytes size }] run run' := by
  refine foldChecked_progress
    (fun consumed s =>
      Echoed [{ sender, log := consumed.flatMap transactionLog, pushed := [], invBytes := 0,
                getDataBytes := messageBytes size }] run s) ?_ ?_
  · constructor <;> simp [addGetDataReceivedBytes]
  · rintro consumed element s ⟨rest, whole⟩ echoed
    have member : element ∈ elements := by simp [← whole]
    obtain ⟨item, read⟩ := readItem_ok_iff.mpr (shaped element member)
    have seen := echoed.grows.hasTransaction (settled element member item read)
    refine ⟨_, requestTransItem_seen env ipv4 now read seen, ?_⟩
    have logged := echoed.emit (.hasTransaction item.nodeId item.transId)
    simpa [transactionLog, read] using logged

theorem replyLoop_settled (sender : Address) {elements : List Value}
    (shaped : ∀ element ∈ elements, ReplyShape element) (size : ℕ) :
    ∃ run', foldChecked replyTransItem
        { run with node := run.node.addGetDataReceivedBytes size } elements = .ok run' ∧
      Echoed [{ sender, log := elements.flatMap (replyLog run.node), pushed := [], invBytes := 0,
                getDataBytes := messageBytes size }] run run' := by
  refine foldChecked_progress
    (fun consumed s =>
      Echoed [{ sender, log := consumed.flatMap (replyLog run.node), pushed := [], invBytes := 0,
                getDataBytes := messageBytes size }] run s) ?_ ?_
  · constructor <;> simp [addGetDataReceivedBytes]
  · rintro consumed element s ⟨rest, whole⟩ echoed
    obtain ⟨key, read⟩ := readReply_ok (shaped element (by simp [← whole]))
    rw [replyTransItem_eq read, echoed.replies]
    by_cases recorded : key ∈ replies run.node
    · rw [if_pos recorded]
      refine ⟨_, rfl, ?_⟩
      have logged := echoed.emit (.hasReplyTransaction key.1 key.2.1)
      simpa [replyLog, read, recorded] using logged
    · rw [if_neg recorded]
      refine ⟨s, rfl, ?_⟩
      simpa [replyLog, read, recorded] using echoed

/-! ### One message -/

theorem dispatch_settled (reads : ReadsReceived env) (ipv4 : Ipv4Address) (port : UInt16) (now : ℚ)
    (settled : Settled env run.node document) :
    ∃ run', dispatch env ipv4 port now document run = .ok run' ∧
      Echoed [echo env run.node (.inetSocket ipv4 port) document] run run' := by
  obtain ⟨message, there, inv, requestTrans, replyTrans⟩ := settled.shape
  -- What a handler that returns at once leaves behind.
  have silent (sender : Address) : Echoed
      [{ sender, log := [], pushed := [], invBytes := 0, getDataBytes := 0 }] run run := by
    constructor <;> simp
  rw [dispatch_of_message there, echo, there]
  dsimp only
  by_cases isInv : message.val = Messages.inv.code
  · rw [if_pos isInv, if_pos isInv]
    by_cases client : run.node.committerType = .client
    · rw [caseInv, if_pos client, if_pos client]
      exact ⟨run, rfl, silent _⟩
    · obtain ⟨items, listed, shaped⟩ := inv isInv client
      have whole : inventory document = items := by rw [inventory, listed]; rfl
      obtain ⟨scan, looped, none, echoed⟩ := itemLoop_settled reads (.inetSocket ipv4 port)
        (whole ▸ shaped) (settled.items (isInv ▸ there) client) (inventory document).length
      -- Every item is known or pending, so no request is sent.
      have nothingToAsk : scan.requestBlocks.isEmpty = true := by rw [none]; rfl
      rw [caseInv_eq listed _ client, looped, ok_bind, requestFrom, if_pos nothingToAsk, if_neg client]
      exact ⟨_, rfl, echoed⟩
  · rw [if_neg isInv, if_neg isInv]
    by_cases isRequest : message.val = Messages.requestTrans.code
    · rw [if_pos isRequest, if_pos isRequest]
      by_cases client : run.node.committerType = .client
      · rw [caseRequestTrans, if_pos client, if_pos client]
        exact ⟨run, rfl, silent _⟩
      · obtain ⟨elements, listed, shaped⟩ := requestTrans isRequest client
        have whole : transactionsOf document = elements := by rw [transactionsOf, listed]; rfl
        rw [caseRequestTrans_eq listed ipv4 now client, if_neg client]
        exact transactionLoop_settled ipv4 now _ (whole ▸ shaped)
          (settled.transactions (isRequest ▸ there) client) _
    · rw [if_neg isRequest, if_neg isRequest]
      by_cases isReply : message.val = Messages.replyTrans.code
      · obtain ⟨elements, listed, shaped⟩ := replyTrans isReply
        have whole : transactionsOf document = elements := by rw [transactionsOf, listed]; rfl
        rw [if_pos isReply, if_pos isReply, caseReplyTrans, Value.member_eq_ok_iff.mpr listed, ok_bind,
          Value.elements_array, ok_bind, whole]
        exact replyLoop_settled _ shaped _
      · rw [if_neg isReply, if_neg isReply]
        exact ⟨run, rfl, silent _⟩

/-! ## Whole runs -/

theorem settled_of_delivered (keeps : KeepsRequests env) (reads : ReadsReceived env)
    {deliveries : List Delivery} (handled : foldChecked (deliver env) run deliveries = .ok run') :
    ∀ delivery ∈ deliveries, Settled env run'.node delivery.document := by
  refine foldChecked_invariant
    (fun consumed (s : NodeRun) => ∀ delivery ∈ consumed, Settled env s.node delivery.document)
    nofun ?_ handled
  intro consumed delivery before after _ settled pass other member
  rcases List.mem_append.mp member with old | new
  · exact (grows_dispatched keeps (dispatched_iff.mp pass)).settled reads (settled other old)
  · rw [List.mem_singleton.mp new]
    exact settled_of_dispatch keeps reads pass

/-- After any run of messages, for any of them once more, from any peer, at any time, in
    any order and as often as one likes: each is handled, and leaves its echo only. -/
theorem redelivery_echoes (env : External) (keeps : KeepsRequests env) (reads : ReadsReceived env)
    (run run' : NodeRun) (deliveries again : List Delivery)
    (handled : foldChecked (deliver env) run deliveries = .ok run')
    (delivered : ∀ delivery ∈ again, ∃ first ∈ deliveries, first.document = delivery.document) :
    ∃ run'', foldChecked (deliver env) run' again = .ok run'' ∧
      Echoed (again.map (Delivery.echo env run'.node)) run' run'' := by
  have settled := settled_of_delivered keeps reads handled
  refine foldChecked_progress
    (fun consumed s => Echoed (consumed.map (Delivery.echo env run'.node)) run' s)
    (echoed_nil run') ?_
  rintro consumed delivery s ⟨rest, whole⟩ echoed
  obtain ⟨first, member, same⟩ := delivered delivery (by simp [← whole])
  have here : Settled env s.node delivery.document :=
    same ▸ echoed.grows.settled reads (settled first member)
  obtain ⟨s', handled, once⟩ := dispatch_settled reads delivery.ipv4 delivery.port delivery.now here
  refine ⟨s', handled, ?_⟩
  rw [echoed.echo_eq reads] at once
  rw [List.map_append, List.map_singleton]
  exact echoed.trans once

/-- `knowing` keeps and reads what a node that settles its messages needs. -/
theorem knowing_keepsRequests (documents : List (Str × Value)) :
    KeepsRequests (knowing documents) :=
  ⟨fun _ _ _ _ node => .refl node, fun _ _ node => .refl node⟩

theorem knowing_readsReceived (documents : List (Str × Value)) : ReadsReceived (knowing documents) := by
  intro node node' s same
  change (node'.receivedNotValidated.lookup s).isSome = (node.receivedNotValidated.lookup s).isSome
  rw [same]

/-- Two messages, and both again, from others and the other way round. -/
def firstMessages : List Delivery :=
  [⟨⟨1⟩, 8333, 2, invDocument ["0/0".toList, "1/5".toList]⟩,
    ⟨⟨2⟩, 8333, 3, requestDocument [⟨CInt.lit 3, CInt.lit 4, 1⟩]⟩]

def repeatedMessages : List Delivery :=
  [⟨⟨4⟩, 8333, 5, requestDocument [⟨CInt.lit 3, CInt.lit 4, 1⟩]⟩,
    ⟨⟨3⟩, 8333, 6, invDocument ["0/0".toList, "1/5".toList]⟩]

theorem redelivery_echoes_swapped :
    ∃ run' run'', foldChecked (deliver (knowing []))
        { node := idle 0 .standardProtocol .endorser, trace := [] } firstMessages = .ok run' ∧
      foldChecked (deliver (knowing [])) run' repeatedMessages = .ok run'' ∧
      Echoed (repeatedMessages.map (Delivery.echo (knowing []) run'.node)) run' run'' := by
  have delivered : ∀ delivery ∈ repeatedMessages, ∃ first ∈ firstMessages,
      first.document = delivery.document := by
    simp [repeatedMessages, firstMessages]
  obtain ⟨run', handled⟩ : ∃ run', foldChecked (deliver (knowing []))
      { node := idle 0 .standardProtocol .endorser, trace := [] } firstMessages = .ok run' :=
    ⟨_, rfl⟩
  obtain ⟨run'', again, echoed⟩ := redelivery_echoes (knowing []) (knowing_keepsRequests [])
    (knowing_readsReceived []) _ run' firstMessages repeatedMessages handled delivered
  exact ⟨run', run'', handled, again, echoed⟩

end BlockchainNode

end Ns3Blockchain
