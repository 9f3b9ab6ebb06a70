import Ns3Blockchain.Verified.FrameShape
import Ns3Blockchain.Verified.Store
import Ns3Blockchain.Library.Arrivals

/-! # The pending-request tables

Everything in `m_invTimeouts` and `m_queueInv` is a function of one list: the
occurrences of inventory items processed while the node did not know the block.
An item is requested at its first such occurrence, and its queue is the senders
of all of them.
-/

namespace Ns3Blockchain

open Library Rapidjson

namespace BlockchainNode

/-- The block of an inventory item is stored, an orphan, or received but not
    validated. -/
def KnownBlock (env : External) (node : BlockchainNode) (parsedInv : Str) : Prop :=
  (∃ block ∈ node.blockchain.stored,
    block.blockHeight = (decodeInv env parsedInv).1 ∧
      block.minerId = (decodeInv env parsedInv).2) ∨
  (∃ block ∈ node.blockchain.orphans,
    block.blockHeight = (decodeInv env parsedInv).1 ∧
      block.minerId = (decodeInv env parsedInv).2) ∨
  env.receivedButNotValidated node parsedInv = true

instance (env : External) (node : BlockchainNode) (parsedInv : Str) :
    Decidable (KnownBlock env node parsedInv) :=
  inferInstanceAs (Decidable (_ ∨ _ ∨ _))

/-- An inventory item the loop can read, with a height that is a row index. -/
def ReadableItem (env : External) (element : Value) : Prop :=
  ∃ s, element = .string s ∧ 0 ≤ (decodeInv env s.cStr).1.val

/-- An `INV` message with an array of such items. -/
def ReadableInv (env : External) (document : Value) : Prop :=
  document.findMember "message".toList = some (.int Messages.inv.code) ∧
    ReadsArray document "inv".toList (ReadableItem env)

/-- The string an item is filed under. -/
def itemText : Value → Str
  | .string s => s.cStr
  | _ => []

/-- The items of a message, each with its sender, that the loop meets while their
    blocks are not known. -/
def unknownIn (env : External) (sender : Address) : InvScan → List Value → List (Str × Address)
  | _, [] => []
  | scan, element :: elements =>
    let here :=
      if KnownBlock env scan.node (itemText element) then [] else [(itemText element, sender)]
    match invItem env sender scan element with
    | .ok scan' => here ++ unknownIn env sender scan' elements
    | .error _ => here

/-- The run of a node, the items it requested so far with the peer asked, and the
    occurrences of unknown items so far. -/
structure InvLedger where
  run : NodeRun
  requested : List (Str × Address)
  unknown : List (Str × Address)

/-- The items a `GET_HEADERS` request of `case INV` asks a peer for: the array in its
    last member, under the name `blocks`. -/
def itemsAsked : Effect → List (Str × Address)
  | .sendMessage .inv .getHeaders (.object members) peer =>
    match members.getLast? with
    | some (name, .array blocks) =>
      if name = "blocks".toList then
        blocks.filterMap fun block => block.string?.map fun s => (s, peer)
      else []
    | _ => []
  | _ => []

/-- An `INV` message, or a call on the blockchain from elsewhere in the node. -/
inductive PeerEvent where
  | inv (ipv4 : Ipv4Address) (port : UInt16) (document : Value)
  | chain (operation : Blockchain.Operation)

def PeerEvent.Readable (env : External) : PeerEvent → Prop
  | .inv _ _ document => ReadableInv env document
  | .chain operation => ∀ block ∈ Blockchain.addedBlocks [operation], 0 ≤ block.blockHeight.val

def inventory (document : Value) : List Value :=
  ((document.findMember "inv".toList).bind Value.array?).getD []

/-- One event.  The message is handled by `caseInv`; the two lists only watch. -/
def peerStep (env : External) (ledger : InvLedger) : PeerEvent → Exec InvLedger
  | .inv ipv4 port document => do
    let sender := Address.inetSocket ipv4 port
    let items := inventory document
    let scan ← caseInv env sender document ledger.run
    return {
      run := scan.toNodeRun
      requested := ledger.requested ++ scan.requestBlocks.map fun s => (s, sender)
      unknown := ledger.unknown ++ unknownIn env sender (invStart items.length ledger.run) items }
  | .chain operation => do
    let blockchain ← ledger.run.node.blockchain.apply operation
    return { ledger with run := { ledger.run with node := { ledger.run.node with blockchain } } }

/-- `SendMessage` leaves the tables, the blockchain and the committer type. -/
def KeepsTables (env : External) : Prop :=
  ∀ received response document address node,
    (env.sendMessage received response document address node).1.invTimeouts = node.invTimeouts ∧
    (env.sendMessage received response document address node).1.queueInv = node.queueInv ∧
    (env.sendMessage received response document address node).1.blockchain = node.blockchain ∧
    (env.sendMessage received response document address node).1.committerType = node.committerType

/-- The tables of a node against the occurrences of unknown items. -/
structure Tables (node : BlockchainNode) (requested unknown : List (Str × Address)) : Prop where
  requested_eq : requested = firstArrivals Prod.fst unknown
  queue_eq : ∀ s, node.queueInv.lookup s =
    if s ∈ unknown.map Prod.fst then
      some ((unknown.filter fun entry => entry.1 = s).map Prod.snd)
    else none
  timeout_iff : ∀ s, s ∈ node.invTimeouts ↔ s ∈ unknown.map Prod.fst

variable {env : External} {node : BlockchainNode} {requested unknown : List (Str × Address)}

/-! ## One item -/

theorem alreadyKnown_eq {log : List Block} (represented : node.blockchain.Represents log)
    {parsedInv : Str} (nonneg : 0 ≤ (decodeInv env parsedInv).1.val) :
    alreadyKnown env node (decodeInv env parsedInv).1 (decodeInv env parsedInv).2 parsedInv =
      .ok (decide (KnownBlock env node parsedInv)) := by
  have stored : (∃ block ∈ log, block.blockHeight = (decodeInv env parsedInv).1 ∧
      block.minerId = (decodeInv env parsedInv).2) ↔
      ∃ block ∈ node.blockchain.stored, block.blockHeight = (decodeInv env parsedInv).1 ∧
        block.minerId = (decodeInv env parsedInv).2 := by
    simp only [Blockchain.mem_stored represented]
  have orphan : node.blockchain.isOrphanAt (decodeInv env parsedInv).1
      (decodeInv env parsedInv).2 = true ↔
      ∃ block ∈ node.blockchain.orphans, block.blockHeight = (decodeInv env parsedInv).1 ∧
        block.minerId = (decodeInv env parsedInv).2 := by
    simp [Blockchain.isOrphanAt, Block.getBlockHeight, Block.getMinerId]
  rw [alreadyKnown, Blockchain.hasBlockAt_eq represented _ nonneg, ok_bind]
  simp only [decide_eq_true_eq, stored, orphan]
  split
  next has => simp [KnownBlock, has]
  next lacks =>
    split
    next isOrphan => simp [KnownBlock, isOrphan]
    next noOrphan => simp [KnownBlock, lacks, noOrphan]

/-- What one pass of the item loop comes to. -/
def afterItem (env : External) (sender : Address) (scan : InvScan) (parsedInv : Str) : InvScan :=
  if KnownBlock env scan.node parsedInv then
    { scan with
      toNodeRun := scan.emit
        (.alreadyReceived (decodeInv env parsedInv).1 (decodeInv env parsedInv).2) }
  else
    let scan := if parsedInv ∈ scan.node.invTimeouts then scan else requestBlock env parsedInv scan
    { scan with node := scan.node.pushQueueInv parsedInv sender }

theorem invItem_eq {log : List Block} {scan : InvScan}
    (represented : scan.node.blockchain.Represents log) (sender : Address) {s : Str}
    (nonneg : 0 ≤ (decodeInv env s.cStr).1.val) :
    invItem env sender scan (.string s) = .ok (afterItem env sender scan s.cStr) := by
  have isString : (Value.string s).getString = .ok s := rfl
  rw [invItem, isString, ok_bind]
  dsimp only
  rw [alreadyKnown_eq represented nonneg, ok_bind, afterItem]
  simp only [decide_eq_true_eq]
  split <;> rfl

theorem afterItem_known (sender : Address) {scan : InvScan} {parsedInv : Str}
    (known : KnownBlock env scan.node parsedInv) :
    (afterItem env sender scan parsedInv).node = scan.node ∧
      (afterItem env sender scan parsedInv).requestBlocks = scan.requestBlocks := by
  rw [afterItem, if_pos known]
  exact ⟨rfl, rfl⟩

theorem afterItem_frame (env : External) (sender : Address) (scan : InvScan) (parsedInv : Str) :
    (afterItem env sender scan parsedInv).node.blockchain = scan.node.blockchain ∧
      (afterItem env sender scan parsedInv).node.committerType = scan.node.committerType := by
  rw [afterItem]
  split
  next => exact ⟨rfl, rfl⟩
  next =>
    dsimp only
    split <;> exact ⟨rfl, rfl⟩

theorem filter_push (unknown : List (Str × Address)) (s parsedInv : Str) (sender : Address) :
    ((unknown ++ [(parsedInv, sender)]).filter fun entry => entry.1 = s).map Prod.snd =
      (unknown.filter fun entry => entry.1 = s).map Prod.snd ++
        if parsedInv = s then [sender] else [] := by
  rw [List.filter_append, List.map_append]
  congr 1
  by_cases same : parsedInv = s
  · rw [if_pos same, List.filter_cons_of_pos (by simpa using same)]
    rfl
  · rw [if_neg same, List.filter_cons_of_neg (by simpa using same)]
    rfl

theorem filter_of_absent {s : Str} (absent : s ∉ unknown.map Prod.fst) :
    (unknown.filter fun entry => entry.1 = s) = [] := by
  rw [List.filter_eq_nil_iff]
  intro entry member accepted
  exact absent (List.mem_map.mpr ⟨entry, member, of_decide_eq_true accepted⟩)

theorem mem_keys_push (unknown : List (Str × Address)) (s parsedInv : Str) (sender : Address) :
    s ∈ (unknown ++ [(parsedInv, sender)]).map Prod.fst ↔
      s ∈ unknown.map Prod.fst ∨ s = parsedInv := by
  rw [List.map_append, List.mem_append, List.map_singleton, List.mem_singleton]

/-- The queue of every item after one more occurrence of an unknown one. -/
theorem Tables.queue_push (tables : Tables node requested unknown) (parsedInv : Str)
    (sender : Address) (s : Str) :
    (node.pushQueueInv parsedInv sender).queueInv.lookup s =
      if s ∈ (unknown ++ [(parsedInv, sender)]).map Prod.fst then
        some (((unknown ++ [(parsedInv, sender)]).filter fun entry => entry.1 = s).map Prod.snd)
      else none := by
  have old := tables.queue_eq s
  rw [filter_push]
  by_cases same : s = parsedInv
  · subst same
    rw [if_pos ((mem_keys_push unknown s s sender).mpr (.inr rfl)), if_pos rfl, pushQueueInv,
      AList.lookup_insert, old]
    split
    next => rfl
    next absent =>
      rw [filter_of_absent absent]
      rfl
  · rw [if_neg (Ne.symm same), List.append_nil, pushQueueInv, AList.lookup_insert_ne same, old]
    simp only [mem_keys_push, same, or_false]

/-- The step of the item loop on the tables. -/
theorem Tables.afterItem {scan : InvScan} {sender : Address}
    (tables : Tables scan.node (requested ++ scan.requestBlocks.map fun s => (s, sender)) unknown)
    (parsedInv : Str) :
    Tables (afterItem env sender scan parsedInv).node
      (requested ++ (afterItem env sender scan parsedInv).requestBlocks.map fun s => (s, sender))
      (unknown ++ if KnownBlock env scan.node parsedInv then [] else [(parsedInv, sender)]) := by
  by_cases known : KnownBlock env scan.node parsedInv
  · obtain ⟨sameNode, sameRequests⟩ := afterItem_known sender known
    rw [sameNode, sameRequests, if_pos known, List.append_nil]
    exact tables
  · have first := firstArrivals_append_singleton Prod.fst unknown (parsedInv, sender)
    rw [BlockchainNode.afterItem, if_neg known, if_neg known]
    by_cases requestedBefore : parsedInv ∈ scan.node.invTimeouts
    · -- The key is there: the queue grows, and nothing is requested.
      have seen := (tables.timeout_iff parsedInv).mp requestedBefore
      rw [if_pos seen] at first
      simp only [if_pos requestedBefore]
      refine ⟨by rw [first]; exact tables.requested_eq, tables.queue_push parsedInv sender, ?_⟩
      intro s
      rw [mem_keys_push, ← tables.timeout_iff]
      constructor
      · exact .inl
      · rintro (member | rfl)
        · exact member
        · exact requestedBefore
    · -- The first occurrence: the item is requested and its key made, in both tables.
      have unseen := mt (tables.timeout_iff parsedInv).mpr requestedBefore
      rw [if_neg unseen] at first
      simp only [if_neg requestedBefore]
      refine ⟨?_, tables.queue_push parsedInv sender, ?_⟩
      · rw [first, ← tables.requested_eq, requestBlock, List.map_append, List.append_assoc]
        rfl
      · intro s
        rw [mem_keys_push, ← tables.timeout_iff]
        change s ∈ scan.node.invTimeouts.insert parsedInv _ ↔ _
        rw [AList.mem_insert, or_comm]

/-! ## One message -/

/-- The item loop finishes, and the tables keep up with it. -/
theorem itemLoop_tables {log : List Block} {sender : Address} {scan : InvScan}
    (tables : Tables scan.node (requested ++ scan.requestBlocks.map fun s => (s, sender)) unknown)
    (represented : scan.node.blockchain.Represents log) {elements : List Value}
    (readable : ∀ element ∈ elements, ReadableItem env element) :
    ∃ scan', foldChecked (invItem env sender) scan elements = .ok scan' ∧
      Tables scan'.node (requested ++ scan'.requestBlocks.map fun s => (s, sender))
        (unknown ++ unknownIn env sender scan elements) ∧
      scan'.node.blockchain = scan.node.blockchain ∧
      scan'.node.committerType = scan.node.committerType := by
  induction elements generalizing scan unknown with
  | nil =>
    refine ⟨scan, rfl, ?_, rfl, rfl⟩
    rw [unknownIn, List.append_nil]
    exact tables
  | cons element elements inductionHypothesis =>
    obtain ⟨s, rfl, nonneg⟩ := readable element List.mem_cons_self
    have pass := invItem_eq represented sender nonneg
    obtain ⟨sameChain, sameType⟩ := afterItem_frame env sender scan s.cStr
    obtain ⟨scan', finished, tables', chain', type'⟩ :=
      inductionHypothesis (tables.afterItem s.cStr) (by rw [sameChain]; exact represented)
        fun other member => readable other (List.mem_cons_of_mem _ member)
    refine ⟨scan', ?_, ?_, chain'.trans sameChain, type'.trans sameType⟩
    · rw [foldChecked, pass, ok_bind, finished]
    · rw [unknownIn, pass]
      dsimp only [itemText]
      rw [← List.append_assoc]
      exact tables'

theorem Tables.congr {node' : BlockchainNode} (tables : Tables node requested unknown)
    (sameQueues : node'.queueInv = node.queueInv)
    (sameTimeouts : node'.invTimeouts = node.invTimeouts) : Tables node' requested unknown :=
  ⟨tables.requested_eq, by rw [sameQueues]; exact tables.queue_eq,
    by rw [sameTimeouts]; exact tables.timeout_iff⟩

/-- What the calls after the item loop leave as it was. -/
structure SameTables (scan scan' : InvScan) : Prop where
  requestBlocks : scan'.requestBlocks = scan.requestBlocks
  invTimeouts : scan'.node.invTimeouts = scan.node.invTimeouts
  queueInv : scan'.node.queueInv = scan.node.queueInv
  blockchain : scan'.node.blockchain = scan.node.blockchain
  committerType : scan'.node.committerType = scan.node.committerType

theorem requestFrom_keeps (keeps : KeepsTables env) {document : Value}
    (object : document.isObject = true) (sender : Address) (scan : InvScan) :
    ∃ scan', requestFrom env sender document scan = .ok scan' ∧ SameTables scan scan' := by
  unfold requestFrom
  split
  next => exact ⟨scan, rfl, rfl, rfl, rfl, rfl, rfl⟩
  next =>
    -- Both `SendMessage` calls, the second on the node the first leaves.
    obtain ⟨members, removed⟩ := Value.removeMember_of_isObject object "inv".toList
    rw [removed]
    refine ⟨_, rfl, rfl, ?_, ?_, ?_, ?_⟩
    · exact (keeps _ _ _ _ _).1.trans (keeps _ _ _ _ _).1
    · exact (keeps _ _ _ _ _).2.1.trans (keeps _ _ _ _ _).2.1
    · exact (keeps _ _ _ _ _).2.2.1.trans (keeps _ _ _ _ _).2.2.1
    · exact (keeps _ _ _ _ _).2.2.2.trans (keeps _ _ _ _ _).2.2.2

/-- A document with a message is an object. -/
theorem isObject_of_message {document message : Value}
    (there : document.findMember "message".toList = some message) : document.isObject = true := by
  cases document with
  | object members => rfl
  | null | bool | int | double | string | array => cases there

theorem ReadableInv.items {document : Value} (readable : ReadableInv env document) :
    ∀ element ∈ inventory document, ReadableItem env element := by
  obtain ⟨_, elements, there, readableItems⟩ := readable
  rw [inventory, there]
  exact readableItems

theorem caseInv_eq {document : Value} {elements : List Value}
    (there : document.findMember "inv".toList = some (.array elements)) (sender : Address)
    {run : NodeRun} (peer : run.node.committerType ≠ .client) :
    caseInv env sender document run =
      foldChecked (invItem env sender) (invStart (inventory document).length run)
          (inventory document) >>=
        requestFrom env sender document := by
  rw [caseInv, if_neg peer, Value.member_eq_ok_iff.mpr there, ok_bind, Value.elements_array, ok_bind,
    invLoop, inventory, there]
  rfl

/-- `switch` hands an `INV` message to `caseInv`. -/
theorem dispatch_inv (env : External) {document : Value}
    (message : document.findMember "message".toList = some (.int Messages.inv.code))
    (ipv4 : Ipv4Address) (port : UInt16) (now : ℚ) (run : NodeRun) :
    dispatch env ipv4 port now document run =
      caseInv env (.inetSocket ipv4 port) document run >>= fun scan => .ok scan.toNodeRun := by
  have selected : document.findMember "message".toList = some (.int (CInt.lit 0).val) := message
  rw [dispatch_of_message selected, if_pos (by decide)]
  rfl

/-! ## What is asked of the peers -/

theorem invItem_asked {sender : Address} {scan scan' : InvScan} {element : Value}
    (handled : invItem env sender scan element = .ok scan') :
    scan'.trace.flatMap itemsAsked = scan.trace.flatMap itemsAsked := by
  obtain ⟨chars, _, handled⟩ := bind_eq_ok_iff.mp handled
  obtain ⟨known, _, handled⟩ := bind_eq_ok_iff.mp handled
  cases known with
  | true =>
    cases handled
    dsimp only
    rw [NodeRun.emit_trace, List.flatMap_append]
    exact List.append_nil _
  | false =>
    cases handled
    by_cases pending : chars.cStr ∈ scan.node.invTimeouts
    · simp only [if_pos pending]
    · -- A timer is set; the request itself goes out after the loop.
      simp only [if_neg pending, requestBlock, NodeRun.emit_trace]
      rw [List.flatMap_append]
      exact List.append_nil _

theorem asked_request (members : List (Str × Value)) (requestBlocks : List Str) (peer : Address) :
    itemsAsked (.sendMessage .inv .getHeaders (.object (members ++
        [("blocks".toList, .array (requestBlocks.map .string))])) peer) =
      requestBlocks.map fun s => (s, peer) := by
  simp only [itemsAsked, List.getLast?_append, List.getLast?_singleton, Option.some_or, if_true]
  rw [List.filterMap_map]
  change requestBlocks.filterMap (some ∘ fun s => (s, peer)) = _
  rw [List.filterMap_eq_map]

theorem requestFrom_asked {sender : Address} {document : Value} {scan scan' : InvScan}
    (requested : requestFrom env sender document scan = .ok scan') :
    scan'.requestBlocks = scan.requestBlocks ∧
      scan'.trace.flatMap itemsAsked =
        scan.trace.flatMap itemsAsked ++ scan.requestBlocks.map fun s => (s, sender) := by
  unfold requestFrom at requested
  split at requested
  next empty =>
    cases requested
    rw [List.isEmpty_iff.mp empty]
    exact ⟨rfl, (List.append_nil _).symm⟩
  next =>
    obtain ⟨removed, _, requested⟩ := bind_eq_ok_iff.mp requested
    obtain ⟨request, built, requested⟩ := bind_eq_ok_iff.mp requested
    cases requested
    obtain ⟨members, rfl⟩ : ∃ members, request =
        .object (members ++ [("blocks".toList, .array (scan.requestBlocks.map .string))]) := by
      cases removed with
      | object members =>
        cases built
        exact ⟨members, rfl⟩
      | null | bool | int | double | string | array => cases built
    refine ⟨rfl, ?_⟩
    -- The `GET_DATA` call comes last and is not counted.
    change ((scan.trace ++ [_]) ++ [_]).flatMap itemsAsked = _
    rw [List.flatMap_append, List.flatMap_append, List.flatMap_singleton, asked_request]
    exact List.append_nil _

/-- Every handled message asks its sender for the items of `requestBlocks`. -/
theorem caseInv_asked {sender : Address} {document : Value} {run : NodeRun} {scan : InvScan}
    (handled : caseInv env sender document run = .ok scan) :
    scan.trace.flatMap itemsAsked =
      run.trace.flatMap itemsAsked ++ scan.requestBlocks.map fun s => (s, sender) := by
  unfold caseInv at handled
  split at handled
  next =>
    cases handled
    exact (List.append_nil _).symm
  next =>
    obtain ⟨inv, _, handled⟩ := bind_eq_ok_iff.mp handled
    obtain ⟨items, _, handled⟩ := bind_eq_ok_iff.mp handled
    obtain ⟨looped, loop, handled⟩ := bind_eq_ok_iff.mp handled
    obtain ⟨sameRequests, asked⟩ := requestFrom_asked handled
    have kept : looped.trace.flatMap itemsAsked = run.trace.flatMap itemsAsked :=
      foldChecked_invariant
        (fun _ (s : InvScan) => s.trace.flatMap itemsAsked = run.trace.flatMap itemsAsked) rfl
        (fun _ _ _ _ _ sofar pass => (invItem_asked pass).trans sofar) loop
    rw [asked, kept, sameRequests]

/-! ## Runs -/

/-- The invariant of a run of events. -/
structure Consistent (ledger : InvLedger) : Prop where
  tables : Tables ledger.run.node ledger.requested ledger.unknown
  asked : ledger.requested = ledger.run.trace.flatMap itemsAsked
  store : ∃ log, ledger.run.node.blockchain.Represents log
  peer : ledger.run.node.committerType ≠ .client

theorem consistent_start (peer : node.committerType ≠ .client) (noTimeouts : node.invTimeouts = ∅)
    (noQueues : node.queueInv = ∅)
    (grown : ∃ operations,
      (∀ block ∈ Blockchain.addedBlocks operations, 0 ≤ block.blockHeight.val) ∧
      Blockchain.reach operations = .ok node.blockchain) :
    Consistent { run := { node, trace := [] }, requested := [], unknown := [] } := by
  obtain ⟨operations, heights, reached⟩ := grown
  refine ⟨⟨rfl, ?_, ?_⟩, rfl, ⟨_, Blockchain.Represents.of_reach heights reached⟩, peer⟩
  · intro s
    rw [noQueues]
    rfl
  · intro s
    rw [noTimeouts]
    simp

/-- A message is handled, whatever the state, and leaves the blockchain. -/
theorem Consistent.inv (keeps : KeepsTables env) {ledger : InvLedger}
    (consistent : Consistent ledger) {document : Value} (readable : ReadableInv env document)
    (ipv4 : Ipv4Address) (port : UInt16) :
    ∃ ledger', peerStep env ledger (.inv ipv4 port document) = .ok ledger' ∧ Consistent ledger' ∧
      ledger'.run.node.blockchain = ledger.run.node.blockchain := by
  obtain ⟨log, represented⟩ := consistent.store
  have start : Tables (invStart (inventory document).length ledger.run).node
      (ledger.requested ++ (invStart (inventory document).length ledger.run).requestBlocks.map
        fun s => (s, Address.inetSocket ipv4 port)) ledger.unknown := by
    rw [invStart, List.map_nil, List.append_nil]
    exact consistent.tables.congr rfl rfl
  obtain ⟨scan, looped, tables, sameChain, sameType⟩ :=
    itemLoop_tables start represented readable.items
  obtain ⟨scan', requested, same⟩ :=
    requestFrom_keeps keeps (isObject_of_message readable.1) (.inetSocket ipv4 port) scan
  have handled : caseInv env (.inetSocket ipv4 port) document ledger.run = .ok scan' := by
    obtain ⟨_, _, there, _⟩ := readable
    rw [caseInv_eq there _ consistent.peer, looped, ok_bind, requested]
  refine ⟨_, by rw [peerStep, handled]; rfl, ⟨?_, ?_, ⟨log, ?_⟩, ?_⟩,
    same.blockchain.trans sameChain⟩
  · dsimp only
    rw [same.requestBlocks]
    exact tables.congr same.queueInv same.invTimeouts
  · dsimp only
    rw [consistent.asked, caseInv_asked handled]
  · dsimp only
    rw [same.blockchain, sameChain]
    exact represented
  · dsimp only
    rw [same.committerType, sameType]
    exact consistent.peer

theorem Consistent.step (keeps : KeepsTables env) {ledger ledger' : InvLedger} {event : PeerEvent}
    (consistent : Consistent ledger) (readable : event.Readable env)
    (stepped : peerStep env ledger event = .ok ledger') : Consistent ledger' := by
  cases event with
  | inv ipv4 port document =>
    obtain ⟨handled, same, consistent', _⟩ := consistent.inv keeps readable ipv4 port
    rw [same] at stepped
    cases stepped
    exact consistent'
  | chain operation =>
    obtain ⟨blockchain, applied, stepped⟩ := bind_eq_ok_iff.mp stepped
    cases stepped
    -- The tables do not change, only what is known at the next message does.
    obtain ⟨log, represented⟩ := consistent.store
    exact ⟨consistent.tables.congr rfl rfl, consistent.asked,
      ⟨_, Blockchain.represents_of_apply represented readable applied⟩, consistent.peer⟩

/-! ## Reading the tables -/

theorem Tables.mem_queueInv (tables : Tables node requested unknown) (s : Str) :
    s ∈ node.queueInv ↔ s ∈ unknown.map Prod.fst := by
  rw [← AList.lookup_isSome, tables.queue_eq]
  split
  next present => exact iff_of_true rfl present
  next absent => exact iff_of_false Bool.false_ne_true absent

theorem Tables.mem_requested (tables : Tables node requested unknown) (s : Str) :
    s ∈ requested.map Prod.fst ↔ s ∈ unknown.map Prod.fst := by
  rw [tables.requested_eq]
  exact mem_map_firstArrivals Prod.fst

/-- The peer asked for an item is the first in its queue. -/
theorem Tables.asked_first (tables : Tables node requested unknown) {s : Str} {asked : Address}
    (member : (s, asked) ∈ requested) :
    ∃ others, node.queueInv.lookup s = some (asked :: others) := by
  have present := (tables.mem_requested s).mp (List.mem_map_of_mem member)
  rw [tables.requested_eq] at member
  have head := head?_filter_of_mem_firstArrivals Prod.fst member
  obtain ⟨others, entries⟩ := List.head?_eq_some_iff.mp head
  exact ⟨others.map Prod.snd, by rw [tables.queue_eq, if_pos present, entries, List.map_cons]⟩

theorem Tables.queue_nonempty (tables : Tables node requested unknown) {s : Str}
    {queue : List Address} (found : node.queueInv.lookup s = some queue) : queue ≠ [] := by
  have present := (tables.mem_queueInv s).mp (AList.lookup_isSome.mp (by rw [found]; rfl))
  obtain ⟨⟨s', asked⟩, member, rfl⟩ := List.mem_map.mp ((tables.mem_requested s).mpr present)
  obtain ⟨others, first⟩ := tables.asked_first member
  rw [first] at found
  cases found
  exact List.cons_ne_nil _ _

theorem Tables.queue_getD (tables : Tables node requested unknown) (s : Str) :
    (node.queueInv.lookup s).getD [] =
      (unknown.filter fun entry => entry.1 = s).map Prod.snd := by
  rw [tables.queue_eq]
  split
  next => rfl
  next absent =>
    rw [filter_of_absent absent]
    rfl

/-- For every node that is no `CLIENT`, with empty tables and a chain some calls
    have grown, and every run of messages and calls on the chain: the tables have
    the same keys and no empty queue; an item is requested once, when its key is
    made, from the peer at the head of its queue, and the `GET_HEADERS` calls of
    `SendMessage` ask for what is requested and nothing else; a queue is the senders
    of the occurrences of unknown items, and a known one changes nothing.  The run
    never stops in a message. -/
theorem inv_tables_consistent (env : External) (node : BlockchainNode) (events : List PeerEvent)
    (ledger : InvLedger) (keeps : KeepsTables env) (peer : node.committerType ≠ .client)
    (noTimeouts : node.invTimeouts = ∅) (noQueues : node.queueInv = ∅)
    (grown : ∃ operations,
      (∀ block ∈ Blockchain.addedBlocks operations, 0 ≤ block.blockHeight.val) ∧
      Blockchain.reach operations = .ok node.blockchain)
    (readable : ∀ event ∈ events, event.Readable env)
    (finished : foldChecked (peerStep env)
      { run := { node, trace := [] }, requested := [], unknown := [] } events = .ok ledger) :
    (∀ s, s ∈ ledger.run.node.invTimeouts ↔ s ∈ ledger.run.node.queueInv) ∧
    (∀ s queue, ledger.run.node.queueInv.lookup s = some queue → queue ≠ []) ∧
    (ledger.requested.map Prod.fst).Nodup ∧
    (∀ s, s ∈ ledger.requested.map Prod.fst ↔ s ∈ ledger.run.node.invTimeouts) ∧
    (∀ s asked, (s, asked) ∈ ledger.requested →
      ∃ others, ledger.run.node.queueInv.lookup s = some (asked :: others)) ∧
    ledger.requested = ledger.run.trace.flatMap itemsAsked ∧
    (∀ s, (ledger.run.node.queueInv.lookup s).getD [] =
      (ledger.unknown.filter fun entry => entry.1 = s).map Prod.snd) ∧
    (∀ sender scan s, scan.node.blockchain = ledger.run.node.blockchain →
      0 ≤ (decodeInv env s.cStr).1.val → KnownBlock env scan.node s.cStr →
      ∃ scan', invItem env sender scan (.string s) = .ok scan' ∧ scan'.node = scan.node ∧
        scan'.requestBlocks = scan.requestBlocks) ∧
    ∀ ipv4 port now document, ReadableInv env document →
      ∃ ledger', peerStep env ledger (.inv ipv4 port document) = .ok ledger' ∧
        dispatch env ipv4 port now document ledger.run = .ok ledger'.run := by
  have consistent : Consistent ledger :=
    foldChecked_invariant (fun _ ledger => Consistent ledger)
      (consistent_start peer noTimeouts noQueues grown)
      (fun _ event _ _ member holds stepped => holds.step keeps (readable event member) stepped)
      finished
  have tables := consistent.tables
  obtain ⟨log, represented⟩ := consistent.store
  refine ⟨?_, fun s queue => tables.queue_nonempty, ?_, ?_, fun s asked => tables.asked_first,
    consistent.asked, tables.queue_getD, ?_, ?_⟩
  · intro s
    rw [tables.timeout_iff, tables.mem_queueInv]
  · rw [tables.requested_eq]
    exact nodup_map_firstArrivals Prod.fst ledger.unknown
  · intro s
    rw [tables.mem_requested, tables.timeout_iff]
  · intro sender scan s sameChain nonneg known
    rw [← sameChain] at represented
    obtain ⟨sameNode, sameRequests⟩ := afterItem_known sender known
    exact ⟨_, invItem_eq represented sender nonneg, sameNode, sameRequests⟩
  · intro ipv4 port now document readableInv
    obtain ⟨ledger', stepped, _⟩ := consistent.inv keeps readableInv ipv4 port
    refine ⟨ledger', stepped, ?_⟩
    obtain ⟨scan, handled, same⟩ := bind_eq_ok_iff.mp stepped
    cases same
    rw [dispatch_inv env readableInv.1, handled]
    rfl

/-- An `INV` message with these items. -/
def invDocument (items : List Str) : Value :=
  .object
    [("message".toList, .int Messages.inv.code), ("inv".toList, .array (items.map .string))]

theorem invDocument_readable {items : List Str}
    (nonneg : ∀ s ∈ items, 0 ≤ (decodeInv env s.cStr).1.val) :
    ReadableInv env (invDocument items) := by
  refine ⟨rfl, _, rfl, fun element member => ?_⟩
  obtain ⟨s, listed, rfl⟩ := List.mem_map.mp member
  exact ⟨s, rfl, nonneg s listed⟩

/-- A message that repeats an item and names the genesis block. -/
def firstItems : List Str := ["1/5".toList, "1/5".toList, "0/0".toList, "2/7".toList]

/-- Two messages, and between them one of the blocks asked for, as an orphan. -/
def pendingEvents : List PeerEvent :=
  [.inv ⟨1⟩ 8333 (invDocument firstItems),
    .chain (.addOrphan (Blockchain.lineageBlock (CInt.lit 2) (CInt.lit 7) (CInt.lit 5))),
    .inv ⟨2⟩ 8333 (invDocument ["1/5".toList, "2/7".toList])]

theorem inv_tables_consistent_pending :
    ∃ ledger, foldChecked (peerStep (knowing []))
        { run := { node := idle 0 .standardProtocol .committer, trace := [] }
          requested := [], unknown := [] } pendingEvents = .ok ledger ∧
      (∀ s, s ∈ ledger.run.node.invTimeouts ↔ s ∈ ledger.run.node.queueInv) ∧
      (ledger.requested.map Prod.fst).Nodup := by
  have keeps : KeepsTables (knowing []) := fun _ _ _ _ _ => ⟨rfl, rfl, rfl, rfl⟩
  have grown : ∃ operations,
      (∀ block ∈ Blockchain.addedBlocks operations, 0 ≤ block.blockHeight.val) ∧
      Blockchain.reach operations = .ok (idle 0 .standardProtocol .committer).blockchain :=
    ⟨[], by simp [Blockchain.addedBlocks], rfl⟩
  have peer : (idle 0 .standardProtocol .committer).committerType ≠ .client := by decide
  have first : ReadableInv (knowing []) (invDocument firstItems) :=
    invDocument_readable (by decide)
  have last : ReadableInv (knowing []) (invDocument ["1/5".toList, "2/7".toList]) :=
    invDocument_readable (by decide)
  have orphan : PeerEvent.Readable (knowing []) (.chain (.addOrphan
      (Blockchain.lineageBlock (CInt.lit 2) (CInt.lit 7) (CInt.lit 5)))) := by
    simp [PeerEvent.Readable, Blockchain.addedBlocks]
  obtain ⟨ledger₁, step₁, consistent₁, _⟩ :=
    (consistent_start peer rfl rfl grown).inv keeps first ⟨1⟩ 8333
  obtain ⟨ledger₂, step₂⟩ : ∃ ledger₂, peerStep (knowing []) ledger₁ (.chain (.addOrphan
      (Blockchain.lineageBlock (CInt.lit 2) (CInt.lit 7) (CInt.lit 5)))) = .ok ledger₂ := ⟨_, rfl⟩
  have consistent₂ := consistent₁.step keeps orphan step₂
  obtain ⟨ledger₃, step₃, _⟩ := consistent₂.inv keeps last ⟨2⟩ 8333
  have finished : foldChecked (peerStep (knowing []))
      { run := { node := idle 0 .standardProtocol .committer, trace := [] }
        requested := [], unknown := [] } pendingEvents = .ok ledger₃ := by
    rw [pendingEvents, foldChecked, step₁, ok_bind, foldChecked, step₂, ok_bind, foldChecked, step₃,
      ok_bind, foldChecked_nil]
  have readable : ∀ event ∈ pendingEvents, event.Readable (knowing []) := by
    intro event member
    simp only [pendingEvents, List.mem_cons, List.not_mem_nil, or_false] at member
    obtain rfl | rfl | rfl := member
    · exact first
    · exact orphan
    · exact last
  obtain ⟨sameKeys, _, once, _⟩ := inv_tables_consistent (knowing [])
    (idle 0 .standardProtocol .committer) pendingEvents ledger₃ keeps peer rfl rfl grown readable
    finished
  exact ⟨ledger₃, finished, sameKeys, once⟩

end BlockchainNode

end Ns3Blockchain
