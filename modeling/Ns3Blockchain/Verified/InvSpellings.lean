import Ns3Blockchain.Verified.InvTables

/-! # The spellings of a block

`HasBlock` and `isOrphan` know a block by the two numbers its item decodes to, the
request tables by the text itself.  A block is therefore asked for once for each
text it comes under.
-/

namespace Ns3Blockchain

open Library Rapidjson

namespace BlockchainNode

/-- The texts the messages carry, in order. -/
def textsOf (events : List PeerEvent) : List Str :=
  events.flatMap fun
    | .inv _ _ document => (inventory document).map itemText
    | .chain _ => []

/-- The texts that decode to the block. -/
def spellings (env : External) (height minerId : CInt) (texts : List Str) : List Str :=
  texts.filter fun s => decide (decodeInv env s = (height, minerId))

/-- The texts without later repeats. -/
def distinct (texts : List Str) : List Str := firstArrivals (fun s => s) texts

/-- The block is not in the chain or the pool of the node, and
    `ReceivedButNotValidated` is false of all its spellings. -/
structure NeverKnown (env : External) (node : BlockchainNode) (height minerId : CInt) : Prop where
  stored : ∀ block ∈ node.blockchain.stored, ¬ (block.blockHeight = height ∧ block.minerId = minerId)
  orphan : ∀ block ∈ node.blockchain.orphans,
    ¬ (block.blockHeight = height ∧ block.minerId = minerId)
  received : ∀ node' s, decodeInv env s = (height, minerId) →
    env.receivedButNotValidated node' s = false

/-- The invariant of a run of messages: what is unknown of a block never known are
    all its spellings. -/
structure Spelled (env : External) (node : BlockchainNode) (consumed : List PeerEvent)
    (ledger : InvLedger) : Prop where
  consistent : Consistent ledger
  sameChain : ledger.run.node.blockchain = node.blockchain
  unknown_eq : ∀ height minerId, NeverKnown env node height minerId →
    spellings env height minerId (ledger.unknown.map Prod.fst) =
      spellings env height minerId (textsOf consumed)

variable {env : External} {node : BlockchainNode}

theorem spellings_append (env : External) (height minerId : CInt) (texts texts' : List Str) :
    spellings env height minerId (texts ++ texts') =
      spellings env height minerId texts ++ spellings env height minerId texts' :=
  List.filter_append texts texts'

theorem spellings_cons (env : External) (height minerId : CInt) (s : Str) (texts : List Str) :
    spellings env height minerId (s :: texts) =
      spellings env height minerId [s] ++ spellings env height minerId texts :=
  spellings_append env height minerId [s] texts

theorem NeverKnown.not_knownBlock {height minerId : CInt} (never : NeverKnown env node height minerId)
    {node' : BlockchainNode} (sameChain : node'.blockchain = node.blockchain) {s : Str}
    (decoded : decodeInv env s = (height, minerId)) : ¬ KnownBlock env node' s := by
  rw [KnownBlock, decoded, sameChain]
  rintro (⟨block, member, keyed⟩ | ⟨block, member, keyed⟩ | received)
  · exact never.stored block member keyed
  · exact never.orphan block member keyed
  · rw [never.received node' s decoded] at received
    cases received

/-- One message: every spelling of the block in it is met as unknown. -/
theorem spellings_unknownIn {log : List Block} {height minerId : CInt}
    (never : NeverKnown env node height minerId) (sender : Address) {scan : InvScan}
    (sameChain : scan.node.blockchain = node.blockchain)
    (represented : node.blockchain.Represents log) {elements : List Value}
    (readable : ∀ element ∈ elements, ReadableItem env element) :
    spellings env height minerId ((unknownIn env sender scan elements).map Prod.fst) =
      spellings env height minerId (elements.map itemText) := by
  induction elements generalizing scan with
  | nil => rfl
  | cons element elements inductionHypothesis =>
    obtain ⟨s, rfl, nonneg⟩ := readable element List.mem_cons_self
    have pass := invItem_eq (by rw [sameChain]; exact represented) sender nonneg
    obtain ⟨kept, _⟩ := afterItem_frame env sender scan s.cStr
    rw [unknownIn, pass]
    dsimp only
    rw [List.map_append, spellings_append, List.map_cons, spellings_cons,
      inductionHypothesis (kept.trans sameChain) fun other member =>
        readable other (List.mem_cons_of_mem _ member)]
    congr 1
    change spellings env height minerId
        ((if KnownBlock env scan.node s.cStr then [] else [(s.cStr, sender)]).map Prod.fst) =
      spellings env height minerId [s.cStr]
    by_cases decoded : decodeInv env s.cStr = (height, minerId)
    · rw [if_neg (never.not_knownBlock sameChain decoded)]
      rfl
    · -- An item of another block: known or not, it is no spelling of this one.
      split <;> simp [spellings, decoded]

theorem textsOf_append_inv (consumed : List PeerEvent) (ipv4 : Ipv4Address) (port : UInt16)
    (document : Value) :
    textsOf (consumed ++ [.inv ipv4 port document]) =
      textsOf consumed ++ (inventory document).map itemText := by
  simp [textsOf]

theorem Spelled.step (keeps : KeepsTables env) {consumed : List PeerEvent} {ledger : InvLedger}
    (spelled : Spelled env node consumed ledger) {document : Value}
    (readable : ReadableInv env document) (ipv4 : Ipv4Address) (port : UInt16) :
    ∃ ledger', peerStep env ledger (.inv ipv4 port document) = .ok ledger' ∧
      Spelled env node (consumed ++ [.inv ipv4 port document]) ledger' := by
  obtain ⟨log, represented⟩ := spelled.consistent.store
  rw [spelled.sameChain] at represented
  obtain ⟨ledger', stepped, consistent', kept⟩ := spelled.consistent.inv keeps readable ipv4 port
  refine ⟨ledger', stepped, consistent', kept.trans spelled.sameChain, ?_⟩
  intro height minerId never
  obtain ⟨scan, _, same⟩ := bind_eq_ok_iff.mp stepped
  cases same
  have start : (invStart (inventory document).length ledger.run).node.blockchain = node.blockchain :=
    spelled.sameChain
  dsimp only
  rw [List.map_append, spellings_append, spelled.unknown_eq height minerId never,
    spellings_unknownIn never _ start represented readable.items, textsOf_append_inv,
    spellings_append]

/-- A run of messages always finishes. -/
theorem spelled_run (keeps : KeepsTables env) (peer : node.committerType ≠ .client)
    (noTimeouts : node.invTimeouts = ∅) (noQueues : node.queueInv = ∅)
    (grown : ∃ operations,
      (∀ block ∈ Blockchain.addedBlocks operations, 0 ≤ block.blockHeight.val) ∧
      Blockchain.reach operations = .ok node.blockchain)
    {events : List PeerEvent}
    (messages : ∀ event ∈ events, ∃ ipv4 port document,
      event = .inv ipv4 port document ∧ ReadableInv env document) :
    ∃ ledger, foldChecked (peerStep env)
        { run := { node, trace := [] }, requested := [], unknown := [] } events = .ok ledger ∧
      Spelled env node events ledger := by
  apply foldChecked_progress (Spelled env node)
  · exact ⟨consistent_start peer noTimeouts noQueues grown, rfl, fun _ _ _ => rfl⟩
  · intro consumed event ledger sofar spelled
    obtain ⟨ipv4, port, document, rfl, readable⟩ := messages event (sofar.subset (by simp))
    exact spelled.step keeps readable ipv4 port

theorem Tables.spellings_requested {requested unknown : List (Str × Address)}
    (tables : Tables node requested unknown) (height minerId : CInt) :
    spellings env height minerId (requested.map Prod.fst) =
      distinct (spellings env height minerId (unknown.map Prod.fst)) := by
  rw [tables.requested_eq, map_firstArrivals, spellings, spellings]
  exact filter_firstArrivals (fun s => s) (fun s => decide (decodeInv env s = (height, minerId))) _

/-- For every node that is no `CLIENT`, with empty tables, and every run of messages
    alone: of every block the texts asked for are the distinct ones among its unknown
    occurrences, in the order they came; so the block is asked for at most once
    exactly when these are all spelled alike.  Of a block never known no occurrence
    is left out.  Both tables are keyed by the texts. -/
theorem requested_once_per_spelling (env : External) (node : BlockchainNode)
    (events : List PeerEvent) (keeps : KeepsTables env) (peer : node.committerType ≠ .client)
    (noTimeouts : node.invTimeouts = ∅) (noQueues : node.queueInv = ∅)
    (grown : ∃ operations,
      (∀ block ∈ Blockchain.addedBlocks operations, 0 ≤ block.blockHeight.val) ∧
      Blockchain.reach operations = .ok node.blockchain)
    (messages : ∀ event ∈ events, ∃ ipv4 port document,
      event = .inv ipv4 port document ∧ ReadableInv env document) :
    ∃ ledger, foldChecked (peerStep env)
        { run := { node, trace := [] }, requested := [], unknown := [] } events = .ok ledger ∧
      (∀ height minerId, spellings env height minerId (ledger.requested.map Prod.fst) =
        distinct (spellings env height minerId (ledger.unknown.map Prod.fst))) ∧
      (∀ height minerId,
        (spellings env height minerId (ledger.requested.map Prod.fst)).length ≤ 1 ↔
          ∀ s ∈ spellings env height minerId (ledger.unknown.map Prod.fst),
            ∀ t ∈ spellings env height minerId (ledger.unknown.map Prod.fst), s = t) ∧
      (∀ height minerId, NeverKnown env node height minerId →
        spellings env height minerId (ledger.unknown.map Prod.fst) =
          spellings env height minerId (textsOf events)) ∧
      ∀ s, (s ∈ ledger.run.node.invTimeouts ↔ s ∈ ledger.unknown.map Prod.fst) ∧
        (s ∈ ledger.run.node.queueInv ↔ s ∈ ledger.unknown.map Prod.fst) := by
  obtain ⟨ledger, finished, spelled⟩ := spelled_run keeps peer noTimeouts noQueues grown messages
  have tables := spelled.consistent.tables
  refine ⟨ledger, finished, tables.spellings_requested, ?_, spelled.unknown_eq,
    fun s => ⟨tables.timeout_iff s, tables.mem_queueInv s⟩⟩
  intro height minerId
  rw [tables.spellings_requested, distinct, length_firstArrivals_le_one_iff]

/-- An environment in which no block is received but not validated. -/
def nothingReceived : External := { knowing [] with receivedButNotValidated := fun _ _ => false }

/-- One block under two texts. -/
def twoSpellings : List PeerEvent :=
  [.inv ⟨1⟩ 8333 (invDocument ["1/5".toList]), .inv ⟨2⟩ 8333 (invDocument ["01/5".toList])]

theorem twoSpellings_messages : ∀ event ∈ twoSpellings, ∃ ipv4 port document,
    event = .inv ipv4 port document ∧ ReadableInv nothingReceived document := by
  intro event member
  simp only [twoSpellings, List.mem_cons, List.not_mem_nil, or_false] at member
  obtain rfl | rfl := member
  · exact ⟨_, _, _, rfl, invDocument_readable (by decide)⟩
  · exact ⟨_, _, _, rfl, invDocument_readable (by decide)⟩

theorem twoSpellings_neverKnown :
    NeverKnown nothingReceived (idle 0 .standardProtocol .committer) (CInt.lit 1) (CInt.lit 5) :=
  ⟨by decide, by decide, fun _ _ _ => rfl⟩

theorem requested_once_per_spelling_two :
    ∃ ledger, foldChecked (peerStep nothingReceived)
        { run := { node := idle 0 .standardProtocol .committer, trace := [] }
          requested := [], unknown := [] } twoSpellings = .ok ledger ∧
      "01/5".toList ∈ ledger.run.node.invTimeouts := by
  obtain ⟨ledger, finished, _, _, unknown_eq, tables⟩ := requested_once_per_spelling nothingReceived
    (idle 0 .standardProtocol .committer) twoSpellings (fun _ _ _ _ _ => ⟨rfl, rfl, rfl, rfl⟩)
    (by decide) rfl rfl ⟨[], by simp [Blockchain.addedBlocks], rfl⟩ twoSpellings_messages
  refine ⟨ledger, finished, (tables _).1.mpr ?_⟩
  have listed : "01/5".toList ∈ spellings nothingReceived (CInt.lit 1) (CInt.lit 5)
      (ledger.unknown.map Prod.fst) := by
    rw [unknown_eq _ _ twoSpellings_neverKnown]
    decide
  exact (List.mem_filter.mp listed).1

/-- The block is asked for under both texts, though it decodes to one key. -/
theorem block_requested_twice :
    decodeInv nothingReceived "1/5".toList = decodeInv nothingReceived "01/5".toList ∧
    ∃ ledger, foldChecked (peerStep nothingReceived)
        { run := { node := idle 0 .standardProtocol .committer, trace := [] }
          requested := [], unknown := [] } twoSpellings = .ok ledger ∧
      NeverKnown nothingReceived (idle 0 .standardProtocol .committer) (CInt.lit 1) (CInt.lit 5) ∧
      spellings nothingReceived (CInt.lit 1) (CInt.lit 5) (ledger.requested.map Prod.fst) =
        ["1/5".toList, "01/5".toList] := by
  refine ⟨by decide, ?_⟩
  obtain ⟨ledger, finished, spelled⟩ := @spelled_run nothingReceived
    (idle 0 .standardProtocol .committer) (fun _ _ _ _ _ => ⟨rfl, rfl, rfl, rfl⟩) (by decide) rfl rfl
    ⟨[], by simp [Blockchain.addedBlocks], rfl⟩ twoSpellings twoSpellings_messages
  refine ⟨ledger, finished, twoSpellings_neverKnown, ?_⟩
  rw [spelled.consistent.tables.spellings_requested,
    spelled.unknown_eq _ _ twoSpellings_neverKnown]
  decide

end BlockchainNode

end Ns3Blockchain
