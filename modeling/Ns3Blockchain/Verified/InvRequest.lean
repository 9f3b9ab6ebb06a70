import Ns3Blockchain.Library.Entries
import Ns3Blockchain.Verified.InvTables

/-! # The request for an inventory

`case INV` makes the request out of the message it received: the first member `inv`
goes, the last member takes its place, and a member `blocks` is put at the end.  A
peer that sends a second `inv`, or a `blocks` of its own, finds them in the request.
-/

namespace Ns3Blockchain

open Library Library.Entries Rapidjson

namespace BlockchainNode

/-- `SendMessage` leaves the document. -/
def KeepsDocument (env : External) : Prop :=
  ∀ received response document address node,
    (env.sendMessage received response document address node).2 = document

def blocksArray (requestBlocks : List Str) : Value := .array (requestBlocks.map .string)

/-- The members of other names than the two of a request. -/
def otherMembers (members : List (Str × Value)) : List (Str × Value) :=
  members.filter fun entry => entry.1 ≠ "inv".toList ∧ entry.1 ≠ "blocks".toList

/-- The request names the blocks and no inventory, and has the other members as they
    were received, each of them and under each lookup. -/
structure NamesBlocks (received : List (Str × Value)) (requestBlocks : List Str) (sent : Value) :
    Prop where
  blocks : sent.findMember "blocks".toList = some (blocksArray requestBlocks)
  inv : sent.findMember "inv".toList = none
  others : ∃ members, sent = .object members ∧
    (otherMembers members).Perm (otherMembers received)
  lookups : ∀ name, name ≠ "inv".toList → name ≠ "blocks".toList →
    sent.findMember name = (Value.object received).findMember name

/-- `HasBlock`, `isOrphan` or `ReceivedButNotValidated` knows the item's block. -/
def SaysKnown (env : External) (node : BlockchainNode) (item : Str) : Prop :=
  alreadyKnown env node (decodeInv env item).1 (decodeInv env item).2 item = .ok true

instance (env : External) (node : BlockchainNode) (item : Str) :
    Decidable (SaysKnown env node item) :=
  inferInstanceAs (Decidable (_ = _))

/-- The items of an inventory that are neither known nor pending at a node, each where
    it comes first.  From there on it is pending. -/
def missing (env : External) (sender : Address) : BlockchainNode → List Value → List Str
  | _, [] => []
  | node, element :: elements =>
    let item := itemText element
    if SaysKnown env node item then
      missing env sender node elements
    else if item ∈ node.invTimeouts then
      missing env sender (node.pushQueueInv item sender) elements
    else
      let invTimeouts := node.invTimeouts.insert item (env.schedule node item)
      item :: missing env sender ({ node with invTimeouts }.pushQueueInv item sender) elements

/-- `ReceivedButNotValidated` reads neither the tables nor the counters that `case INV`
    writes. -/
def IgnoresTables (env : External) : Prop :=
  ∀ (node : BlockchainNode) s invTimeouts queueInv nodeStats,
    env.receivedButNotValidated { node with invTimeouts, queueInv, nodeStats } s =
      env.receivedButNotValidated node s

/-- What comes before and after the first member `inv`: no second one, no `blocks`
    that a lookup would find but the array of the missing items itself, and no last
    member that would hide an earlier one of its name. -/
structure PlainMembers (before after : List (Str × Value)) (missing : List Str) : Prop where
  oneInv : "inv".toList ∉ after.map Prod.fst
  blocks : ∀ value, firstOf "blocks".toList (before ++ lastToFront after) = some value →
    value = blocksArray missing
  last : ∀ last ∈ after.getLast?, last.1 ≠ "blocks".toList → last.1 ∉ before.map Prod.fst →
    firstOf last.1 after = some last.2

/-- The items the loop asked for are the new keys of `m_invTimeouts`, each once. -/
structure NewlyRequested (run : NodeRun) (scan : InvScan) : Prop where
  nodup : scan.requestBlocks.Nodup
  new_iff : ∀ s, s ∈ scan.requestBlocks ↔
    s ∈ scan.node.invTimeouts ∧ s ∉ run.node.invTimeouts
  kept : ∀ s ∈ run.node.invTimeouts, s ∈ scan.node.invTimeouts

variable {env : External} {before after : List (Str × Value)} {requestBlocks : List Str}

/-! ## The item loop -/

/-- One pass asks for nothing, or for an item that was not pending. -/
theorem invItem_cases {sender : Address} {scan scan' : InvScan} {element : Value}
    (handled : invItem env sender scan element = .ok scan') :
    (scan'.requestBlocks = scan.requestBlocks ∧ scan'.node.invTimeouts = scan.node.invTimeouts) ∨
    ∃ parsedInv, parsedInv ∉ scan.node.invTimeouts ∧
      scan'.requestBlocks = scan.requestBlocks ++ [parsedInv] ∧
      ∀ s, s ∈ scan'.node.invTimeouts ↔ s = parsedInv ∨ s ∈ scan.node.invTimeouts := by
  obtain ⟨chars, _, handled⟩ := bind_eq_ok_iff.mp handled
  obtain ⟨known, _, handled⟩ := bind_eq_ok_iff.mp handled
  cases known with
  | true =>
    cases handled
    exact .inl ⟨rfl, rfl⟩
  | false =>
    cases handled
    by_cases pending : chars.cStr ∈ scan.node.invTimeouts
    · left
      simp only [if_pos pending, true_and]
      rfl
    · right
      simp only [if_neg pending]
      refine ⟨chars.cStr, pending, rfl, fun s => ?_⟩
      change s ∈ scan.node.invTimeouts.insert chars.cStr _ ↔ _
      exact AList.mem_insert _

theorem NewlyRequested.step {run : NodeRun} {scan scan' : InvScan} {sender : Address}
    {element : Value} (newly : NewlyRequested run scan)
    (handled : invItem env sender scan element = .ok scan') : NewlyRequested run scan' := by
  obtain ⟨sameRequests, sameTimeouts⟩ | ⟨parsedInv, fresh, requests, timeouts⟩ :=
    invItem_cases handled
  · constructor
    · rw [sameRequests]
      exact newly.nodup
    · rw [sameRequests, sameTimeouts]
      exact newly.new_iff
    · rw [sameTimeouts]
      exact newly.kept
  · constructor
    · rw [requests, List.nodup_append_comm, List.singleton_append, List.nodup_cons]
      exact ⟨fun member => fresh ((newly.new_iff parsedInv).mp member).1, newly.nodup⟩
    · intro s
      rw [requests, List.mem_append, List.mem_singleton, timeouts, newly.new_iff]
      constructor
      · rintro (⟨there, new⟩ | rfl)
        · exact ⟨.inr there, new⟩
        · exact ⟨.inl rfl, fun old => fresh (newly.kept _ old)⟩
      · rintro ⟨rfl | there, new⟩
        · exact .inr rfl
        · exact .inl ⟨there, new⟩
    · intro s old
      exact (timeouts s).mpr (.inr (newly.kept s old))

theorem newlyRequested_of_loop {run : NodeRun} {scan : InvScan} {sender : Address}
    {items : List Value} (looped : invLoop env sender items run = .ok scan) :
    NewlyRequested run scan := by
  refine foldChecked_invariant (fun _ s => NewlyRequested run s) ?_ ?_ looped
  · refine ⟨List.nodup_nil, fun s => ?_, fun s old => old⟩
    exact iff_of_false List.not_mem_nil fun new => new.2 new.1
  · intro consumed element s s' _ newly handled
    exact newly.step handled

/-! ## What is missing -/

theorem requestBlocks_of_loop {sender : Address} {scan scan' : InvScan} {items : List Value}
    (looped : foldChecked (invItem env sender) scan items = .ok scan') :
    scan'.requestBlocks = scan.requestBlocks ++ missing env sender scan.node items := by
  induction items generalizing scan with
  | nil =>
    cases looped
    exact (List.append_nil _).symm
  | cons element items inductionHypothesis =>
    rw [foldChecked] at looped
    obtain ⟨next, handled, rest⟩ := bind_eq_ok_iff.mp looped
    obtain ⟨chars, isString, handled⟩ := bind_eq_ok_iff.mp handled
    obtain ⟨known, answered, handled⟩ := bind_eq_ok_iff.mp handled
    rw [Value.getString_eq_ok_iff] at isString
    subst isString
    change alreadyKnown env scan.node (decodeInv env chars.cStr).1 (decodeInv env chars.cStr).2
      chars.cStr = .ok known at answered
    -- `alreadyKnown` is asked of the node as the items before have left it, as in `missing`.
    have asked : SaysKnown env scan.node chars.cStr ↔ known = true := by
      rw [SaysKnown, answered, Except.ok.injEq]
    have text : itemText (.string chars) = chars.cStr := rfl
    rw [inductionHypothesis rest, missing]
    dsimp only
    rw [text]
    cases known with
    | true =>
      cases handled
      rw [if_pos (asked.mpr rfl)]
      rfl
    | false =>
      cases handled
      have denied : ¬ SaysKnown env scan.node chars.cStr := by
        rw [asked]
        exact Bool.false_ne_true
      rw [if_neg denied]
      -- An item another peer was asked for only joins that item's queue.
      by_cases pending : chars.cStr ∈ scan.node.invTimeouts
      · simp only [if_pos pending]
      · simp only [if_neg pending]
        exact List.append_assoc _ _ _

theorem IgnoresTables.saysKnown_iff (ignores : IgnoresTables env) (node : BlockchainNode)
    (item : Str) (invTimeouts : AList fun _ : Str => EventId)
    (queueInv : AList fun _ : Str => List Address) (nodeStats : NodeStatistics) :
    SaysKnown env { node with invTimeouts, queueInv, nodeStats } item ↔ SaysKnown env node item := by
  rw [SaysKnown, SaysKnown, alreadyKnown, alreadyKnown, ignores]

/-- Where the loop cannot change what is known, the missing items are those neither
    known nor pending before it. -/
theorem missing_eq_firstArrivals (ignores : IgnoresTables env) (sender : Address)
    (node : BlockchainNode) (items : List Value) :
    missing env sender node items =
      firstArrivals (fun item => item) ((items.map itemText).filter fun item =>
        ¬ SaysKnown env node item ∧ item ∉ node.invTimeouts) := by
  induction items generalizing node with
  | nil => rfl
  | cons element items inductionHypothesis =>
    rw [missing, List.map_cons]
    dsimp only
    by_cases known : SaysKnown env node (itemText element)
    · rw [if_pos known, List.filter_cons_of_neg (by simp [known])]
      exact inductionHypothesis node
    · rw [if_neg known]
      by_cases pending : itemText element ∈ node.invTimeouts
      · -- The peer's address joins the queue, a table `alreadyKnown` does not read.
        rw [if_pos pending, List.filter_cons_of_neg (by simp [pending]), inductionHypothesis]
        congr 1
        apply List.filter_congr
        intro item _
        rw [decide_eq_decide]
        exact and_congr_left' (not_congr (ignores.saysKnown_iff node item _ _ _))
      · -- The later occurrences of a new item are pending.
        rw [if_neg pending, List.filter_cons_of_pos (by simp [known, pending]), firstArrivals,
          filter_firstArrivals (fun item : Str => item) (fun item => decide (item ≠ itemText element)),
          inductionHypothesis, List.filter_filter]
        congr 2
        apply List.filter_congr
        intro item _
        rw [Bool.eq_iff_iff, Bool.and_eq_true]
        simp only [decide_eq_true_eq]
        change ¬ SaysKnown env { node with
            invTimeouts := node.invTimeouts.insert (itemText element) _, queueInv := _ } item ∧
          item ∉ node.invTimeouts.insert (itemText element) _ ↔ _
        rw [ignores.saysKnown_iff node item _ _ node.nodeStats, AList.mem_insert, not_or]
        exact and_left_comm

/-! ## The request -/

/-- The members of the request. -/
def requestMembers (before after : List (Str × Value)) (requestBlocks : List Str) :
    List (Str × Value) :=
  before ++ lastToFront after ++ [("blocks".toList, blocksArray requestBlocks)]

theorem removeAt_eq (members : List (Str × Value)) (m : Nat) :
    Value.removeAt members m = removeAt members m := by
  rw [Value.removeAt, removeAt]
  cases members.getLast? <;> rfl

theorem removeMember_split (first : "inv".toList ∉ before.map Prod.fst) (items : Value) :
    (Value.object (before ++ ("inv".toList, items) :: after)).removeMember "inv".toList =
      .ok (.object (before ++ lastToFront after)) := by
  rw [Value.removeMember]
  simp only [findIdx?_split first, removeAt_eq, removeAt_split]

theorem requestFrom_sends (keeps : KeepsDocument env) (first : "inv".toList ∉ before.map Prod.fst)
    (items : Value) (sender : Address) {scan : InvScan} (requested : scan.requestBlocks ≠ []) :
    ∃ scan', requestFrom env sender (.object (before ++ ("inv".toList, items) :: after)) scan =
        .ok scan' ∧
      scan'.trace = scan.trace ++
        [.sendMessage .inv .getHeaders
          (.object (requestMembers before after scan.requestBlocks)) sender,
        .sendMessage .inv .getData
          (.object (requestMembers before after scan.requestBlocks)) sender] := by
  have some : ¬ scan.requestBlocks.isEmpty = true := by simpa using requested
  rw [requestFrom, if_neg some, removeMember_split first, ok_bind, Value.addMember, ok_bind]
  refine ⟨_, rfl, ?_⟩
  -- The second call gets the document the first was given.
  have same := keeps .inv .getHeaders (.object (requestMembers before after scan.requestBlocks))
    sender scan.node
  change (scan.trace ++ [_]) ++ [Effect.sendMessage .inv .getData
    (env.sendMessage .inv .getHeaders (.object (requestMembers before after scan.requestBlocks))
      sender scan.node).2 sender] = _
  rw [same, List.append_assoc]
  rfl

theorem findMember_request (name : Str) :
    (Value.object (requestMembers before after requestBlocks)).findMember name =
      (firstOf name (before ++ lastToFront after)).or
        (if "blocks".toList == name then some (blocksArray requestBlocks) else none) := by
  have appended := firstOf_append name (before ++ lastToFront after)
    [("blocks".toList, blocksArray requestBlocks)]
  rw [firstOf_singleton] at appended
  exact appended

theorem findMember_request_of_ne {name : Str} (notBlocks : name ≠ "blocks".toList) :
    (Value.object (requestMembers before after requestBlocks)).findMember name =
      firstOf name (before ++ lastToFront after) := by
  rw [findMember_request, if_neg (by simpa using Ne.symm notBlocks), Option.or_none]

theorem findMember_received_of_ne {name : Str} (notInv : name ≠ "inv".toList) (items : Value) :
    (Value.object (before ++ ("inv".toList, items) :: after)).findMember name =
      firstOf name (before ++ after) := by
  have split := firstOf_append name before (("inv".toList, items) :: after)
  rw [firstOf_cons, if_neg (by simpa using Ne.symm notInv), Option.none_or, ← firstOf_append] at split
  exact split

theorem blocks_request_iff :
    (Value.object (requestMembers before after requestBlocks)).findMember "blocks".toList =
        some (blocksArray requestBlocks) ↔
      ∀ value, firstOf "blocks".toList (before ++ lastToFront after) = some value →
        value = blocksArray requestBlocks := by
  rw [findMember_request]
  cases firstOf "blocks".toList (before ++ lastToFront after) with
  | none => simp
  | some value => simp

theorem inv_request_iff (first : "inv".toList ∉ before.map Prod.fst) :
    (Value.object (requestMembers before after requestBlocks)).findMember "inv".toList = none ↔
      "inv".toList ∉ after.map Prod.fst := by
  have moved : "inv".toList ∈ (lastToFront after).map Prod.fst ↔ "inv".toList ∈ after.map Prod.fst :=
    ((lastToFront_perm after).map Prod.fst).mem_iff
  rw [findMember_request_of_ne (by decide), firstOf_eq_none_iff, List.map_append, List.mem_append,
    moved, not_or, and_iff_right first]

theorem others_request (items : Value) :
    (otherMembers (requestMembers before after requestBlocks)).Perm
      (otherMembers (before ++ ("inv".toList, items) :: after)) := by
  have neither : otherMembers [("blocks".toList, blocksArray requestBlocks)] = [] := rfl
  have gone : otherMembers (("inv".toList, items) :: after) = otherMembers after := rfl
  rw [otherMembers] at neither gone
  rw [otherMembers, otherMembers, requestMembers, List.filter_append, List.filter_append, neither,
    List.append_nil, List.filter_append, gone]
  exact ((lastToFront_perm after).filter _).append_left _

/-- Only the name of the last member can be found elsewhere than before. -/
theorem lookups_request_iff (items : Value) (oneInv : "inv".toList ∉ after.map Prod.fst) :
    (∀ name, name ≠ "inv".toList → name ≠ "blocks".toList →
      (Value.object (requestMembers before after requestBlocks)).findMember name =
        (Value.object (before ++ ("inv".toList, items) :: after)).findMember name) ↔
      ∀ last ∈ after.getLast?, last.1 ≠ "blocks".toList → last.1 ∉ before.map Prod.fst →
        firstOf last.1 after = some last.2 := by
  constructor
  · intro same last isLast notBlocks fresh
    have notInv : last.1 ≠ "inv".toList := by
      intro isInv
      rw [← isInv] at oneInv
      exact oneInv (List.mem_map_of_mem (List.mem_of_getLast? isLast))
    have found := same last.1 notInv notBlocks
    rw [findMember_request_of_ne notBlocks, findMember_received_of_ne notInv,
      firstOf_lastToFront_iff] at found
    exact found last isLast rfl fresh
  · intro plain name notInv notBlocks
    rw [findMember_request_of_ne notBlocks, findMember_received_of_ne notInv,
      firstOf_lastToFront_iff]
    rintro last isLast rfl fresh
    exact plain last isLast notBlocks fresh

theorem namesBlocks_iff (first : "inv".toList ∉ before.map Prod.fst) (items : Value) :
    NamesBlocks (before ++ ("inv".toList, items) :: after) requestBlocks
        (.object (requestMembers before after requestBlocks)) ↔
      PlainMembers before after requestBlocks := by
  constructor
  · intro names
    have oneInv := (inv_request_iff first).mp names.inv
    exact ⟨oneInv, blocks_request_iff.mp names.blocks,
      (lookups_request_iff items oneInv).mp names.lookups⟩
  · intro plain
    exact ⟨blocks_request_iff.mpr plain.blocks, (inv_request_iff first).mpr plain.oneInv,
      ⟨_, rfl, others_request items⟩, (lookups_request_iff items plain.oneInv).mpr plain.last⟩

/-! ## Main result -/

theorem findMember_inv (first : "inv".toList ∉ before.map Prod.fst) (items : Value) :
    (Value.object (before ++ ("inv".toList, items) :: after)).findMember "inv".toList =
      some items := by
  have split := firstOf_append "inv".toList before (("inv".toList, items) :: after)
  rw [firstOf_eq_none_iff.mpr first, Option.none_or, firstOf_cons, if_pos (beq_self_eq_true _),
    Option.some_or] at split
  exact split

/-- For every node that is no `CLIENT` and every `INV` message with an array for its
    first member `inv`, whatever its other members, that makes the item loop ask for
    blocks: these are the new keys of `m_invTimeouts` and the missing items of the
    message, one document goes into both requests, and it names them and keeps the
    other members exactly when those are plain. -/
theorem request_names_blocks_iff (env : External) (keeps : KeepsDocument env) (ipv4 : Ipv4Address)
    (port : UInt16) (now : ℚ) (run : NodeRun) (peer : run.node.committerType ≠ .client)
    (before after : List (Str × Value)) (items : List Value)
    (first : "inv".toList ∉ before.map Prod.fst)
    (message : (Value.object (before ++ ("inv".toList, .array items) :: after)).findMember
      "message".toList = some (.int Messages.inv.code))
    (scan : InvScan) (looped : invLoop env (.inetSocket ipv4 port) items run = .ok scan)
    (requested : scan.requestBlocks ≠ []) :
    NewlyRequested run scan ∧
    scan.requestBlocks =
      missing env (.inetSocket ipv4 port) (run.node.addInvReceivedBytes items.length) items ∧
    (IgnoresTables env → scan.requestBlocks =
      firstArrivals (fun item => item) ((items.map itemText).filter fun item =>
        ¬ SaysKnown env run.node item ∧ item ∉ run.node.invTimeouts)) ∧
    ∃ finished sent,
      dispatch env ipv4 port now (.object (before ++ ("inv".toList, .array items) :: after)) run =
        .ok finished ∧
      finished.trace = scan.trace ++
        [.sendMessage .inv .getHeaders sent (.inetSocket ipv4 port),
        .sendMessage .inv .getData sent (.inetSocket ipv4 port)] ∧
      (NamesBlocks (before ++ ("inv".toList, .array items) :: after) scan.requestBlocks sent ↔
        PlainMembers before after
          (missing env (.inetSocket ipv4 port) (run.node.addInvReceivedBytes items.length) items)) := by
  have asked : scan.requestBlocks =
      missing env (.inetSocket ipv4 port) (run.node.addInvReceivedBytes items.length) items :=
    requestBlocks_of_loop looped
  refine ⟨newlyRequested_of_loop looped, asked, ?_, ?_⟩
  · intro ignores
    rw [asked, missing_eq_firstArrivals ignores]
    congr 1
    apply List.filter_congr
    intro item _
    rw [decide_eq_decide]
    exact and_congr_left' (not_congr (ignores.saysKnown_iff run.node item _ _ _))
  · rw [← asked]
    have there := @findMember_inv before after first (.array items)
    obtain ⟨scan', requests, trace⟩ := @requestFrom_sends env before after keeps first (.array items)
      (.inetSocket ipv4 port) scan requested
    have listed : inventory (.object (before ++ ("inv".toList, .array items) :: after)) = items := by
      rw [inventory, there]
      rfl
    refine ⟨scan'.toNodeRun, _, ?_, trace, namesBlocks_iff first (.array items)⟩
    rw [invLoop] at looped
    rw [dispatch_inv env message, caseInv_eq there _ peer, listed, looped, ok_bind, requests, ok_bind]

/-- A message of two items, one of them for the genesis block, with a member on each
    side of its inventory. -/
theorem request_names_blocks_iff_plain :
    ∃ finished sent,
      dispatch (knowing []) ⟨1⟩ 8333 0
          (.object ([("message".toList, .int Messages.inv.code)] ++
            ("inv".toList, .array [.string "1/5".toList, .string "0/0".toList]) ::
              [("type".toList, .string "blocks".toList)]))
          { node := idle 0 .standardProtocol .committer, trace := [] } = .ok finished ∧
        NamesBlocks
          ([("message".toList, .int Messages.inv.code)] ++
            ("inv".toList, .array [.string "1/5".toList, .string "0/0".toList]) ::
              [("type".toList, .string "blocks".toList)])
          ["1/5".toList] sent := by
  obtain ⟨_, _, _, finished, sent, dispatched, _, names⟩ := request_names_blocks_iff (knowing [])
    (fun _ _ _ _ _ => rfl) ⟨1⟩ 8333 0
    { node := idle 0 .standardProtocol .committer, trace := [] } (by decide)
    [("message".toList, .int Messages.inv.code)] [("type".toList, .string "blocks".toList)]
    [.string "1/5".toList, .string "0/0".toList] (by decide) rfl _ rfl (by decide)
  refine ⟨finished, sent, dispatched, names.mpr ⟨by decide, ?_, ?_⟩⟩
  · intro value found
    cases found
  · rintro last isLast _ _
    cases isLast
    rfl

/-- The members of a message that brings a `blocks` of its own. -/
def staleBlocks : List (Str × Value) :=
  [("message".toList, .int Messages.inv.code), ("blocks".toList, .null),
    ("inv".toList, .array [.string "1/5".toList])]

def twoInventories : List (Str × Value) :=
  [("message".toList, .int Messages.inv.code), ("inv".toList, .array [.string "1/5".toList]),
    ("inv".toList, .null)]

/-- A lookup in the request finds what the peer sent. -/
theorem request_keeps_stale_members :
    (∃ finished sent, dispatch (knowing []) ⟨1⟩ 8333 0 (.object staleBlocks)
        { node := idle 0 .standardProtocol .committer, trace := [] } = .ok finished ∧
      .sendMessage .inv .getData sent (.inetSocket ⟨1⟩ 8333) ∈ finished.trace ∧
      sent.findMember "blocks".toList = some .null ∧
      ¬ NamesBlocks staleBlocks ["1/5".toList] sent) ∧
    ∃ finished sent, dispatch (knowing []) ⟨1⟩ 8333 0 (.object twoInventories)
        { node := idle 0 .standardProtocol .committer, trace := [] } = .ok finished ∧
      .sendMessage .inv .getData sent (.inetSocket ⟨1⟩ 8333) ∈ finished.trace ∧
      sent.findMember "inv".toList = some .null ∧
      ¬ NamesBlocks twoInventories ["1/5".toList] sent := by
  constructor
  · refine ⟨_, _, rfl, List.mem_of_getLast? rfl, rfl, ?_⟩
    intro names
    cases names.blocks
  · refine ⟨_, _, rfl, List.mem_of_getLast? rfl, rfl, ?_⟩
    intro names
    cases names.inv

end BlockchainNode

end Ns3Blockchain
