import Ns3Blockchain.Verified.FrameLoop

/-! # The advertisement of a block

`AdvertiseNewBlock` writes a block's key twice delimited: `/` inside the
inventory item, `#` after the frame.  Neither occurs in decimal text, so the
frame and the key come out of `HandleRead` as they went in.
-/

namespace Ns3Blockchain

open Library Library.Framing Rapidjson

namespace BlockchainNode

variable {env : External}

/-! ## The inventory item -/

theorem mem_blockHash {block : Block} {c : Char} (member : c ∈ blockHash block) :
    c = '-' ∨ c = '/' ∨ c.isDigit = true := by
  rw [blockHash, List.mem_append, List.mem_cons] at member
  obtain height | slash | minerId := member
  · cases Decimal.mem_print height with
    | inl sign => exact .inl sign
    | inr digit => exact .inr (.inr digit)
  · exact .inr (.inl slash)
  · cases Decimal.mem_print minerId with
    | inl sign => exact .inl sign
    | inr digit => exact .inr (.inr digit)

theorem not_mem_blockHash {block : Block} {c : Char} (noSign : c ≠ '-') (noSlash : c ≠ '/')
    (noDigit : c.isDigit = false) : c ∉ blockHash block := by
  intro member
  obtain sign | slash | digit := mem_blockHash member
  · exact noSign sign
  · exact noSlash slash
  · rw [noDigit] at digit
    cases digit

theorem atoi_print (z : CInt) : atoi env (Decimal.print z.val) = z := by
  have nulFree : nul ∉ Decimal.print z.val := Decimal.not_mem_print (by decide) (by decide)
  rw [atoi, Str.cStr_of_nulFree nulFree, Decimal.read_print, BoundedInt.ofInt?_val]

theorem decodeInv_blockHash (block : Block) :
    decodeInv env (blockHash block) = (block.blockHeight, block.minerId) := by
  have noSlash : '/' ∉ Decimal.print block.getBlockHeight.val :=
    Decimal.not_mem_print (by decide) (by decide)
  have front : (blockHash block).take (Decimal.print block.getBlockHeight.val).length =
      Decimal.print block.getBlockHeight.val := List.take_left
  have back : (blockHash block).drop ((Decimal.print block.getBlockHeight.val).length + 1) =
      Decimal.print block.getMinerId.val := by simp [blockHash]
  have found : Str.find (blockHash block) '/' =
      some (Decimal.print block.getBlockHeight.val).length :=
    Str.find_frame (Decimal.print block.getMinerId.val) noSlash
  rw [decodeInv, found]
  dsimp only
  rw [front, back, atoi_print, atoi_print]
  rfl

/-! ## The frame -/

theorem escape_blockHash {block : Block} {c : Char} (member : c ∈ blockHash block) :
    escape c = [c] := by
  have printable : 32 ≤ c.toNat ∧ c ≠ '"' ∧ c ≠ '\\' := by
    obtain rfl | rfl | digit := mem_blockHash member
    · decide
    · decide
    · have bounds : 48 ≤ c.toNat ∧ c.toNat ≤ 57 := by
        simpa [Char.isDigit, UInt32.le_iff_toNat_le] using digit
      refine ⟨by omega, ?_, ?_⟩
      · rintro rfl
        exact absurd bounds.1 (by decide)
      · rintro rfl
        exact absurd bounds.2 (by decide)
  rw [escape, if_neg (by omega), if_neg (by simp [printable])]

theorem writeString_blockHash (block : Block) :
    writeString (blockHash block) = '"' :: blockHash block ++ ['"'] := by
  have plain : (blockHash block).flatMap escape = blockHash block := by
    rw [List.flatMap_congr fun c member => escape_blockHash member]
    simp
  rw [writeString, plain]

/-- The text of an advertisement up to its item. -/
def textBefore : Str := "\x7b\"type\":\"blocks\",\"message\":0,\"inv\":[\"".toList

def textAfter : Str := "\"]\x7d".toList

theorem write_advertisement (dtoa : ℚ → Str) (block : Block) :
    write dtoa (advertisement .standardProtocol block) =
      textBefore ++ (blockHash block ++ textAfter) := by
  simp only [advertisement, write, writeMembers, writeElements, writeString_blockHash,
    List.append_assoc, List.cons_append, List.nil_append]
  rfl

theorem not_mem_write_advertisement (dtoa : ℚ → Str) (block : Block) {c : Char} (noSign : c ≠ '-')
    (noSlash : c ≠ '/') (noDigit : c.isDigit = false) (noBefore : c ∉ textBefore)
    (noAfter : c ∉ textAfter) : c ∉ write dtoa (advertisement .standardProtocol block) := by
  rw [write_advertisement, List.mem_append, List.mem_append, not_or, not_or]
  exact ⟨noBefore, not_mem_blockHash noSign noSlash noDigit, noAfter⟩

/-! ## The peer loop -/

/-- What one pass of the peer loop sends. -/
def sentTo (newBlock : Block) (packetInfo : Str) (peer : Ipv4Address) : List Effect :=
  if peer ≠ newBlock.getReceivedFromIpv4 then [.send peer packetInfo, .send peer ['#']] else []

/-- The bytes sent to a peer. -/
def bytesTo (peer : Ipv4Address) (trace : List Effect) : Str :=
  trace.flatMap fun
    | .send receiver data => if receiver = peer then data else []
    | _ => []

/-- The sockets `StartApplication` made. -/
def Connected (node : BlockchainNode) (peer : Ipv4Address) : Prop :=
  ∃ socket, node.peersSockets.lookup peer = some (some socket)

theorem sendTo_eq_ok_iff {peer : Ipv4Address} {data : Str} {run run' : NodeRun} :
    sendTo peer data run = .ok run' ↔ run.node.Connected peer ∧ run' = run.emit (.send peer data) := by
  unfold sendTo Connected
  split
  next socket found => simp [found, eq_comm]
  next missing =>
    constructor
    · intro absurdity
      cases absurdity
    · intro ⟨⟨socket, found⟩, _⟩
      exact absurd found (missing socket)

/-- The byte counter after one pass of the peer loop. -/
def bookSent (protocolType : ProtocolType) (newBlock : Block) (peer : Ipv4Address)
    (node : BlockchainNode) : BlockchainNode :=
  if peer ≠ newBlock.getReceivedFromIpv4 ∧ protocolType = .standardProtocol then
    { node with
      nodeStats :=
        { node.nodeStats with invSentBytes := node.nodeStats.invSentBytes + messageBytes 1 } }
  else node

@[simp] theorem bookSent_protocolType (protocolType : ProtocolType) (newBlock : Block)
    (peer : Ipv4Address) (node : BlockchainNode) :
    (bookSent protocolType newBlock peer node).protocolType = node.protocolType := by
  unfold bookSent
  split <;> rfl

@[simp] theorem bookSent_peersSockets (protocolType : ProtocolType) (newBlock : Block)
    (peer : Ipv4Address) (node : BlockchainNode) :
    (bookSent protocolType newBlock peer node).peersSockets = node.peersSockets := by
  unfold bookSent
  split <;> rfl

/-- What one pass of the peer loop comes to. -/
def afterPeer (protocolType : ProtocolType) (newBlock : Block) (packetInfo : Str) (run : NodeRun)
    (peer : Ipv4Address) : NodeRun where
  node := bookSent protocolType newBlock peer run.node
  trace := run.trace ++ sentTo newBlock packetInfo peer

theorem advertiseTo_eq {protocolType : ProtocolType} {newBlock : Block} {packetInfo : Str}
    {run : NodeRun} {peer : Ipv4Address} (protocol : run.node.protocolType = protocolType)
    (connected : peer ≠ newBlock.getReceivedFromIpv4 → run.node.Connected peer) :
    advertiseTo newBlock (advertisement protocolType newBlock) packetInfo run peer =
      .ok (afterPeer protocolType newBlock packetInfo run peer) := by
  unfold advertiseTo
  split
  next other =>
    have reachable := connected other
    have first : sendTo peer packetInfo run = .ok (run.emit (.send peer packetInfo)) :=
      sendTo_eq_ok_iff.mpr ⟨reachable, rfl⟩
    have second : sendTo peer ['#'] (run.emit (.send peer packetInfo)) =
        .ok ((run.emit (.send peer packetInfo)).emit (.send peer ['#'])) :=
      sendTo_eq_ok_iff.mpr ⟨reachable, rfl⟩
    rw [first, ok_bind, second, ok_bind]
    -- Only the standard protocol has an inventory to count.
    cases protocolType with
    | standardProtocol =>
      have inv : (advertisement .standardProtocol newBlock).member "inv".toList =
          .ok (.array [.string (blockHash newBlock)]) := rfl
      simp only [NodeRun.emit, protocol]
      rw [inv, ok_bind, Value.elements_array, ok_bind]
      simp [afterPeer, bookSent, sentTo, other, protocol]
    | sendHeaders =>
      simp only [NodeRun.emit, protocol]
      simp [afterPeer, bookSent, sentTo, other]
  next source =>
    rw [not_not] at source
    simp [afterPeer, bookSent, sentTo, source]

theorem advertiseTo_eq_ok_iff {protocolType : ProtocolType} {newBlock : Block} {packetInfo : Str}
    {run run' : NodeRun} {peer : Ipv4Address} (protocol : run.node.protocolType = protocolType) :
    advertiseTo newBlock (advertisement protocolType newBlock) packetInfo run peer = .ok run' ↔
      (peer ≠ newBlock.getReceivedFromIpv4 → run.node.Connected peer) ∧
        run' = afterPeer protocolType newBlock packetInfo run peer := by
  constructor
  · intro pass
    have connected : peer ≠ newBlock.getReceivedFromIpv4 → run.node.Connected peer := by
      intro other
      rw [advertiseTo, if_pos other] at pass
      obtain ⟨_, sent, _⟩ := bind_eq_ok_iff.mp pass
      exact (sendTo_eq_ok_iff.mp sent).1
    rw [advertiseTo_eq protocol connected, Except.ok.injEq] at pass
    exact ⟨connected, pass.symm⟩
  · rintro ⟨connected, rfl⟩
    exact advertiseTo_eq protocol connected

theorem advertiseNewBlock_ok {node : BlockchainNode} {newBlock : Block} {run : NodeRun}
    (advertised : advertiseNewBlock env newBlock node = .ok run) :
    run.trace = node.peersAddresses.flatMap
      (sentTo newBlock (write env.dtoa (advertisement node.protocolType newBlock))) := by
  have loop := foldChecked_invariant
    (fun consumed run => run.trace = consumed.flatMap
        (sentTo newBlock (write env.dtoa (advertisement node.protocolType newBlock))) ∧
      run.node.protocolType = node.protocolType)
    ⟨rfl, rfl⟩ ?_ advertised
  · exact loop.1
  · intro consumed peer s s' _ ⟨traced, protocol⟩ pass
    obtain ⟨_, rfl⟩ := (advertiseTo_eq_ok_iff protocol).mp pass
    refine ⟨?_, (bookSent_protocolType _ _ _ _).trans protocol⟩
    rw [afterPeer, traced, List.flatMap_append, List.flatMap_singleton]

theorem advertiseNewBlock_succeeds {node : BlockchainNode} {newBlock : Block}
    (connected : ∀ peer ∈ node.peersAddresses, peer ≠ newBlock.getReceivedFromIpv4 →
      node.Connected peer) :
    ∃ run, advertiseNewBlock env newBlock node = .ok run := by
  have progress : ∃ run, advertiseNewBlock env newBlock node = .ok run ∧
      run.node.protocolType = node.protocolType ∧ run.node.peersSockets = node.peersSockets := by
    refine foldChecked_progress (fun _ (run : NodeRun) => run.node.protocolType = node.protocolType ∧
      run.node.peersSockets = node.peersSockets) ⟨rfl, rfl⟩ ?_
    intro consumed peer s ⟨rest, whole⟩ ⟨protocol, sockets⟩
    have listed : peer ∈ node.peersAddresses := by simp [← whole]
    have reachable : peer ≠ newBlock.getReceivedFromIpv4 → s.node.Connected peer := by
      intro other
      obtain ⟨socket, found⟩ := connected peer listed other
      exact ⟨socket, by rw [sockets, found]⟩
    exact ⟨_, advertiseTo_eq protocol reachable, (bookSent_protocolType _ _ _ _).trans protocol,
      (bookSent_peersSockets _ _ _ _).trans sockets⟩
  obtain ⟨run, finished, _⟩ := progress
  exact ⟨run, finished⟩

/-- Every listed peer but the block's source gets the packet and its delimiter,
    once for each time it is listed. -/
theorem bytesTo_sentTo (newBlock : Block) (packetInfo : Str) (peers : List Ipv4Address)
    (peer : Ipv4Address) :
    bytesTo peer (peers.flatMap (sentTo newBlock packetInfo)) =
      (List.replicate (if peer = newBlock.getReceivedFromIpv4 then 0 else peers.count peer)
        (packetInfo ++ ['#'])).flatten := by
  induction peers with
  | nil => simp [bytesTo]
  | cons head peers inductionHypothesis =>
    rw [bytesTo] at inductionHypothesis ⊢
    rw [List.flatMap_cons, List.flatMap_append, inductionHypothesis]
    by_cases source : head = newBlock.getReceivedFromIpv4
    · rw [sentTo, if_neg (not_not.mpr source), List.flatMap_nil, List.nil_append]
      by_cases own : peer = newBlock.getReceivedFromIpv4
      · rw [if_pos own, if_pos own]
      · rw [if_neg own, if_neg own,
          List.count_cons_of_ne fun same => own (same.symm.trans source)]
    · by_cases own : head = peer
      · subst own
        simp [sentTo, source, List.replicate_succ]
      · simp [sentTo, source, own]

/-! ## Main result -/

/-- What `HandleRead` makes of the advertisement's text: an object that selects
    `case INV`, with one item. -/
structure ReadsAsInv (env : External) (text item : Str) (document : Value) : Prop where
  object : frameDocument env text = some document
  message : (document.member "message".toList >>= Value.getInt) = .ok (CInt.lit 0)
  selected : ∀ ipv4 port now run, dispatch env ipv4 port now document run =
    caseInv env (.inetSocket ipv4 port) document run >>= fun scan => .ok scan.toNodeRun
  items : (document.member "inv".toList >>= Value.elements) = .ok [.string item]

theorem readsAsInv_advertisement {newBlock : Block}
    (parse_write : env.parse (write env.dtoa (advertisement .standardProtocol newBlock)) =
      some (advertisement .standardProtocol newBlock)) :
    ReadsAsInv env (write env.dtoa (advertisement .standardProtocol newBlock))
      (blockHash newBlock) (advertisement .standardProtocol newBlock) where
  object := by
    have nulFree : nul ∉ write env.dtoa (advertisement .standardProtocol newBlock) :=
      not_mem_write_advertisement env.dtoa newBlock (by decide) (by decide) (by decide) (by decide)
        (by decide)
    rw [frameDocument, Str.cStr_of_nulFree nulFree, parse_write]
    rfl
  message := rfl
  selected := fun _ _ _ _ => rfl
  items := rfl

/-- The item loop looks for the block of this key: it logs the key of one it has, and
    files the sender under the item, which it asks for unless it is pending, where it
    has none. -/
structure LooksFor (env : External) (item : Str) (height minerId : CInt) : Prop where
  has : ∀ sender scan, alreadyKnown env scan.node height minerId item = .ok true →
    invItem env sender scan (.string item) =
      .ok { scan with toNodeRun := scan.emit (.alreadyReceived height minerId) }
  lacks : ∀ sender scan, alreadyKnown env scan.node height minerId item = .ok false →
    ∃ scan', invItem env sender scan (.string item) = .ok scan' ∧
      scan'.node.queueInv.lookup item =
        some ((scan.node.queueInv.lookup item).getD [] ++ [sender]) ∧
      scan'.requestBlocks =
        if item ∈ scan.node.invTimeouts then scan.requestBlocks else scan.requestBlocks ++ [item]
  stops : ∀ sender scan fault, alreadyKnown env scan.node height minerId item = .error fault →
    invItem env sender scan (.string item) = .error fault

theorem looksFor_of_decodeInv {item : Str} (nulFree : nul ∉ item) {height minerId : CInt}
    (decoded : decodeInv env item = (height, minerId)) : LooksFor env item height minerId := by
  have pass : ∀ sender scan, invItem env sender scan (.string item) =
      alreadyKnown env scan.node height minerId item >>= fun known =>
        if known then
          .ok { scan with toNodeRun := scan.emit (.alreadyReceived height minerId) }
        else
          let scan := if item ∈ scan.node.invTimeouts then scan else requestBlock env item scan
          .ok { scan with node := scan.node.pushQueueInv item sender } := by
    intro sender scan
    have isString : (Value.string item).getString = .ok item := rfl
    rw [invItem, isString, ok_bind, Str.cStr_of_nulFree nulFree]
    dsimp only
    rw [decoded]
    rfl
  constructor
  · intro sender scan known
    rw [pass, known, ok_bind, if_pos rfl]
  · intro sender scan unknown
    refine ⟨_, by rw [pass, unknown, ok_bind, if_neg Bool.false_ne_true], ?_, ?_⟩
    · -- A request sets a timer and leaves the queues.
      have sameQueues : (if item ∈ scan.node.invTimeouts then scan
          else requestBlock env item scan).node.queueInv = scan.node.queueInv := by
        split <;> rfl
      rw [pushQueueInv, AList.lookup_insert, sameQueues]
    · dsimp only
      split <;> rfl
  · intro sender scan fault stopped
    rw [pass, stopped, error_bind]

/-- For every block and every node of the standard protocol: each peer gets, once
    for each time it is listed, one frame, whose only `#` is its last character
    and which `HandleRead` reads back as an `INV` message for the block's height
    and miner id, the key under which its item loop looks for the block.  `Parse` is
    taken to invert `Writer` on the document sent. -/
theorem advertised_block_round_trips (env : External) (node : BlockchainNode) (newBlock : Block)
    (standard : node.protocolType = .standardProtocol)
    (parse_write : env.parse (write env.dtoa (advertisement .standardProtocol newBlock)) =
      some (advertisement .standardProtocol newBlock)) :
    ∃ text item document,
      (∀ run, advertiseNewBlock env newBlock node = .ok run → ∀ peer,
        bytesTo peer run.trace =
          (List.replicate (if peer = newBlock.getReceivedFromIpv4 then 0
            else node.peersAddresses.count peer) (text ++ ['#'])).flatten) ∧
      ((∀ peer ∈ node.peersAddresses, peer ≠ newBlock.getReceivedFromIpv4 → node.Connected peer) →
        ∃ run, advertiseNewBlock env newBlock node = .ok run) ∧
      '#' ∉ text ∧ frames '#' (text ++ ['#']) = [text] ∧ residue '#' (text ++ ['#']) = [] ∧
      ReadsAsInv env text item document ∧
      decodeInv env item.cStr = (newBlock.blockHeight, newBlock.minerId) ∧
      LooksFor env item newBlock.blockHeight newBlock.minerId ∧
      ∀ other, blockHash other = item →
        other.blockHeight = newBlock.blockHeight ∧ other.minerId = newBlock.minerId := by
  have hashFree : '#' ∉ write env.dtoa (advertisement .standardProtocol newBlock) :=
    not_mem_write_advertisement env.dtoa newBlock (by decide) (by decide) (by decide) (by decide)
      (by decide)
  have nulFree : nul ∉ blockHash newBlock :=
    not_mem_blockHash (by decide) (by decide) (by decide)
  refine ⟨write env.dtoa (advertisement .standardProtocol newBlock), blockHash newBlock,
    advertisement .standardProtocol newBlock, ?_, advertiseNewBlock_succeeds, hashFree, ?_, ?_,
    readsAsInv_advertisement parse_write, ?_,
    looksFor_of_decodeInv nulFree (decodeInv_blockHash newBlock), ?_⟩
  · intro run advertised peer
    rw [advertiseNewBlock_ok advertised, bytesTo_sentTo, standard]
  · rw [frames_frame [] hashFree, frames_nil]
  · rw [residue_frame [] hashFree, residue_nil]
  · rw [Str.cStr_of_nulFree nulFree, decodeInv_blockHash]
  · intro other same
    have decoded : decodeInv env (blockHash other) = decodeInv env (blockHash newBlock) := by
      rw [same]
    rw [decodeInv_blockHash, decodeInv_blockHash, Prod.mk.injEq] at decoded
    exact decoded

/-- A block with both extremes of `int`. -/
def extremeBlock : Block :=
  Block.new (CInt.lit (-2147483648)) (CInt.lit 2147483647) (CInt.lit 0) (CInt.lit 0) (CInt.lit 0)
    0 0 ⟨3⟩

/-- An environment that parses the text sent for `extremeBlock`. -/
def extremeParser : External :=
  knowing [(write (fun _ => []) (advertisement .standardProtocol extremeBlock),
    advertisement .standardProtocol extremeBlock)]

theorem advertised_block_round_trips_extreme :
    ∃ text item document, frames '#' (text ++ ['#']) = [text] ∧
      ReadsAsInv extremeParser text item document ∧
      decodeInv extremeParser item.cStr = (CInt.lit (-2147483648), CInt.lit 2147483647) ∧
      LooksFor extremeParser item (CInt.lit (-2147483648)) (CInt.lit 2147483647) := by
  have sameText : write extremeParser.dtoa (advertisement .standardProtocol extremeBlock) =
      write (fun _ => []) (advertisement .standardProtocol extremeBlock) := by
    rw [write_advertisement, write_advertisement]
  have parse_write : extremeParser.parse
      (write extremeParser.dtoa (advertisement .standardProtocol extremeBlock)) =
      some (advertisement .standardProtocol extremeBlock) := by
    rw [sameText]
    rfl
  obtain ⟨text, item, document, _, _, _, framed, _, reads, decoded, looks, _⟩ :=
    advertised_block_round_trips extremeParser (idle 0 .standardProtocol .committer) extremeBlock rfl
      parse_write
  exact ⟨text, item, document, framed, reads, decoded, looks⟩

end BlockchainNode

end Ns3Blockchain
