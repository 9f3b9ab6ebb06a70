import Ns3Blockchain.Library.Registers
import Ns3Blockchain.Model.Block

/-! # Calls on a block

The nine calls that change a block, and what a run of them comes to: the header is
a bank of registers, the transactions are those of the last `SetTransactions` and
of the additions after it, and the counter counts the additions alone.
-/

namespace Ns3Blockchain

open Library Library.Registers

inductive HeaderField where
  | blockHeight
  | nonce
  | minerId
  | parentBlockMinerId
  | blockSizeBytes
  | timeStamp
  | timeReceived
  | receivedFromIpv4
deriving DecidableEq

/-- The type of the field. -/
def HeaderField.Value : HeaderField → Type
  | .blockHeight | .nonce | .minerId | .parentBlockMinerId | .blockSizeBytes => CInt
  | .timeStamp | .timeReceived => ℚ
  | .receivedFromIpv4 => Ipv4Address

/-- A value for every field of the header. -/
abbrev Header := (field : HeaderField) → field.Value

/-- The arguments of a block at height 1, with these two and zeros. -/
def sizedArguments (parentBlockMinerId blockSizeBytes : CInt) : Header
  | .blockHeight => CInt.lit 1
  | .parentBlockMinerId => parentBlockMinerId
  | .blockSizeBytes => blockSizeBytes
  | .nonce | .minerId => CInt.lit 0
  | .timeStamp | .timeReceived => (0 : ℚ)
  | .receivedFromIpv4 => (⟨0⟩ : Ipv4Address)

/-- The calls that change a block. -/
inductive BlockCall where
  | setBlockHeight (blockHeight : CInt)
  | setNonce (nonce : CInt)
  | setMinerId (minerId : CInt)
  | setParentBlockMinerId (parentBlockMinerId : CInt)
  | setBlockSizeBytes (blockSizeBytes : CInt)
  | setTimeStamp (timeStamp : ℚ)
  | setReceivedFromIpv4 (receivedFromIpv4 : Ipv4Address)
  | setTransactions (transactions : List Transaction)
  | addTransaction (newTrans : Transaction)

namespace BlockCall

def apply (block : Block) : BlockCall → Exec Block
  | .setBlockHeight blockHeight => .ok (block.setBlockHeight blockHeight)
  | .setNonce nonce => .ok (block.setNonce nonce)
  | .setMinerId minerId => .ok (block.setMinerId minerId)
  | .setParentBlockMinerId parentBlockMinerId => .ok (block.setParentBlockMinerId parentBlockMinerId)
  | .setBlockSizeBytes blockSizeBytes => .ok (block.setBlockSizeBytes blockSizeBytes)
  | .setTimeStamp timeStamp => .ok (block.setTimeStamp timeStamp)
  | .setReceivedFromIpv4 receivedFromIpv4 => .ok (block.setReceivedFromIpv4 receivedFromIpv4)
  | .setTransactions transactions => .ok (block.setTransactions transactions)
  | .addTransaction newTrans => block.addTransaction newTrans

/-- The field of the header the call is named after, and the value. -/
def write? : BlockCall → Option (Write HeaderField.Value)
  | .setBlockHeight blockHeight => some ⟨.blockHeight, blockHeight⟩
  | .setNonce nonce => some ⟨.nonce, nonce⟩
  | .setMinerId minerId => some ⟨.minerId, minerId⟩
  | .setParentBlockMinerId parentBlockMinerId => some ⟨.parentBlockMinerId, parentBlockMinerId⟩
  | .setBlockSizeBytes blockSizeBytes => some ⟨.blockSizeBytes, blockSizeBytes⟩
  | .setTimeStamp timeStamp => some ⟨.timeStamp, timeStamp⟩
  | .setReceivedFromIpv4 receivedFromIpv4 => some ⟨.receivedFromIpv4, receivedFromIpv4⟩
  | .setTransactions _ | .addTransaction _ => none

/-- What the call makes of a list of transactions. -/
def list (transactions : List Transaction) : BlockCall → List Transaction
  | .setTransactions transactions => transactions
  | .addTransaction newTrans => transactions ++ [newTrans]
  | _ => transactions

def adds : BlockCall → Bool
  | .addTransaction _ => true
  | _ => false

end BlockCall

/-- The transactions listed after the calls. -/
def listedAfter (transactions : List Transaction) (calls : List BlockCall) : List Transaction :=
  calls.foldl BlockCall.list transactions

/-- The number of `AddTransaction` calls. -/
def addCalls (calls : List BlockCall) : Nat := calls.countP BlockCall.adds

theorem addCalls_append (calls later : List BlockCall) :
    addCalls (calls ++ later) = addCalls calls + addCalls later :=
  List.countP_append

theorem listedAfter_append (transactions : List Transaction) (calls later : List BlockCall) :
    listedAfter transactions (calls ++ later) = listedAfter (listedAfter transactions calls) later :=
  List.foldl_append

namespace Block

/-- The constructor with eight arguments, one for each field. -/
def construct (arguments : Header) : Block :=
  Block.new (arguments .blockHeight) (arguments .minerId) (arguments .nonce)
    (arguments .parentBlockMinerId) (arguments .blockSizeBytes) (arguments .timeStamp)
    (arguments .timeReceived) (arguments .receivedFromIpv4)

def after (block : Block) (calls : List BlockCall) : Exec Block :=
  foldChecked BlockCall.apply block calls

/-- The members behind the observers. -/
def header (block : Block) : Header
  | .blockHeight => block.blockHeight
  | .nonce => block.nonce
  | .minerId => block.minerId
  | .parentBlockMinerId => block.parentBlockMinerId
  | .blockSizeBytes => block.blockSizeBytes
  | .timeStamp => block.timeStamp
  | .timeReceived => block.timeReceived
  | .receivedFromIpv4 => block.receivedFromIpv4

/-- What the calls have made of a block. -/
structure Follows (block : Block) (calls : List BlockCall) (block' : Block) : Prop where
  header : block'.header = runWrites block.header (calls.filterMap BlockCall.write?)
  transactions : block'.transactions = listedAfter block.transactions calls
  total : block'.totalTransactions.val = block.totalTransactions.val + addCalls calls

variable {block block' : Block} {calls : List BlockCall}

/-! ## One call -/

theorem header_construct (arguments : Header) : (construct arguments).header = arguments := by
  funext field
  cases field <;> rfl

/-- `Transaction::operator=` keeps every field, so a list assigned to is its
    source. -/
theorem assignTransactions_eq (destinations transactions : List Transaction) :
    assignTransactions destinations transactions = transactions := by
  induction transactions generalizing destinations with
  | nil => cases destinations <;> rfl
  | cons transSource transactions inductionHypothesis =>
    cases destinations with
    | nil => rfl
    | cons destination destinations =>
      rw [assignTransactions, inductionHypothesis]
      rfl

/-- Only `AddTransaction` counts. -/
theorem follows_apply {call : BlockCall} (applied : call.apply block = .ok block') :
    Follows block [call] block' := by
  cases call with
  | addTransaction newTrans =>
    obtain ⟨totalTransactions, counted, added⟩ := bind_eq_ok_iff.mp applied
    cases added
    have succ := CInt.checked_eq_ok_iff.mp counted
    rw [CInt.val_one] at succ
    exact ⟨rfl, rfl, succ⟩
  | setTransactions transactions =>
    cases applied
    exact ⟨rfl, assignTransactions_eq _ _, (Int.add_zero _).symm⟩
  | setBlockHeight | setNonce | setMinerId | setParentBlockMinerId | setBlockSizeBytes | setTimeStamp
    | setReceivedFromIpv4 =>
    cases applied
    refine ⟨?_, rfl, (Int.add_zero _).symm⟩
    funext field
    cases field <;> rfl

/-- `AddTransaction` is the only call that can fail. -/
theorem apply_finishes {call : BlockCall}
    (room : block.totalTransactions.val + addCalls [call] ≤ 2147483647) :
    ∃ block', call.apply block = .ok block' := by
  cases call with
  | addTransaction newTrans =>
    have below : block.totalTransactions.val < 2147483647 := by
      change block.totalTransactions.val + 1 ≤ 2147483647 at room
      omega
    obtain ⟨totalTransactions, counted, _⟩ := CInt.add_one below
    exact ⟨_, bind_eq_ok_iff.mpr ⟨totalTransactions, counted, rfl⟩⟩
  | setBlockHeight | setNonce | setMinerId | setParentBlockMinerId | setBlockSizeBytes | setTimeStamp
    | setReceivedFromIpv4 | setTransactions =>
    exact ⟨_, rfl⟩

/-! ## Runs -/

theorem Follows.trans {middle : Block} {later : List BlockCall} (first : Follows block calls middle)
    (second : Follows middle later block') : Follows block (calls ++ later) block' where
  header := by
    rw [second.header, first.header, List.filterMap_append, runWrites_append]
  transactions := by
    rw [second.transactions, first.transactions, listedAfter_append]
  total := by
    rw [second.total, first.total, addCalls_append, Nat.cast_add, Int.add_assoc]

/-- What a run that finishes has made of the block. -/
theorem follows_after (finished : block.after calls = .ok block') : Follows block calls block' := by
  refine foldChecked_invariant (Follows block) ⟨rfl, rfl, (Int.add_zero _).symm⟩ ?_ finished
  intro consumed call s s' _ sofar applied
  exact sofar.trans (follows_apply applied)

/-- A run finishes exactly when the counter has room for its additions. -/
theorem after_finishes_iff : (∃ block', block.after calls = .ok block') ↔
    block.totalTransactions.val + addCalls calls ≤ 2147483647 := by
  constructor
  · rintro ⟨block', finished⟩
    rw [← (follows_after finished).total]
    exact block'.totalTransactions.upper
  · intro room
    have run : ∃ block', foldChecked BlockCall.apply block calls = .ok block' ∧
        Follows block calls block' := by
      refine foldChecked_progress (Follows block) ⟨rfl, rfl, (Int.add_zero _).symm⟩ ?_
      rintro consumed call s ⟨rest, whole⟩ sofar
      rw [← whole, addCalls_append, addCalls_append] at room
      have total := sofar.total
      obtain ⟨s', applied⟩ := @apply_finishes s call (by omega)
      exact ⟨s', applied, sofar.trans (follows_apply applied)⟩
    obtain ⟨block', finished, _⟩ := run
    exact ⟨block', finished⟩

theorem construct_finishes_iff {arguments : Header} :
    (∃ block, (construct arguments).after calls = .ok block) ↔ addCalls calls ≤ 2147483647 := by
  have zero : (construct arguments).totalTransactions.val = 0 := CInt.val_zero
  rw [after_finishes_iff, zero]
  omega

/-- From the constructor on, the counter is the number of additions. -/
theorem total_after_construct {arguments : Header}
    (finished : (construct arguments).after calls = .ok block) :
    block.totalTransactions.val = addCalls calls := by
  have zero : (construct arguments).totalTransactions.val = 0 := CInt.val_zero
  rw [(follows_after finished).total, zero, Int.zero_add]

end Block

end Ns3Blockchain
