import Mathlib.Data.List.Induction
import Ns3Blockchain.Model.Block

/-! # Copies of a block

The copy constructor and `operator=` are two field lists.  The first keeps the
transactions and restarts their counter; the second keeps both of the block it
writes to.  A chain of copies therefore shows the source exactly when nothing on
its way had anything else to show.
-/

namespace Ns3Blockchain

namespace Block

/-- Two blocks no header getter, transaction list or lookup tells apart. -/
structure SameContents (a b : Block) : Prop where
  blockHeight : a.getBlockHeight = b.getBlockHeight
  nonce : a.getNonce = b.getNonce
  minerId : a.getMinerId = b.getMinerId
  parentBlockMinerId : a.getParentBlockMinerId = b.getParentBlockMinerId
  blockSizeBytes : a.getBlockSizeBytes = b.getBlockSizeBytes
  timeStamp : a.getTimeStamp = b.getTimeStamp
  timeReceived : a.getTimeReceived = b.getTimeReceived
  receivedFromIpv4 : a.getReceivedFromIpv4 = b.getReceivedFromIpv4
  transactions : a.getTransactions = b.getTransactions
  hasTransaction : ∀ newTrans, a.hasTransaction newTrans = b.hasTransaction newTrans
  hasTransactionAt : ∀ nodeId transId,
    a.hasTransactionAt nodeId transId = b.hasTransactionAt nodeId transId
  returnTransaction : ∀ storage nodeId transId,
    a.returnTransaction storage nodeId transId = b.returnTransaction storage nodeId transId

/-- Two blocks no observer tells apart. -/
structure Indistinguishable (a b : Block) : Prop extends SameContents a b where
  totalTransaction : a.getTotalTransaction = b.getTotalTransaction

/-- The fields `operator=` writes. -/
def SameHeader (a b : Block) : Prop := ∀ destination : Block, destination.assign a = destination.assign b

/-- One copy, of the block copied so far. -/
inductive CopyStep where
  | construct
  | assignOnto (destination : Block)

def CopyStep.copied (blockSource : Block) : CopyStep → Block
  | .construct => blockSource.copy
  | .assignOnto destination => destination.assign blockSource

def copies (blockSource : Block) (steps : List CopyStep) : Block :=
  steps.foldl CopyStep.copied blockSource

def CopyStep.destination? : CopyStep → Option Block
  | .construct => none
  | .assignOnto destination => some destination

/-- The block the last assignment of a chain writes to. -/
def lastDestination (steps : List CopyStep) : Option Block :=
  (steps.filterMap CopyStep.destination?).getLast?

/-- The counter a copy leaves. -/
def CopyStep.leftTotal : CopyStep → CInt
  | .construct => CInt.lit 0
  | .assignOnto destination => destination.totalTransactions

/-! ## What a copy keeps -/

@[simp] theorem copy_transactions (block : Block) : block.copy.transactions = block.transactions := rfl

@[simp] theorem assign_transactions (destination blockSource : Block) :
    (destination.assign blockSource).transactions = destination.transactions := rfl

theorem sameContents_iff {a b : Block} (header : SameHeader a b) :
    SameContents a b ↔ a.transactions = b.transactions := by
  constructor
  · intro same
    exact same.transactions
  · intro same
    have written := header a
    simp only [assign, Block.mk.injEq] at written
    obtain ⟨height, minerId, nonce, parent, _, _, timeStamp, timeReceived, sender, _⟩ := written
    refine ⟨height, nonce, minerId, parent, parent, timeStamp, timeReceived, sender, same, ?_, ?_, ?_⟩
    · intro newTrans
      rw [Block.hasTransaction, same, Block.hasTransaction]
    · intro nodeId transId
      rw [Block.hasTransactionAt, same, Block.hasTransactionAt]
    · intro storage nodeId transId
      rw [Block.returnTransaction, same, Block.returnTransaction]

theorem indistinguishable_iff {a b : Block} (header : SameHeader a b) :
    Indistinguishable a b ↔
      a.transactions = b.transactions ∧ a.totalTransactions = b.totalTransactions := by
  constructor
  · intro same
    exact ⟨same.transactions, same.totalTransaction⟩
  · intro ⟨sameTransactions, sameTotal⟩
    exact ⟨(sameContents_iff header).mpr sameTransactions, sameTotal⟩

/-- Every copy carries the header of its source. -/
theorem sameHeader_copied (blockSource : Block) (step : CopyStep) :
    SameHeader (step.copied blockSource) blockSource := by
  intro destination
  cases step with
  | construct => rfl
  | assignOnto _ => rfl

theorem copies_append_singleton (blockSource : Block) (steps : List CopyStep) (step : CopyStep) :
    copies blockSource (steps ++ [step]) = step.copied (copies blockSource steps) := by
  rw [copies, List.foldl_append]
  rfl

theorem sameHeader_copies (blockSource : Block) (steps : List CopyStep) :
    SameHeader (copies blockSource steps) blockSource := by
  induction steps using List.reverseRecOn with
  | nil =>
    intro destination
    rfl
  | append_singleton steps step inductionHypothesis =>
    intro destination
    rw [copies_append_singleton, sameHeader_copied, inductionHypothesis]

/-- The transactions come from the last block written to. -/
theorem copies_transactions (blockSource : Block) (steps : List CopyStep) :
    (copies blockSource steps).transactions =
      ((lastDestination steps).getD blockSource).transactions := by
  induction steps using List.reverseRecOn with
  | nil => rfl
  | append_singleton steps step inductionHypothesis =>
    rw [copies_append_singleton, lastDestination, List.filterMap_append]
    cases step with
    | construct =>
      -- The list is carried over, so the last assignment is still the one that counts.
      simpa [CopyStep.copied, CopyStep.destination?, lastDestination] using inductionHypothesis
    | assignOnto destination => simp [CopyStep.copied, CopyStep.destination?]

/-- The counter comes from the last copy. -/
theorem copies_totalTransactions (blockSource : Block) (steps : List CopyStep) :
    (copies blockSource steps).totalTransactions =
      ((steps.getLast?.map CopyStep.leftTotal).getD blockSource.totalTransactions) := by
  induction steps using List.reverseRecOn with
  | nil => rfl
  | append_singleton steps step _ =>
    rw [copies_append_singleton, List.getLast?_concat]
    cases step with
    | construct => rfl
    | assignOnto destination => rfl

/-! ## Main result -/

/-- For every block and every chain of copies: the last copy shows what the source
    shows exactly when the last block assigned to already had the source's
    transactions, and the last copy leaves the source's counter.  The two ways of
    copying agree exactly on a destination with the source's transactions and a
    counter of zero. -/
theorem copies_indistinguishable_iff (blockSource : Block) (steps : List CopyStep) :
    (Indistinguishable (copies blockSource steps) blockSource ↔
      (∀ destination ∈ lastDestination steps,
        destination.transactions = blockSource.transactions) ∧
      ∀ step ∈ steps.getLast?, step.leftTotal = blockSource.totalTransactions) ∧
    ∀ destination : Block,
      Indistinguishable blockSource.copy (destination.assign blockSource) ↔
        destination.transactions = blockSource.transactions ∧
          destination.totalTransactions = CInt.lit 0 := by
  constructor
  · rw [indistinguishable_iff (sameHeader_copies blockSource steps), copies_transactions,
      copies_totalTransactions]
    apply and_congr
    · cases lastDestination steps <;> simp
    · cases steps.getLast? <;> simp
  · intro destination
    have header : SameHeader blockSource.copy (destination.assign blockSource) := fun _ => rfl
    rw [indistinguishable_iff header]
    exact and_congr eq_comm eq_comm

/-- A block with one transaction. -/
def loadedBlock : Block :=
  { Block.new (CInt.lit 1) (CInt.lit 5) (CInt.lit 0) (CInt.lit 0) (CInt.lit 0) 0 0 ⟨0⟩ with
    transactions := [Transaction.new (CInt.lit 1) (CInt.lit 1) 0]
    totalTransactions := CInt.lit 1 }

/-- `AddTransaction` to a new block, then one copy of either kind. -/
theorem copies_lose_transactions :
    (Block.new (CInt.lit 1) (CInt.lit 5) (CInt.lit 0) (CInt.lit 0) (CInt.lit 0) 0 0 ⟨0⟩).addTransaction
        (Transaction.new (CInt.lit 1) (CInt.lit 1) 0) = .ok loadedBlock ∧
      ¬ Indistinguishable (copies loadedBlock [.construct]) loadedBlock ∧
      ¬ Indistinguishable
        (copies loadedBlock [.assignOnto
          (Block.new (CInt.lit 0) (CInt.lit 0) (CInt.lit 0) (CInt.lit 0) (CInt.lit 0) 0 0 ⟨0⟩)])
        loadedBlock := by
  refine ⟨by decide, ?_, ?_⟩
  · intro same
    exact absurd same.totalTransaction (by decide)
  · intro same
    exact absurd same.transactions (by decide)

end Block

end Ns3Blockchain
