import Mathlib.Data.List.Infix
import Ns3Blockchain.Verified.BlockCalls

/-! # The transactions of a block

The counter beside the list counts `AddTransaction` calls and knows nothing of
`SetTransactions`.  The lookups agree on what is listed; a key that is not makes
`ReturnTransaction` return a `Transaction()`, whose members nothing has set.
-/

namespace Ns3Blockchain

open Library

def Transaction.HasKey (trans : Transaction) (nodeId transId : CInt) : Prop :=
  trans.getTransactionNodeId = nodeId ∧ trans.getTransactionId = transId

/-- Every list given to `SetTransactions` is as long as there were additions before
    it. -/
def SetsAsAdded (calls : List BlockCall) : Prop :=
  ∀ sofar transactions, sofar ++ [.setTransactions transactions] <+: calls →
    transactions.length = addCalls sofar

theorem SetsAsAdded.initial {calls sofar : List BlockCall} (sets : SetsAsAdded calls)
    (start : sofar <+: calls) : SetsAsAdded sofar :=
  fun before transactions within => sets before transactions (within.trans start)

/-- As long as the lists that are set fit, the list has the length of the counter. -/
theorem length_listedAfter {calls : List BlockCall} (sets : SetsAsAdded calls) :
    (listedAfter [] calls).length = addCalls calls := by
  induction calls using List.reverseRecOn with
  | nil => rfl
  | append_singleton calls call inductionHypothesis =>
    have sofar := inductionHypothesis (sets.initial (List.prefix_append _ _))
    rw [listedAfter_append, addCalls_append]
    cases call with
    | setTransactions transactions => exact sets calls transactions List.prefix_rfl
    | addTransaction newTrans =>
      change (listedAfter [] calls ++ [newTrans]).length = addCalls calls + 1
      rw [List.length_append, sofar, List.length_singleton]
    | setBlockHeight | setNonce | setMinerId | setParentBlockMinerId | setBlockSizeBytes
      | setTimeStamp | setReceivedFromIpv4 => exact sofar

namespace Block

/-- At the start and after every call, `GetTotalTransaction` is the length of
    `GetTransactions`. -/
def CountsListed (arguments : Header) (calls : List BlockCall) : Prop :=
  ∀ sofar, sofar <+: calls → ∃ block, (construct arguments).after sofar = .ok block ∧
    block.getTotalTransaction.val = block.getTransactions.length

/-- Both `HasTransaction` functions say whether the key is listed. -/
structure HasAgrees (block : Block) (transactions : List Transaction) (nodeId transId : CInt) :
    Prop where
  byKey : block.hasTransactionAt nodeId transId = true ↔
    ∃ trans ∈ transactions, trans.HasKey nodeId transId
  byTransaction : ∀ newTrans : Transaction, newTrans.HasKey nodeId transId →
    (block.hasTransaction newTrans = true ↔ ∃ trans ∈ transactions, trans.HasKey nodeId transId)

/-- `ReturnTransaction` agrees with them: it returns the earliest transaction with
    the key, or what `Transaction(0,0,0)` is, from any storage. -/
structure LookupsAgree (block : Block) (transactions : List Transaction) (nodeId transId : CInt) :
    Prop extends HasAgrees block transactions nodeId transId where
  found : ∀ before trans after, transactions = before ++ trans :: after →
    (∀ earlier ∈ before, ¬ earlier.HasKey nodeId transId) → trans.HasKey nodeId transId →
    ∀ storage, block.returnTransaction storage nodeId transId = trans
  missing : (¬ ∃ trans ∈ transactions, trans.HasKey nodeId transId) →
    ∀ storage, block.returnTransaction storage nodeId transId =
      Transaction.new (CInt.lit 0) (CInt.lit 0) 0

variable {block : Block} {calls : List BlockCall} {arguments : Header}

/-! ## The counter -/

theorem transactions_after (finished : (construct arguments).after calls = .ok block) :
    block.transactions = listedAfter [] calls :=
  (follows_after finished).transactions

/-- What the counter and the list come to, in the words of the calls. -/
theorem counts_iff :
    (∃ block, (construct arguments).after calls = .ok block ∧
      block.getTotalTransaction.val = block.getTransactions.length) ↔
      addCalls calls ≤ 2147483647 ∧ (listedAfter [] calls).length = addCalls calls := by
  constructor
  · rintro ⟨block, finished, counted⟩
    refine ⟨construct_finishes_iff.mp ⟨block, finished⟩, ?_⟩
    rw [getTotalTransaction, total_after_construct finished, getTransactions,
      transactions_after finished] at counted
    exact (Int.ofNat_inj.mp counted).symm
  · rintro ⟨room, counted⟩
    obtain ⟨block, finished⟩ := (@construct_finishes_iff calls arguments).mpr room
    refine ⟨block, finished, ?_⟩
    rw [getTotalTransaction, total_after_construct finished, getTransactions,
      transactions_after finished, counted]

/-- For all constructor arguments and calls: the counter is the number of
    transactions listed after every call exactly when it can count the additions and
    every list that is set has as many transactions as were added before it. -/
theorem counter_counts_iff (arguments : Header) (calls : List BlockCall) :
    CountsListed arguments calls ↔ addCalls calls ≤ 2147483647 ∧ SetsAsAdded calls := by
  constructor
  · intro counts
    refine ⟨(counts_iff.mp (counts calls List.prefix_rfl)).1, ?_⟩
    intro sofar transactions within
    obtain ⟨_, counted⟩ := counts_iff.mp (counts _ within)
    rw [listedAfter_append, addCalls_append] at counted
    exact counted
  · rintro ⟨room, sets⟩ sofar ⟨rest, whole⟩
    have fewer : addCalls sofar ≤ addCalls calls := by
      rw [← whole, addCalls_append]
      exact Nat.le_add_right _ _
    exact counts_iff.mpr ⟨fewer.trans room, length_listedAfter (sets.initial ⟨rest, whole⟩)⟩

/-- One list set on a new block. -/
theorem setTransactions_uncounted :
    ¬ CountsListed (sizedArguments (CInt.lit 0) (CInt.lit 0))
      [.setTransactions [Transaction.new (CInt.lit 1) (CInt.lit 1) 0]] := by
  intro counts
  obtain ⟨_, counted⟩ := counts_iff.mp (counts _ List.prefix_rfl)
  exact absurd counted (by decide)

/-! ## The lookups -/

theorem hasKey_iff {trans : Transaction} {nodeId transId : CInt} :
    (trans.getTransactionNodeId == nodeId && trans.getTransactionId == transId) = true ↔
      trans.HasKey nodeId transId := by
  rw [Bool.and_eq_true, beq_iff_eq, beq_iff_eq, Transaction.HasKey]

theorem hasAgrees (block : Block) (nodeId transId : CInt) :
    HasAgrees block block.transactions nodeId transId := by
  constructor
  · rw [hasTransactionAt, List.any_eq_true]
    simp only [hasKey_iff]
  · rintro newTrans ⟨rfl, rfl⟩
    rw [hasTransaction, List.any_eq_true]
    simp only [Transaction.equals, hasKey_iff]

theorem returnTransaction_found {before after : List Transaction} {trans : Transaction}
    {nodeId transId : CInt} (whole : block.transactions = before ++ trans :: after)
    (earliest : ∀ earlier ∈ before, ¬ earlier.HasKey nodeId transId)
    (keyed : trans.HasKey nodeId transId) (storage : Transaction) :
    block.returnTransaction storage nodeId transId = trans := by
  have found : (block.transactions.find? fun trans =>
      trans.getTransactionNodeId == nodeId && trans.getTransactionId == transId) = some trans := by
    refine List.find?_eq_some_iff_append.mpr ⟨hasKey_iff.mpr keyed, before, after, whole, ?_⟩
    intro earlier member
    rw [Bool.not_eq_true', ← Bool.not_eq_true, hasKey_iff]
    exact earliest earlier member
  rw [returnTransaction, found]

/-- Nothing is set: the result is whatever the storage held. -/
theorem returnTransaction_missing {nodeId transId : CInt}
    (absent : ¬ ∃ trans ∈ block.transactions, trans.HasKey nodeId transId) (storage : Transaction) :
    block.returnTransaction storage nodeId transId = storage := by
  have missing : (block.transactions.find? fun trans =>
      trans.getTransactionNodeId == nodeId && trans.getTransactionId == transId) = none := by
    rw [List.find?_eq_none]
    intro trans member keyed
    exact absent ⟨trans, member, hasKey_iff.mp keyed⟩
  rw [returnTransaction, missing]
  rfl

theorem lookupsAgree_iff {nodeId transId : CInt} :
    LookupsAgree block block.transactions nodeId transId ↔
      ∃ trans ∈ block.transactions, trans.HasKey nodeId transId := by
  constructor
  · intro agree
    by_contra absent
    -- Storage that does not hold zeros to begin with.
    have zeros := agree.missing absent (Transaction.new (CInt.lit 1) (CInt.lit 1) 0)
    rw [returnTransaction_missing absent] at zeros
    exact absurd zeros (by decide)
  · intro present
    exact ⟨hasAgrees block nodeId transId,
      fun before trans after whole earliest keyed => returnTransaction_found whole earliest keyed,
      fun absent => absurd present absent⟩

/-- For every block the calls reach and every key: what is listed is what the calls
    set and added, the two `HasTransaction` functions agree on it, and so does
    `ReturnTransaction` exactly when the key is listed. -/
theorem transaction_lookups_agree_iff (arguments : Header) (calls : List BlockCall) (block : Block)
    (reached : (construct arguments).after calls = .ok block) (nodeId transId : CInt) :
    block.getTransactions = listedAfter [] calls ∧
      HasAgrees block (listedAfter [] calls) nodeId transId ∧
      (LookupsAgree block (listedAfter [] calls) nodeId transId ↔
        ∃ trans ∈ listedAfter [] calls, trans.HasKey nodeId transId) := by
  rw [← transactions_after reached]
  exact ⟨rfl, hasAgrees block nodeId transId, lookupsAgree_iff⟩

/-- Two transactions with one key, listed by different calls. -/
theorem transaction_lookups_agree_iff_repeated :
    ∃ block, (construct (sizedArguments (CInt.lit 0) (CInt.lit 0))).after
        [.setTransactions [Transaction.new (CInt.lit 1) (CInt.lit 1) 4],
          .addTransaction (Transaction.new (CInt.lit 1) (CInt.lit 1) 5)] = .ok block ∧
      ∀ storage, block.returnTransaction storage (CInt.lit 1) (CInt.lit 1) =
        Transaction.new (CInt.lit 1) (CInt.lit 1) 4 := by
  refine ⟨_, rfl, ?_⟩
  obtain ⟨_, _, agree⟩ := transaction_lookups_agree_iff (sizedArguments (CInt.lit 0) (CInt.lit 0))
    [.setTransactions [Transaction.new (CInt.lit 1) (CInt.lit 1) 4],
      .addTransaction (Transaction.new (CInt.lit 1) (CInt.lit 1) 5)] _ rfl (CInt.lit 1) (CInt.lit 1)
  have lookups := agree.mpr ⟨_, List.mem_cons_self, rfl, rfl⟩
  exact lookups.found [] _ _ rfl (by simp) ⟨rfl, rfl⟩

/-- A key no transaction of a new block has. -/
theorem returnTransaction_unset :
    ¬ LookupsAgree (construct (sizedArguments (CInt.lit 0) (CInt.lit 0))) [] (CInt.lit 1)
      (CInt.lit 1) := by
  intro agree
  have zeros := agree.missing (by simp) (Transaction.new (CInt.lit 1) (CInt.lit 1) 0)
  exact absurd zeros (by decide)

end Block

end Ns3Blockchain
