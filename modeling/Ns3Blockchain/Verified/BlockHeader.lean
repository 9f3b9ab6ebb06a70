import Ns3Blockchain.Verified.BlockCalls

/-! # The header of a block

Every observer of the header reads the member of its name, apart from
`GetBlockSizeBytes`, which reads the parent miner id: it shows what was written to
the size only where the two have been written alike.
-/

namespace Ns3Blockchain

open Library Library.Registers

/-- The observer of the field. -/
def HeaderField.observe : (field : HeaderField) → Block → field.Value
  | .blockHeight, block => block.getBlockHeight
  | .nonce, block => block.getNonce
  | .minerId, block => block.getMinerId
  | .parentBlockMinerId, block => block.getParentBlockMinerId
  | .blockSizeBytes, block => block.getBlockSizeBytes
  | .timeStamp, block => block.getTimeStamp
  | .timeReceived, block => block.getTimeReceived
  | .receivedFromIpv4, block => block.getReceivedFromIpv4

def BlockCall.writesTo (field : HeaderField) (call : BlockCall) : Bool :=
  call.write?.any fun w => w.1 = field

/-- The calls are the same but for the writes to the field. -/
def DifferOnlyIn (field : HeaderField) (calls calls' : List BlockCall) : Prop :=
  (calls.filter fun call => !call.writesTo field) = calls'.filter fun call => !call.writesTo field

/-- The last value the calls write to the field, or the constructor argument. -/
def lastWritten (arguments : Header) (calls : List BlockCall) (field : HeaderField) : field.Value :=
  (lastWrite field (calls.filterMap BlockCall.write?)).getD (arguments field)

/-! ## Calls that differ in one field -/

variable {calls calls' : List BlockCall} {arguments : Header}

theorem filterMap_write?_filter (field : HeaderField) (calls : List BlockCall) :
    (calls.filter fun call => !call.writesTo field).filterMap BlockCall.write? =
      (calls.filterMap BlockCall.write?).filter fun w => w.1 ≠ field := by
  rw [List.filterMap_filter, List.filter_filterMap]
  apply List.filterMap_congr
  intro call _
  rw [BlockCall.writesTo]
  cases call.write? with
  | none => rfl
  | some w => simp [Option.filter]

theorem addCalls_filter (field : HeaderField) (calls : List BlockCall) :
    addCalls (calls.filter fun call => !call.writesTo field) = addCalls calls := by
  rw [addCalls, addCalls, List.countP_filter]
  apply List.countP_congr
  intro call _
  cases call <;> simp [BlockCall.adds, BlockCall.writesTo, BlockCall.write?]

/-- A write to the header lists nothing. -/
theorem listedAfter_filter (field : HeaderField) (transactions : List Transaction)
    (calls : List BlockCall) :
    listedAfter transactions (calls.filter fun call => !call.writesTo field) =
      listedAfter transactions calls := by
  induction calls generalizing transactions with
  | nil => rfl
  | cons call calls inductionHypothesis =>
    by_cases written : call.writesTo field = true
    · have unlisted : call.list transactions = transactions := by
        cases call <;> first | rfl | cases written
      rw [List.filter_cons_of_neg (by simpa using written), inductionHypothesis, listedAfter,
        listedAfter, List.foldl_cons, unlisted]
    · rw [List.filter_cons_of_pos (by simpa using written), listedAfter, List.foldl_cons,
        ← listedAfter, inductionHypothesis]
      rfl

theorem DifferOnlyIn.lastWritten_eq {field other : HeaderField}
    (alike : DifferOnlyIn field calls calls') (elsewhere : other ≠ field) :
    lastWritten arguments calls other = lastWritten arguments calls' other := by
  have writes : ((calls.filterMap BlockCall.write?).filter fun w => w.1 ≠ field) =
      (calls'.filterMap BlockCall.write?).filter fun w => w.1 ≠ field := by
    rw [← filterMap_write?_filter, ← filterMap_write?_filter, alike]
  rw [lastWritten, lastWritten, lastWrite_congr elsewhere writes]

theorem DifferOnlyIn.addCalls_eq {field : HeaderField} (alike : DifferOnlyIn field calls calls') :
    addCalls calls = addCalls calls' := by
  rw [← addCalls_filter field calls, alike, addCalls_filter]

namespace Block

/-- No observer but the one of the field tells the two blocks apart. -/
structure SameButFor (field : HeaderField) (block block' : Block) : Prop where
  header : ∀ other : HeaderField, other ≠ field → other.observe block = other.observe block'
  transactions : block.getTransactions = block'.getTransactions
  total : block.getTotalTransaction = block'.getTotalTransaction

/-- After the calls every observer shows the last value written to its field. -/
def ShowsWrites (arguments : Header) (calls : List BlockCall) : Prop :=
  ∃ block, (construct arguments).after calls = .ok block ∧
    ∀ field : HeaderField, field.observe block = lastWritten arguments calls field

/-- The two runs end in blocks that are the same but for the field. -/
def EndsSameButFor (field : HeaderField) (arguments : Header) (calls calls' : List BlockCall) :
    Prop :=
  ∃ block block', (construct arguments).after calls = .ok block ∧
    (construct arguments).after calls' = .ok block' ∧ SameButFor field block block'

variable {block : Block}

/-! ## What the observers show -/

theorem observe_eq_header {field : HeaderField} (notSize : field ≠ .blockSizeBytes) (block : Block) :
    field.observe block = block.header field := by
  cases field with
  | blockSizeBytes => exact absurd rfl notSize
  | blockHeight | nonce | minerId | parentBlockMinerId | timeStamp | timeReceived
    | receivedFromIpv4 => rfl

theorem header_after (finished : (construct arguments).after calls = .ok block)
    (field : HeaderField) : block.header field = lastWritten arguments calls field := by
  rw [(follows_after finished).header, header_construct, runWrites_apply, lastWritten]

/-- The size observer shows the parent miner id. -/
theorem size_after (finished : (construct arguments).after calls = .ok block) :
    HeaderField.observe .blockSizeBytes block = lastWritten arguments calls .parentBlockMinerId :=
  header_after finished .parentBlockMinerId

/-! ## Main result -/

theorem showsWrites_iff : ShowsWrites arguments calls ↔
    addCalls calls ≤ 2147483647 ∧
      lastWritten arguments calls .parentBlockMinerId =
        lastWritten arguments calls .blockSizeBytes := by
  constructor
  · rintro ⟨block, finished, shown⟩
    exact ⟨construct_finishes_iff.mp ⟨block, finished⟩,
      (size_after finished).symm.trans (shown .blockSizeBytes)⟩
  · rintro ⟨room, same⟩
    obtain ⟨block, finished⟩ := (@construct_finishes_iff calls arguments).mpr room
    refine ⟨block, finished, fun field => ?_⟩
    by_cases size : field = .blockSizeBytes
    · subst size
      exact (size_after finished).trans same
    · rw [observe_eq_header size, header_after finished]

theorem endsSameButFor_iff {field : HeaderField} (alike : DifferOnlyIn field calls calls') :
    EndsSameButFor field arguments calls calls' ↔
      addCalls calls ≤ 2147483647 ∧
        (field = .parentBlockMinerId →
          lastWritten arguments calls .parentBlockMinerId =
            lastWritten arguments calls' .parentBlockMinerId) := by
  constructor
  · rintro ⟨block, block', finished, finished', same⟩
    refine ⟨construct_finishes_iff.mp ⟨block, finished⟩, fun parent => ?_⟩
    -- The size observer is one of the others, and it shows the parent miner id.
    have shown := same.header .blockSizeBytes (by rw [parent]; decide)
    rw [size_after finished, size_after finished'] at shown
    exact shown
  · rintro ⟨room, parents⟩
    obtain ⟨block, finished⟩ := (@construct_finishes_iff calls arguments).mpr room
    rw [alike.addCalls_eq] at room
    obtain ⟨block', finished'⟩ := (@construct_finishes_iff calls' arguments).mpr room
    refine ⟨block, block', finished, finished', ?_, ?_, ?_⟩
    · intro other elsewhere
      by_cases size : other = .blockSizeBytes
      · subst size
        rw [size_after finished, size_after finished']
        by_cases parent : field = .parentBlockMinerId
        · exact parents parent
        · exact alike.lastWritten_eq (Ne.symm parent)
      · rw [observe_eq_header size, observe_eq_header size, header_after finished,
          header_after finished', alike.lastWritten_eq elsewhere]
    · rw [getTransactions, getTransactions, (follows_after finished).transactions,
        (follows_after finished').transactions, ← listedAfter_filter field _ calls, alike,
        listedAfter_filter]
    · rw [getTotalTransaction, getTotalTransaction, ← BoundedInt.val_inj,
        total_after_construct finished, total_after_construct finished', alike.addCalls_eq]

/-- For all constructor arguments and calls: every observer shows what was last
    written to its field exactly when the last parent miner id and the last size are
    the same number.  Calls that differ in one field only end in blocks that do
    exactly when that field is not the parent miner id, or ends up the same.  With
    more additions than an `int` counts there is no block at all. -/
theorem header_observers_iff (arguments : Header) (calls : List BlockCall) :
    (ShowsWrites arguments calls ↔
      addCalls calls ≤ 2147483647 ∧
        lastWritten arguments calls .parentBlockMinerId =
          lastWritten arguments calls .blockSizeBytes) ∧
    ∀ (field : HeaderField) (calls' : List BlockCall), DifferOnlyIn field calls calls' →
      (EndsSameButFor field arguments calls calls' ↔
        addCalls calls ≤ 2147483647 ∧
          (field = .parentBlockMinerId →
            lastWritten arguments calls .parentBlockMinerId =
              lastWritten arguments calls' .parentBlockMinerId)) :=
  ⟨showsWrites_iff, fun _ _ alike => endsSameButFor_iff alike⟩

/-- Alike parent and size, and calls that differ in the nonce. -/
theorem header_observers_iff_nonce :
    ShowsWrites (sizedArguments (CInt.lit 7) (CInt.lit 7))
        [.setNonce (CInt.lit 3), .setMinerId (CInt.lit 9), .setNonce (CInt.lit 4)] ∧
      EndsSameButFor .nonce (sizedArguments (CInt.lit 7) (CInt.lit 7))
        [.setNonce (CInt.lit 3), .setMinerId (CInt.lit 9), .setNonce (CInt.lit 4)]
        [.setMinerId (CInt.lit 9)] := by
  have both := header_observers_iff (sizedArguments (CInt.lit 7) (CInt.lit 7))
    [.setNonce (CInt.lit 3), .setMinerId (CInt.lit 9), .setNonce (CInt.lit 4)]
  constructor
  · exact both.1.mpr ⟨by decide, rfl⟩
  · refine (both.2 .nonce [.setMinerId (CInt.lit 9)] rfl).mpr ⟨by decide, ?_⟩
    intro absurdity
    cases absurdity

/-- One write to the size, and one to the parent miner id. -/
theorem size_observer_shows_parent :
    ¬ ShowsWrites (sizedArguments (CInt.lit 0) (CInt.lit 0)) [.setBlockSizeBytes (CInt.lit 500)] ∧
      DifferOnlyIn .parentBlockMinerId [.setParentBlockMinerId (CInt.lit 3)] [] ∧
      ¬ EndsSameButFor .parentBlockMinerId (sizedArguments (CInt.lit 0) (CInt.lit 0))
        [.setParentBlockMinerId (CInt.lit 3)] [] := by
  have alike : DifferOnlyIn .parentBlockMinerId [.setParentBlockMinerId (CInt.lit 3)] [] := rfl
  refine ⟨?_, alike, ?_⟩
  · rw [showsWrites_iff]
    rintro ⟨_, same⟩
    exact absurd (congrArg BoundedInt.val same) (by decide)
  · rw [endsSameButFor_iff alike]
    rintro ⟨_, same⟩
    exact absurd (congrArg BoundedInt.val (same rfl)) (by decide)

end Block

end Ns3Blockchain
