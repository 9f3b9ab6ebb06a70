import Ns3Blockchain.Verified.JsonNumbers

/-! # Reading documents

`Parse` accepts the texts of the grammar and no others, and leaves in the document the
value the text stands for.  Its fuel, twice the length of the text, is enough.
-/

namespace Ns3Blockchain.Rapidjson.Reader

open Library

variable {strtod : Str → Option ℚ}

/-! ## Blanks and first characters -/

theorem exists_blank (is : Str) : ∃ ws, Blank ws ∧ is = ws ++ skipWhitespace is :=
  ⟨is.takeWhile isWhitespace, fun _ member => isWhitespace_iff.mp (List.mem_takeWhile_imp member),
    List.takeWhile_append_dropWhile.symm⟩

theorem skipWhitespace_append {ws rest : Str} (blank : Blank ws) (stops : Ends isWhitespace rest) :
    skipWhitespace (ws ++ rest) = rest :=
  dropWhile_run (fun c member => isWhitespace_iff.mpr (blank c member)) stops

theorem length_skipWhitespace_le (is : Str) : (skipWhitespace is).length ≤ is.length :=
  (List.dropWhile_suffix isWhitespace).length_le

theorem ends_number_blank {ws rest : Str} (blank : Blank ws) (stops : Ends isNumberChar rest) :
    Ends isNumberChar (ws ++ rest) := by
  cases ws with
  | nil => exact stops
  | cons c ws =>
    have outside : blanks.all fun c => !isNumberChar c := by decide
    have first := List.all_eq_true.mp outside c (blank c List.mem_cons_self)
    exact ends_cons_iff.mpr (Bool.not_eq_true' _ |>.mp first)

/-- The characters a number may start with. -/
def isNumberStart (c : Char) : Bool := c = '-' ∨ c.isDigit

/-- The characters a value may start with. -/
def isValueStart (c : Char) : Bool :=
  c = 'n' ∨ c = 't' ∨ c = 'f' ∨ c = '"' ∨ c = '\x7b' ∨ c = '[' ∨ isNumberStart c

theorem exists_numberStart {text : Str} {value : Value} (isNumber : NumberText strtod text value) :
    ∃ c tail, text = c :: tail ∧ isNumberStart c = true := by
  have literal (minus : Bool) {digits : Str} (isInt : IntDigits digits) (rest : Str) :
      ∃ c tail, signText minus ++ digits ++ rest = c :: tail ∧ isNumberStart c = true := by
    cases minus with
    | true => exact ⟨'-', digits ++ rest, rfl, rfl⟩
    | false =>
      cases digits with
      | nil => exact absurd rfl isInt.nonempty
      | cons c digits =>
        have digit := isInt.allDigits c List.mem_cons_self
        exact ⟨c, digits ++ rest, rfl, by simp [isNumberStart, digit]⟩
  cases isNumber with
  | @int minus digits isInt fits =>
    obtain ⟨c, tail, same, start⟩ := literal minus isInt []
    exact ⟨c, tail, by rw [← same, List.append_nil], start⟩
  | @double minus digits frac exp d isInt isFrac isExp isDouble read =>
    obtain ⟨c, tail, same, start⟩ := literal minus isInt (frac ++ exp)
    exact ⟨c, tail, by rw [← same, List.append_assoc], start⟩

theorem exists_valueStart {text : Str} {value : Value} (isValue : ValueText strtod text value) :
    ∃ c tail, text = c :: tail ∧ isValueStart c = true := by
  cases isValue with
  | null => exact ⟨_, _, rfl, rfl⟩
  | true => exact ⟨_, _, rfl, rfl⟩
  | false => exact ⟨_, _, rfl, rfl⟩
  | number isNumber =>
    obtain ⟨c, tail, same, start⟩ := exists_numberStart isNumber
    exact ⟨c, tail, same, by simp [isValueStart, start]⟩
  | string isString =>
    cases isString with
    | quoted => exact ⟨_, _, rfl, rfl⟩
  | emptyArray => exact ⟨_, _, rfl, rfl⟩
  | array => exact ⟨_, _, rfl, rfl⟩
  | emptyObject => exact ⟨_, _, rfl, rfl⟩
  | object => exact ⟨_, _, rfl, rfl⟩

theorem valueStart_ne {c : Char} (start : isValueStart c = true) (other : Char)
    (outside : isValueStart other = false) : c ≠ other := by
  rintro rfl
  rw [start] at outside
  cases outside

theorem ends_blank_value {text : Str} {value : Value} (isValue : ValueText strtod text value)
    (rest : Str) : Ends isWhitespace (text ++ rest) := by
  obtain ⟨c, tail, rfl, start⟩ := exists_valueStart isValue
  refine ends_cons_iff.mpr ?_
  have differs := valueStart_ne start
  simp [isWhitespace, differs ' ' rfl, differs '\n' rfl, differs '\r' rfl, differs '\t' rfl]

/-! ## Soundness -/

theorem bounded_eq_ok_iff {α : Type} {parsed : Except ParseFailure α} {result : α} :
    bounded parsed = .ok result ↔ parsed = .ok result := by
  cases parsed with
  | ok => simp [bounded]
  | error => simp [bounded]

theorem parseLiteral_eq_ok_iff {expected is rest : Str} {event : Event} {events : List Event} :
    parseLiteral expected event is = .ok (events, rest) ↔
      is = expected ++ rest ∧ events = [event] := by
  unfold parseLiteral
  split
  next is' taken =>
    rw [consumeAll_eq_true_iff] at taken
    simp [taken, eq_comm, and_comm]
  next is' missing =>
    constructor
    · intro absurdity
      cases absurdity
    · rintro ⟨found, rfl⟩
      rw [consumeAll_eq_true_iff.mpr found] at missing
      cases missing

variable (strtod) in
/-- What a call with this fuel returns was read off a text of the grammar. -/
structure SoundAt (fuel : Nat) : Prop where
  value : ∀ {is rest events}, parseValue strtod fuel is = .ok (events, rest) →
    ∃ text value, ValueText strtod text value ∧ is = text ++ rest ∧ Builds events [value]
  elements : ∀ {count is rest events}, parseElements strtod fuel count is = .ok (events, rest) →
    ∃ text values inside, ElementsText strtod text values ∧ is = text ++ ']' :: rest ∧
      events = inside ++ [.endArray (count + values.length)] ∧ Builds inside values
  members : ∀ {count is rest events}, parseMembers strtod fuel count is = .ok (events, rest) →
    ∃ text members inside, MembersText strtod text members ∧ is = text ++ '\x7d' :: rest ∧
      events = inside ++ [.endObject (count + members.length)] ∧
      Builds inside (memberValues members)

theorem parseArray_sound {fuel : Nat} (sound : SoundAt strtod fuel) {is rest : Str}
    {events : List Event} (parsed : parseArray (parseElements strtod fuel 0) is = .ok (events, rest)) :
    ∃ text value, ValueText strtod ('[' :: text) value ∧ is = text ++ rest ∧
      Builds events [value] := by
  obtain ⟨ws, blank, whole⟩ := exists_blank is
  unfold parseArray at parsed
  split at parsed
  next is' closed =>
    rw [consume_eq_some_iff] at closed
    cases parsed
    exact ⟨ws ++ [']'], .array [], .emptyArray blank, by rw [whole, closed]; simp, Builds.nil.array⟩
  next =>
    obtain ⟨⟨inner, rest'⟩, loop, result⟩ := bind_eq_ok_iff.mp parsed
    obtain ⟨text, values, inside, elements, remains, rfl, builds⟩ := sound.elements loop
    cases result
    refine ⟨ws ++ text ++ [']'], .array values, .array blank elements, ?_, ?_⟩
    · rw [whole, remains]
      simp
    · rw [Nat.zero_add]
      exact builds.array

theorem builds_emptyObject : Builds [.startObject, .endObject 0] [.object []] := by
  have inside : Builds [] (memberValues []) := Builds.nil
  exact inside.object

theorem parseObject_sound {fuel : Nat} (sound : SoundAt strtod fuel) {is rest : Str}
    {events : List Event} (parsed : parseObject (parseMembers strtod fuel 0) is = .ok (events, rest)) :
    ∃ text value, ValueText strtod ('\x7b' :: text) value ∧ is = text ++ rest ∧
      Builds events [value] := by
  obtain ⟨ws, blank, whole⟩ := exists_blank is
  unfold parseObject at parsed
  split at parsed
  next is' closed =>
    rw [consume_eq_some_iff] at closed
    cases parsed
    exact ⟨ws ++ ['\x7d'], .object [], .emptyObject blank, by rw [whole, closed]; simp,
      builds_emptyObject⟩
  next =>
    obtain ⟨⟨inner, rest'⟩, loop, result⟩ := bind_eq_ok_iff.mp parsed
    obtain ⟨text, members, inside, named, remains, rfl, builds⟩ := sound.members loop
    cases result
    refine ⟨ws ++ text ++ ['\x7d'], .object members, .object blank named, ?_, ?_⟩
    · rw [whole, remains]
      simp
    · rw [Nat.zero_add]
      exact builds.object

theorem parseValue_sound {fuel : Nat} (sound : SoundAt strtod fuel) {is rest : Str}
    {events : List Event} (parsed : parseValue strtod (fuel + 1) is = .ok (events, rest)) :
    ∃ text value, ValueText strtod text value ∧ is = text ++ rest ∧ Builds events [value] := by
  unfold parseValue at parsed
  split at parsed
  -- The cases are those of `Peek()`.
  next is =>
    obtain ⟨rfl, rfl⟩ := parseLiteral_eq_ok_iff.mp (bounded_eq_ok_iff.mp parsed)
    exact ⟨_, _, .null, rfl, .one fun _ => rfl⟩
  next is =>
    obtain ⟨rfl, rfl⟩ := parseLiteral_eq_ok_iff.mp (bounded_eq_ok_iff.mp parsed)
    exact ⟨_, _, .true, rfl, .one fun _ => rfl⟩
  next is =>
    obtain ⟨rfl, rfl⟩ := parseLiteral_eq_ok_iff.mp (bounded_eq_ok_iff.mp parsed)
    exact ⟨_, _, .false, rfl, .one fun _ => rfl⟩
  next is =>
    obtain ⟨⟨str, rest'⟩, stringParsed, result⟩ := bind_eq_ok_iff.mp parsed
    obtain ⟨body, inside, rfl⟩ := parseString_eq_ok_iff.mp stringParsed
    cases result
    exact ⟨_, _, .string (.quoted inside), by simp, .one fun _ => rfl⟩
  next is =>
    obtain ⟨text, value, isValue, rfl, builds⟩ := parseObject_sound sound parsed
    exact ⟨_, value, isValue, rfl, builds⟩
  next is =>
    obtain ⟨text, value, isValue, rfl, builds⟩ := parseArray_sound sound parsed
    exact ⟨_, value, isValue, rfl, builds⟩
  next =>
    obtain ⟨text, value, isNumber, whole, builds⟩ := parseNumber_sound (bounded_eq_ok_iff.mp parsed)
    exact ⟨text, value, .number isNumber, whole, builds⟩

theorem parseElements_sound {fuel : Nat} (sound : SoundAt strtod fuel) {count : Nat} {is rest : Str}
    {events : List Event} (parsed : parseElements strtod (fuel + 1) count is = .ok (events, rest)) :
    ∃ text values inside, ElementsText strtod text values ∧ is = text ++ ']' :: rest ∧
      events = inside ++ [.endArray (count + values.length)] ∧ Builds inside values := by
  unfold parseElements at parsed
  obtain ⟨⟨events', is'⟩, valueParsed, more⟩ := bind_eq_ok_iff.mp parsed
  obtain ⟨text, value, isValue, rfl, builds⟩ := sound.value valueParsed
  obtain ⟨ws, blank, whole⟩ := exists_blank is'
  dsimp only at more
  split at more
  -- The rest of the loop has read an array of its own, without the bracket that opens it.
  next is'' comma =>
    obtain ⟨⟨events'', rest'⟩, loop, result⟩ := bind_eq_ok_iff.mp more
    obtain ⟨texts, values, inside, elements, remains, rfl, builds'⟩ := sound.elements loop
    obtain ⟨ws', blank', whole'⟩ := exists_blank is''
    cases result
    refine ⟨text ++ ws ++ ',' :: ws' ++ texts, value :: values, events' ++ inside,
      .cons isValue blank blank' elements, ?_, ?_, builds.append builds'⟩
    · rw [whole, comma, whole', remains]
      simp
    · rw [List.length_cons, Nat.add_right_comm, Nat.add_assoc, List.append_assoc]
  next is'' closed =>
    cases more
    refine ⟨text ++ ws, [value], events', .last isValue blank, ?_, rfl, builds⟩
    rw [whole, closed]
    simp
  next => cases more

theorem parseMembers_sound {fuel : Nat} (sound : SoundAt strtod fuel) {count : Nat} {is rest : Str}
    {events : List Event} (parsed : parseMembers strtod (fuel + 1) count is = .ok (events, rest)) :
    ∃ text members inside, MembersText strtod text members ∧ is = text ++ '\x7d' :: rest ∧
      events = inside ++ [.endObject (count + members.length)] ∧
      Builds inside (memberValues members) := by
  unfold parseMembers at parsed
  split at parsed
  next is =>
    -- The parts of a member in their order: name, colon, value, each with the blanks behind it.
    obtain ⟨⟨str, is₁⟩, nameParsed, colon⟩ := bind_eq_ok_iff.mp parsed
    obtain ⟨body, chars, rfl⟩ := parseString_eq_ok_iff.mp nameParsed
    obtain ⟨ws, blank, whole⟩ := exists_blank is₁
    dsimp only at colon
    split at colon
    next is₂ colonFound =>
      obtain ⟨ws', blank', whole'⟩ := exists_blank is₂
      obtain ⟨⟨events', is₃⟩, valueParsed, more⟩ := bind_eq_ok_iff.mp colon
      obtain ⟨text, value, isValue, valueWhole, builds⟩ := sound.value valueParsed
      obtain ⟨ws'', blank'', whole''⟩ := exists_blank is₃
      have key : Builds (.key str :: events') [.string str, value] := .cons (fun _ => rfl) builds
      dsimp only at more
      split at more
      -- The loop goes on, one member further.
      next is₄ comma =>
        obtain ⟨⟨events'', rest'⟩, loop, result⟩ := bind_eq_ok_iff.mp more
        obtain ⟨texts, members, inside, others, remains, rfl, builds'⟩ := sound.members loop
        obtain ⟨wsNext, blankNext, wholeNext⟩ := exists_blank is₄
        cases result
        refine ⟨_, (str, value) :: members, .key str :: events' ++ inside,
          .cons (.quoted chars) blank blank' isValue blank'' blankNext others, ?_, ?_,
          key.append builds'⟩
        · rw [whole, colonFound, whole', valueWhole, whole'', comma, wholeNext, remains]
          simp
        · rw [List.length_cons, Nat.add_right_comm, Nat.add_assoc, List.append_assoc]
      next is₄ closed =>
        cases more
        refine ⟨_, [(str, value)], .key str :: events',
          .last (.quoted chars) blank blank' isValue blank'', ?_, rfl, key⟩
        rw [whole, colonFound, whole', valueWhole, whole'', closed]
        simp
      next => cases more
    next => cases colon
  next => cases parsed

theorem sound (fuel : Nat) : SoundAt strtod fuel := by
  induction fuel with
  | zero => exact ⟨nofun, nofun, nofun⟩
  | succ fuel inductionHypothesis =>
    exact ⟨parseValue_sound inductionHypothesis, parseElements_sound inductionHypothesis,
      parseMembers_sound inductionHypothesis⟩

/-! ## Completeness -/

variable (strtod) in
/-- A text that this fuel is enough for is read, whatever follows it.  Only a number has
    to be told from what follows. -/
structure CompleteAt (fuel : Nat) : Prop where
  value : ∀ {text value}, ValueText strtod text value → 2 * text.length ≤ fuel →
    ∀ {rest}, (NumberText strtod text value → Ends isNumberChar rest) →
    ∃ events, parseValue strtod fuel (text ++ rest) = .ok (events, rest) ∧ Builds events [value]
  elements : ∀ {text values}, ElementsText strtod text values → 2 * text.length < fuel →
    ∀ count rest, ∃ inside, parseElements strtod fuel count (text ++ ']' :: rest) =
      .ok (inside ++ [.endArray (count + values.length)], rest) ∧ Builds inside values
  members : ∀ {text members}, MembersText strtod text members → 2 * text.length < fuel →
    ∀ count rest, ∃ inside, parseMembers strtod fuel count (text ++ '\x7d' :: rest) =
      .ok (inside ++ [.endObject (count + members.length)], rest) ∧
      Builds inside (memberValues members)

theorem parseValue_number (fuel : Nat) {c : Char} (start : isNumberStart c = true) (is : Str) :
    parseValue strtod (fuel + 1) (c :: is) = bounded (parseNumber strtod (c :: is)) := by
  unfold parseValue
  split
  next first => cases first; cases start
  next first => cases first; cases start
  next first => cases first; cases start
  next first => cases first; cases start
  next first => cases first; cases start
  next first => cases first; cases start
  next => rfl

theorem elements_start {text : Str} {values : List Value}
    (isElements : ElementsText strtod text values) (rest : Str) :
    ∃ c tail, text ++ rest = c :: tail ∧ isValueStart c = true := by
  cases isElements with
  | last first _ =>
    obtain ⟨c, tail, rfl, start⟩ := exists_valueStart first
    exact ⟨c, _, rfl, start⟩
  | cons first _ _ _ =>
    obtain ⟨c, tail, rfl, start⟩ := exists_valueStart first
    exact ⟨c, _, rfl, start⟩

theorem members_start {text : Str} {members : List (Str × Value)}
    (isMembers : MembersText strtod text members) (rest : Str) :
    ∃ tail, text ++ rest = '"' :: tail := by
  cases isMembers with
  | last named _ _ _ _ =>
    cases named with
    | quoted => exact ⟨_, rfl⟩
  | cons named _ _ _ _ _ _ =>
    cases named with
    | quoted => exact ⟨_, rfl⟩

theorem valueStart_noBlank {c : Char} (start : isValueStart c = true) : isWhitespace c = false := by
  have differs := valueStart_ne start
  simp [isWhitespace, differs ' ' rfl, differs '\n' rfl, differs '\r' rfl, differs '\t' rfl]

theorem parseValue_complete {fuel : Nat} (complete : CompleteAt strtod fuel) {text : Str}
    {value : Value} (isValue : ValueText strtod text value) (enough : 2 * text.length ≤ fuel + 1)
    {rest : Str} (stops : NumberText strtod text value → Ends isNumberChar rest) :
    ∃ events, parseValue strtod (fuel + 1) (text ++ rest) = .ok (events, rest) ∧
      Builds events [value] := by
  cases isValue with
  | null => exact ⟨_, rfl, .one fun _ => rfl⟩
  | true => exact ⟨_, rfl, .one fun _ => rfl⟩
  | false => exact ⟨_, rfl, .one fun _ => rfl⟩
  -- Only a number depends on what stands behind it.
  | number isNumber =>
    obtain ⟨events, parsed, builds⟩ := parseNumber_complete isNumber (stops isNumber)
    obtain ⟨c, tail, rfl, start⟩ := exists_numberStart isNumber
    refine ⟨events, ?_, builds⟩
    rw [List.cons_append, parseValue_number fuel start]
    exact bounded_eq_ok_iff.mpr parsed
  | @string _ str isString =>
    cases isString with
    | @quoted body _ chars =>
      have parsed : parseString (body ++ '"' :: rest) = .ok (str, rest) :=
        parseString_eq_ok_iff.mpr ⟨body, chars, rfl⟩
      refine ⟨[.string str], ?_, .one fun _ => rfl⟩
      rw [List.append_assoc, List.cons_append]
      simp [parseValue, parsed]
  | @emptyArray ws blank =>
    have skipped : skipWhitespace (ws ++ ']' :: rest) = ']' :: rest :=
      skipWhitespace_append blank (ends_cons_iff.mpr rfl)
    refine ⟨[.startArray, .endArray 0], ?_, Builds.nil.array⟩
    simp [parseValue, parseArray, skipped, consume]
  | @array ws text elements blank inside =>
    obtain ⟨c, tail, first, start⟩ := elements_start inside (']' :: rest)
    have skipped : skipWhitespace (ws ++ (text ++ ']' :: rest)) = text ++ ']' :: rest :=
      skipWhitespace_append blank (by rw [first, ends_cons_iff]; exact valueStart_noBlank start)
    -- The first element does not start with the bracket, so this is not the empty array.
    have open' : consume ']' (text ++ ']' :: rest) = none := by
      rw [first, consume, if_neg (valueStart_ne start ']' rfl)]
    simp only [List.length_append, List.length_cons, List.length_nil] at enough
    obtain ⟨events, loop, builds⟩ := complete.elements inside (by omega) 0 rest
    rw [Nat.zero_add] at loop
    refine ⟨_, ?_, builds.array⟩
    simp [parseValue, parseArray, skipped, open', loop]
  | @emptyObject ws blank =>
    have skipped : skipWhitespace (ws ++ '\x7d' :: rest) = '\x7d' :: rest :=
      skipWhitespace_append blank (ends_cons_iff.mpr rfl)
    refine ⟨[.startObject, .endObject 0], ?_, builds_emptyObject⟩
    simp [parseValue, parseObject, skipped, consume]
  | @object ws text members blank inside =>
    obtain ⟨tail, first⟩ := members_start inside ('\x7d' :: rest)
    have skipped : skipWhitespace (ws ++ (text ++ '\x7d' :: rest)) = text ++ '\x7d' :: rest :=
      skipWhitespace_append blank (by rw [first, ends_cons_iff]; rfl)
    -- A member starts with its name, so this is not the empty object.
    have open' : consume '\x7d' (text ++ '\x7d' :: rest) = none := by
      rw [first]
      rfl
    simp only [List.length_append, List.length_cons, List.length_nil] at enough
    obtain ⟨events, loop, builds⟩ := complete.members inside (by omega) 0 rest
    rw [Nat.zero_add] at loop
    refine ⟨_, ?_, builds.object⟩
    simp [parseValue, parseObject, skipped, open', loop]

theorem parseElements_complete {fuel : Nat} (complete : CompleteAt strtod fuel) {text : Str}
    {values : List Value} (isElements : ElementsText strtod text values)
    (enough : 2 * text.length < fuel + 1) (count : Nat) (rest : Str) :
    ∃ inside, parseElements strtod (fuel + 1) count (text ++ ']' :: rest) =
      .ok (inside ++ [.endArray (count + values.length)], rest) ∧ Builds inside values := by
  cases isElements with
  | @last text ws value first blank =>
    -- An element may be a number: what follows it is a blank or the bracket.
    have stops : Ends isNumberChar (ws ++ ']' :: rest) :=
      ends_number_blank blank (ends_cons_iff.mpr rfl)
    have skipped : skipWhitespace (ws ++ ']' :: rest) = ']' :: rest :=
      skipWhitespace_append blank (ends_cons_iff.mpr rfl)
    rw [List.length_append] at enough
    obtain ⟨events, parsed, builds⟩ := complete.value first (by omega) fun _ => stops
    refine ⟨events, ?_, builds⟩
    simp [parseElements, parsed, skipped]
  | @cons text ws ws' texts value values first blank blank' others =>
    obtain ⟨c, tail, next, start⟩ := elements_start others (']' :: rest)
    have stops : Ends isNumberChar (ws ++ ',' :: (ws' ++ (texts ++ ']' :: rest))) :=
      ends_number_blank blank (ends_cons_iff.mpr rfl)
    have skipped : skipWhitespace (ws ++ ',' :: (ws' ++ (texts ++ ']' :: rest))) =
        ',' :: (ws' ++ (texts ++ ']' :: rest)) :=
      skipWhitespace_append blank (ends_cons_iff.mpr rfl)
    have skipped' : skipWhitespace (ws' ++ (texts ++ ']' :: rest)) = texts ++ ']' :: rest :=
      skipWhitespace_append blank' (by rw [next, ends_cons_iff]; exact valueStart_noBlank start)
    -- The first element and the others each take less of the text.
    simp only [List.length_append, List.length_cons] at enough
    obtain ⟨events, parsed, builds⟩ := complete.value first (by omega) fun _ => stops
    obtain ⟨inside, loop, builds'⟩ := complete.elements others (by omega) (count + 1) rest
    refine ⟨events ++ inside, ?_, builds.append builds'⟩
    simp [parseElements, parsed, skipped, skipped', loop, Nat.add_assoc, Nat.add_comm 1]

theorem parseMembers_complete {fuel : Nat} (complete : CompleteAt strtod fuel) {text : Str}
    {members : List (Str × Value)} (isMembers : MembersText strtod text members)
    (enough : 2 * text.length < fuel + 1) (count : Nat) (rest : Str) :
    ∃ inside, parseMembers strtod (fuel + 1) count (text ++ '\x7d' :: rest) =
      .ok (inside ++ [.endObject (count + members.length)], rest) ∧
      Builds inside (memberValues members) := by
  have name {body str : Str} (chars : CharsText body str) (behind : Str) :
      parseString (body ++ '"' :: behind) = .ok (str, behind) :=
    parseString_eq_ok_iff.mpr ⟨body, chars, rfl⟩
  have colon {ws : Str} (blank : Blank ws) (behind : Str) :
      skipWhitespace (ws ++ ':' :: behind) = ':' :: behind :=
    skipWhitespace_append blank (ends_cons_iff.mpr rfl)
  cases isMembers with
  | @last _ str ws ws' text ws'' value named blank blank' first blank'' =>
    cases named with
    | @quoted body _ chars =>
      have stops : Ends isNumberChar (ws'' ++ '\x7d' :: rest) :=
        ends_number_blank blank'' (ends_cons_iff.mpr rfl)
      have skipped : skipWhitespace (ws'' ++ '\x7d' :: rest) = '\x7d' :: rest :=
        skipWhitespace_append blank'' (ends_cons_iff.mpr rfl)
      have skipped' : skipWhitespace (ws' ++ (text ++ (ws'' ++ '\x7d' :: rest))) =
          text ++ (ws'' ++ '\x7d' :: rest) :=
        skipWhitespace_append blank' (ends_blank_value first _)
      -- The name is read without fuel; the value takes less of the text.
      simp only [List.length_append, List.length_cons] at enough
      obtain ⟨events, parsed, builds⟩ := complete.value first (by omega) fun _ => stops
      have key : Builds (.key str :: events) [.string str, value] := .cons (fun _ => rfl) builds
      refine ⟨.key str :: events, ?_, key⟩
      simp [parseMembers, name chars, colon blank, skipped', parsed, skipped]
  | @cons _ str ws ws' text ws'' wsNext texts value members named blank blank' first blank'' blankNext
      others =>
    cases named with
    | @quoted body _ chars =>
      obtain ⟨tail, next⟩ := members_start others ('\x7d' :: rest)
      have stops : Ends isNumberChar (ws'' ++ ',' :: (wsNext ++ (texts ++ '\x7d' :: rest))) :=
        ends_number_blank blank'' (ends_cons_iff.mpr rfl)
      have skipped : skipWhitespace (ws'' ++ ',' :: (wsNext ++ (texts ++ '\x7d' :: rest))) =
          ',' :: (wsNext ++ (texts ++ '\x7d' :: rest)) :=
        skipWhitespace_append blank'' (ends_cons_iff.mpr rfl)
      have skipped' : skipWhitespace (ws' ++ (text ++ (ws'' ++ ',' :: (wsNext ++ (texts ++
            '\x7d' :: rest))))) = text ++ (ws'' ++ ',' :: (wsNext ++ (texts ++ '\x7d' :: rest))) :=
        skipWhitespace_append blank' (ends_blank_value first _)
      have skipped'' : skipWhitespace (wsNext ++ (texts ++ '\x7d' :: rest)) =
          texts ++ '\x7d' :: rest :=
        skipWhitespace_append blankNext (by rw [next, ends_cons_iff]; rfl)
      simp only [List.length_append, List.length_cons] at enough
      obtain ⟨events, parsed, builds⟩ := complete.value first (by omega) fun _ => stops
      obtain ⟨inside, loop, builds'⟩ := complete.members others (by omega) (count + 1) rest
      have key : Builds (.key str :: events) [.string str, value] := .cons (fun _ => rfl) builds
      refine ⟨.key str :: events ++ inside, ?_, key.append builds'⟩
      simp [parseMembers, name chars, colon blank, skipped', parsed, skipped, skipped'', loop,
        Nat.add_assoc, Nat.add_comm 1]

theorem complete (fuel : Nat) : CompleteAt strtod fuel := by
  induction fuel with
  | zero =>
    refine ⟨?_, nofun, nofun⟩
    -- A value has a character, so no fuel is not enough for one.
    intro text value isValue enough
    obtain ⟨c, tail, rfl, _⟩ := exists_valueStart isValue
    rw [List.length_cons] at enough
    omega
  | succ fuel inductionHypothesis =>
    exact ⟨parseValue_complete inductionHypothesis, parseElements_complete inductionHypothesis,
      parseMembers_complete inductionHypothesis⟩

/-! ## Fuel and assertions -/

variable {reason : Stop ParseFailure}

variable (strtod reason) in
/-- The streams this fuel is enough for, whether or not they are a text. -/
structure FuelledAt (fuel : Nat) : Prop where
  value : ∀ {is}, 2 * is.length < fuel → Avoids reason (parseValue strtod fuel is)
  elements : ∀ {count is}, 2 * is.length + 1 < fuel →
    Avoids reason (parseElements strtod fuel count is)
  members : ∀ {count is}, 2 * is.length + 1 < fuel →
    Avoids reason (parseMembers strtod fuel count is)

theorem avoids_bounded {α : Type} (abnormal : Abnormal reason) {parsed : Except ParseFailure α}
    (asserted : Avoids .jsonAssert parsed) : Avoids reason (bounded parsed) := by
  cases parsed with
  | ok result => exact avoids_ok _ result
  | error failure =>
    refine avoids_error_iff.mpr ?_
    -- Of the two abnormal ends it has only the assertion.
    rintro rfl
    cases abnormal
    exact asserted rfl

theorem avoids_parseLiteral (expected : Str) (event : Event) (is : Str) :
    Avoids .jsonAssert (parseLiteral expected event is) := by
  unfold parseLiteral
  split
  next => exact avoids_ok _ _
  next => exact avoids_error_iff.mpr nofun

theorem avoids_fault {α : Type} (abnormal : Abnormal reason) (code : ParseErrorCode) (is : Str) :
    Avoids reason (fault code is : Except (Stop ParseFailure) α) := by
  refine avoids_error_iff.mpr ?_
  rintro rfl
  cases abnormal

theorem length_parseValue_le {fuel : Nat} {is rest : Str} {events : List Event}
    (parsed : parseValue strtod fuel is = .ok (events, rest)) : rest.length ≤ is.length := by
  obtain ⟨text, value, _, rfl, _⟩ := (sound fuel).value parsed
  simp

theorem length_parseString_le {is str rest : Str} (parsed : parseString is = .ok (str, rest)) :
    rest.length ≤ is.length := by
  obtain ⟨body, _, rfl⟩ := parseString_eq_ok_iff.mp parsed
  rw [List.length_append, List.length_cons]
  omega

theorem parseValue_fuelled (abnormal : Abnormal reason) {fuel : Nat}
    (fuelled : FuelledAt strtod reason fuel) {is : Str} (enough : 2 * is.length < fuel + 1) :
    Avoids reason (parseValue strtod (fuel + 1) is) := by
  unfold parseValue
  split
  next => exact avoids_bounded abnormal (avoids_parseLiteral _ _ _)
  next => exact avoids_bounded abnormal (avoids_parseLiteral _ _ _)
  next => exact avoids_bounded abnormal (avoids_parseLiteral _ _ _)
  next => exact avoids_bind (avoids_parseString abnormal _) fun _ _ => avoids_ok _ _
  -- Behind a bracket at least one character is gone.
  next is =>
    have shorter := length_skipWhitespace_le is
    rw [List.length_cons] at enough
    unfold parseObject
    split
    next => exact avoids_ok _ _
    next => exact avoids_bind (fuelled.members (by omega)) fun _ _ => avoids_ok _ _
  next is =>
    have shorter := length_skipWhitespace_le is
    rw [List.length_cons] at enough
    unfold parseArray
    split
    next => exact avoids_ok _ _
    next => exact avoids_bind (fuelled.elements (by omega)) fun _ _ => avoids_ok _ _
  next => exact avoids_bounded abnormal (avoids_parseNumber _)

theorem parseElements_fuelled (abnormal : Abnormal reason) {fuel : Nat}
    (fuelled : FuelledAt strtod reason fuel) {count : Nat} {is : Str}
    (enough : 2 * is.length + 1 < fuel + 1) :
    Avoids reason (parseElements strtod (fuel + 1) count is) := by
  unfold parseElements
  refine avoids_bind (fuelled.value (by omega)) fun result parsed => ?_
  obtain ⟨events, is'⟩ := result
  have shorter := length_parseValue_le parsed
  have skipped := length_skipWhitespace_le is'
  dsimp only
  split
  next is'' comma =>
    have skipped' := length_skipWhitespace_le is''
    rw [comma, List.length_cons] at skipped
    exact avoids_bind (fuelled.elements (by omega)) fun _ _ => avoids_ok _ _
  next => exact avoids_ok _ _
  next => exact avoids_fault abnormal _ _

theorem parseMembers_fuelled (abnormal : Abnormal reason) {fuel : Nat}
    (fuelled : FuelledAt strtod reason fuel) {count : Nat} {is : Str}
    (enough : 2 * is.length + 1 < fuel + 1) :
    Avoids reason (parseMembers strtod (fuel + 1) count is) := by
  unfold parseMembers
  split
  next is =>
    rw [List.length_cons] at enough
    refine avoids_bind (avoids_parseString abnormal is) fun result nameParsed => ?_
    obtain ⟨str, is₁⟩ := result
    have shorter := length_parseString_le nameParsed
    have skipped := length_skipWhitespace_le is₁
    dsimp only
    split
    next is₂ colon =>
      have skipped' := length_skipWhitespace_le is₂
      rw [colon, List.length_cons] at skipped
      refine avoids_bind (fuelled.value (by omega)) fun result parsed => ?_
      obtain ⟨events, is₃⟩ := result
      have shorter' := length_parseValue_le parsed
      have skipped'' := length_skipWhitespace_le is₃
      dsimp only
      split
      next is₄ comma =>
        have skippedNext := length_skipWhitespace_le is₄
        rw [comma, List.length_cons] at skipped''
        exact avoids_bind (fuelled.members (by omega)) fun _ _ => avoids_ok _ _
      next => exact avoids_ok _ _
      next => exact avoids_fault abnormal _ _
    next => exact avoids_fault abnormal _ _
  next => exact avoids_fault abnormal _ _

theorem fuelled (abnormal : Abnormal reason) (fuel : Nat) : FuelledAt strtod reason fuel := by
  induction fuel with
  | zero => exact ⟨nofun, nofun, nofun⟩
  | succ fuel inductionHypothesis =>
    exact ⟨parseValue_fuelled abnormal inductionHypothesis,
      parseElements_fuelled abnormal inductionHypothesis,
      parseMembers_fuelled abnormal inductionHypothesis⟩

/-! ## Documents -/

theorem avoids_parse (abnormal : Abnormal reason) (is : Str) : Avoids reason (parse strtod is) := by
  unfold parse
  split
  next => exact avoids_fault abnormal _ _
  next =>
    refine avoids_bind ((fuelled abnormal _).value (by omega)) fun result _ => ?_
    dsimp only
    split
    next => exact avoids_ok _ _
    next => exact avoids_fault abnormal _ _

theorem parse_sound {is : Str} {events : List Event} (parsed : parse strtod is = .ok events) :
    ∃ value, JsonText strtod is value ∧ Builds events [value] := by
  obtain ⟨ws, blank, whole⟩ := exists_blank is
  unfold parse at parsed
  split at parsed
  next => cases parsed
  next start _ =>
    obtain ⟨⟨events', rest⟩, valueParsed, ended⟩ := bind_eq_ok_iff.mp parsed
    obtain ⟨text, value, isValue, remains, builds⟩ := (sound _).value valueParsed
    obtain ⟨ws', blank', whole'⟩ := exists_blank rest
    dsimp only at ended
    split at ended
    next nothing =>
      cases ended
      rw [nothing, List.append_nil] at whole'
      rw [remains, ← List.append_assoc, whole'] at whole
      rw [whole]
      exact ⟨value, .document blank isValue blank', builds⟩
    next => cases ended

theorem parse_complete {is : Str} {value : Value} (isText : JsonText strtod is value) :
    ∃ events, parse strtod is = .ok events ∧ Builds events [value] := by
  cases isText with
  | @document ws text ws' _ blank root blank' =>
    obtain ⟨c, tail, first, _⟩ := exists_valueStart root
    have skipped : skipWhitespace (ws ++ text ++ ws') = text ++ ws' := by
      rw [List.append_assoc]
      exact skipWhitespace_append blank (ends_blank_value root ws')
    -- Behind the root are blanks and the end of the stream.
    have stops : Ends isNumberChar (ws' ++ []) := ends_number_blank blank' ends_nil
    rw [List.append_nil] at stops
    have enough : 2 * text.length ≤ 2 * (text ++ ws').length + 2 := by
      rw [List.length_append]
      omega
    obtain ⟨events, parsed, builds⟩ := (complete _).value root enough fun _ => stops
    have nothing : skipWhitespace ws' = [] := by
      have skipped' := skipWhitespace_append blank' ends_nil
      rwa [List.append_nil] at skipped'
    refine ⟨events, ?_, builds⟩
    unfold parse
    rw [skipped]
    split
    -- A text has a value in it.
    next empty =>
      rw [first] at empty
      cases empty
    next start _ =>
      rw [parsed]
      dsimp only [ok_bind]
      rw [nothing]
      rfl

end Ns3Blockchain.Rapidjson.Reader

namespace Ns3Blockchain.Rapidjson.Document

open Library

variable (strtod : Str → Option ℚ)

theorem parse_of_reader {str : Str} {events : List Event} {value : Value}
    (parsed : Reader.parse strtod str.cStr = .ok events) (builds : Builds events [value]) :
    parse strtod str = .ok (some value) := by
  unfold parse
  rw [parsed]
  simp [builds []]

theorem parse_text {str : Str} {value : Value} (isText : JsonText strtod str.cStr value) :
    parse strtod str = .ok (some value) := by
  obtain ⟨events, parsed, builds⟩ := Reader.parse_complete isText
  exact parse_of_reader strtod parsed builds

/-- What a string that is not a text does: the document stays null. -/
theorem parse_cases (str : Str) :
    parse strtod str = .ok none ∨
      ∃ value, parse strtod str = .ok (some value) ∧ JsonText strtod str.cStr value := by
  cases parsed : Reader.parse strtod str.cStr with
  | error reason =>
    refine .inl ?_
    unfold parse
    rw [parsed]
    cases reason with
    | fault failure =>
      cases failure with
      | parseError _ _ => rfl
      | jsonAssert => exact absurd parsed (Reader.avoids_parse .jsonAssert str.cStr)
    | outOfFuel => exact absurd parsed (Reader.avoids_parse .outOfFuel str.cStr)
  | ok events =>
    obtain ⟨value, isText, builds⟩ := Reader.parse_sound parsed
    exact .inr ⟨value, parse_of_reader strtod parsed builds, isText⟩

theorem parse_eq_some_iff {str : Str} {value : Value} :
    parse strtod str = .ok (some value) ↔ JsonText strtod str.cStr value := by
  constructor
  · intro found
    obtain failed | ⟨value', read, isText⟩ := parse_cases strtod str
    · rw [failed] at found
      cases found
    · rw [read] at found
      cases found
      exact isText
  · exact parse_text strtod

/-! ## Main result -/

/-- `Parse` always ends, meets no assertion, and makes a document of a string exactly
    when its characters up to the terminator are a text of that document. -/
theorem parse_reads_texts (str : Str) :
    (∃ document, parse strtod str = .ok document) ∧
      ∀ value, parse strtod str = .ok (some value) ↔ JsonText strtod str.cStr value := by
  refine ⟨?_, fun value => parse_eq_some_iff strtod⟩
  obtain failed | ⟨value, read, _⟩ := parse_cases strtod str
  · exact ⟨none, failed⟩
  · exact ⟨some value, read⟩

end Ns3Blockchain.Rapidjson.Document
