import Ns3Blockchain.Verified.JsonText

/-! # Reading strings

`ParseString` accepts the texts of strings and returns what they stand for.  The loop
makes one pass for each character of the text, whatever the length of its escape.
-/

namespace Ns3Blockchain.Rapidjson.Reader

open Library

/-! ## Consumed text -/

theorem consume_eq_some_iff {expect : Char} {is rest : Str} :
    consume expect is = some rest ↔ is = expect :: rest := by
  cases is with
  | nil => simp [consume]
  | cons c is =>
    rw [consume]
    split
    next same => simp [same]
    next different => simp [different]

theorem consumeAll_eq_true_iff {expected is rest : Str} :
    consumeAll expected is = (true, rest) ↔ is = expected ++ rest := by
  induction expected generalizing is with
  | nil => simp [consumeAll]
  | cons expect expected inductionHypothesis =>
    rw [consumeAll]
    split
    next is' taken =>
      rw [consume_eq_some_iff] at taken
      simp [taken, inductionHypothesis]
    next missing =>
      constructor
      · intro absurdity
        cases absurdity
      · rintro rfl
        rw [List.cons_append, consume, if_pos rfl] at missing
        cases missing

/-! ## Tables -/

theorem isWhitespace_iff {c : Char} : isWhitespace c = true ↔ c ∈ blanks := by
  simp only [isWhitespace, blanks, decide_eq_true_iff, List.mem_cons, List.not_mem_nil, or_false]
  tauto

theorem eq_ofNat {c : Char} {n : Nat} (code : c.toNat = n) : c = Char.ofNat n := by
  rw [← code, Char.ofNat_toNat]

/-- The tests of `ParseHex4` find the digits of both cases. -/
theorem hexDigit?_eq_some_iff {c : Char} {n : Nat} : hexDigit? c = some n ↔ HexDigit c n := by
  constructor
  · -- Each of the three ranges of the source is a finite check over its digits.
    have decimal : ∀ n : Fin 10, HexDigit (Char.ofNat (n + 48)) n := by decide
    have upper : ∀ n : Fin 6, HexDigit (Char.ofNat (n + 65)) (n + 10) := by decide
    have lower : ∀ n : Fin 6, HexDigit (Char.ofNat (n + 97)) (n + 10) := by decide
    have bounds {first last : Char} (range : first ≤ c ∧ c ≤ last) :
        first.toNat ≤ c.toNat ∧ c.toNat ≤ last.toNat :=
      ⟨Char.le_def.mp range.1, Char.le_def.mp range.2⟩
    intro known
    unfold hexDigit? at known
    split at known
    next range =>
      have range := bounds range
      simp at known range
      have found := decimal ⟨n, by omega⟩
      rwa [← eq_ofNat (show c.toNat = n + 48 by omega)] at found
    next =>
      split at known
      next range =>
        have range := bounds range
        simp at known range
        have found := upper ⟨n - 10, by omega⟩
        rwa [← eq_ofNat (show c.toNat = n - 10 + 65 by omega), show n - 10 + 10 = n by omega] at found
      next =>
        split at known
        next range =>
          have range := bounds range
          simp at known range
          have found := lower ⟨n - 10, by omega⟩
          rwa [← eq_ofNat (show c.toNat = n - 10 + 97 by omega), show n - 10 + 10 = n by omega]
            at found
        next => cases known
  · -- The other way both tables are run through the source's tests.
    have lower : ∀ n : Fin 16, lowerDigits[n.val]?.bind hexDigit? = some n.val := by decide
    have upper : ∀ n : Fin 16, upperDigits[n.val]?.bind hexDigit? = some n.val := by decide
    intro digit
    have known := lower ⟨n, digit.lt⟩
    have known' := upper ⟨n, digit.lt⟩
    obtain found | found := digit
    · dsimp only at known
      rwa [found] at known
    · dsimp only at known'
      rwa [found] at known'

theorem unescape?_eq_some_iff {e c : Char} : unescape? e = some c ↔ (e, c) ∈ namedEscapes := by
  constructor
  · intro known
    unfold unescape? at known
    split at known
    all_goals cases known
    all_goals decide
  · have table : ∀ entry ∈ namedEscapes, unescape? entry.1 = some entry.2 := by decide
    exact fun listed => table (e, c) listed

/-! ## Hexadecimal digits -/

theorem hexDigitsFrom_succ_eq_some_iff {left codepoint : Nat} {is : Str} {result : Nat × Str} :
    hexDigitsFrom (left + 1) codepoint is = some result ↔
      ∃ c is' digit, is = c :: is' ∧ HexDigit c digit ∧
        hexDigitsFrom left (16 * codepoint + digit) is' = some result := by
  have shifted : codepoint <<< 4 = 16 * codepoint := by
    rw [Nat.shiftLeft_eq, Nat.mul_comm]
  cases is with
  | nil => simp [hexDigitsFrom]
  | cons c is =>
    rw [hexDigitsFrom]
    split
    next digit known => simp [← hexDigit?_eq_some_iff, known, shifted]
    next unknown => simp [← hexDigit?_eq_some_iff, unknown]

theorem parseHex4_eq_ok_iff {escapeOffset is rest : Str} {codepoint : Nat} :
    parseHex4 escapeOffset is = .ok (codepoint, rest) ↔
      ∃ hex, HexText hex codepoint ∧ is = hex ++ rest := by
  have loop : parseHex4 escapeOffset is = .ok (codepoint, rest) ↔
      hexDigitsFrom 4 0 is = some (codepoint, rest) := by
    unfold parseHex4
    split
    next result found => simp [found]
    next missing => simp [missing]
  rw [loop]
  simp only [hexDigitsFrom_succ_eq_some_iff, hexDigitsFrom, Option.some.injEq, Prod.mk.injEq]
  constructor
  · rintro ⟨a, _, k, rfl, first, b, _, l, rfl, second, c, _, m, rfl, third, d, _, n, rfl, fourth,
      value, rfl⟩
    have digits := HexText.digits first second third fourth
    rw [show 4096 * k + 256 * l + 16 * m + n = codepoint by omega] at digits
    exact ⟨_, digits, rfl⟩
  · rintro ⟨_, digits, rfl⟩
    cases digits with
    | digits first second third fourth =>
      exact ⟨_, _, _, rfl, first, _, _, _, rfl, second, _, _, _, rfl, third, _, _, _, rfl, fourth,
        by omega, rfl⟩

/-! ## Escapes -/

theorem pair_eq {lead trail : Nat} (isTrail : Trail trail) :
    (((lead - 0xD800) <<< 10) ||| (trail - 0xDC00)) + 0x10000 =
      0x10000 + 0x400 * (lead - 0xD800) + (trail - 0xDC00) := by
  have low : trail - 0xDC00 < 2 ^ 10 := by
    have upper := isTrail.2
    omega
  rw [← Nat.shiftLeft_add_eq_or_of_lt low, Nat.shiftLeft_eq]
  omega

theorem parseUnicode_eq_ok_iff {escapeOffset is rest : Str} {codepoint : Nat} :
    parseUnicode escapeOffset is = .ok (codepoint, rest) ↔
      ∃ text, UnicodeText text codepoint ∧ is = text ++ rest := by
  constructor
  · intro parsed
    unfold parseUnicode at parsed
    obtain ⟨⟨lead, is'⟩, hexParsed, branch⟩ := bind_eq_ok_iff.mp parsed
    obtain ⟨hex, text, rfl⟩ := parseHex4_eq_ok_iff.mp hexParsed
    dsimp only at branch
    split at branch
    -- A leading surrogate asks for a second escape.
    next isLead =>
      split at branch
      next => cases branch
      next is'' mark =>
        rw [consumeAll_eq_true_iff] at mark
        obtain ⟨⟨trail, rest'⟩, hexParsed', result⟩ := bind_eq_ok_iff.mp branch
        obtain ⟨hex', text', rfl⟩ := parseHex4_eq_ok_iff.mp hexParsed'
        dsimp only at result
        split at result
        next => cases result
        next inside =>
          have isTrail : Trail trail := by
            rw [not_or] at inside
            exact ⟨by omega, by omega⟩
          rw [pair_eq isTrail, Except.ok.injEq, Prod.mk.injEq] at result
          obtain ⟨rfl, rfl⟩ := result
          exact ⟨_, .pair text text' isLead isTrail, by simp [mark]⟩
    next noLead =>
      cases branch
      exact ⟨hex, .single text noLead, rfl⟩
  · rintro ⟨_, point, rfl⟩
    unfold parseUnicode
    cases point with
    -- One escape that is no leading surrogate; a trailing one on its own passes.
    | single text noLead =>
      have first : parseHex4 escapeOffset (_ ++ rest) = .ok (codepoint, rest) :=
        parseHex4_eq_ok_iff.mpr ⟨_, text, rfl⟩
      rw [first, ok_bind]
      exact if_neg noLead
    | pair text text' isLead isTrail =>
      rename_i hex hex' lead trail
      have first : parseHex4 escapeOffset (hex ++ '\\' :: 'u' :: hex' ++ rest) =
          .ok (lead, '\\' :: 'u' :: (hex' ++ rest)) :=
        parseHex4_eq_ok_iff.mpr ⟨hex, text, by simp⟩
      have mark : consumeAll "\\u".toList ('\\' :: 'u' :: (hex' ++ rest)) = (true, hex' ++ rest) :=
        consumeAll_eq_true_iff.mpr rfl
      have second : parseHex4 escapeOffset (hex' ++ rest) = .ok (trail, rest) :=
        parseHex4_eq_ok_iff.mpr ⟨hex', text', rfl⟩
      have inside : ¬ (trail < 0xDC00 ∨ 0xDFFF < trail) := by
        rw [not_or, Nat.not_lt, Nat.not_lt]
        exact isTrail
      have leads : 0xD800 ≤ lead ∧ lead ≤ 0xDBFF := isLead
      simp only [first, ok_bind, leads, and_self, if_true, mark, second, inside, if_false,
        pair_eq isTrail]

/-! ## Bytes -/

theorem and_63 (n : Nat) : n &&& 0x3F = n % 64 := Nat.and_two_pow_sub_one_eq_mod n 6

theorem and_255 (n : Nat) : n &&& 0xFF = n % 256 := Nat.and_two_pow_sub_one_eq_mod n 8

theorem or_tag (tag width : Nat) {n : Nat} (small : n < 2 ^ width) :
    2 ^ width * tag ||| n = 2 ^ width * tag + n := by
  rw [← Nat.two_pow_add_eq_or_of_lt small]

/-- A byte behind the first. -/
theorem continuation_eq (n : Nat) : 0x80 ||| (n &&& 0x3F) = 0x80 + n % 64 := by
  rw [and_63]
  exact or_tag 2 6 (Nat.mod_lt n (by decide))

/-- The first byte of a character of two bytes or more. -/
theorem first_eq (tag width : Nat) {n : Nat} (small : n < 2 ^ width) (narrow : width ≤ 8) :
    2 ^ width * tag ||| (n &&& 0xFF) = 2 ^ width * tag + n := by
  have whole : n < 256 := Nat.lt_of_lt_of_le small (Nat.pow_le_pow_right (by decide) narrow)
  rw [and_255, Nat.mod_eq_of_lt whole]
  exact or_tag tag width small

theorem encode_eq {codepoint : Nat} (inside : codepoint ≤ 0x10FFFF) :
    encode codepoint = .ok (codepointBytes codepoint) := by
  have shifted (n : Nat) : codepoint >>> n = codepoint / 2 ^ n := Nat.shiftRight_eq_div_pow _ _
  unfold encode codepointBytes
  simp only [byte, shifted, continuation_eq]
  by_cases one : codepoint < 0x80
  · rw [if_pos (by omega), if_pos one, and_255, Nat.mod_eq_of_lt (by omega)]
  rw [if_neg (by omega), if_neg one]
  by_cases two : codepoint < 0x800
  · have first : 0xC0 ||| (codepoint / 2 ^ 6 &&& 0xFF) = 0xC0 + codepoint / 2 ^ 6 :=
      first_eq 6 5 (by omega) (by decide)
    rw [if_pos (by omega), if_pos two, first]
    rfl
  rw [if_neg (by omega), if_neg two]
  by_cases three : codepoint < 0x10000
  · have first : 0xE0 ||| (codepoint / 2 ^ 12 &&& 0xFF) = 0xE0 + codepoint / 2 ^ 12 :=
      first_eq 14 4 (by omega) (by decide)
    rw [if_pos (by omega), if_pos three, first]
    rfl
  · have first : 0xF0 ||| (codepoint / 2 ^ 18 &&& 0xFF) = 0xF0 + codepoint / 2 ^ 18 :=
      first_eq 30 3 (by omega) (by decide)
    rw [if_neg (by omega), if_pos inside, if_neg three, first]
    rfl

theorem parseEscape_eq_ok_iff {escapeOffset is chars rest : Str} :
    parseEscape escapeOffset is = .ok (chars, rest) ↔
      ∃ text, EscapeText text chars ∧ is = text ++ rest := by
  constructor
  · intro parsed
    unfold parseEscape at parsed
    split at parsed
    next => cases parsed
    next e is =>
      split at parsed
      next c escaped =>
        cases parsed
        exact ⟨[e], .char (unescape?_eq_some_iff.mp escaped), rfl⟩
      next =>
        split at parsed
        next isUnicode =>
          obtain ⟨⟨codepoint, rest'⟩, unicodeParsed, result⟩ := bind_eq_ok_iff.mp parsed
          obtain ⟨text, point, rfl⟩ := parseUnicode_eq_ok_iff.mp unicodeParsed
          dsimp only at result
          -- A code point of the text is in range: `Encode` meets no assertion.
          rw [encode_eq point.le] at result
          cases result
          exact ⟨e :: text, by rw [isUnicode]; exact .unicode point, rfl⟩
        next => cases parsed
  · rintro ⟨_, escape, rfl⟩
    cases escape with
    | char escaped => simp [parseEscape, unescape?_eq_some_iff.mpr escaped]
    | unicode point =>
      have parsed : parseUnicode escapeOffset (_ ++ rest) = .ok (_, rest) :=
        parseUnicode_eq_ok_iff.mpr ⟨_, point, rfl⟩
      simp [parseEscape, show unescape? 'u' = none from rfl, parsed, encode_eq point.le]

/-! ## The loop -/

/-- A pass copies one character. -/
theorem stringStep_eq_some_iff {run run' : StringRun} :
    stringStep run = .ok (some run') ↔
      ∃ text chars, CharText text chars ∧ run.is = text ++ run'.is ∧ run'.os = run.os ++ chars := by
  obtain ⟨os, is⟩ := run
  obtain ⟨os', is'⟩ := run'
  constructor
  · intro stepped
    unfold stringStep at stepped
    dsimp only at stepped ⊢
    split at stepped
    -- The stream is at its end.
    next => cases stepped
    next c rest =>
      split at stepped
      next backslash =>
        obtain ⟨⟨chars, rest'⟩, parsed, result⟩ := bind_eq_ok_iff.mp stepped
        obtain ⟨text, escape, rfl⟩ := parseEscape_eq_ok_iff.mp parsed
        cases result
        exact ⟨c :: text, chars, by rw [backslash]; exact .escape escape, rfl, rfl⟩
      next noBackslash =>
        split at stepped
        next => cases stepped
        next noQuote =>
          split at stepped
          next => cases stepped
          next printable =>
            cases stepped
            exact ⟨[c], [c], .plain (Nat.le_of_not_lt printable) noQuote noBackslash, rfl, rfl⟩
  · rintro ⟨text, chars, char, sameStream, sameOutput⟩
    dsimp only at sameStream sameOutput
    subst sameStream sameOutput
    cases char with
    -- The three tests of the source, in its order.
    | plain printable noQuote noBackslash =>
      simp [stringStep, noBackslash, noQuote, Nat.not_lt.mpr printable]
    | escape escaped =>
      rename_i text
      have parsed : parseEscape ('\\' :: (text ++ is')) (text ++ is') = .ok (chars, is') :=
        parseEscape_eq_ok_iff.mpr ⟨text, escaped, rfl⟩
      simp [stringStep, parsed]

theorem stringStep_eq_none_iff {run : StringRun} :
    stringStep run = .ok none ↔ ∃ rest, run.is = '"' :: rest := by
  obtain ⟨os, is⟩ := run
  constructor
  · intro stepped
    unfold stringStep at stepped
    dsimp only at stepped ⊢
    split at stepped
    next => cases stepped
    next c rest =>
      split at stepped
      next =>
        -- An escape goes on with the loop, whatever it is.
        obtain ⟨_, _, result⟩ := bind_eq_ok_iff.mp stepped
        cases result
      next =>
        split at stepped
        next quote => exact ⟨rest, by rw [quote]⟩
        next =>
          split at stepped
          next => cases stepped
          next => cases stepped
  · rintro ⟨rest, quote⟩
    dsimp only at quote
    simp [stringStep, quote]

theorem stringStep_lowers (run run' : StringRun) (stepped : stringStep run = .ok (some run')) :
    run'.is.length < run.is.length := by
  obtain ⟨text, chars, char, sameStream, _⟩ := stringStep_eq_some_iff.mp stepped
  rw [sameStream, List.length_append]
  cases char with
  | plain => simp
  | escape => simp

theorem exitsAfter_stringStep_iff {run run' : StringRun} :
    (∃ passes, ExitsAfter stringStep passes run run') ↔
      (∃ body chars, CharsText body chars ∧ run.is = body ++ run'.is ∧
        run'.os = run.os ++ chars) ∧ ∃ rest, run'.is = '"' :: rest := by
  constructor
  · rintro ⟨passes, exits⟩
    -- One pass for each character of the body.
    induction exits with
    | exit quote => exact ⟨⟨[], [], .nil, rfl, by simp⟩, stringStep_eq_none_iff.mp quote⟩
    | pass body _ inductionHypothesis =>
      obtain ⟨text, chars, char, sameStream, sameOutput⟩ := stringStep_eq_some_iff.mp body
      obtain ⟨⟨texts, others, chars', sameRest, sameTail⟩, quote⟩ := inductionHypothesis
      refine ⟨⟨text ++ texts, chars ++ others, .cons char chars', ?_, ?_⟩, quote⟩
      · rw [sameStream, sameRest, List.append_assoc]
      · rw [sameTail, sameOutput, List.append_assoc]
  · rintro ⟨⟨body, chars, inside, sameStream, sameOutput⟩, quote⟩
    -- The output of the passes done moves into the state.
    induction inside generalizing run with
    | nil =>
      have same : run = run' := by
        obtain ⟨os, is⟩ := run
        obtain ⟨os', is'⟩ := run'
        simp_all
      exact ⟨0, same ▸ .exit (stringStep_eq_none_iff.mpr (same ▸ quote))⟩
    | @cons text chars texts others first _ inductionHypothesis =>
      have pass : stringStep run = .ok (some ⟨run.os ++ chars, texts ++ run'.is⟩) :=
        stringStep_eq_some_iff.mpr ⟨text, chars, first, by simp [sameStream], rfl⟩
      have output : run'.os = (StringRun.mk (run.os ++ chars) (texts ++ run'.is)).os ++ others := by
        simp [sameOutput]
      obtain ⟨passes, rest⟩ := inductionHypothesis rfl output
      exact ⟨passes + 1, .pass pass rest⟩

/-! ## Main results -/

theorem parseString_eq_ok_iff {is str rest : Str} :
    parseString is = .ok (str, rest) ↔ ∃ body, CharsText body str ∧ is = body ++ '"' :: rest := by
  constructor
  · intro parsed
    obtain ⟨run, finished, result⟩ := bind_eq_ok_iff.mp parsed
    obtain ⟨passes, _, exits⟩ := runLoop_eq_ok_iff.mp finished
    obtain ⟨⟨body, chars, inside, sameStream, sameOutput⟩, tail, quote⟩ :=
      exitsAfter_stringStep_iff.mp ⟨passes, exits⟩
    dsimp only at sameStream sameOutput
    rw [quote] at sameStream
    rw [pure_eq_ok, sameOutput, quote] at result
    cases result
    exact ⟨body, inside, sameStream⟩
  · rintro ⟨body, inside, rfl⟩
    have quoted : ∃ passes, ExitsAfter stringStep passes ⟨[], body ++ '"' :: rest⟩
        ⟨str, '"' :: rest⟩ :=
      exitsAfter_stringStep_iff.mpr ⟨⟨body, str, inside, rfl, rfl⟩, rest, rfl⟩
    obtain ⟨passes, exits⟩ := quoted
    have few := exits.passes_le (fun run => run.is.length) stringStep_lowers
    have finished := runLoop_eq_ok_iff.mpr ⟨passes, Nat.lt_succ_of_le few, exits⟩
    rw [parseString, finished]
    rfl

/-! ## Ends that no text has -/

theorem avoids_parseHex4 (escapeOffset is : Str) : Avoids .jsonAssert (parseHex4 escapeOffset is) := by
  unfold parseHex4
  split
  next => exact avoids_ok _ _
  next => exact avoids_error_iff.mpr nofun

theorem avoids_parseUnicode (escapeOffset is : Str) :
    Avoids .jsonAssert (parseUnicode escapeOffset is) := by
  refine avoids_bind (avoids_parseHex4 _ _) fun first _ => ?_
  dsimp only
  split
  next =>
    split
    next => exact avoids_error_iff.mpr nofun
    next =>
      refine avoids_bind (avoids_parseHex4 _ _) fun second _ => ?_
      split
      next => exact avoids_error_iff.mpr nofun
      next => exact avoids_ok _ _
  next => exact avoids_ok _ _

theorem avoids_parseEscape (escapeOffset is : Str) :
    Avoids .jsonAssert (parseEscape escapeOffset is) := by
  unfold parseEscape
  split
  next => exact avoids_error_iff.mpr nofun
  next =>
    split
    next => exact avoids_ok _ _
    next =>
      split
      next =>
        refine avoids_bind (avoids_parseUnicode _ _) fun result parsed => ?_
        obtain ⟨codepoint, rest⟩ := result
        obtain ⟨text, point, rfl⟩ := parseUnicode_eq_ok_iff.mp parsed
        dsimp only
        rw [encode_eq point.le]
        exact avoids_ok _ _
      next => exact avoids_error_iff.mpr nofun

theorem avoids_stringStep (run : StringRun) : Avoids .jsonAssert (stringStep run) := by
  unfold stringStep
  split
  next => exact avoids_error_iff.mpr nofun
  next =>
    split
    next => exact avoids_bind (avoids_parseEscape _ _) fun _ _ => avoids_ok _ _
    next =>
      split
      next => exact avoids_ok _ _
      next =>
        split
        next => exact avoids_error_iff.mpr nofun
        next => exact avoids_ok _ _

/-- The ends of a parse that are no error of the text. -/
inductive Abnormal : Stop ParseFailure → Prop where
  | outOfFuel : Abnormal .outOfFuel
  | jsonAssert : Abnormal (.fault .jsonAssert)

theorem avoids_parseString {reason : Stop ParseFailure} (abnormal : Abnormal reason) (is : Str) :
    Avoids reason (parseString is) := by
  refine avoids_bind ?_ fun run _ => avoids_ok _ (run.os, run.is.tail)
  cases abnormal with
  | outOfFuel =>
    exact avoids_runLoop (fun run => run.is.length) stringStep_lowers (Nat.lt_succ_self is.length)
  | jsonAssert => exact avoids_fault_runLoop avoids_stringStep _ _

end Ns3Blockchain.Rapidjson.Reader
