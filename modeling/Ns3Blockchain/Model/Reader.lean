import Ns3Blockchain.Model.Events
import Ns3Blockchain.Library.Loop

/-! # `reader.h`

`GenericReader` with the flags of `kParseNoFlags`.  The stream is the characters that
are left before the terminator, so at its end `Peek` is `'\0'`.  The events before an
error are not returned: the handler of this repository drops what they built.
-/

namespace Ns3Blockchain.Rapidjson

open Library

/-- The errors of a parse that no handler ends. -/
inductive ParseErrorCode where
  | documentEmpty
  | documentRootNotSingular
  | valueInvalid
  | objectMissName
  | objectMissColon
  | objectMissCommaOrCurlyBracket
  | arrayMissCommaOrSquareBracket
  | stringUnicodeEscapeInvalidHex
  | stringUnicodeSurrogateInvalid
  | stringEscapeInvalid
  | stringMissQuotationMark
  | stringInvalidEncoding
  | numberTooBig
  | numberMissFraction
  | numberMissExponent
deriving DecidableEq

/-- What ends a parse early. -/
inductive ParseFailure where
  /-- `RAPIDJSON_PARSE_ERROR`, with the stream at the offset of the error. -/
  | parseError (code : ParseErrorCode) (is : Str)
  | jsonAssert
deriving DecidableEq

/-- The events of a part of the text, and the stream behind it. -/
abbrev Parsed := List Event × Str

namespace Reader

/-! ## The stream -/

def isWhitespace (c : Char) : Bool := c = ' ' ∨ c = '\n' ∨ c = '\r' ∨ c = '\t'

def skipWhitespace (is : Str) : Str := is.dropWhile isWhitespace

def consume (expect : Char) : Str → Option Str
  | c :: is => if c = expect then some is else none
  | [] => none

/-- `Consume(is, ..) && Consume(is, ..) && ..`. -/
def consumeAll : Str → Str → Bool × Str
  | [], is => (true, is)
  | expect :: expected, is =>
    match consume expect is with
    | some is => consumeAll expected is
    | none => (false, is)

/-! ## Literals -/

/-- `ParseNull`, `ParseTrue` and `ParseFalse` behind their first character. -/
def parseLiteral (expected : Str) (event : Event) (is : Str) : Except ParseFailure Parsed :=
  match consumeAll expected is with
  | (true, is) => .ok ([event], is)
  | (false, is) => .error (.parseError .valueInvalid is)

def parseNull : Str → Except ParseFailure Parsed := parseLiteral "ull".toList .null

def parseTrue : Str → Except ParseFailure Parsed := parseLiteral "rue".toList (.bool true)

def parseFalse : Str → Except ParseFailure Parsed := parseLiteral "alse".toList (.bool false)

/-! ## Strings -/

/-- The digit `ParseHex4` adds to the code point. -/
def hexDigit? (c : Char) : Option Nat :=
  if '0' ≤ c ∧ c ≤ '9' then
    some (c.toNat - '0'.toNat)
  else if 'A' ≤ c ∧ c ≤ 'F' then
    some (c.toNat - ('A'.toNat - 10))
  else if 'a' ≤ c ∧ c ≤ 'f' then
    some (c.toNat - ('a'.toNat - 10))
  else
    none

/-- The loop of `ParseHex4`, with the iterations it has left. -/
def hexDigitsFrom : Nat → Nat → Str → Option (Nat × Str)
  | 0, codepoint, is => some (codepoint, is)
  | _ + 1, _, [] => none
  | left + 1, codepoint, c :: is =>
    match hexDigit? c with
    | some digit => hexDigitsFrom left ((codepoint <<< 4) + digit) is
    | none => none

def parseHex4 (escapeOffset is : Str) : Except ParseFailure (Nat × Str) :=
  match hexDigitsFrom 4 0 is with
  | some result => .ok result
  | none => .error (.parseError .stringUnicodeEscapeInvalidHex escapeOffset)

/-- `static_cast<Ch>(byte)`. -/
def byte (n : Nat) : Char := Char.ofNat n

/-- `UTF8<>::Encode`. -/
def encode (codepoint : Nat) : Except ParseFailure Str :=
  if codepoint ≤ 0x7F then
    .ok [byte (codepoint &&& 0xFF)]
  else if codepoint ≤ 0x7FF then
    .ok [byte (0xC0 ||| ((codepoint >>> 6) &&& 0xFF)), byte (0x80 ||| (codepoint &&& 0x3F))]
  else if codepoint ≤ 0xFFFF then
    .ok [
      byte (0xE0 ||| ((codepoint >>> 12) &&& 0xFF)), byte (0x80 ||| ((codepoint >>> 6) &&& 0x3F)),
      byte (0x80 ||| (codepoint &&& 0x3F))
    ]
  else if codepoint ≤ 0x10FFFF then
    .ok [
      byte (0xF0 ||| ((codepoint >>> 18) &&& 0xFF)), byte (0x80 ||| ((codepoint >>> 12) &&& 0x3F)),
      byte (0x80 ||| ((codepoint >>> 6) &&& 0x3F)), byte (0x80 ||| (codepoint &&& 0x3F))
    ]
  else
    .error .jsonAssert

/-- The `Unicode` branch, behind the `u`: the code point. -/
def parseUnicode (escapeOffset is : Str) : Except ParseFailure (Nat × Str) := do
  let (codepoint, is) ← parseHex4 escapeOffset is
  if 0xD800 ≤ codepoint ∧ codepoint ≤ 0xDBFF then
    match consumeAll "\\u".toList is with
    | (false, _) => .error (.parseError .stringUnicodeSurrogateInvalid escapeOffset)
    | (true, is) =>
      let (codepoint2, is) ← parseHex4 escapeOffset is
      if codepoint2 < 0xDC00 ∨ 0xDFFF < codepoint2 then
        .error (.parseError .stringUnicodeSurrogateInvalid escapeOffset)
      else
        .ok ((((codepoint - 0xD800) <<< 10) ||| (codepoint2 - 0xDC00)) + 0x10000, is)
  else
    .ok (codepoint, is)

/-- The table `escape`. -/
def unescape? : Char → Option Char
  | '"' => some '"'
  | '/' => some '/'
  | '\\' => some '\\'
  | 'b' => some (Char.ofNat 8)
  | 'f' => some (Char.ofNat 12)
  | 'n' => some '\n'
  | 'r' => some '\r'
  | 't' => some '\t'
  | _ => none

/-- The `Escape` branch, behind the backslash at `escapeOffset`: what goes to `os`. -/
def parseEscape (escapeOffset is : Str) : Except ParseFailure (Str × Str) :=
  match is with
  | [] => .error (.parseError .stringEscapeInvalid escapeOffset)
  | e :: is =>
    match unescape? e with
    | some c => .ok ([c], is)
    | none =>
      if e = 'u' then do
        let (codepoint, is) ← parseUnicode escapeOffset is
        let chars ← encode codepoint
        return (chars, is)
      else
        .error (.parseError .stringEscapeInvalid escapeOffset)

structure StringRun where
  os : Str
  is : Str
deriving DecidableEq

/-- One pass of the loop of `ParseStringToStream`; `none` is the closing quote. -/
def stringStep (run : StringRun) : Except ParseFailure (Option StringRun) :=
  match run.is with
  | [] => .error (.parseError .stringMissQuotationMark [])
  | c :: is =>
    if c = '\\' then do
      let (chars, is) ← parseEscape run.is is
      return some { os := run.os ++ chars, is }
    else if c = '"' then
      .ok none
    else if c.toNat < 0x20 then
      .error (.parseError .stringInvalidEncoding run.is)
    else
      .ok (some { os := run.os ++ [c], is })

/-- `ParseString` behind the opening quote: the characters of the string. -/
def parseString (is : Str) : Except (Stop ParseFailure) (Str × Str) := do
  let run ← runLoop stringStep (is.length + 1) { os := [], is }
  return (run.os, run.is.tail)

/-! ## Numbers -/

/-- A digit loop of `ParseNumber` on an unsigned integer of `size` values: it breaks at a
    digit that would go past ten times `bound` and `last`. -/
def digitLoop (size bound : Nat) (last : Char) : Nat → Str → Nat × Bool × Str
  | i, [] => (i, false, [])
  | i, c :: is =>
    if c.isDigit then
      if bound ≤ i ∧ (i ≠ bound ∨ last < c) then
        (i, true, c :: is)
      else
        digitLoop size bound last ((i * 10 + (c.toNat - '0'.toNat)) % size) is
    else
      (i, false, c :: is)

/-- The loops on `i`: 2^31 = 2147483648, 2^32 - 1 = 4294967295. -/
def digitLoop32 (minus : Bool) : Nat → Str → Nat × Bool × Str :=
  if minus then digitLoop 4294967296 214748364 '8' else digitLoop 4294967296 429496729 '5'

/-- The loops on `i64`: 2^63 = 9223372036854775808, 2^64 - 1 = 18446744073709551615. -/
def digitLoop64 (minus : Bool) : Nat → Str → Nat × Bool × Str :=
  if minus then
    digitLoop 18446744073709551616 0x0CCCCCCCCCCCCCCC '8'
  else
    digitLoop 18446744073709551616 0x1999999999999999 '5'

/-- The number read so far. -/
structure Significand where
  i : Nat
  i64 : Nat
  use64bit : Bool
  useDouble : Bool
deriving DecidableEq

def skipDigits (s : Str) : Str := s.dropWhile Char.isDigit

/-- `Peek() >= '0' && Peek() <= '9'`. -/
def peekDigit : Str → Bool
  | c :: _ => c.isDigit
  | [] => false

/-- `Parse minus`. -/
def parseMinus (s : Str) : Bool × Str :=
  match consume '-' s with
  | some s => (true, s)
  | none => (false, s)

/-- From `Parse int` to `Force double for big integer`. -/
def parseInt (minus : Bool) (s : Str) : Except ParseFailure (Significand × Str) :=
  match s with
  | [] => .error (.parseError .valueInvalid s)
  | c :: is =>
    if c = '0' then
      .ok ({ i := 0, i64 := 0, use64bit := false, useDouble := false }, is)
    else if c.isDigit then
      match digitLoop32 minus (c.toNat - '0'.toNat) is with
      | (i, false, is) => .ok ({ i, i64 := 0, use64bit := false, useDouble := false }, is)
      | (i, true, is) =>
        match digitLoop64 minus i is with
        | (i64, false, is) => .ok ({ i, i64, use64bit := true, useDouble := false }, is)
        | (i64, true, is) => .ok ({ i, i64, use64bit := true, useDouble := true }, skipDigits is)
    else
      .error (.parseError .valueInvalid s)

/-- `Parse frac`: whether there is one. -/
def parseFrac (s : Str) : Except ParseFailure (Bool × Str) :=
  match consume '.' s with
  | some s => if peekDigit s then .ok (true, skipDigits s) else .error (.parseError .numberMissFraction s)
  | none => .ok (false, s)

/-- The sign of an exponent is optional. -/
def skipSign (s : Str) : Str :=
  match s with
  | '+' :: s => s
  | '-' :: s => s
  | s => s

/-- `Parse exp`: whether there is one. -/
def parseExp (s : Str) : Except ParseFailure (Bool × Str) :=
  match s with
  | [] => .ok (false, s)
  | c :: is =>
    if c = 'e' ∨ c = 'E' then
      let is := skipSign is
      if peekDigit is then .ok (true, skipDigits is) else .error (.parseError .numberMissExponent is)
    else
      .ok (false, s)

section

/- The value of a literal that is read as a `double`, from its text; `none` when it is
   too big for one.  The reader accumulates it in floating point. -/
variable (strtod : Str → Option ℚ)

/-- The event of an integer. -/
def Significand.event (significand : Significand) (minus : Bool) : Event :=
  if significand.use64bit then
    let i64 := UInt64.ofNat significand.i64
    if minus then .int64 (CInt64.ofUInt64 (~~~i64 + 1)) else .uint64 i64
  else
    let i := UInt32.ofNat significand.i
    if minus then .int (CInt.ofUInt32 (~~~i + 1)) else .uint i

def parseNumber (is : Str) : Except ParseFailure Parsed := do
  let (minus, s) := parseMinus is
  let (significand, s) ← parseInt minus s
  let (frac, s) ← parseFrac s
  let (exp, s) ← parseExp s
  if significand.useDouble ∨ frac ∨ exp then
    match strtod (is.take (is.length - s.length)) with
    | some d => .ok ([.double d], s)
    | none => .error (.parseError .numberTooBig is)
  else
    .ok ([significand.event minus], s)

/-! ## Values -/

def fault {α : Type} (code : ParseErrorCode) (is : Str) : Except (Stop ParseFailure) α :=
  .error (.fault (.parseError code is))

/-- A function without a loop that fuel bounds. -/
def bounded {α : Type} : Except ParseFailure α → Except (Stop ParseFailure) α
  | .ok result => .ok result
  | .error error => .error (.fault error)

/-- `ParseArray` behind the bracket; `loop` is the loop from `elementCount = 0`. -/
def parseArray (loop : Str → Except (Stop ParseFailure) Parsed) (is : Str) :
    Except (Stop ParseFailure) Parsed :=
  match consume ']' (skipWhitespace is) with
  | some is => .ok ([.startArray, .endArray 0], is)
  | none => do
    let (events, is) ← loop (skipWhitespace is)
    return (.startArray :: events, is)

/-- `ParseObject` behind the brace; `loop` is the loop from `memberCount = 0`. -/
def parseObject (loop : Str → Except (Stop ParseFailure) Parsed) (is : Str) :
    Except (Stop ParseFailure) Parsed :=
  match consume '\x7d' (skipWhitespace is) with
  | some is => .ok ([.startObject, .endObject 0], is)
  | none => do
    let (events, is) ← loop (skipWhitespace is)
    return (.startObject :: events, is)

mutual

def parseValue : Nat → Str → Except (Stop ParseFailure) Parsed
  | 0, _ => .error .outOfFuel
  | fuel + 1, is =>
    match is with
    | 'n' :: is => bounded (parseNull is)
    | 't' :: is => bounded (parseTrue is)
    | 'f' :: is => bounded (parseFalse is)
    | '"' :: is => do
      let (str, is) ← parseString is
      return ([.string str], is)
    | '\x7b' :: is => parseObject (parseMembers fuel 0) is
    | '[' :: is => parseArray (parseElements fuel 0) is
    | is => bounded (parseNumber strtod is)

/-- The loop of `ParseArray`, from a pass with `elementCount` elements behind it. -/
def parseElements : Nat → Nat → Str → Except (Stop ParseFailure) Parsed
  | 0, _, _ => .error .outOfFuel
  | fuel + 1, elementCount, is => do
    let (events, is) ← parseValue fuel is
    match skipWhitespace is with
    | ',' :: is => do
      let (more, is) ← parseElements fuel (elementCount + 1) (skipWhitespace is)
      return (events ++ more, is)
    | ']' :: is => return (events ++ [.endArray (elementCount + 1)], is)
    | is => fault .arrayMissCommaOrSquareBracket is

/-- The loop of `ParseObject`, from a pass with `memberCount` members behind it. -/
def parseMembers : Nat → Nat → Str → Except (Stop ParseFailure) Parsed
  | 0, _, _ => .error .outOfFuel
  | fuel + 1, memberCount, is =>
    match is with
    | '"' :: is => do
      let (str, is) ← parseString is
      match skipWhitespace is with
      | ':' :: is => do
        let (events, is) ← parseValue fuel (skipWhitespace is)
        match skipWhitespace is with
        | ',' :: is => do
          let (more, is) ← parseMembers fuel (memberCount + 1) (skipWhitespace is)
          return (.key str :: events ++ more, is)
        | '\x7d' :: is => return (.key str :: events ++ [.endObject (memberCount + 1)], is)
        | is => fault .objectMissCommaOrCurlyBracket is
      | is => fault .objectMissColon is
    | is => fault .objectMissName is

end

/-- `Parse(is, handler)`: the events of the document. -/
def parse (is : Str) : Except (Stop ParseFailure) (List Event) :=
  match skipWhitespace is with
  | [] => .error (.fault (.parseError .documentEmpty []))
  | start => do
    let (events, is) ← parseValue strtod (2 * start.length + 2) start
    match skipWhitespace is with
    | [] => return events
    | is => .error (.fault (.parseError .documentRootNotSingular is))

end

end Reader

end Ns3Blockchain.Rapidjson
