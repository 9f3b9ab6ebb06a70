import Ns3Blockchain.Model.Events

/-! # `writer.h`

A `Writer` knows where it is by a stack of levels: every value that is not a root
counts in the level above it, and the count says which delimiter goes before the
next one.
-/

namespace Ns3Blockchain.Rapidjson

/-- A `double` that is not a number, or infinite. -/
inductive NonFinite where
  | nan
  | inf (negative : Bool)

/-- A `GenericValue` as a program may build it; the reader makes no `double` that is not
    finite, so a `Value` has none. -/
inductive Tree where
  | null
  | bool (b : Bool)
  | int (z : Int)
  | double (d : ℚ)
  | nonFinite (d : NonFinite)
  | string (s : Str)
  | array (elements : List Tree)
  | object (members : List (Str × Tree))

structure Level where
  valueCount : Nat
  inArray : Bool
deriving DecidableEq

structure Writer where
  os : Str
  /-- The top comes first. -/
  levelStack : List Level
  hasRoot : Bool
deriving DecidableEq

namespace Writer

/-- A call on a `Writer`. -/
inductive Call where
  | event (event : Event)
  /-- `Double(d)` for the other doubles. -/
  | nonFinite (d : NonFinite)
  | rawNumber (str : Str)
  /-- Of its type `RawValue` asks only whether it is `kStringType`. -/
  | rawValue (json : Str) (isString : Bool)
  /-- `Reset(os)` with an empty buffer. -/
  | reset

/-- `Writer(buffer)` on an empty buffer. -/
def new : Writer where
  os := []
  levelStack := []
  hasRoot := false

/-- `Prefix(type)`; a type other than `kStringType` cannot be a name. -/
def putPrefix (writer : Writer) (isString : Bool) : Exec Writer :=
  match writer.levelStack with
  | level :: levels =>
    let os :=
      if 0 < level.valueCount then
        if level.inArray then
          writer.os ++ [',']
        else
          writer.os ++ [if level.valueCount % 2 = 0 then ',' else ':']
      else
        writer.os
    if level.inArray = false ∧ level.valueCount % 2 = 0 ∧ isString = false then
      .error .jsonAssert
    else
      .ok { writer with os, levelStack := { level with valueCount := level.valueCount + 1 } :: levels }
  | [] =>
    if writer.hasRoot then
      .error .jsonAssert
    else
      .ok { writer with hasRoot := true }

/-- `Prefix` and the characters of a value; `EndValue` flushes a buffer that needs no
    flush. -/
def putValue (writer : Writer) (isString : Bool) (text : Str) : Exec Writer := do
  let writer ← writer.putPrefix isString
  return { writer with os := writer.os ++ text }

/-- `Prefix`, `Push<Level>()` and the opening bracket. -/
def putStart (writer : Writer) (inArray : Bool) (bracket : Char) : Exec Writer := do
  let writer ← writer.putPrefix false
  return {
    writer with
    os := writer.os ++ [bracket]
    levelStack := { valueCount := 0, inArray } :: writer.levelStack }

/-- `Pop<Level>(1)` and the closing bracket. -/
def putEnd (writer : Writer) (levels : List Level) (bracket : Char) : Writer :=
  { writer with os := writer.os ++ [bracket], levelStack := levels }

-- `internal::dtoa`
variable (dtoa : ℚ → Str)

/-- The implementation of `Handler`, in the calls that return `true`. -/
def handle (writer : Writer) : Event → Exec Writer
  | .null => writer.putValue false "null".toList
  | .bool b => writer.putValue false (if b then "true".toList else "false".toList)
  | .int i => writer.putValue false (i32toa i)
  | .uint u => writer.putValue false (u32toa u)
  | .int64 i64 => writer.putValue false (i64toa i64)
  | .uint64 u64 => writer.putValue false (u64toa u64)
  | .double d => writer.putValue false (dtoa d)
  | .string str => writer.putValue true (writeString str)
  | .key str => writer.putValue true (writeString str)
  | .startObject => writer.putStart false '\x7b'
  | .endObject _ =>
    match writer.levelStack with
    | level :: levels =>
      if level.inArray = false ∧ level.valueCount % 2 = 0 then
        .ok (writer.putEnd levels '\x7d')
      else
        .error .jsonAssert
    | [] => .error .jsonAssert
  | .startArray => writer.putStart true '['
  | .endArray _ =>
    match writer.levelStack with
    | level :: levels =>
      if level.inArray then
        .ok (writer.putEnd levels ']')
      else
        .error .jsonAssert
    | [] => .error .jsonAssert

/-- A call, with what it returns. -/
def call (writer : Writer) : Call → Exec (Bool × Writer)
  | .event event => do
    let writer ← writer.handle dtoa event
    return (true, writer)
  -- `kWriteNanAndInfFlag` is not set: `WriteDouble` returns before it writes.
  | .nonFinite _ => do
    let writer ← writer.putPrefix false
    return (false, writer)
  | .rawNumber str => do
    let writer ← writer.putValue false (writeString str)
    return (true, writer)
  | .rawValue json isString => do
    let writer ← writer.putValue isString json
    if nul ∈ json then .error .jsonAssert else return (true, writer)
  | .reset => return (true, new)

/-- `if (!first) return false;` before `next`. -/
def andThen (first : Exec (Bool × Writer)) (next : Writer → Exec (Bool × Writer)) :
    Exec (Bool × Writer) := do
  let (succeeded, writer) ← first
  if succeeded then next writer else return (false, writer)

mutual

/-- `value.Accept(writer)`. -/
def accept : Tree → Writer → Exec (Bool × Writer)
  | .null, writer => writer.call dtoa (.event .null)
  | .bool b, writer => writer.call dtoa (.event (.bool b))
  | .object members, writer =>
    andThen (writer.call dtoa (.event .startObject)) fun writer =>
      andThen (acceptMembers members writer) fun writer =>
        writer.call dtoa (.event (.endObject members.length))
  | .array elements, writer =>
    andThen (writer.call dtoa (.event .startArray)) fun writer =>
      andThen (acceptElements elements writer) fun writer =>
        writer.call dtoa (.event (.endArray elements.length))
  | .string s, writer => writer.call dtoa (.event (.string s))
  | .double d, writer => writer.call dtoa (.event (.double d))
  | .nonFinite d, writer => writer.call dtoa (.nonFinite d)
  | .int z, writer => writer.call dtoa (.event (Value.acceptNumber z))

/-- The loop over the members. -/
def acceptMembers : List (Str × Tree) → Writer → Exec (Bool × Writer)
  | [], writer => return (true, writer)
  | (name, value) :: members, writer =>
    andThen (writer.call dtoa (.event (.key name))) fun writer =>
      andThen (accept value writer) fun writer => acceptMembers members writer

/-- The loop over the elements. -/
def acceptElements : List Tree → Writer → Exec (Bool × Writer)
  | [], writer => return (true, writer)
  | element :: elements, writer =>
    andThen (accept element writer) fun writer => acceptElements elements writer

end

end Writer

end Ns3Blockchain.Rapidjson
