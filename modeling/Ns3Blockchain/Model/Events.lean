import Ns3Blockchain.Model.Itoa
import Ns3Blockchain.Model.Rapidjson

/-! # The handler events

`GenericReader` publishes a document as a sequence of calls on a handler.  The handler
is `GenericDocument`, which returns `true` from every call, so what is published is a
list.  The other publisher, `Accept`, calls a `Writer`, which may return `false`.
-/

namespace Ns3Blockchain.Rapidjson

open Library

/-- A call on a handler; a `double` is a number. -/
inductive Event where
  | null
  | bool (b : Bool)
  | int (i : CInt)
  | uint (u : UInt32)
  | int64 (i64 : CInt64)
  | uint64 (u64 : UInt64)
  | double (d : ℚ)
  | string (str : Str)
  | startObject
  | key (str : Str)
  | endObject (memberCount : Nat)
  | startArray
  | endArray (elementCount : Nat)

/-- The integers a `Value` can hold: those of `int64_t` and of `uint64_t`. -/
def FitsInt64 (z : Int) : Prop := -9223372036854775808 ≤ z ∧ z ≤ 18446744073709551615

namespace Value

/-- The `default` case of `Accept`, for an integer.  The flags `IsInt`, `IsUint` and `IsInt64` test
    say that the number is in the range of the type. -/
def acceptNumber (z : Int) : Event :=
  match BoundedInt.ofInt? (-2147483648) 2147483647 z with
  | some i => .int i
  | none =>
    if 0 ≤ z ∧ z ≤ 4294967295 then
      .uint (UInt32.ofInt z)
    else
      match BoundedInt.ofInt? (-9223372036854775808) 9223372036854775807 z with
      | some i64 => .int64 i64
      | none => .uint64 (UInt64.ofInt z)

end Value

end Ns3Blockchain.Rapidjson
