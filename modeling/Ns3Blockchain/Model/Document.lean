import Ns3Blockchain.Model.Reader

/-! # `document.h`

`GenericDocument` as the handler of a parse: finished values are stacked, and the
event that ends an array or an object moves what belongs to it below.
-/

namespace Ns3Blockchain.Rapidjson

open Library

namespace Document

/-- `stack_.Pop<ValueType>(count)`, the values in the order they were pushed; the stack
    has its top first. -/
def pop (count : Nat) (stack : List Value) : Exec (List Value × List Value) :=
  if count ≤ stack.length then
    .ok ((stack.take count).reverse, stack.drop count)
  else
    .error .jsonAssert

/-- The values as an array of `Member`, two values each.  The reader pushes the name of
    a member through `Key`, so it is a string. -/
def toMembers : List Value → List (Str × Value)
  | .string name :: value :: values => (name, value) :: toMembers values
  | _ => []

/-- `Top<ValueType>()->SetArrayRaw(..)` and `SetObjectRaw(..)`. -/
def setTop (stack : List Value) (value : Value) : Exec (List Value) :=
  match stack with
  | _ :: stack => .ok (value :: stack)
  | [] => .error .jsonAssert

/-- The implementation of `Handler`. -/
def handle (stack : List Value) : Event → Exec (List Value)
  | .null => .ok (.null :: stack)
  | .bool b => .ok (.bool b :: stack)
  | .int i => .ok (.int i.val :: stack)
  | .uint i => .ok (.int i.toNat :: stack)
  | .int64 i => .ok (.int i.val :: stack)
  | .uint64 i => .ok (.int i.toNat :: stack)
  | .double d => .ok (.double d :: stack)
  | .string str => .ok (.string str :: stack)
  | .startObject => .ok (.object [] :: stack)
  | .key str => .ok (.string str :: stack)
  | .endObject memberCount => do
    let (values, stack) ← pop (2 * memberCount) stack
    setTop stack (.object (toMembers values))
  | .startArray => .ok (.array [] :: stack)
  | .endArray elementCount => do
    let (elements, stack) ← pop elementCount stack
    setTop stack (.array elements)

section

-- `internal::StrtodNormalPrecision` on the digits of a literal
variable (strtod : Str → Option ℚ)

/-- `document.Parse(str)` on a null document, with the document it leaves; `none` is a
    parse error. -/
def parse (str : Str) : Except (Stop Fault) (Option Value) :=
  match Reader.parse strtod str.cStr with
  | .error .outOfFuel => .error .outOfFuel
  | .error (.fault (.parseError _ _)) => .ok none
  | .error (.fault .jsonAssert) => .error (.fault .jsonAssert)
  | .ok events =>
    match foldChecked handle [] events with
    | .ok [value] => .ok (some value)
    -- Got one and only one root object
    | .ok _ => .error (.fault .jsonAssert)
    | .error reason => .error (.fault reason)

end

end Document

end Ns3Blockchain.Rapidjson
