import Ns3Blockchain.Model.Machine
import Ns3Blockchain.Library.Decimal

/-! # rapidjson

A `Value` is the tree of a parsed document; the members of an object keep their
order and may repeat a name.  An accessor whose precondition fails stops in
`RAPIDJSON_ASSERT`.
-/

namespace Ns3Blockchain.Rapidjson

open Library

inductive Value where
  | null
  | bool (b : Bool)
  /-- A number of any of the integer types. -/
  | int (z : Int)
  | double (d : ℚ)
  | string (s : Str)
  | array (elements : List Value)
  | object (members : List (Str × Value))

namespace Value

def isObject : Value → Bool
  | .object _ => true
  | _ => false

def findMember (value : Value) (name : Str) : Option Value :=
  match value with
  | .object members => (members.find? fun entry => entry.1 == name).map Prod.snd
  | _ => none

/-- The value, or the assertion that it is there. -/
def require {α : Type} : Option α → Exec α
  | some a => .ok a
  | none => .error .jsonAssert

/-- `operator[](const Ch *name)`. -/
def member (value : Value) (name : Str) : Exec Value := require (value.findMember name)

def array? : Value → Option (List Value)
  | .array elements => some elements
  | _ => none

/-- What `Size()` and `operator[](SizeType)` read. -/
def elements (value : Value) : Exec (List Value) := require value.array?

/-- An integer of the `int` range carries `kIntFlag`. -/
def int? : Value → Option CInt
  | .int z => BoundedInt.ofInt? (-2147483648) 2147483647 z
  | _ => none

def getInt (value : Value) : Exec CInt := require value.int?

/-- A number of any type.  The rounding of an integer beyond 2^53 to a `double` is left
    out: the number stays exact. -/
def double? : Value → Option ℚ
  | .int z => some z
  | .double d => some d
  | _ => none

def getDouble (value : Value) : Exec ℚ := require value.double?

def string? : Value → Option Str
  | .string s => some s
  | _ => none

def getString (value : Value) : Exec Str := require value.string?

/-- `AddMember`. -/
def addMember (value : Value) (name : Str) (added : Value) : Exec Value :=
  match value with
  | .object members => .ok (.object (members ++ [(name, added)]))
  | _ => .error .jsonAssert

/-- `RemoveMember(MemberIterator m)`: the last member takes the place of `m`. -/
def removeAt (members : List (Str × Value)) (m : Nat) : List (Str × Value) :=
  match members.getLast? with
  | some last => (members.set m last).dropLast
  | none => members

/-- `RemoveMember(const Ch *name)`. -/
def removeMember (value : Value) (name : Str) : Exec Value :=
  match value with
  | .object members =>
    match members.findIdx? fun entry => entry.1 == name with
    | some m => .ok (.object (removeAt members m))
    | none => .ok (.object members)
  | _ => .error .jsonAssert

end Value

/-! ## `Writer` -/

def hexDigits : List Char := "0123456789ABCDEF".toList

/-- The text of one character inside a string. -/
def escape (c : Char) : Str :=
  if c.toNat < 32 then
    match c.toNat with
    | 8 => "\\b".toList
    | 9 => "\\t".toList
    | 10 => "\\n".toList
    | 12 => "\\f".toList
    | 13 => "\\r".toList
    | n => "\\u00".toList ++ [hexDigits.getD (n / 16) '0', hexDigits.getD (n % 16) '0']
  else if c = '"' ∨ c = '\\' then
    ['\\', c]
  else
    [c]

def writeString (s : Str) : Str := '"' :: s.flatMap escape ++ ['"']

section

-- `internal::dtoa`
variable (dtoa : ℚ → Str)

mutual

/-- `document.Accept(writer)`. -/
def write : Value → Str
  | .null => "null".toList
  | .bool true => "true".toList
  | .bool false => "false".toList
  | .int z => Decimal.print z
  | .double d => dtoa d
  | .string s => writeString s
  | .array elements => '[' :: writeElements elements ++ [']']
  | .object members => '\x7b' :: writeMembers members ++ ['\x7d']

def writeElements : List Value → Str
  | [] => []
  | [element] => write element
  | element :: elements => write element ++ ',' :: writeElements elements

def writeMembers : List (Str × Value) → Str
  | [] => []
  | [(name, value)] => writeString name ++ ':' :: write value
  | (name, value) :: members =>
    writeString name ++ ':' :: write value ++ ',' :: writeMembers members

end

end

/-! ## Accessors -/

namespace Value

theorem require_eq_ok_iff {α : Type} {value : Option α} {a : α} :
    require value = .ok a ↔ value = some a := by
  cases value with
  | none => simp [require]
  | some b => simp [require]

@[simp] theorem require_some {α : Type} (a : α) : require (some a) = .ok a := rfl

theorem member_eq_ok_iff {value found : Value} {name : Str} :
    value.member name = .ok found ↔ value.findMember name = some found :=
  require_eq_ok_iff

theorem elements_eq_ok_iff {value : Value} {found : List Value} :
    value.elements = .ok found ↔ value = .array found := by
  rw [elements, require_eq_ok_iff]
  cases value <;> simp [array?]

@[simp] theorem elements_array (found : List Value) : (Value.array found).elements = .ok found := rfl

theorem getInt_eq_ok_iff {value : Value} {z : CInt} :
    value.getInt = .ok z ↔ value = .int z.val := by
  rw [getInt, require_eq_ok_iff]
  cases value with
  | int y => rw [int?, BoundedInt.ofInt?_eq_some_iff, Value.int.injEq, eq_comm]
  | null | bool | double | string | array | object => simp [int?]

@[simp] theorem getInt_int (z : CInt) : (Value.int z.val).getInt = .ok z :=
  getInt_eq_ok_iff.mpr rfl

theorem removeMember_of_isObject {value : Value} (object : value.isObject = true) (name : Str) :
    ∃ members, value.removeMember name = .ok (.object members) := by
  cases value with
  | object members =>
    unfold removeMember
    dsimp only
    split
    next m _ => exact ⟨removeAt members m, rfl⟩
    next => exact ⟨members, rfl⟩
  | null | bool | int | double | string | array => cases object

theorem getString_eq_ok_iff {value : Value} {s : Str} :
    value.getString = .ok s ↔ value = .string s := by
  rw [getString, require_eq_ok_iff]
  cases value <;> simp [string?]

end Value

end Ns3Blockchain.Rapidjson
