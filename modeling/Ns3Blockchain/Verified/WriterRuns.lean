import Ns3Blockchain.Verified.JsonPrefixes

/-! # Any calls on a `Writer`

`Accept` is one caller of a `Writer`; another may call it in any order.  Whatever the
calls, as long as none meets an assertion and none returns `false` the writer is
somewhere in the text of a value: before it, at its end, or inside arrays and objects
that are still open.
-/

namespace Ns3Blockchain.Rapidjson

open Library

def Value.isString : Value → Bool
  | .string _ => true
  | _ => false

namespace Writer

/-! ## Open arrays and objects -/

/-- An array or an object that waits for the value being written inside it.  Of what is
    inside already there are the texts. -/
inductive Hole where
  | array (elements : List Str)
  | object (members : List (Str × Str)) (name : Str)

/-- The innermost array or object: in an object the next string is a name, or the next
    value is that of a name. -/
inductive Opened where
  | array (elements : List Str)
  | object (members : List (Str × Str))
  | named (members : List (Str × Str)) (name : Str)

def Hole.fill (text : Str) : Hole → Opened
  | .array elements => .array (elements ++ [text])
  | .object members name => .object (members ++ [(name, text)])

def Hole.level : Hole → Level
  | .array elements => ⟨elements.length + 1, true⟩
  | .object members _ => ⟨2 * (members.length + 1), false⟩

def Opened.level : Opened → Level
  | .array elements => ⟨elements.length, true⟩
  | .object members => ⟨2 * members.length, false⟩
  | .named members _ => ⟨2 * members.length + 1, false⟩

def Hole.text : Hole → Str
  | .array elements => '[' :: elementsAfter 0 elements ++ comma elements.length
  | .object members name =>
    '\x7b' :: membersAfter 0 members ++ comma members.length ++ name ++ [':']

def Opened.text : Opened → Str
  | .array elements => '[' :: elementsAfter 0 elements
  | .object members => '\x7b' :: membersAfter 0 members
  | .named members name => '\x7b' :: membersAfter 0 members ++ comma members.length ++ name

def arrayText (elements : List Str) : Str := '[' :: elementsAfter 0 elements ++ [']']

def objectText (members : List (Str × Str)) : Str := '\x7b' :: membersAfter 0 members ++ ['\x7d']

section

variable (P Q : Str → Prop)

end

variable {P Q : Str → Prop}

variable {dtoa : ℚ → Str}

def IsValueText (strtod : Str → Option ℚ) (text : Str) : Prop := ∃ value, ValueText strtod text value

def IsStringText (text : Str) : Prop := ∃ str, StringText text str

section

variable {strtod : Str → Option ℚ}

end

/-! ## Texts that are written -/

/-- The text of the array or object if it ended here, a missing value being null. -/
def Opened.close : Opened → Str
  | .array elements => arrayText elements
  | .object members => objectText members
  | .named members name => objectText (members ++ [(name, "null".toList)])

section

variable {strtod : Str → Option ℚ}

end

/-! ## Main result -/

/-- What a caller of `RawValue` has to give: the text of a value, and of a string when
    the type says so. -/
def Call.WellFormed (strtod : Str → Option ℚ) : Call → Prop
  | .rawValue json isString =>
    IsValueText strtod json ∧ (isString = true → IsStringText json)
  | _ => True

end Writer

end Ns3Blockchain.Rapidjson
