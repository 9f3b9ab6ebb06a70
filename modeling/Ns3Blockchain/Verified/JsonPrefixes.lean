import Ns3Blockchain.Verified.JsonRoundTrip

/-! # Cut and merged documents

A text shows where it ends, unless it is that of a number.  So nothing but blanks can
stand between a document and the end of what `Parse` accepts: a document that lost its
end is no document, and one with something behind it is no other document.
-/

namespace Ns3Blockchain.Rapidjson

open Library

def Value.isNumber : Value → Bool
  | .int _ => true
  | .double _ => true
  | _ => false

section

variable {strtod : Str → Option ℚ}

/-! ## First characters -/

theorem NumberText.isNumber {text : Str} {value : Value} (isNumber : NumberText strtod text value) :
    value.isNumber = true := by
  cases isNumber with
  | int _ _ => rfl
  | double _ _ _ _ _ => rfl

/-- A text and its value are both a number, or neither is. -/
theorem ValueText.exists_start {text : Str} {value : Value} (isValue : ValueText strtod text value) :
    ∃ c tail, text = c :: tail ∧ Reader.isNumberStart c = value.isNumber := by
  cases isValue with
  | null => exact ⟨_, _, rfl, rfl⟩
  | true => exact ⟨_, _, rfl, rfl⟩
  | false => exact ⟨_, _, rfl, rfl⟩
  | number isNumber =>
    obtain ⟨c, tail, same, start⟩ := Reader.exists_numberStart isNumber
    exact ⟨c, tail, same, by rw [start, isNumber.isNumber]⟩
  | string isString =>
    cases isString with
    | quoted => exact ⟨_, _, rfl, rfl⟩
  | emptyArray => exact ⟨_, _, rfl, rfl⟩
  | array => exact ⟨_, _, rfl, rfl⟩
  | emptyObject => exact ⟨_, _, rfl, rfl⟩
  | object => exact ⟨_, _, rfl, rfl⟩

theorem ValueText.isNumber_eq {text text' rest rest' : Str} {value value' : Value}
    (isValue : ValueText strtod text value) (isValue' : ValueText strtod text' value')
    (same : text ++ rest = text' ++ rest') : value.isNumber = value'.isNumber := by
  obtain ⟨c, tail, rfl, start⟩ := isValue.exists_start
  obtain ⟨c', tail', rfl, start'⟩ := isValue'.exists_start
  have first : c = c' := (List.cons_eq_cons.mp same).1
  rw [← start, ← start', first]

/-! ## Texts of values -/

theorem ValueText.exists_parseValue {text : Str} {value : Value} {fuel : Nat} (rest : Str)
    (isValue : ValueText strtod text value) (notNumber : ¬ value.isNumber)
    (enough : 2 * text.length ≤ fuel) :
    ∃ events, Reader.parseValue strtod fuel (text ++ rest) = .ok (events, rest) ∧
      Builds events [value] := by
  refine (Reader.complete fuel).value isValue enough fun isNumber => ?_
  exact absurd isNumber.isNumber notNumber

/-- Two values that the same characters start with are one value. -/
theorem ValueText.unique {text text' rest rest' : Str} {value value' : Value}
    (isValue : ValueText strtod text value) (isValue' : ValueText strtod text' value')
    (notNumber : ¬ value.isNumber) (same : text ++ rest = text' ++ rest') :
    rest = rest' ∧ value = value' := by
  have notNumber' : ¬ value'.isNumber := by
    rwa [← isValue.isNumber_eq isValue' same]
  obtain ⟨events, parsed, builds⟩ :=
    isValue.exists_parseValue rest notNumber (Nat.le_max_left _ (2 * text'.length))
  obtain ⟨events', parsed', builds'⟩ :=
    isValue'.exists_parseValue rest' notNumber' (Nat.le_max_right (2 * text.length) _)
  rw [same, parsed'] at parsed
  cases parsed
  have built := builds []
  rw [builds' []] at built
  cases built
  exact ⟨rfl, rfl⟩

/-! ## Texts of documents -/

theorem Blank.append {ws ws' : Str} (blank : Blank ws) (blank' : Blank ws') : Blank (ws ++ ws') :=
  fun c member => (List.mem_append.mp member).elim (blank c) (blank' c)

theorem JsonText.extended {str rest : Str} {value : Value} (isText : JsonText strtod str value)
    (blank : Blank rest) : JsonText strtod (str ++ rest) value := by
  cases isText with
  | document before root after =>
    rw [List.append_assoc]
    exact .document before root (after.append blank)

/-- The roots of two texts of which one starts the other. -/
theorem JsonText.roots {str rest : Str} {value value' : Value} (isText : JsonText strtod str value)
    (isText' : JsonText strtod (str ++ rest) value') :
    ∃ text text' ws ws', ValueText strtod text value ∧ ValueText strtod text' value' ∧
      Blank ws' ∧ text ++ (ws ++ rest) = text' ++ ws' := by
  generalize whole : str ++ rest = str' at isText'
  cases isText with
  | @document before text ws _ blank root _ =>
    cases isText' with
    | @document before' text' ws' _ blank' root' after' =>
      refine ⟨text, text', ws, ws', root, root', after', ?_⟩
      simp only [List.append_assoc] at whole
      rw [← Reader.skipWhitespace_append blank (Reader.ends_blank_value root (ws ++ rest)), whole]
      exact Reader.skipWhitespace_append blank' (Reader.ends_blank_value root' ws')

theorem JsonText.isNumber_eq {str rest : Str} {value value' : Value}
    (isText : JsonText strtod str value) (isText' : JsonText strtod (str ++ rest) value') :
    value.isNumber = value'.isNumber := by
  obtain ⟨text, text', ws, ws', root, root', _, same⟩ := isText.roots isText'
  exact root.isNumber_eq root' same

/-- What may follow a text that is not a number's. -/
theorem JsonText.append_iff {str rest : Str} {value value' : Value}
    (isText : JsonText strtod str value) (notNumber : ¬ value.isNumber) :
    JsonText strtod (str ++ rest) value' ↔ value' = value ∧ Blank rest := by
  constructor
  · intro isText'
    obtain ⟨text, text', ws, ws', root, root', blank', same⟩ := isText.roots isText'
    obtain ⟨rfl, rfl⟩ := root.unique root' notNumber same
    exact ⟨rfl, fun c member => blank' c (List.mem_append_right ws member)⟩
  · rintro ⟨rfl, blank⟩
    exact isText.extended blank

/-! ## Ends -/

/-- The last character is not a blank. -/
def EndsVisibly (text : Str) : Prop := ∃ body c, text = body ++ [c] ∧ c ∉ blanks

/-- The text of a value that is no number ends with a character of its own. -/
theorem endsVisibly_write (dtoa : ℚ → Str) {value : Value} (notNumber : ¬ value.isNumber) :
    EndsVisibly (write dtoa value) := by
  cases value with
  | null => exact ⟨"nul".toList, 'l', rfl, by decide⟩
  | bool b =>
    cases b with
    | false => exact ⟨"fals".toList, 'e', rfl, by decide⟩
    | true => exact ⟨"tru".toList, 'e', rfl, by decide⟩
  | int _ => exact absurd rfl notNumber
  | double _ => exact absurd rfl notNumber
  | string s => exact ⟨_, '"', rfl, by decide⟩
  | array elements => exact ⟨_, ']', rfl, by decide⟩
  | object members => exact ⟨_, '\x7d', rfl, by decide⟩

theorem EndsVisibly.eq_nil {text start rest : Str} (visible : EndsVisibly text)
    (cut : start ++ rest = text) (blank : Blank rest) : rest = [] := by
  obtain ⟨body, c, rfl, visible⟩ := visible
  rcases List.eq_nil_or_concat rest with nothing | ⟨rest, c', rfl⟩
  · exact nothing
  · rw [List.concat_eq_append, ← List.append_assoc] at cut
    have last : c' = c := by simpa using (List.append_inj' cut rfl).2
    exact absurd (last ▸ blank c' (by simp)) visible

end

/-! ## Main result -/

namespace Document

section

variable {strtod : Str → Option ℚ} {dtoa : ℚ → Str} {f : ℚ → ℚ} {value : Value}

@[simp] theorem isNumber_mapDouble (f : ℚ → ℚ) (value : Value) :
    (value.mapDouble f).isNumber = value.isNumber := by
  cases value <;> rfl

theorem parse_write_append_iff (fits : value.Fits)
    (reads : ∀ d ∈ value.doubles, Reads strtod dtoa f d) (notNumber : ¬ value.isNumber)
    (rest : Str) (value' : Value) :
    parse strtod (write dtoa value ++ rest) = .ok (some value') ↔
      value' = value.mapDouble f ∧ Blank rest.cStr := by
  have isText := jsonText_write fits reads
  have notNumber' : ¬ (value.mapDouble f).isNumber := by simpa using notNumber
  rw [parse_eq_some_iff, Str.cStr_append_of_nulFree rest isText.nulFree, isText.append_iff notNumber']

theorem parse_cut {text start rest : Str} (isText : JsonText strtod text value)
    (notNumber : ¬ value.isNumber) (visible : EndsVisibly text) (cut : start ++ rest = text)
    (missing : rest ≠ []) : parse strtod start = .ok none := by
  obtain failed | ⟨value', _, startText⟩ := parse_cases strtod start
  · exact failed
  · have inside : nul ∉ start := fun member => isText.nulFree (cut ▸ List.mem_append_left rest member)
    rw [Str.cStr_of_nulFree inside] at startText
    have whole : JsonText strtod (start ++ rest) value := cut ▸ isText
    have notNumber' : ¬ value'.isNumber := by rwa [startText.isNumber_eq whole]
    have blank := ((startText.append_iff notNumber').mp whole).2
    exact absurd (visible.eq_nil cut blank) missing

theorem parse_write_cut (fits : value.Fits) (reads : ∀ d ∈ value.doubles, Reads strtod dtoa f d)
    (notNumber : ¬ value.isNumber) {start rest : Str} (cut : start ++ rest = write dtoa value)
    (missing : rest ≠ []) : parse strtod start = .ok none :=
  parse_cut (jsonText_write fits reads) (by simpa using notNumber) (endsVisibly_write dtoa notNumber)
    cut missing

end

/-- A written document that is no number is read from its whole text, with blanks at
    most behind it: no cut of the text is a document, and no longer text is one of
    anything else. -/
theorem parse_write_whole (strtod : Str → Option ℚ) (dtoa : ℚ → Str) (f : ℚ → ℚ) (value : Value)
    (fits : value.Fits) (reads : ∀ d ∈ value.doubles, Reads strtod dtoa f d)
    (notNumber : ¬ value.isNumber) :
    (∀ rest value', parse strtod (write dtoa value ++ rest) = .ok (some value') ↔
        value' = value.mapDouble f ∧ Blank rest.cStr) ∧
      ∀ start rest, start ++ rest = write dtoa value → rest ≠ [] →
        parse strtod start = .ok none :=
  ⟨parse_write_append_iff fits reads notNumber,
    fun _ _ cut missing => parse_write_cut fits reads notNumber cut missing⟩

/-- An array inside an object. -/
def nested : Value := .object [("inv".toList, .array [.double (1 / 2)])]

theorem parse_write_whole_nested :
    (∀ rest value', parse strtodHalf (write Writer.dtoaHalf nested ++ rest) = .ok (some value') ↔
        value' = nested ∧ Blank rest.cStr) ∧
      ∀ start rest, start ++ rest = write Writer.dtoaHalf nested → rest ≠ [] →
        parse strtodHalf start = .ok none :=
  parse_write_whole _ _ (fun d => d) nested ⟨⟨trivial, trivial⟩, trivial⟩
    (fun _ member => reads_half (List.mem_singleton.mp member)) nofun

end Document

end Ns3Blockchain.Rapidjson
