import Ns3Blockchain.Model.Document

/-! # Events that build values

The events of a value leave it on the stack of the document, whatever is below.  Those
of several values leave them one above the other, and the event that closes an array
or an object puts them into the value that its opening event pushed.
-/

namespace Ns3Blockchain.Rapidjson

open Library

/-- On any stack the events finish without an assertion and push the values. -/
def Builds (events : List Event) (values : List Value) : Prop :=
  ∀ stack, foldChecked Document.handle stack events = .ok (values.reverse ++ stack)

/-- The values of an object as they stand in the stack, each behind its name. -/
def memberValues (members : List (Str × Value)) : List Value :=
  members.flatMap fun entry => [.string entry.1, entry.2]

namespace Builds

theorem nil : Builds [] [] := fun _ => rfl

theorem append {events events' : List Event} {values values' : List Value}
    (first : Builds events values) (second : Builds events' values') :
    Builds (events ++ events') (values ++ values') := by
  intro stack
  rw [foldChecked_append, first stack, ok_bind, second, List.reverse_append, List.append_assoc]

theorem one {event : Event} {value : Value}
    (pushes : ∀ stack, Document.handle stack event = .ok (value :: stack)) :
    Builds [event] [value] := by
  intro stack
  rw [foldChecked, pushes]
  rfl

theorem cons {event : Event} {value : Value} {events : List Event} {values : List Value}
    (pushes : ∀ stack, Document.handle stack event = .ok (value :: stack))
    (others : Builds events values) : Builds (event :: events) (value :: values) :=
  (one pushes).append others

theorem pop_reverse (values stack : List Value) :
    Document.pop values.length (values.reverse ++ stack) = .ok (values, stack) := by
  have length : values.reverse.length = values.length := List.length_reverse
  rw [Document.pop, if_pos (by simp), ← length, List.take_left, List.drop_left, List.reverse_reverse]

theorem array {events : List Event} {elements : List Value} (inside : Builds events elements) :
    Builds (.startArray :: events ++ [.endArray elements.length]) [.array elements] := by
  intro stack
  have pushed := inside (.array [] :: stack)
  rw [List.cons_append, foldChecked, Document.handle, ok_bind, foldChecked_append, pushed, ok_bind,
    foldChecked, Document.handle, pop_reverse, ok_bind]
  rfl

theorem length_memberValues (members : List (Str × Value)) :
    (memberValues members).length = 2 * members.length := by
  induction members with
  | nil => rfl
  | cons entry members inductionHypothesis =>
    show (memberValues members).length + 2 = 2 * (members.length + 1)
    rw [inductionHypothesis, Nat.mul_add]

theorem toMembers_memberValues (members : List (Str × Value)) :
    Document.toMembers (memberValues members) = members := by
  induction members with
  | nil => rfl
  | cons entry members inductionHypothesis =>
    show (entry.1, entry.2) :: Document.toMembers (memberValues members) = entry :: members
    rw [inductionHypothesis]

theorem object {events : List Event} {members : List (Str × Value)}
    (inside : Builds events (memberValues members)) :
    Builds (.startObject :: events ++ [.endObject members.length]) [.object members] := by
  intro stack
  have pushed := inside (.object [] :: stack)
  rw [List.cons_append, foldChecked, Document.handle, ok_bind, foldChecked_append, pushed, ok_bind,
    foldChecked, Document.handle, ← length_memberValues, pop_reverse, ok_bind]
  show (Document.setTop (.object [] :: stack) _ >>= _) = _
  rw [toMembers_memberValues]
  rfl

end Builds

end Ns3Blockchain.Rapidjson
