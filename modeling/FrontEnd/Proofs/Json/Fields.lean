import FrontEnd.Json.Value

/-!
# The fields of objects

Where all keys of an object are texts, each of its fields is looked for by itself: in whatever order
the members stand, and whatever other members there are, what counts are the values that stand
under its name.
-/

namespace FrontEnd.Json.Value

variable {members : List (List CodePoint × Value)}

/-- Whether the keys of members are texts. -/
def KeysAreTexts (members : List (List CodePoint × Value)) : Prop :=
  ∀ m ∈ members, (CodePoint.text? m.1).isSome = true

/-- The values that members give under a name, one behind the other. -/
def valuesOf (members : List (List CodePoint × Value)) (name : String) : List Value :=
  (members.filter fun m => CodePoint.text? m.1 == some name).map Prod.snd

/-- Whether members give a field: they leave it out, or give it once with a value that means what is
given. -/
inductive Gives {α : Type} (members : List (List CodePoint × Value)) (name : String)
    (Means : Value → α → Prop) : Option α → Prop
  | leftOut (h : valuesOf members name = []) : Gives members name Means none
  | once {v : Value} {a : α} (h : valuesOf members name = [v]) (hv : Means v a) :
      Gives members name Means (some a)

end FrontEnd.Json.Value
