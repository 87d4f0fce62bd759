import Rustlet.Number.Written
import Rustlet.Template
import Rustlet.Text.Quoted
import Rustlet.Value

/-! It is kept which instances are being shown; one of these is not shown again but cut short, so a
text is finite even where instances refer to each other. -/
namespace Rustlet

/-- The order in which the fields of structs are shown, by the name of the struct. -/
abbrev FieldOrder := Table (List String)

namespace Instance

/-- The fields of an instance as they are shown: those the order lists, as it lists them, and then
all others. -/
def shown (order : FieldOrder) (i : Instance) : List String :=
  let listed := ((order.get? i.type).getD []).filter i.fields.contains
  listed ++ i.fields.names.filter (· ∉ listed)

/-- The text of an instance, given the texts of its fields. -/
def text (type : String) (fields : List String) : String :=
  if fields.isEmpty then type else type ++ " \x7b " ++ ", ".intercalate fields ++ " \x7d"

/-- The text of an instance inside itself. -/
def elided (type : String) : String := type ++ " \x7b .. \x7d"

end Instance

namespace Value

/-- The text of a value that is no instance. -/
def scalarText : Value → String
  | number n => n.text
  | text s => Text.quote s
  | bool b => if b then "true" else "false"
  | unit => ""
  | inst _ => ""
  | fn f => "<fn " ++ f.decl.name ++ ">"

end Value

namespace Heap

/-- What a field of an instance holds. -/
def field (h : Heap) (id : InstanceId) (name : String) : Value :=
  ((h.get id).fields.get? name).getD .unit

/-- Shows a value. The state holds the instances that are being shown: an instance enters it before
its fields are shown and leaves it after them. Gives nothing if instances are nested more than
`depth` deep. -/
def showing? (h : Heap) (order : FieldOrder) :
    (depth : Nat) → Value → StateT (List InstanceId) Option String
  | 0, .inst _ => failure
  | depth + 1, .inst id => do
    let i := h.get id
    if id ∈ (← StateT.get) then pure (Instance.elided i.type)
    else
      modify (id :: ·)
      let fields ← (i.shown order).mapM fun name => do
        let text ← showing? h order depth (h.field id name)
        pure (name ++ ": " ++ text)
      modify (·.erase id)
      pure (Instance.text i.type fields)
  | _, v => pure v.scalarText

/-- The text of a value in full, unless instances are nested more than `depth` deep. -/
def debug? (h : Heap) (order : FieldOrder) (depth : Nat) (v : Value) : Option String :=
  (h.showing? order depth v).run' []

/-- The text of a value in a style. Displayed texts have no quotes; all else is as in full. -/
def styled? (h : Heap) (order : FieldOrder) (depth : Nat) : Template.Style → Value → Option String
  | .display, .text s => some s
  | _, v => h.debug? order depth v

/-- A depth that no text exceeds: no instance is shown inside itself. -/
def depth (h : Heap) : Nat := h.size + 1

/-- The text of a value in full. -/
def debug (h : Heap) (order : FieldOrder) (v : Value) : String := (h.debug? order h.depth v).getD ""

/-- The text of a value for reading. -/
def display (h : Heap) (order : FieldOrder) (v : Value) : String :=
  (h.styled? order h.depth .display v).getD ""

/-- The text of a value in a style. -/
def styled (h : Heap) (order : FieldOrder) : Template.Style → Value → String
  | .display => h.display order
  | .debug => h.debug order

end Heap

end Rustlet
