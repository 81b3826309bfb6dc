import Foreman.Document.Form
/-!
# Fields

A field is a named value that goes into a piece of work or comes out of it. A field that holds a
structured value describes the fields of that value in turn.

## Main definitions

* `Foreman.Field`: a named, typed input or output.
* `Foreman.Field.read`, `Foreman.Field.json`: a field from a document, and a field as an open value.
-/

namespace Foreman

/-- A named, typed input or output. -/
inductive Field where
  /-- A field by its name, its type in free words, its description, whether it has to be given, and
  the fields inside it. -/
  | mk (name type description : String) (required : Bool) (fields : List Field)
  deriving Inhabited

namespace Field

/-- The name. -/
def name : Field → String
  | mk name _ _ _ _ => name

/-- The type, in free words. -/
def type : Field → String
  | mk _ type _ _ _ => type

/-- The description. -/
def description : Field → String
  | mk _ _ description _ _ => description

/-- Whether a value has to be given. -/
def required : Field → Bool
  | mk _ _ _ required _ => required

/-- The fields inside. -/
def fields : Field → List Field
  | mk _ _ _ _ fields => fields

/-- A field of which only the name and the type are known. -/
def ofName (name : String) (type : String := "") : Field :=
  mk name type "" false []

/-- What the record of a field is called, and its fields. -/
def shape : Shape :=
  ⟨"struct IoSpec", ["name", "type", "description", "required", "fields"]⟩

/-- A field; `buffered` if the document was set aside before. -/
def read (buffered : Bool) (d : Document) : Except Misfit Field :=
  match Form.of? shape buffered d with
  | .error w => .error w
  | .ok form =>
    form.close <|
      mk <$> form.may "name" "" Document.asText
        <*> form.may "type" "" Document.asText
        <*> form.may "description" "" Document.asText
        <*> form.may "required" false Document.asFlag
        <*> form.readWithin "fields" (fun _ _ => .done []) fun x _ =>
          x.asListWithin fun y _ => read buffered y
termination_by sizeOf d

mutual

/-- A field as an open value; the inner fields are left out where there are none. -/
def json : Field → Json
  | mk name type description required fields =>
    .record
      [("name", some (.text name)), ("type", some (.text type)),
        ("description", some (.text description)), ("required", some (.bool required)),
        ("fields", if fields.isEmpty then none else some (.list (jsonAll fields)))]

/-- Fields as open values. -/
def jsonAll : List Field → List Json
  | [] => []
  | field :: rest => field.json :: jsonAll rest

end

end Field

end Foreman
