import Foreman.Document
import Foreman.Text.Quoted
/-!
# Why a document does not fit

A document that does not fit a record is refused for one reason: the first one met, in the order of
the record's members as they were written, and only then a field that is missing. The reason says
what was found and what was expected.

## Main definitions

* `Foreman.Found`: what stands where something else was expected.
* `Foreman.Misfit`: the reasons for a refusal.
* `Foreman.Misfit.message`: the wording of a reason.
-/

namespace Foreman

/-- What stands where something else was expected. -/
inductive Found where
  /-- The null value. -/
  | null
  /-- A flag. -/
  | bool (b : Bool)
  /-- A whole number. -/
  | int (n : Int)
  /-- Any other number. -/
  | float (x : Float)
  /-- A text. -/
  | text (s : String)
  /-- A list. -/
  | list
  /-- A record. -/
  | record
  /-- The bare name of an alternative that carries a value. -/
  | bareName
  /-- Something that cannot be read. -/
  | unreadable

/-- What a document is, to someone who expected something else. -/
def Document.found : Document → Found
  | .null | .blank => .null
  | .bool b => .bool b
  | .int n => .int n
  | .float x => .float x
  | .text s | .plain s => .text s
  | .list _ | .sequence _ => .list
  | .record _ => .record
  | .tagged _ _ | .fault => .unreadable

/-- How a message names what was found. -/
def Found.describe : Found → String
  | .null => "null"
  | .bool true => "boolean `true`"
  | .bool false => "boolean `false`"
  | .int n => "integer `" ++ toString n ++ "`"
  | .float x => "floating point `" ++ Decimal.Notation.exchange.write x ++ "`"
  | .text s => "string " ++ Text.quoted s
  | .list => "sequence"
  | .record => "map"
  | .bareName => "unit variant"
  | .unreadable => "enum"

/-- A reason for refusing a document. -/
inductive Misfit where
  /-- Something of another type. -/
  | wrongType (found : Found) (expected : String)
  /-- A value out of range. -/
  | wrongValue (found : Found) (expected : String)
  /-- A list of the wrong length. -/
  | wrongLength (length : Nat) (expected : String)
  /-- A field that has to be given. -/
  | missing (field : String)
  /-- A field given twice. -/
  | repeated (field : String)
  /-- A name that is none of those known. -/
  | unknownName (name : String) (known : List String)
  /-- A text that does not spell a time, with the reader's own words. -/
  | noTime (complaint : String)
  /-- A part that cannot be read at all. -/
  | unreadable

/-- The names a reader expected, each between backquotes. -/
def describeNames : List String → String
  | [] => "there are no variants"
  | [a] => "expected `" ++ a ++ "`"
  | [a, b] => "expected `" ++ a ++ "` or `" ++ b ++ "`"
  | names => "expected one of " ++ String.intercalate ", " (names.map fun n => "`" ++ n ++ "`")

/-- The wording of a reason. -/
def Misfit.message : Misfit → String
  | .wrongType found expected => "invalid type: " ++ found.describe ++ ", expected " ++ expected
  | .wrongValue found expected => "invalid value: " ++ found.describe ++ ", expected " ++ expected
  | .wrongLength length expected =>
    "invalid length " ++ toString length ++ ", expected " ++ expected
  | .missing field => "missing field `" ++ field ++ "`"
  | .repeated field => "duplicate field `" ++ field ++ "`"
  | .unknownName name known => "unknown variant `" ++ name ++ "`, " ++ describeNames known
  | .noTime complaint => complaint
  | .unreadable => "unreadable value"

end Foreman
