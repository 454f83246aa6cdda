/-!
# Shapes

A container shows itself as a named record of its vital figures: its kind of lock, how much it
holds, whether something is attached.  `Shape` is the document such a description is made of, and
there are two ways to write it down:

* `Shape.line` writes everything in one line, fields separated by commas;
* `Shape.page` gives each part a line of its own, four blanks deeper than what it belongs to, with a
  comma after every part.  Parts that have no parts of their own stay on one line.
-/

set_option autoImplicit false

namespace Containers

/-- A description made of named records, wrappers, lists and texts. -/
inductive Shape where
  /-- A text that stands as it is. -/
  | atom (s : String)
  /-- A named record with named fields. -/
  | record (name : String) (fields : List (String × Shape))
  /-- A name around one part. -/
  | wrapper (name : String) (content : Shape)
  /-- A list of parts. -/
  | list (items : List Shape)

namespace Shape

/-- A figure. -/
def count (n : Nat) : Shape := .atom (toString n)

/-- Whether something is the case. -/
def flag (b : Bool) : Shape := .atom (if b then "true" else "false")

/-- A word in quotation marks; the words that containers use need no escapes. -/
def word (s : String) : Shape := .atom ("\"" ++ s ++ "\"")

mutual

/-- The description in one line. -/
def line : Shape → String
  | .atom s => s
  | .record name fields => name ++ " \x7b " ++ lineFields fields ++ " \x7d"
  | .wrapper name content => name ++ "(" ++ content.line ++ ")"
  | .list items => "[" ++ lineItems items ++ "]"

/-- Fields in one line. -/
def lineFields : List (String × Shape) → String
  | [] => ""
  | [(name, value)] => name ++ ": " ++ value.line
  | (name, value) :: rest => name ++ ": " ++ value.line ++ ", " ++ lineFields rest

/-- List parts in one line. -/
def lineItems : List Shape → String
  | [] => ""
  | [value] => value.line
  | value :: rest => value.line ++ ", " ++ lineItems rest

end

/-- What a part is moved to the right by. -/
def indent : String := "    "

mutual

/-- The description over several lines, its continuation lines indented by `margin`. -/
def page (margin : String) : Shape → String
  | .atom s => s
  | .record name fields =>
    name ++ " \x7b\n" ++ pageFields (margin ++ indent) fields ++ margin ++ "\x7d"
  | .wrapper name content =>
    name ++ "(\n" ++ margin ++ indent ++ content.page (margin ++ indent) ++ ",\n" ++ margin ++ ")"
  | .list [] => "[]"
  | .list (first :: rest) =>
    "[\n" ++ pageItems (margin ++ indent) (first :: rest) ++ margin ++ "]"

/-- Fields, a line each. -/
def pageFields (margin : String) : List (String × Shape) → String
  | [] => ""
  | (name, value) :: rest =>
    margin ++ name ++ ": " ++ value.page margin ++ ",\n" ++ pageFields margin rest

/-- List parts, a line each. -/
def pageItems (margin : String) : List Shape → String
  | [] => ""
  | value :: rest => margin ++ value.page margin ++ ",\n" ++ pageItems margin rest

end

end Shape

end Containers
