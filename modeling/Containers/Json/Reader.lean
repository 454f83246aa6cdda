/-!
# Reading JSON texts

Documents are read from left to right, and the first thing that cannot be right decides what is
wrong with a document.  A `Reader` takes something off the front of a text and hands back the rest,
or says why it cannot.  There are three reasons (`ReadFault`): the text ends too early, the text is
no JSON, or the text is JSON that says something else than was asked for.

This file has what all readers share: blanks, keywords, the commas and brackets of lists and
objects, and the end of a document.

* `readElements` reads what stands between the brackets of a list.
* `readMembers` reads what stands between the braces of an object, one member after another.
* `readDocument` reads a whole text.

Loops are bounded by the length of the text: every round takes at least one character.
-/

set_option autoImplicit false

namespace Containers.Json

/-- Why a text cannot be read. -/
inductive ReadFault where
  /-- The text ends too early. -/
  | unfinished
  /-- The text is no JSON. -/
  | malformed
  /-- The text is JSON, but not what was asked for. -/
  | mismatched
  deriving DecidableEq

/-- What a reader takes off the front of a text, and the rest of the text. -/
abbrev Reading (α : Type) := Except ReadFault (α × List Char)

/-- Takes something off the front of a text. -/
abbrev Reader (α : Type) := List Char → Reading α

variable {α κ σ : Type}

/-! ## Blanks and keywords -/

/-- The characters that may stand between the parts of a document. -/
def isBlank (c : Char) : Bool := c = ' ' || c = '\n' || c = '\t' || c = '\r'

/-- The text from its first character on that is not blank. -/
def skipBlank (cs : List Char) : List Char := cs.dropWhile isBlank

/-- Takes the given characters off the text. -/
def readKeyword : List Char → Reader Unit
  | [], cs => .ok ((), cs)
  | _ :: _, [] => .error .unfinished
  | e :: es, c :: cs => if c = e then readKeyword es cs else .error .malformed

/-! ## Lists -/

/-- What comes next between the brackets of a list or an object. -/
inductive Upcoming where
  /-- The closing bracket, and the text after it. -/
  | closed (rest : List Char)
  /-- Another part, which begins the text. -/
  | part (rest : List Char)

/-- Looks for the next element of a list; all elements but the first have a comma before them, and
no comma stands before the closing bracket. -/
def nextElement (first : Bool) (cs : List Char) : Except ReadFault Upcoming :=
  match skipBlank cs with
  | [] => .error .unfinished
  | c :: rest =>
    if c = ']' then .ok (.closed rest)
    else if first then .ok (.part (c :: rest))
    else if c = ',' then
      match skipBlank rest with
      | [] => .error .unfinished
      | c :: rest => if c = ']' then .error .malformed else .ok (.part (c :: rest))
    else .error .malformed

/-- Reads elements up to and including the closing bracket. -/
def readElements (element : Reader α) : Nat → Bool → Reader (List α)
  | 0, _, _ => .error .unfinished
  | fuel + 1, first, cs =>
    match nextElement first cs with
    | .error f => .error f
    | .ok (.closed rest) => .ok ([], rest)
    | .ok (.part rest) =>
      match element rest with
      | .error f => .error f
      | .ok (a, rest) =>
        match readElements element fuel false rest with
        | .error f => .error f
        | .ok (as, rest) => .ok (a :: as, rest)

/-- Takes the closing bracket of a list that may have no further elements. -/
def readListEnd : Reader Unit := fun cs =>
  match skipBlank cs with
  | [] => .error .unfinished
  | c :: rest => if c = ']' then .ok ((), rest) else .error .malformed

/-! ## Objects -/

/-- Looks for the next key of an object and takes off its opening quote; commas stand as in
lists. -/
def nextKey (first : Bool) (cs : List Char) : Except ReadFault Upcoming :=
  match skipBlank cs with
  | [] => .error .unfinished
  | c :: rest =>
    if c = '\x7d' then .ok (.closed rest)
    else if first then
      if c = '"' then .ok (.part rest) else .error .malformed
    else if c = ',' then
      match skipBlank rest with
      | [] => .error .unfinished
      | c :: rest => if c = '"' then .ok (.part rest) else .error .malformed
    else .error .malformed

/-- Takes the colon between a key and its value. -/
def readColon : Reader Unit := fun cs =>
  match skipBlank cs with
  | [] => .error .unfinished
  | c :: rest => if c = ':' then .ok ((), rest) else .error .malformed

/-- Reads the value of a member from the colon on. -/
def readMemberValue (value : Reader α) : Reader α := fun cs =>
  match readColon cs with
  | .error f => .error f
  | .ok (_, cs) => value cs

/-- Passes over the value of a member that nobody asked for. -/
def skipMemberValue (value : Reader α) (s : σ) : Reader σ := fun cs =>
  (readMemberValue value cs).map fun r => (s, r.2)

/-- Reads members up to and including the closing brace.  `key` reads a key after its opening quote,
and `member` goes on from there, with what has been gathered so far. -/
def readMembers (key : Reader κ) (member : σ → κ → Reader σ) : Nat → Bool → σ → Reader σ
  | 0, _, _, _ => .error .unfinished
  | fuel + 1, first, s, cs =>
    match nextKey first cs with
    | .error f => .error f
    | .ok (.closed rest) => .ok (s, rest)
    | .ok (.part rest) =>
      match key rest with
      | .error f => .error f
      | .ok (k, rest) =>
        match member s k rest with
        | .error f => .error f
        | .ok (s, rest) => readMembers key member fuel false s rest

/-! ## Documents -/

/-- Reads a whole text: after what is asked for there may be blanks only. -/
def readDocument (reader : Reader α) (text : List Char) : Except ReadFault α :=
  match reader text with
  | .error f => .error f
  | .ok (a, rest) => if (skipBlank rest).isEmpty then .ok a else .error .malformed

end Containers.Json
