import Graft.Text.Line
import Graft.Text.Search
import Graft.Text.Word

/-!
# Unwrapping a document

Generators put a document into a code fence or into prose.  `unwrap` reduces such a text to the
document: from its declaration or its first tag to the closing tag of its root.  Between those it
changes nothing.
-/

namespace Graft.Document

open Text

/-- The mark of a code fence. -/
def fence : Text := "```".toList

def declarationOpen : Text := "<?xml".toList

/-- How the tag of a document's root begins. -/
def moduleOpen : Text := "<module".toList

/-- The text without a first line that opens a code fence. -/
def dropFenceLine (t : Text) : Text :=
  if startsWith fence t then
    match cut? ['\n'] t with
    | some (_, rest) => rest
    | none => []
  else t

/-- The text without a last line that closes a code fence. -/
def dropClosingFence (t : Text) : Text :=
  match lastCut? ['\n'] (trimEnd t) with
  | some (body, line) => if startsWith fence (trim line) then body else t
  | none => t

/-- The text without fences, and without blanks and backticks at either end. -/
def unfence (t : Text) : Text :=
  trim (trimBoth (· == '\x60') (trim (dropClosingFence (dropFenceLine (trim t)))))

/-- The characters that end a tag's name. -/
def endsTagName (c : Char) : Bool := c == '>' || c == '/' || isSpace c

/-- The characters that a tag's name is taken to begin with. -/
def beginsTagName (c : Char) : Bool := isLetter c || c == '_'

/-- The text, if it begins with a tag named exactly `module`. -/
def moduleTag? (t : Text) : Option Text :=
  match skip? moduleOpen t with
  | some (c :: _) => if endsTagName c then some t else none
  | _ => none

/-- The text, if it begins with a tag. -/
def anyTag? : Text → Option Text
  | '<' :: c :: t => if beginsTagName c then some ('<' :: c :: t) else none
  | _ => none

/-- The text from the first place on at which `m` finds something. -/
def fromFirst? (m : Text → Option Text) (t : Text) : Option Text :=
  (leftmost (fun _ => m) none t).map fun (_, rest) => rest

/-- The text, if it begins with an XML declaration. -/
def declarationTag? (t : Text) : Option Text :=
  if startsWith declarationOpen t then some t else none

/-- The text from the start of the document on: from its declaration, else from the tag of a module,
else from the first tag. -/
def fromStart (t : Text) : Text :=
  (((fromFirst? declarationTag? t).or (fromFirst? moduleTag? t)).or (fromFirst? anyTag? t)).getD t

/-- The text behind an XML declaration it begins with. -/
def behindDeclaration? (t : Text) : Option Text :=
  if startsWith declarationOpen t then (cut? "?>".toList t).map fun (_, rest) => rest else some t

def rootName? (t : Text) : Option Text := do
  let body ← behindDeclaration? t
  let tag ← fromFirst? anyTag? body
  some ((tag.drop 1).takeWhile fun c => !endsTagName c)

def closingTag (name : Text) : Text := "</".toList ++ name ++ ['>']

/-- The text up to and with the last closing tag of its root element. -/
def toEnd (t : Text) : Text :=
  match rootName? t with
  | none => t
  | some name =>
    match lastCut? (closingTag name) t with
    | some (front, _) => front ++ closingTag name
    | none => t

def unwrap (t : Text) : Text := trim (toEnd (fromStart (unfence t)))

end Graft.Document
