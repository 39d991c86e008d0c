import Graft.Xml.Node
import Graft.Xml.Scope

/-!
# Reading a document

`parse` reads a text as XML 1.0 with namespaces and without document types.  The reader goes from
left to right with the open elements on a stack, and stops at the first fault.
-/

namespace Graft.Xml

open Text

/-- How a start tag ends. -/
inductive TagEnd where
  | opened
  | closed
  /-- The text ends before the tag does. -/
  | cut
  deriving DecidableEq, Repr

/-- The attributes of a start tag and how it ends.  The first argument bounds the attributes. -/
def tagRest : Nat → Attributes → Text → Except Stop (Attributes × TagEnd × Text)
  | 0, as, _ => .ok (as, .cut, [])
  | _ + 1, as, [] => .ok (as, .cut, [])
  | n + 1, as, c :: t =>
    match skipWhite (c :: t) with
    | [] => .error ⟨.endOfText, []⟩
    | '/' :: t => (expectChar '>' t).map fun rest => (as, .closed, rest)
    | '>' :: t => .ok (as, .opened, t)
    | d :: t =>
      if isWhite c then do
        let (a, rest) ← rawAttribute (d :: t)
        let value := attributeValue (← pieces a.value a.behind)
        let as ← as.add a.name value (d :: t)
        tagRest n as rest
      else .error ⟨.otherClass "a whitespace" (leadByte d), d :: t⟩

/-- A start tag: its name, the scope inside the element, and how it ends. -/
structure StartTag where
  name : QName
  /-- The prefixes that are declared inside the element. -/
  scope : Scope
  ending : TagEnd
  deriving DecidableEq, Repr

/-- A start tag, behind the angle bracket of which the text begins, and what follows it. -/
def startTag (outer : Scope) (t : Text) : Except Stop (StartTag × Text) := do
  let (name, rest) ← qname t
  if name.pre = xmlns then .error ⟨.reservedPrefix, t⟩
  else
    let (as, ending, rest) ← tagRest (rest.length + 1) ⟨[], []⟩ rest
    let scope := as.declared ++ outer
    match ending with
    | .cut => .ok (⟨name, scope, .cut⟩, rest)
    | ending =>
      scope.checkAttributes [] as.others
      scope.checkElement name t
      .ok (⟨name, scope, ending⟩, rest)

/-- An open element. -/
structure Frame where
  name : QName
  /-- The prefixes that are declared inside it. -/
  scope : Scope
  /-- What it holds so far, last first. -/
  held : List Node

/-- The element with one more node in it. -/
def Frame.add (f : Frame) (n : Node) : Frame := { f with held := n :: f.held }

def Frame.close (f : Frame) : Node := .element f.name.name f.held.reverse

/-- The name in a closing tag, with which the text begins, and what follows the tag. -/
def closeTag (t : Text) : Except Stop (QName × Text) := do
  let (name, rest) ← qname (t.drop 2)
  let rest ← expectChar '>' (skipWhite rest)
  .ok (name, rest)

/-- A character data section, with which the text begins, and what follows it. -/
def characterData (t : Text) : Except Stop (Text × Text) := do
  let (run, rest) ← upToText "]]>".toList (t.drop 9)
  .ok (lineEnds (run.map .plain), rest)

/-- The text up to the next tag, and what follows it. -/
def textRun (t : Text) : Except Stop (Text × Text) := do
  let run := t.takeWhile (· != '<')
  let rest := t.dropWhile (· != '<')
  checkChars run rest
  if contains "]]>".toList run then .error ⟨.sectionEndInText, rest⟩
  else
    let ps ← pieces run rest
    .ok (lineEnds ps, rest)

/-- What element `f`, inside the elements `outer`, goes on to hold, up to the end of the outermost
one.  The first argument bounds the number of pieces. -/
def content : Nat → Frame → List Frame → Text → Except Stop (Node × Text)
  | 0, _, _, _ => .error ⟨.unclosedRoot, []⟩
  | _ + 1, _, _, [] => .error ⟨.unclosedRoot, []⟩
  | n + 1, f, outer, '<' :: t =>
    match t with
    | [] => .error ⟨.unknownToken, ['<']⟩
    | '!' :: _ =>
      if startsWith "<!--".toList ('<' :: t) then do
        let rest ← comment ('<' :: t)
        content n f outer rest
      else if startsWith "<![CDATA[".toList ('<' :: t) then do
        let (run, rest) ← characterData ('<' :: t)
        content n (f.add (.text run)) outer rest
      else .error ⟨.unknownToken, '<' :: t⟩
    | '?' :: _ => do
      let rest ← instruction ('<' :: t)
      content n f outer rest
    | '/' :: _ => do
      let (name, rest) ← closeTag ('<' :: t)
      if name = f.name then
        match outer with
        | [] => .ok (f.close, rest)
        | g :: outer => content n (g.add f.close) outer rest
      else .error ⟨.mismatchedClose f.name.written name.written, '<' :: t⟩
    | _ => do
      let (tag, rest) ← startTag f.scope t
      match tag.ending with
      | .cut => .error ⟨.unclosedRoot, []⟩
      | .closed => content n (f.add (.element tag.name.name [])) outer rest
      | .opened => content n ⟨tag.name, tag.scope, []⟩ (f :: outer) rest
  | n + 1, f, outer, c :: t => do
    let (run, rest) ← textRun (c :: t)
    content n (f.add (.text run)) outer rest

/-- What follows white space, comments and processing instructions.  The first argument bounds the
number of them. -/
def misc : Nat → Text → Except Stop Text
  | 0, t => .ok t
  | n + 1, t =>
    let t := skipWhite t
    if startsWith "<!--".toList t then do
      let rest ← comment t
      misc n rest
    else if startsWith "<?".toList t then do
      let rest ← instruction t
      misc n rest
    else .ok t

/-- The root element, with which the text begins, and what follows it. -/
def root : Text → Except Stop (Node × Text)
  | '<' :: t => do
    let (tag, rest) ← startTag [] t
    match tag.ending with
    | .cut => .error ⟨.noRoot, []⟩
    | .closed => .ok (.element tag.name.name [], rest)
    | .opened => content (rest.length + 1) ⟨tag.name, tag.scope, []⟩ [] rest
  | [] => .error ⟨.noRoot, []⟩
  | t => .error ⟨.unknownToken, t⟩

/-- The text without a byte order mark at its start. -/
def skipMark : Text → Text
  | '\ufeff' :: t => t
  | t => t

def document (t : Text) : Except Stop Node := do
  let t := skipMark t
  let t ← if startsWith "<?xml ".toList t then declaration t else .ok t
  let t ← misc t.length t
  if startsWith "<!DOCTYPE".toList t then .error ⟨.doctype, t⟩
  else
    let (node, t) ← root t
    let t ← misc t.length t
    if t.isEmpty then .ok node else .error ⟨.unknownToken, t⟩

/-- The root element of a document, or why and where it is not well formed. -/
def parse (t : Text) : Except Fault Node := (document t).mapError (Fault.of t)

end Graft.Xml
