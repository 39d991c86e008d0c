import Graft.Text.Line
import Graft.Xml.Reader

/-!
# Diagnosing a document

Why a text does not parse, with the lines around the fault, and signs of the mistakes that
generators make most: bare ampersands, comparison operators and typographic quotes.
-/

namespace Graft

open Text

/-- Why a text does not parse. -/
structure ParseFailure where
  fault : Xml.Fault
  context : List (Nat × Text)
  deriving DecidableEq, Repr

/-- Signs of common mistakes. -/
structure IssueFlags where
  /-- An ampersand that begins no reference. -/
  unescapedAmpersand : Bool
  /-- An angle bracket beside a space. -/
  strayAngleBracket : Bool
  smartQuotes : Bool
  deriving DecidableEq, Repr

def IssueFlags.any (i : IssueFlags) : Bool :=
  i.unescapedAmpersand || i.strayAngleBracket || i.smartQuotes

/-- What is wrong with a text. -/
structure Diagnosis where
  /-- Why it does not parse, if it does not. -/
  failure : Option ParseFailure
  /-- Signs of mistakes, whether it parses or not. -/
  issues : IssueFlags
  deriving DecidableEq, Repr

namespace Diagnosis

/-- What may follow an ampersand. -/
def referenceStarts : List Text :=
  ["amp;".toList, "lt;".toList, "gt;".toList, "quot;".toList, "apos;".toList, "#".toList]

/-- Whether an ampersand is followed by nothing that begins a reference. -/
def hasBareAmpersand : Text → Bool
  | [] => false
  | c :: t => (c == '&' && !referenceStarts.any (startsWith · t)) || hasBareAmpersand t

def isSmartQuote (c : Char) : Bool :=
  c == '\u201c' || c == '\u201d' || c == '\u2018' || c == '\u2019'

/-- The signs of mistakes in a text. -/
def issuesOf (t : Text) : IssueFlags where
  unescapedAmpersand := hasBareAmpersand t
  strayAngleBracket := contains "< ".toList t || contains " >".toList t
  smartQuotes := t.any isSmartQuote

/-- The lines of a text, numbered from one. -/
def numbered (t : Text) : List (Nat × Text) := ((lines t).zipIdx 1).map fun (line, n) => (n, line)

/-- The line of that number and its neighbours. -/
def contextOf (t : Text) (line : Nat) : List (Nat × Text) :=
  (numbered t).filter fun (n, _) => line ≤ n + 1 && n ≤ line + 1

/-- What is wrong with a text. -/
def of (t : Text) : Diagnosis where
  failure :=
    match Xml.parse t with
    | .ok _ => none
    | .error f => some ⟨f, contextOf t f.position.line⟩
  issues := issuesOf t

def parses (d : Diagnosis) : Bool := d.failure.isNone

/-- A number, set right in five columns. -/
def column (n : Nat) : String :=
  let digits := (toString n).toList
  String.ofList (List.replicate (5 - digits.length) ' ' ++ digits)

/-- A line of the context, with a mark below it where the fault is. -/
def contextLine (p : Xml.Position) (n : Nat) (line : Text) : String :=
  column n ++ " | " ++ String.ofList line ++ "\n" ++
    if n = p.line then
      "      | " ++ String.ofList (List.replicate (p.column - 1) ' ') ++
        "^ (column " ++ toString p.column ++ ")\n"
    else ""

/-- The failure in words, each line ended by a newline. -/
def failureText : Option ParseFailure → String
  | none => "parses successfully\n"
  | some f => "parse error: " ++ f.fault.message ++ "\n" ++
    String.join (f.context.map fun (n, line) => contextLine f.fault.position n line)

def message (d : Diagnosis) : String :=
  failureText d.failure ++
    "unescaped '&': " ++ toString d.issues.unescapedAmpersand ++ "\n" ++
    "'<' or '>' outside tags: " ++ toString d.issues.strayAngleBracket ++ "\n" ++
    "smart quotes: " ++ toString d.issues.smartQuotes

end Diagnosis

end Graft
