import Graft.File.Path

/-!
# Arguments

How a command line is read.  A level has options, which take a value, and flags, which take none;
both may stand between the operands, and two hyphens make operands of all that follows.  No option
and no flag may be given twice at one level.  Reading stops at the first fault, and at a request
for help or for the version.
-/

namespace Graft.Command

/-- Why a command line is not run. -/
inductive Refusal where
  | help
  | version
  /-- An argument is not known, or is one too many. -/
  | unexpected (argument : Text)
  /-- An option has no value, or an empty one. -/
  | noValue (name : String)
  | hasValue (name : String)
  /-- An option or flag is given again. -/
  | repeated (name : String)
  /-- An option or operand is not given. -/
  | missing (name : String)
  | noCommand
  deriving DecidableEq, Repr

/-- The text of a refusal that is a fault. -/
def Refusal.message : Refusal → String
  | .help | .version => ""
  | .unexpected a => "unexpected argument '" ++ String.ofList a ++ "'"
  | .noValue name => "a value is required for '" ++ name ++ "'"
  | .hasValue name => "unexpected value for '" ++ name ++ "'"
  | .repeated name => "'" ++ name ++ "' cannot be used twice"
  | .missing name => "'" ++ name ++ "' is required"
  | .noCommand => "a command is required"

/-- What a level of the command line knows. -/
structure Level where
  /-- The options, each under all its spellings. -/
  options : List (String × String)
  flags : List String
  letters : List (Char × String)
  /-- How many operands there may be; any number if this is `none`. -/
  operands : Option Nat

/-- What is given at a level. -/
structure Given where
  values : List (String × Text) := []
  flags : List String := []
  operands : List Text := []
  deriving DecidableEq, Repr

namespace Given

def value? (g : Given) (name : String) : Option Text := g.values.lookup name

/-- The value of an option that must be given. -/
def value (g : Given) (name : String) : Except Refusal Text :=
  (g.value? name).elim (.error (.missing name)) .ok

def flag (g : Given) (name : String) : Bool := g.flags.contains name

def addValue (g : Given) (name : String) (v : Text) : Except Refusal Given :=
  if (g.value? name).isSome then .error (.repeated name)
  else if v.isEmpty then .error (.noValue name)
  else .ok { g with values := g.values ++ [(name, v)] }

/-- Adds a flag, or refuses the command line because of it. -/
def addFlag (g : Given) (name : String) : Except Refusal Given :=
  if name = "help" then .error .help
  else if name = "version" then .error .version
  else if g.flag name then .error (.repeated name)
  else .ok { g with flags := g.flags ++ [name] }

def addOperand (g : Given) (level : Level) (v : Text) : Except Refusal Given :=
  if v.isEmpty || level.operands.any (· ≤ g.operands.length) then .error (.unexpected v)
  else .ok { g with operands := g.operands ++ [v] }

end Given

/-- How an argument is spelled. -/
inductive Spelling where
  /-- Two hyphens alone. -/
  | separator
  /-- A name after two hyphens, perhaps with a value after an equals sign. -/
  | long (name : Text) (value : Option Text)
  | letters (cs : Text)
  /-- Anything else, a single hyphen included. -/
  | operand
  deriving DecidableEq, Repr

def Spelling.of : Text → Spelling
  | ['-', '-'] => .separator
  | '-' :: '-' :: t =>
    match t.dropWhile (· != '=') with
    | [] => .long t none
    | _ :: v => .long (t.takeWhile (· != '=')) (some v)
  | '-' :: c :: t => .letters (c :: t)
  | _ => .operand

def addLetters (level : Level) (g : Given) (cs : Text) : Except Refusal Given :=
  cs.foldlM (fun g c =>
    match level.letters.lookup c with
    | some name => g.addFlag name
    | none => .error (.unexpected ['-', c])) g

/-- Reads arguments as those of a level, up to the first operand if `untilOperand`.  Answers what is
given and what is left. -/
def scan (level : Level) (untilOperand : Bool) (g : Given) :
    List Text → Except Refusal (Given × List Text)
  | [] => .ok (g, [])
  | a :: rest =>
    match Spelling.of a with
    | .separator => do
      let g ← rest.foldlM (fun g v => g.addOperand level v) g
      .ok (g, [])
    | .letters cs => do
      let g ← addLetters level g cs
      scan level untilOperand g rest
    | .operand =>
      if untilOperand then .ok (g, a :: rest)
      else do
        let g ← g.addOperand level a
        scan level untilOperand g rest
    | .long name value =>
      match level.options.lookup (String.ofList name), value with
      | some key, some v => do
        let g ← g.addValue key v
        scan level untilOperand g rest
      | some key, none =>
        match rest with
        | [] => .error (.noValue key)
        | v :: rest =>
          if Spelling.of v = .operand then do
            let g ← g.addValue key v
            scan level untilOperand g rest
          else .error (.noValue key)
      | none, value =>
        if level.flags.contains (String.ofList name) then
          if value.isSome then .error (.hasValue (String.ofList name))
          else do
            let g ← g.addFlag (String.ofList name)
            scan level untilOperand g rest
        else .error (.unexpected a)
  termination_by args => args.length

end Graft.Command
