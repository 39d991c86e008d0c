import Graft.Command.Arguments

/-!
# Invocations

What the program can be asked to do: integrate documents into the targets, extract the files of one
document, or diagnose documents.  Some options and flags may stand before and after the command; an
option that is given in both places counts where it stands last.
-/

namespace Graft.Command

/-- What the program is asked to do. -/
inductive Request where
  | integrate (router listing outputDir : Path) (dryRun json : Bool) (inputs : List Path)
  | extract (input outputDir : Path) (dryRun saveSnippets savePlan : Bool)
  /-- Explains why documents cannot be read. -/
  | diagnose (inputs : List Path)
  deriving DecidableEq, Repr

/-- A request, and the file of the configuration it is carried out with. -/
structure Invocation where
  config : Option Path
  request : Request
  deriving DecidableEq, Repr

/-- A level with the options and flags that all levels have. -/
def Level.extended (options : List (String × String)) (flags : List String)
    (operands : Option Nat) : Level where
  options := ("config", "config") :: options
  flags := ["verbose", "log-json", "help"] ++ flags
  letters := [('v', "verbose"), ('h', "help")]
  operands := operands

/-- What may stand before the command. -/
def topLevel : Level :=
  let level := Level.extended [] ["version"] (some 0)
  { level with letters := ('V', "version") :: level.letters }

/-- What may follow the command to integrate. -/
def integrateLevel : Level :=
  .extended [("router", "router"), ("app-tsx", "router"), ("listing", "listing"),
    ("home-tsx", "listing"), ("output-dir", "output-dir")] ["dry-run", "json"] none

/-- What may follow the command to extract. -/
def extractLevel : Level :=
  .extended [("output-dir", "output-dir")] ["dry-run", "save-snippets", "save-plan"] (some 1)

/-- What may follow the command to diagnose. -/
def diagnoseLevel : Level := .extended [] [] none

/-- The operands, of which there must be one. -/
def someOperands (g : Given) : Except Refusal (List Path) :=
  if g.operands.isEmpty then .error (.missing "inputs") else .ok g.operands

/-- The commands: what may follow each, and the request that it makes. -/
def commands : List (String × Level × (Given → Except Refusal Request)) :=
  [("integrate", integrateLevel, fun g => do
      return .integrate (← g.value "router") (← g.value "listing")
        ((g.value? "output-dir").getD "./output".toList) (g.flag "dry-run") (g.flag "json")
        (← someOperands g)),
    ("extract", extractLevel, fun g => do
      let input ← (g.operands.head?).elim (.error (.missing "input")) .ok
      return .extract input ((g.value? "output-dir").getD "./src".toList) (g.flag "dry-run")
        (g.flag "save-snippets") (g.flag "save-plan")),
    ("diagnose", diagnoseLevel, fun g => do return .diagnose (← someOperands g))]

/-- Answers a request for help, which may name one command: help itself is one of them. -/
def helpAbout : List Text → Refusal
  | [] => .help
  | topic :: rest =>
    if topic = "help".toList || (commands.lookup (String.ofList topic)).isSome then
      rest.head?.elim .help .unexpected
    else .unexpected topic

def Invocation.parse (args : List Text) : Except Refusal Invocation := do
  let (before, rest) ← scan topLevel true {} args
  match rest with
  | [] => .error .noCommand
  | name :: rest =>
    if name = "help".toList then .error (helpAbout rest)
    else
      match commands.lookup (String.ofList name) with
      | none => .error (.unexpected name)
      | some (level, request) => do
        let (after, _) ← scan level false {} rest
        return ⟨(after.value? "config").or (before.value? "config"), ← request after⟩

end Graft.Command
