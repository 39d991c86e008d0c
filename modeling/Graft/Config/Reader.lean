import Graft.Codec.Config
import Graft.File.Store
import Graft.Toml.Reader

/-!
# Reading a configuration

A configuration is written in TOML.  A document that is no TOML and one that describes no
configuration are refused alike, but for a key that is not known, which is named.
-/

namespace Graft

/-- Why a text is no configuration. -/
inductive ConfigFault where
  | malformed
  /-- What it holds is not a configuration. -/
  | undecodable (fault : DecodeFault)
  deriving DecidableEq, Repr

/-- The text of the fault, where it has one. -/
def ConfigFault.message? : ConfigFault → Option String
  | .malformed => none
  | .undecodable fault => fault.message?

/-- Why a configuration cannot be loaded. -/
inductive ConfigError where
  | io (path : Path) (fault : IoFault)
  | invalid (fault : ConfigFault)
  deriving DecidableEq, Repr

def ConfigFault.message (f : ConfigFault) : String :=
  "TOML parse error" ++ f.message?.elim "" ("\n" ++ ·)

def ConfigError.message : ConfigError → String
  | .io path fault => "failed to read config " ++ String.ofList path ++ ": " ++ fault.message
  | .invalid fault => "invalid config: " ++ fault.message

namespace Config

def parse (t : Text) : Except ConfigFault Config :=
  match Toml.parse? t with
  | none => .error .malformed
  | some entries =>
    match decode .ignored (Toml.Value.table entries).toJson with
    | .ok c => .ok c
    | .error fault => .error (.undecodable fault)

def load {m : Type → Type} [Monad m] [FileStore m] (p : Path) : m (Except ConfigError Config) := do
  match ← FileStore.readText p with
  | .error fault => return .error (.io p fault)
  | .ok t => return (parse t).mapError .invalid

end Config

end Graft
