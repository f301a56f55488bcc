import Tenancy.Json.Printer
import Tenancy.Manifest.Kinds
import Tenancy.Usage

/-!
# The command line

The program reads its settings. Asked for the definitions of the kinds of objects it prints them, one
document each; otherwise it says which places it works with.
-/

namespace Tenancy.CommandLine

/-- The variables of the environment that are settings. -/
def environment : IO (List (String × String)) :=
  (Setting.all.filterMap Setting.environmentName?).filterMapM fun name => do
    return (← IO.getEnv name).map fun value => (name, value)

def print (o : Options) : IO Unit := do
  if o.crd then
    for d in [Definition.tenant, Definition.globalHook] do
      IO.println ("---\n" ++ d.toJson.compact)
  else IO.println o.overview

/-- Say what is wrong with the arguments, or answer the question in them. -/
def explain (fault : OptionFault) : IO UInt32 := do
  if fault.isAnswer then
    IO.println fault.message
    return 0
  IO.eprintln ("error: " ++ fault.message)
  return 2

def run (arguments : List String) : IO UInt32 := do
  let given ← environment
  match Options.read arguments fun name => (given.find? fun p => p.1 = name).map (·.2) with
  | .ok o => do
    print o
    return 0
  | .error fault => explain fault

end Tenancy.CommandLine

def main (arguments : List String) : IO UInt32 := Tenancy.CommandLine.run arguments
