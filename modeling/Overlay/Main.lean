import Overlay.CommandLine

/-!
The program: reads the environment, prints what the command line answers, and exits with its code.
-/

namespace Overlay.CommandLine

/-- All variables that a configuration is read from. -/
def settings : List Config.Setting :=
  [.base, .length, .leafCapacity, .neighborhoodCapacity, .penalty, .timeout, .inboxCapacity]

/-- The environment of the process, restricted to those variables. -/
def processEnvironment : IO Config.Environment := do
  let values ← settings.mapM fun setting => do return (setting.name, ← IO.getEnv setting.name)
  return fun name => (values.lookup name).join

end Overlay.CommandLine

def main (args : List String) : IO UInt32 := do
  let output := Overlay.CommandLine.output args (← Overlay.CommandLine.processEnvironment)
  IO.print output.stdout
  IO.eprint output.stderr
  return output.code
