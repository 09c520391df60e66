import Overlay.Cluster.Run

/-!
The command line: builds a seeded cluster, runs it and prints the report. What is printed and the
exit code are a function of the arguments and the environment.
-/

namespace Overlay.CommandLine

-- Powers are those of the core library, whatever else is imported.
attribute [local instance (high)] instPowNat

/-- What a program prints and returns. -/
structure Output where
  code : UInt32
  stdout : String
  stderr : String
  deriving DecidableEq

def usage : String :=
  "pastry-sim - Build a seeded cluster and report routing state\n" ++
  "\n" ++
  "Usage:\n" ++
  "  pastry-sim [node_count] [seed]   (defaults: 100 nodes, seed 42)\n" ++
  "\n" ++
  "Environment:\n" ++
  "  PASTRY_ID_BASE, PASTRY_ID_LENGTH          Identifier space\n" ++
  "  PASTRY_LEAF_HALF_CAPACITY                 Leaf set half size\n" ++
  "  PASTRY_NEIGHBORHOOD_CAPACITY              Neighborhood size\n" ++
  "  PASTRY_REGION_PENALTY                     Cross-region latency multiplier\n" ++
  "  PASTRY_LOOKUP_TIMEOUT_MS                  Worker answer deadline\n" ++
  "  PASTRY_INBOX_CAPACITY                     Worker inbox bound\n" ++
  "  RUST_LOG                                  Log filter (default: pastry=info)\n"

/-- The number at a place of the arguments, or a default if there is none. Its fault is the line
that reports it. -/
def argument (args : List String) (place : Nat) (name : String) (default : Nat) :
    Except String Nat :=
  match args[place]? with
  | none => .ok default
  | some text => (Number.readNatural (2 ^ (64 : Nat)) text).mapError fun _ =>
    s!"Error: invalid {name}: {Text.quoted text}\n"

/-- The two numbers of the arguments, the first one judged first. -/
def arguments (args : List String) : Except String (Nat × Nat) := do
  let unset : Cluster.Plan := {}
  let nodes ← argument args 0 "node_count" unset.nodes
  let seed ← argument args 1 "seed" unset.seed.toNat
  return (nodes, seed)

def report (nodes seed : Nat) (environment : Config.Environment) :
    Except Error Cluster.Report := do
  let routing ← Config.ofEnvironment environment
  let cluster ← Cluster.generate { nodes, seed := UInt64.ofNat seed, routing }
  return cluster.run.1

def output (args : List String) (environment : Config.Environment) : Output :=
  if args.any fun a => a = "-h" || a = "--help" then { code := 0, stdout := "", stderr := usage }
  else
    match arguments args with
    | .error line => { code := 2, stdout := "", stderr := line ++ usage }
    | .ok (nodes, seed) =>
      match report nodes seed environment with
      | .error e => { code := 1, stdout := "", stderr := s!"Error: {e.inspect}\n" }
      | .ok r => { code := 0, stdout := r.text ++ "\n", stderr := "" }

end Overlay.CommandLine
