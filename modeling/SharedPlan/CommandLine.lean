import SharedPlan.Document.Reader
import SharedPlan.Options.Text
import SharedPlan.Planner
import SharedPlan.Routing.Drawing

/-!
# SharedPlan.CommandLine

The command line: compile a plan document and show what was published.

`check` reports success or the first contradiction of the plan, `routing` shows the
routing table and `configs` the records of the waypoints.  The files come through a
function, so a run is a value that depends on its arguments and on what that
function answers.
-/

namespace SharedPlan

namespace CommandLine

/-- What is shown. -/
inductive Command where
  | check
  | routing
  | configs
  deriving DecidableEq

/-- How it is shown. -/
inductive Format where
  | text
  | json
  | dot
  deriving DecidableEq

/-- What the arguments ask for. -/
structure Invocation where
  command : Command
  /-- The file of the plan document. -/
  plan : String
  /-- The file of the options, if they are given. -/
  options : Option String
  format : Format
  deriving DecidableEq

/-- What a run leaves: its exit code and what it wrote. -/
structure Outcome where
  exitCode : Nat
  stdout : String
  stderr : String
  deriving DecidableEq

/-! ## Arguments -/

/-- The command with a name. -/
def Command.ofName? : String → Option Command
  | "check" => some .check
  | "routing" => some .routing
  | "configs" => some .configs
  | _ => none

/-- The format with a name. -/
def Format.ofName? : String → Option Format
  | "text" => some .text
  | "json" => some .json
  | "dot" => some .dot
  | _ => none

/-- Arguments read so far. -/
structure Arguments where
  positional : List String
  options : Option String
  format : Format

/-- What follows a given beginning of a text. -/
def afterPrefix? (start s : String) : Option String :=
  if start.toList.isPrefixOf s.toList then some (.ofList (s.toList.drop start.length)) else none

/-- Whether an argument only asks for more log output, which goes nowhere. -/
def isVerbosity (s : String) : Bool :=
  s = "--verbose" ||
    match s.toList with
    | '-' :: c :: rest => (c :: rest).all (· = 'v')
    | _ => false

/-- Read arguments; flags may stand anywhere, and a later one replaces an earlier one. -/
def Arguments.read (a : Arguments) : List String → Option Arguments
  | [] => some a
  | "--" :: rest => some { a with positional := a.positional ++ rest }
  | "--options" :: file :: rest => { a with options := some file }.read rest
  | "--format" :: name :: rest => do
    let format ← Format.ofName? name
    { a with format }.read rest
  | s :: rest =>
    match afterPrefix? "--options=" s, afterPrefix? "--format=" s with
    | some file, _ => { a with options := some file }.read rest
    | _, some name => do
      let format ← Format.ofName? name
      { a with format }.read rest
    | none, none =>
      if isVerbosity s then a.read rest
      else if s.startsWith "-" && s ≠ "-" then none
      else { a with positional := a.positional ++ [s] }.read rest

/-- What the arguments ask for. -/
def Invocation.ofArguments? (args : List String) : Option Invocation := do
  let a ← (Arguments.mk [] none .text).read args
  let [name, plan] := a.positional | none
  return ⟨← Command.ofName? name, plan, a.options, a.format⟩

/-! ## What is shown -/

/-- A text filled up with blanks to sixteen characters. -/
def column (s : String) : String := s.pushn ' ' (16 - s.length)

/-- The name of a query; a question mark stands for one that is gone. -/
def queryName (ws : Workspace) (q : QueryId) : String := (ws.queries.name? q).getD "?"

/-- The routing table, a line for each link. -/
def routingText (ws : Workspace) (s : Snapshot) : String :=
  let link := fun (sender, receiver, exits) =>
    let exits := (exits : ExitSet).toList.map fun e =>
      queryName ws e.query ++ "@" ++ ws.names.label e.exit
    "  " ++ column (ws.names.label sender) ++ " -> " ++ column (ws.names.label receiver) ++ " " ++
      ", ".intercalate exits ++ "\n"
  "routing (cycle " ++ toString s.cycle ++ ")\n" ++ String.join (s.routing.links.map link)

/-- The record of a waypoint: its name and kind, what a scan may skip, and its exits. -/
def configText (ws : Workspace) (c : WaypointConfig) : String :=
  let dropped :=
    match c.detail with
    | .scanner _ _ _ _ dropped _ _ _ =>
      dropped.entries.map fun e =>
        "  dropped " ++ queryName ws e.1 ++ ": " ++ ws.attributes.describe e.2 ++ "\n"
    | _ => []
  c.name ++ " [" ++ c.kind.name ++ "]\n" ++ String.join dropped ++
    String.join (c.flowThroughExits.map fun e => "  exit " ++ e.text ++ "\n") ++
    String.join (c.terminatingExits.map fun e => "  terminating exit " ++ e.text ++ "\n")

/-- What is shown of a snapshot. -/
def shown (command : Command) (format : Format) (ws : Workspace) (s : Snapshot) : String :=
  match command with
  | .check =>
    "ok: cycle " ++ toString s.cycle ++ " with " ++ toString s.configs.length ++
      " waypoints and " ++ toString s.queries.size ++ " queries\n"
  | .routing =>
    match format with
    | .json => s.routing.toText ++ "\n"
    | .dot => s.routing.toDot ws.names
    | .text => routingText ws s
  | .configs =>
    match format with
    | .json | .dot => (Json.ofList WaypointConfig.toJson s.configs).pretty ++ "\n"
    | .text => String.join (s.configs.map (configText ws))

/-! ## Runs -/

/-- A run that failed. -/
def failed (e : PlanError) : Outcome := ⟨1, "", "error: " ++ e.message ++ "\n"⟩

/-- A run whose arguments cannot be understood. -/
def misused : Outcome :=
  ⟨2, "", "usage: [--options FILE] [--format text|json|dot] [-v] check|routing|configs PLAN\n"⟩

/-- Compile the plan of a planner, and show what was asked for.  A contradiction
found by `check` is its answer. -/
def compileAndShow (i : Invocation) (p : Planner) : Outcome :=
  match Planner.compile.outcome p with
  | (.ok s, p) => ⟨0, shown i.command i.format p.workspace s, ""⟩
  | (.error e, _) =>
    if i.command = .check then ⟨2, "[" ++ e.code ++ "] " ++ e.message ++ "\n", ""⟩ else failed e

/-- The planner of a document, given what reading its files answered. -/
def planner (i : Invocation) (options : Option (Except FileFault String))
    (document : Except FileFault String) : Except PlanError Planner := do
  let options ←
    match options with
    | none => .ok .standard
    | some (.ok text) => PlannerOptions.parse (i.options.getD "") text
    | some (.error fault) => .error (.optionsUnreadable (i.options.getD "") fault)
  match document with
  | .ok text => Planner.ofDocument options (← PlanDocument.parse text)
  | .error fault => .error (.documentUnreadable fault)

/-- A run on the given arguments; files are read through a function. -/
def run {m : Type → Type} [Monad m] (readFile : String → m (Except FileFault String))
    (args : List String) : m Outcome := do
  match Invocation.ofArguments? args with
  | none => return misused
  | some i =>
    let options ← i.options.mapM readFile
    let document ← readFile i.plan
    match planner i options document with
    | .ok p => return compileAndShow i p
    | .error e => return failed e

end CommandLine

end SharedPlan
