import TraitCoherence.Options.Argument
import TraitCoherence.Text.Quoted

namespace TraitCoherence

/-- What to check, and how to tell about it. -/
structure Options where
  program : String
  verbose : Bool
  overlapsOnly : Bool
  strict : Bool
deriving DecidableEq, Repr

/-- Why a command line is refused. -/
inductive UsageError where
  | ambiguous (argument : String) (switches : List Switch)
  | needlessValue (switch : Switch) (value : String)
  | programMissing
  | unrecognized (arguments : List String)
deriving DecidableEq, Repr

def UsageError.message : UsageError → String
  | .ambiguous argument switches =>
    "ambiguous option: " ++ argument ++ " could match " ++
      ", ".intercalate (switches.map fun switch => "--" ++ switch.word)
  | .needlessValue switch value =>
    "argument -" ++ .singleton switch.letter ++ "/--" ++ switch.word ++
      ": ignored explicit argument " ++ quoted value
  | .programMissing => "the following arguments are required: program"
  | .unrecognized arguments => "unrecognized arguments: " ++ " ".intercalate arguments

/-- What a command line asks for. -/
inductive Request where
  | overview
  | help
  | refuse (error : UsageError)
  | check (options : Options)
deriving DecidableEq, Repr

/-- The switches in an argument that starts with the letter of one: every further letter has to be a
switch too. -/
def switchesIn (switch : Switch) : List Char → Except UsageError (List Switch)
  | [] => .ok [switch]
  | letter :: rest =>
    match Switch.ofLetter? letter with
    | none => .error (.needlessValue switch (.ofList (letter :: rest)))
    | some next =>
      match switchesIn next rest with
      | .error error => .error error
      | .ok switches => .ok (switch :: switches)

/-- The switches that an argument turns on. A switch takes no value. -/
def Argument.switches : Argument → Except UsageError (List Switch)
  | .long switch (some value) => .error (.needlessValue switch (.ofList value))
  | .long switch none => .ok [switch]
  | .short switch (some []) => .error (.needlessValue switch "")
  | .short switch value => switchesIn switch (value.getD [])
  | _ => .ok []

/-- What the arguments read so far have told. `adjacent` says that the last of them was the
program. -/
structure ArgState where
  program : Option String
  adjacent : Bool
  surplus : List String
  switches : List Switch
deriving DecidableEq, Repr

/-- A plain argument is the program, or surplus if there is one already. -/
def ArgState.plain (state : ArgState) (argument : String) : ArgState :=
  match state.program with
  | none => ⟨some argument, true, state.surplus, state.switches⟩
  | some program => ⟨some program, false, state.surplus ++ [argument], state.switches⟩

def ArgState.unknown (state : ArgState) (argument : String) : ArgState :=
  ⟨state.program, false, state.surplus ++ [argument], state.switches⟩

def ArgState.turnOn (state : ArgState) (switches : List Switch) : ArgState :=
  ⟨state.program, false, state.surplus, state.switches ++ switches⟩

/-- Takes the arguments after a double dash, none of which is an option. The dash itself is surplus unless
the program stands next to it. -/
def ArgState.afterDash (state : ArgState) (rest : List String) : ArgState :=
  match state.program, rest with
  | none, program :: rest => ⟨some program, false, state.surplus ++ rest, state.switches⟩
  | none, [] => ⟨none, false, state.surplus ++ ["--"], state.switches⟩
  | some program, rest =>
    let surplus := if state.adjacent then rest else "--" :: rest
    ⟨some program, false, state.surplus ++ surplus, state.switches⟩

/-- What is asked for when all arguments are read. -/
def ArgState.request (state : ArgState) : Request :=
  match state.program with
  | none => .refuse .programMissing
  | some program =>
    if state.surplus.isEmpty then
      .check ⟨program, state.switches.contains .verbose, state.switches.contains .overlapsOnly,
        state.switches.contains .strict⟩
    else .refuse (.unrecognized state.surplus)

/-- Reads arguments from the left. Asking for help, or giving a switch a value, ends the reading. -/
def ArgState.read (state : ArgState) : List String → Request
  | [] => state.request
  | argument :: rest =>
    if argument = "--" then (state.afterDash rest).request
    else
      match Argument.ofText argument.toList with
      | .plain => (state.plain argument).read rest
      | .unknown => (state.unknown argument).read rest
      | .ambiguous switches => .refuse (.ambiguous argument switches)
      | known =>
        match known.switches with
        | .error error => .refuse error
        | .ok switches =>
          if switches.contains .help then .help else (state.turnOn switches).read rest

/-- The first ambiguous argument before a double dash. -/
def firstAmbiguous? : List String → Option UsageError
  | [] => none
  | argument :: rest =>
    if argument = "--" then none
    else
      match Argument.ofText argument.toList with
      | .ambiguous switches => some (.ambiguous argument switches)
      | _ => firstAmbiguous? rest

/-- What a command line asks for. Ambiguity is noticed before anything else. -/
def Request.ofArguments : List String → Request
  | [] => .overview
  | arguments =>
    match firstAmbiguous? arguments with
    | some error => .refuse error
    | none => ArgState.read ⟨none, false, [], []⟩ arguments

end TraitCoherence
