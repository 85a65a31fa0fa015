import TraitCoherence.CommandLine

namespace TraitCoherence

/-- Reads a file of the machine this runs on. -/
def readFile (path : Path) : IO Reading := do
  try
    return .content (← IO.FS.readBinFile path.render)
  catch error =>
    match error with
    | .noFileOrDirectory .. => return .missing
    | _ => return .unreadable

/-- Prints what a run leaves behind, and gives its status. -/
def Outcome.deliver (outcome : Outcome) : IO UInt32 := do
  (← IO.getStdout).putStr outcome.stdout
  (← IO.getStderr).putStr outcome.stderr
  return (outcome.status.getD 0).toUInt32

def Crash.message : Crash → String
  | .undecodable => "The program is not valid UTF-8."
  | .nullInPath => "A path cannot hold a null character."

/-- Prints why a run did not survive. -/
def Crash.deliver (crash : Crash) : IO UInt32 := do
  (← IO.getStderr).putStrLn crash.message
  return 1

/-- Draws the choices for one outburst. -/
def drawChoices : IO Choices := do
  let first ← IO.rand 0 99999
  let second ← IO.rand 0 99999
  let third ← IO.rand 0 99999
  return fun n => ([first, second, third].getD (n % 3) 0 : Nat)

/-- Checks the program that some options name. -/
def Options.execute (options : Options) : IO UInt32 := do
  if options.program.contains '\x00' then Crash.nullInPath.deliver
  else
    let path := options.path (.ofText (← IO.currentDir).toString)
    match options.checkReading (← drawChoices) path (← readFile path) with
    | .ok outcome => outcome.deliver
    | .error crash => crash.deliver

end TraitCoherence

def main (arguments : List String) : IO UInt32 :=
  match (TraitCoherence.Request.ofArguments arguments).answer with
  | .inl outcome => outcome.deliver
  | .inr options => options.execute
