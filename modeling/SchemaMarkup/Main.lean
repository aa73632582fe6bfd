import SchemaMarkup.Command

/-!
# The command line

Reads the files that a request names, runs it, and prints its outcome.
-/

namespace SchemaMarkup

/-- Reads a file, unless it is missing or is not text. -/
def readTextFile (path : String) : IO (Option Text) := do
  try
    let content <- IO.FS.readFile path
    return some content.toList
  catch _ =>
    return none

end SchemaMarkup

open SchemaMarkup in
/-- Runs the check command. -/
def main (arguments : List String) : IO UInt32 := do
  let some request := CheckRequest.ofArguments? arguments
    | return Outcome.badArguments.exitCode
  let files <- (request.input :: request.configuration.toList).mapM fun path => do
    return (path, <- readTextFile path)
  let outcome := request.run fun path => (files.lookup path).bind id
  IO.print outcome.output
  return outcome.exitCode
