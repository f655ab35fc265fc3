import ForestPager.CommandLine
import ForestPager.Http.Exchange
import ForestPager.Json.Reader
import ForestPager.Json.Writer
import ForestPager.Report.Walk

/-!
# The programs

`walk [pages]` prints the walk over the example query. `query FILE [options]`
pages the query body in a file and prints its rounds. Its POSTs go out as JSON
lines on standard error, and what they come to is read, line by line, from standard
input, so that any program that can post may serve as transport.
-/

namespace ForestPager.Program

/-- The most rounds that a program runs. -/
def roundsAllowed : Nat := 1000000000

/-- Carry a POST out over the standard streams. -/
def sendLine (post : Http.Post) : IO Http.PostOutcome := do
  (← IO.getStderr).putStrLn post.toJson.text
  let line ← (← IO.getStdin).getLine
  match (Json.parse? line).bind Http.outcomeOfJson? with
  | some outcome => pure outcome
  | none => pure (.error (.post (.transport "ClientError" "no answer")))

/-- Print the walk over the example query. -/
def runWalk (args : List String) : IO UInt32 := do
  match CommandLine.pages args with
  | some pages =>
    for line in Walk.report pages roundsAllowed do
      IO.println line
    pure 0
  | none =>
    IO.eprintln "usage: walk [pages]"
    pure 2

/-- Page the query body in a file. -/
def runQuery (args : List String) : IO UInt32 := do
  let defaults : Table.Options :=
    { base := (← IO.getEnv "GRAPHQUERY_BASE_URL").getD ""
      project := (← IO.getEnv "GRAPHQUERY_PROJECT").getD ""
      token := ← IO.getEnv "GRAPHQUERY_TOKEN" }
  match CommandLine.query defaults args with
  | some { file := some file, options, .. } =>
    match Json.parse? (← IO.FS.readFile file) with
    | none =>
      IO.eprintln "the query file is not JSON"
      pure 1
    | some body =>
      let printout ← Table.report sendLine options body roundsAllowed
      for line in printout.lines do
        IO.println line
      match printout.failure with
      | none => pure 0
      | some failure =>
        IO.eprintln failure.message
        pure 1
  | _ =>
    IO.eprintln ("usage: query FILE [--base-url U] [--project P] [--token T] " ++
      "[--never-paginate ID ...] [--verbose]")
    pure 2

end ForestPager.Program

/-- Run the program named by the first argument. -/
def main : List String → IO UInt32
  | "walk" :: args => ForestPager.Program.runWalk args
  | "query" :: args => ForestPager.Program.runQuery args
  | _ => do
    IO.eprintln "usage: walk [pages] | query FILE [options]"
    pure 2
