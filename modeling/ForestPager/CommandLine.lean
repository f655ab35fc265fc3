import ForestPager.Number.Numeral
import ForestPager.Report.Table

/-!
# Arguments of the programs

An option is written `--name value` or `--name=value`, and its name may be cut as
long as only one option starts that way. The ids after `--never-paginate` go on to
the next option. What is neither an option nor its value is a place argument, and
so is all that stands behind the separator `--`.

Results:

* `CommandLine.query`: what the arguments of the paginated query say.
* `CommandLine.pages`: the number of pages of the walk.
-/

namespace ForestPager.CommandLine

/-- Whether an argument looks like a negative number, in digits of any script. A
line feed at its end does no harm. -/
def isNegativeNumber (cs : List Char) : Bool :=
  match cs with
  | '-' :: rest =>
    let isDigit := fun c => (Text.digitValue? c).isSome
    let rest := if rest.getLast? = some '\n' then rest.dropLast else rest
    match rest.dropWhile isDigit with
    | [] => !rest.isEmpty
    | '.' :: fraction => !fraction.isEmpty && fraction.all isDigit
    | _ => false
  | _ => false

/-- An argument by its place in the grammar: an option, with the value written behind its equals
sign; a plain argument; the mark behind which all arguments are plain; or an option that is not
known, or not told apart. -/
inductive Argument
  | option (name : String) (value : Option String)
  | plain (s : String)
  | separator
  | unknown (s : String)
deriving DecidableEq

/-- The options of every program. -/
def commonOptions : List String := ["--help"]

/-- The options of a paginated query. -/
def queryOptions : List String :=
  commonOptions ++ ["--base-url", "--project", "--token", "--never-paginate", "--verbose"]

/-- Tell an argument by the names of the options. -/
def classify (options : List String) (s : String) : Argument :=
  let cs := s.toList
  if cs.head? ≠ some '-' ∨ cs.length = 1 then .plain s
  else if s ∈ options then .option s none
  else
    let name := cs.takeWhile (· ≠ '=')
    let value := match cs.dropWhile (· ≠ '=') with
      | _ :: rest => some (String.ofList rest)
      | [] => none
    match options.filter fun o => "--".toList.isPrefixOf cs && name.isPrefixOf o.toList with
    | [o] => .option o value
    | _ :: _ :: _ => .unknown s
    | [] =>
      if "-h".toList.isPrefixOf cs then .unknown s
      else if isNegativeNumber cs ∨ ' ' ∈ cs then .plain s
      else .unknown s

/-- Tell arguments by the names of the options. Behind the first separator every
argument is plain. -/
def classifyAll (options : List String) : List String → List Argument
  | [] => []
  | s :: rest =>
    if s = "--" then .separator :: rest.map .plain
    else classify options s :: classifyAll options rest

/-- The arguments of a paginated query: the file with the query body and the rest. -/
structure Query where
  file : Option String := none
  options : Table.Options := {}
  verbose : Bool := false

namespace Query

/-- Take a plain argument as the file; there is only one. -/
def takeFile (q : Query) (s : String) : Option Query :=
  match q.file with
  | none => some { q with file := some s }
  | some _ => none

/-- Set an option that takes one value. -/
def set (q : Query) (name value : String) : Option Query :=
  match name with
  | "--base-url" => some { q with options := { q.options with base := value } }
  | "--project" => some { q with options := { q.options with project := value } }
  | "--token" => some { q with options := { q.options with token := some value } }
  | _ => none

/-- Set the ids of the sub-queries whose cursors are not followed. -/
def setIds (q : Query) (ids : List String) : Query :=
  { q with options := { q.options with neverPaginate := ids } }

/-- Set an option from the value behind its equals sign. A separator there counts as
no value at all. -/
def setWritten (q : Query) (name value : String) : Option Query :=
  if name = "--never-paginate" then some (q.setIds (if value = "--" then [] else [value]))
  else q.set name (if value = "--" then "" else value)

/-- Read classified arguments one after the other. While `collecting`, plain
arguments go to the ids of the option before. A separator stands directly before or
behind the file. -/
def read (q : Query) : (collecting : Bool) → List Argument → Option Query
  | _, [] => some q
  | true, .plain s :: rest => (q.setIds (q.options.neverPaginate ++ [s])).read true rest
  | false, .plain s :: .separator :: rest => (q.takeFile s).bind fun q => q.read false rest
  | false, .plain s :: rest => (q.takeFile s).bind fun q => q.read false rest
  | _, .separator :: .plain s :: rest => (q.takeFile s).bind fun q => q.read false rest
  | _, .option "--verbose" none :: rest => { q with verbose := true }.read false rest
  | _, .option "--never-paginate" none :: rest => (q.setIds []).read true rest
  | _, .option name (some s) :: rest => (q.setWritten name s).bind fun q => q.read false rest
  | _, .option name none :: .plain s :: rest => (q.set name s).bind fun q => q.read false rest
  | _, .option _ none :: _ | _, .separator :: _ | _, .unknown _ :: _ => none

end Query

/-- Read the arguments of a paginated query (`parse_args`); `defaults` says what options are when
they are left out. -/
def query (defaults : Table.Options) (args : List String) : Option Query :=
  (Query.read { options := defaults } false (classifyAll queryOptions args)).filter (·.file.isSome)

/-- Read the number of pages of the walk (`parse_args`), two unless said otherwise. -/
def pages (args : List String) : Option Int :=
  match classifyAll commonOptions args with
  | [] | [.separator] => some 2
  | [.plain s] | [.plain s, .separator] | [.separator, .plain s] => readInteger? s
  | _ => none

end ForestPager.CommandLine
