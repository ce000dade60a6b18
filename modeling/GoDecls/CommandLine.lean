/-
  The command line: what its arguments ask for, and what is answered.

  `Request.ofArgs` reads the arguments one after the other.  A request for the
  version or for help is taken at once, unless something before it is wrong; a
  switch may stand once, and one directory has to be named.
-/
import GoDecls.Files.Load
import GoDecls.Listing

namespace GoDecls.CommandLine

/-! ## Arguments -/

/-- What the arguments have asked for so far. -/
structure Options where
  dir : Option String
  modules : Bool
  tests : Bool
  unbound : Bool
  onlyPublic : Bool
  verbosity : Nat
deriving DecidableEq, Repr

/-- Nothing has been asked for. -/
def Options.none : Options := ⟨.none, false, false, false, false, 0⟩

/-- What is asked for. -/
inductive Request where
  | version
  | help
  | list (dir : String) (o : Options)
deriving DecidableEq, Repr

/-- What can be wrong with the arguments. -/
inductive UsageError where
  | unknown (arg : String)
  | repeated (arg : String)
  | attachedValue (arg : String)
  | emptyDir
  | missingDir
deriving DecidableEq, Repr

/-- The wording of what is wrong with the arguments. -/
def UsageError.message : UsageError → String
  | .unknown arg => "unexpected argument '" ++ arg ++ "' found"
  | .repeated arg => "the argument '" ++ arg ++ "' cannot be used multiple times"
  | .attachedValue arg => "no value is expected for '" ++ arg ++ "'"
  | .emptyDir => "a value is required for '<DIR>' but none was supplied"
  | .missingDir => "the following required arguments were not provided: <DIR>"

/-- What an argument adds: more options, or a request that is taken at once. -/
abbrev Step := Except UsageError (Options ⊕ Request)

/-- A switch that is set, unless it has been before. -/
def setOnce (arg : String) (before : Bool) (o : Options) : Step :=
  if before then .error (.repeated arg) else .ok (.inl o)

/-- A request that is taken at once, unless the directory is named by an empty
    text. -/
def atOnce (o : Options) (r : Request) : Step :=
  if o.dir = some "" then .error .emptyDir else .ok (.inr r)

/-- The options with one more word for how much is reported. -/
def moreVerbose (o : Options) : Options := { o with verbosity := o.verbosity + 1 }

/-- The options after a directory. -/
def addDir (o : Options) (arg : String) : Step :=
  match o.dir with
  | .none => .ok (.inl { o with dir := some arg })
  | some _ => .error (.unknown arg)

/-- The options after a long switch of this name. -/
def addLong (o : Options) (name : String) : Step :=
  let arg := "--" ++ name
  match name with
  | "resolve-module" => setOnce arg o.modules { o with modules := true }
  | "include-tests" => setOnce arg o.tests { o with tests := true }
  | "unresolved" => setOnce arg o.unbound { o with unbound := true }
  | "public" => setOnce arg o.onlyPublic { o with onlyPublic := true }
  | "verbose" => .ok (.inl (moreVerbose o))
  | "version" => atOnce o .version
  | "help" => atOnce o .help
  | _ => .error (.unknown arg)

/-- The options after short switches that stand together. -/
def addShort (o : Options) : List Char → Step
  | [] => .ok (.inl o)
  | 'v' :: cs => addShort (moreVerbose o) cs
  | 'V' :: _ => atOnce o .version
  | 'h' :: _ => atOnce o .help
  | c :: _ => .error (.unknown (String.ofList ['-', c]))

/-- The options after an argument. -/
def addArg (o : Options) (arg : String) : Step :=
  match arg.toList with
  | '-' :: '-' :: name =>
    if '=' ∈ name then .error (.attachedValue arg) else addLong o (String.ofList name)
  | '-' :: c :: cs => addShort o (c :: cs)
  | _ => addDir o arg

/-- The request that the options amount to at the end. -/
def Options.request (o : Options) : Except UsageError Request :=
  match o.dir with
  | .none => .error .missingDir
  | some "" => .error .emptyDir
  | some dir => .ok (.list dir o)

/-- The request of the arguments that follow; after `--`, which makes `opened`
    false, there are no more switches. -/
def Request.ofArgsFrom (o : Options) (opened : Bool) : List String → Except UsageError Request
  | [] => o.request
  | arg :: args =>
    if opened && arg = "--" then Request.ofArgsFrom o false args
    else
      match if opened then addArg o arg else addDir o arg with
      | .error e => .error e
      | .ok (.inl o') => Request.ofArgsFrom o' opened args
      | .ok (.inr r) => .ok r

/-- The request of the arguments. -/
def Request.ofArgs (args : List String) : Except UsageError Request :=
  Request.ofArgsFrom .none true args

/-! ## Answers -/

/-- What is written, and the exit code. -/
structure Reply where
  code : Nat
  out : String
  err : String
deriving DecidableEq, Repr

/-- The name of the program and its version. -/
def versionText : String := "gotypes 0.1.0\n"

/-- How the program is called. -/
def helpText : String :=
  Listing.unlines [
    "Extract the type declarations of a Go source tree",
    "",
    "Usage: gotypes [OPTIONS] <DIR>",
    "",
    "Arguments:",
    "  <DIR>  Directory to scan recursively",
    "",
    "Options:",
    "      --resolve-module  Record the enclosing go.mod module on every file",
    "      --include-tests   Include \x60_test.go\x60 files",
    "      --unresolved      Only list references that could not be resolved",
    "      --public          Only print exported declarations",
    "  -v, --verbose...      Increase log verbosity (-v debug, -vv trace)",
    "  -h, --help            Print help",
    "  -V, --version         Print version"]

/-- A text whose lines after the first stand behind a margin. -/
def indent (margin : String) (s : String) : String :=
  ("\n" ++ margin).intercalate ((s.toList.splitOn '\n').map String.ofList)

/-- A cause with its number behind the margin. -/
def numberedCause (number : Nat) (cause : String) : String :=
  let digits := toString number
  let front := String.ofList (List.replicate (5 - digits.length) ' ')
  front ++ digits ++ ": " ++ indent "       " cause

/-- The causes of an error, numbered if there are several. -/
def causeLines : List String → List String
  | [cause] => ["    " ++ indent "    " cause]
  | causes => causes.zipIdx.map fun (cause, i) => numberedCause i cause

/-- The report that the files of a directory cannot be loaded. -/
def errorText (dir : String) (e : Files.LoadError) : String :=
  Listing.unlines
    (["Error: failed to parse " ++ dir, "", "Caused by:"] ++ causeLines (e.message :: e.causes))

/-- The answer to a request for a listing in the current directory `cwd`. -/
def list (root : Files.Node) (cwd : Files.Path) (dir : String) (o : Options) : Reply :=
  match Files.loadDirectory root ⟨o.modules, o.tests⟩ (cwd.resolve dir) with
  | .error e => ⟨1, "", errorText dir e⟩
  | .ok units =>
    let (bound, stats) := Batch.resolve units
    ⟨0, if o.unbound then Listing.ofUnbound bound else Listing.ofUnits o.onlyPublic bound stats, ""⟩

/-- The answer to the arguments in the current directory `cwd`. -/
def run (root : Files.Node) (cwd : Files.Path) (args : List String) : Reply :=
  match Request.ofArgs args with
  | .error e => ⟨2, "", "error: " ++ e.message ++ "\n"⟩
  | .ok .version => ⟨0, versionText, ""⟩
  | .ok .help => ⟨0, helpText, ""⟩
  | .ok (.list dir o) => list root cwd dir o

end GoDecls.CommandLine
