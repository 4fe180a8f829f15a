import WcagAudit.Color.Literal
import WcagAudit.Config.Basic
import WcagAudit.Report.Format

/-!
The command line. Arguments are bytes; all but those that are paths have to be text. They are read from
left to right, and the first that is wrong, or that asks for help or for the version, decides. An option takes the rest of its argument behind an equals sign, or
else the next argument, which must not look like an option itself; behind a bare double hyphen there
are no options any more.
-/

namespace WcagAudit.Command

abbrev Argument := List UInt8

@[match_pattern] def hyphen : UInt8 := 0x2D

def read? (ofText? : String → Option α) (a : Argument) : Option α :=
  (Utf8.decode? a).bind fun t => ofText? (String.ofList t)

inductive Name where
  | check
  | analyze
  | contrast
  | rules
  | init
  | help
  deriving DecidableEq, Repr

def Name.ofText? : String → Option Name
  | "check" => some .check
  | "analyze" => some .analyze
  | "contrast" => some .contrast
  | "rules" => some .rules
  | "init" => some .init
  | "help" => some .help
  | _ => none

def Name.arity : Name → Nat
  | check | analyze | help => 1
  | contrast => 2
  | rules | init => 0

inductive Key where
  | config
  | level
  | format
  | output
  | path
  deriving DecidableEq, Repr

/-- The option of that name in front of the command (`none`) or behind it. -/
def Key.ofText? : Option Name → String → Option Key
  | _, "config" => some .config
  | some .check, "level" | some .analyze, "level" => some .level
  | some .check, "format" | some .analyze, "format" => some .format
  | some .check, "output" => some .output
  | some .init, "path" => some .path
  | _, _ => none

inductive Stop where
  | usage
  | help
  | version
  deriving DecidableEq, Repr

structure Given where
  config : Option Path := none
  verbose : Bool := false
  level : Option Level := none
  format : Option Format := none
  output : Option Path := none
  path : Option Path := none
  words : List Argument := []

structure State where
  command : Option Name := none
  before : Given := {}
  given : Given := {}
  pending : Option Key := none
  /-- A double hyphen has been read. -/
  plain : Bool := false

def path? (a : Argument) : Option Path := if a.isEmpty then none else some ⟨a⟩

def levelOfText? : String → Option Level
  | "a" => some .a
  | "aa" => some .aa
  | "aaa" => some .aaa
  | _ => none

def once (old new : Option α) : Except Stop (Option α) :=
  match old, new with
  | none, some x => .ok (some x)
  | _, _ => .error .usage

def Given.set (g : Given) (key : Key) (value : Argument) : Except Stop Given :=
  match key with
  | .config => return { g with config := ← once g.config (path? value) }
  | .level => return { g with level := ← once g.level (read? levelOfText? value) }
  | .format => return { g with format := ← once g.format (read? Format.ofName? value) }
  | .output => return { g with output := ← once g.output (path? value) }
  | .path => return { g with path := ← once g.path (path? value) }

def Given.setVerbose (g : Given) : Except Stop Given :=
  if g.verbose then .error .usage else .ok { g with verbose := true }

namespace State

def set (s : State) (key : Key) (value : Argument) : Except Stop State :=
  return { s with given := ← s.given.set key value, pending := none }

def word (s : State) (w : Argument) : Except Stop State :=
  match s.command with
  | none =>
    if s.plain then .error .usage
    else match read? Name.ofText? w with
      | some name =>
        .ok { command := some name, before := s.given, plain := name = .help }
      | none => .error .usage
  | some name =>
    let fits := if name = .contrast then (Utf8.decode? w).isSome else !w.isEmpty
    if s.given.words.length < name.arity && fits then
      .ok { s with given := { s.given with words := s.given.words ++ [w] } }
    else .error .usage

def short (s : State) (c : Option Char) : Except Stop State :=
  match c with
  | some 'v' => return { s with given := ← s.given.setVerbose }
  | some 'h' => .error .help
  | some 'V' => .error (if s.command.isNone then .version else .usage)
  | _ => .error .usage

def long (s : State) (name : String) : Except Stop State :=
  match name with
  | "verbose" => return { s with given := ← s.given.setVerbose }
  | "help" => .error .help
  | "version" => .error (if s.command.isNone then .version else .usage)
  | name =>
    match Key.ofText? s.command name with
    | some key => .ok { s with pending := some key }
    | none => .error .usage

def longWith (s : State) (name : String) (value : Argument) : Except Stop State :=
  match Key.ofText? s.command name with
  | some key => s.set key value
  | none => .error .usage

def option (s : State) (rest : Argument) : Except Stop State :=
  match rest with
  | [hyphen] => .ok { s with plain := true }
  | hyphen :: named =>
    let equals : UInt8 := 0x3D
    match Utf8.decode? (named.takeWhile (· != equals)), named.dropWhile (· != equals) with
    | none, _ => .error .usage
    | some name, [] => s.long (String.ofList name)
    | some name, _ :: value => s.longWith (String.ofList name) value
  | letters => (Utf8.pieces none letters).foldlM short s

def step (s : State) (a : Argument) : Except Stop State :=
  match s.plain, s.pending, a with
  | true, none, _ => s.word a
  | _, some _, hyphen :: _ :: _ => .error .usage
  | _, some key, _ => s.set key a
  | false, none, hyphen :: c :: rest => s.option (c :: rest)
  | false, none, _ => s.word a

end State

inductive Task where
  | check (directory : Path) (level : Option Level) (format : Format) (output : Option Path)
  | analyze (file : Path) (level : Option Level) (format : Format)
  | contrast (first second : List Char)
  | rules
  | init (path : Path)

structure Invocation where
  config : Path
  task : Task

def taskOf (name : Name) (g : Given) : Except Stop Task :=
  let format := g.format.getD .text
  match name, g.words with
  | .check, [w] => .ok (.check ⟨w⟩ g.level format g.output)
  | .analyze, [w] => .ok (.analyze ⟨w⟩ g.level format)
  | .contrast, [v, w] =>
    match Utf8.decode? v, Utf8.decode? w with
    | some first, some second => .ok (.contrast first second)
    | _, _ => .error .usage
  | .rules, [] => .ok .rules
  | .init, [] => .ok (.init (g.path.getD Config.defaultPath))
  | .help, [] => .error .help
  | .help, [w] => .error (if (read? Name.ofText? w).isSome then .help else .usage)
  | _, _ => .error .usage

/-- The configuration that stands behind the command goes before the one in front of it. -/
def State.finish (s : State) : Except Stop Invocation :=
  match s.pending, s.command with
  | none, some name => do
    return {
      config := (s.given.config.or s.before.config).getD Config.defaultPath
      task := ← taskOf name s.given }
  | _, _ => .error .usage

def parse (arguments : List Argument) : Except Stop Invocation := do
  let s ← arguments.foldlM State.step {}
  s.finish

def usage : String :=
  "Usage: a11ylint [--config FILE] [--verbose] COMMAND\n\n" ++
  "  check DIR       run the rules on the files below a directory\n" ++
  "  analyze FILE    run the rules on one file\n" ++
  "  contrast A B    compare two colors\n" ++
  "  rules           list the rules\n" ++
  "  init            write a default configuration\n\n" ++
  "check and analyze take --level a|aa|aaa and --format text|json|sarif,\n" ++
  "check also takes --output FILE, and init takes --path FILE.\n"

end WcagAudit.Command
