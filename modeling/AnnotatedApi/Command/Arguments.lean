import AnnotatedApi.Build

/-! The arguments of the command. They are taken from left to right. A value that stands in an argument of
its own is checked only when the next option or input is taken, so an unknown option behind it is reported
first. -/
namespace AnnotatedApi.Command

/-- Why the arguments cannot be used, or what is shown instead. -/
inductive UsageFault where
  | unknownArgument
  | invalidValue
  /-- Something that may be given once is given twice. -/
  | conflict
  /-- A value for an option that takes none. -/
  | tooManyValues
  | help
  | version
deriving DecidableEq

structure Arguments where
  /-- Files and directories. -/
  inputs : List String := []
  /-- A settings file. -/
  config : Option String := none
  title : Option String := none
  apiVersion : Option String := none
  servers : List String := []
  extensions : List String := []
  format : Option Format := none
  output : Option String := none
  verbose : Bool := false

inductive Setting where
  | config
  | title
  | apiVersion
  | server
  | extension
  | format
  | output
deriving DecidableEq

inductive Flag where
  | setting (s : Setting)
  | verbose
  | help
  | version
deriving DecidableEq

namespace Flag

def ofLong? : String → Option Flag
  | "config" => some (setting .config)
  | "title" => some (setting .title)
  | "api-version" => some (setting .apiVersion)
  | "server" => some (setting .server)
  | "extension" => some (setting .extension)
  | "format" => some (setting .format)
  | "output" => some (setting .output)
  | "verbose" => some verbose
  | "help" => some help
  | "version" => some version
  | _ => none

def ofShort? : Char → Option Flag
  | 'c' => some (setting .config)
  | 'e' => some (setting .extension)
  | 'f' => some (setting .format)
  | 'o' => some (setting .output)
  | 'v' => some verbose
  | 'h' => some help
  | 'V' => some version
  | _ => none

end Flag

def once {α : Type} (before : Option α) (value : Option α) : Except UsageFault (Option α) :=
  match before, value with
  | some _, _ => .error .conflict
  | none, some a => .ok (some a)
  | none, none => .error .invalidValue

def file? (s : String) : Option String := if s = "" then none else some s

namespace Arguments

def set (a : Arguments) (value : String) : Setting → Except UsageFault Arguments
  | .config => do return { a with config := ← once a.config (file? value) }
  | .title => do return { a with title := ← once a.title (some value) }
  | .apiVersion => do return { a with apiVersion := ← once a.apiVersion (some value) }
  | .server => .ok { a with servers := a.servers ++ [value] }
  | .extension => .ok { a with extensions := a.extensions ++ [value] }
  | .format => do return { a with format := ← once a.format (Format.ofName? value) }
  | .output => do return { a with output := ← once a.output (file? value) }

def addInputs (a : Arguments) (paths : List String) : Except UsageFault Arguments :=
  if "" ∈ paths then .error .invalidValue else .ok { a with inputs := a.inputs ++ paths }

end Arguments

/-- What has been taken but not checked. -/
inductive Pending where
  | nothing
  /-- An option, and its value once that is known. -/
  | setting (s : Setting) (value : Option String)
  | inputs (paths : List String)

structure State where
  done : Arguments := {}
  pending : Pending := .nothing

namespace State

def settle (s : State) : Except UsageFault Arguments :=
  match s.pending with
  | .nothing => .ok s.done
  | .setting k (some v) => s.done.set v k
  | .setting _ none => .error .invalidValue
  | .inputs paths => s.done.addInputs paths

def assign (s : State) (k : Setting) (value : String) : Except UsageFault State := do
  let a ← s.settle
  return { done := ← a.set value k }

def await (s : State) (k : Setting) : Except UsageFault State := do
  return { done := ← s.settle, pending := .setting k none }

def switchOn (s : State) : Flag → Except UsageFault State
  | .setting k => s.await k
  | .verbose => do
    let a ← s.settle
    if a.verbose then .error .conflict else return { done := { a with verbose := true } }
  | .help => do
    let _ ← s.settle
    .error .help
  | .version => do
    let _ ← s.settle
    .error .version

def input (s : State) (path : String) : Except UsageFault State :=
  match s.pending with
  | .inputs paths => .ok { s with pending := .inputs (paths ++ [path]) }
  | _ => do return { done := ← s.settle, pending := .inputs [path] }

/-- The value that an option waits for, or else an input. -/
def operand (s : State) (text : String) : Except UsageFault State :=
  match s.pending with
  | .setting k none => .ok { s with pending := .setting k (some text) }
  | _ => s.input text

/-- An option by its long name, perhaps with a value behind an equals sign. -/
def long (s : State) (cs : List Char) : Except UsageFault State :=
  let name := cs.takeWhile (· ≠ '=')
  let value : Option (List Char) := match cs.dropWhile (· ≠ '=') with
    | [] => none
    | _ :: v => some v
  match Flag.ofLong? (String.ofList name), value with
  | none, _ => .error .unknownArgument
  | some (.setting k), some v => s.assign k (String.ofList v)
  | some _, some _ => .error .tooManyValues
  | some flag, none => s.switchOn flag

/-- Options by their letters. What follows the letter of an option with a value is that value. -/
def short (s : State) : List Char → Except UsageFault State
  | [] => .ok s
  | c :: cs =>
    match Flag.ofShort? c with
    | none => .error .unknownArgument
    | some (.setting k) =>
      match cs with
      | [] => s.await k
      | '=' :: v => s.assign k (String.ofList v)
      | v => s.assign k (String.ofList v)
    | some flag => do (← s.switchOn flag).short cs

def step (s : State) (argument : String) : Except UsageFault State :=
  match argument.toList with
  | '-' :: '-' :: cs => s.long cs
  | '-' :: c :: cs => s.short (c :: cs)
  | _ => s.operand argument

/-- All arguments; behind two dashes there are only inputs. -/
def run (s : State) : List String → Except UsageFault State
  | [] => .ok s
  | argument :: rest =>
    if argument = "--" then rest.foldlM input s
    else do (← s.step argument).run rest

end State

def Arguments.parse (arguments : List String) : Except UsageFault Arguments := do
  (← ({} : State).run arguments).settle

end AnnotatedApi.Command
