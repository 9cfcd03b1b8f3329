import Geocast.Settings.Value
import Geocast.Strategy

/-!
# Command line options

Options override settings. A long option has its value behind an equals sign or as the next
argument, the short one also behind its letter. There are no other arguments.

The first argument that is no option ends the reading; what is missing, wrong or repeated is told
only when all arguments are options. A value missing at the end is told first.
-/
namespace Geocast

structure Options where
  config : Option String
  id : Option String
  granularity : Option Nat
  strategy : Option Strategy
  deriving DecidableEq, Repr

inductive OptionsError where
  | helpWanted
  | versionWanted
  | unknownArgument
  | missingValue
  | invalidValue
  | repeatedOption
  deriving DecidableEq, Repr

namespace Options

/-- The options by name. -/
inductive Name where
  | config
  | id
  | granularity
  | strategy
  deriving DecidableEq, Repr

def names : List (String × Name) :=
  [("config", .config), ("id", .id), ("granularity", .granularity), ("strategy", .strategy)]

/-- The text after its leading characters of one kind. -/
def trim (c : Char) (cs : List Char) : List Char := cs.dropWhile (· == c)

/-- What an argument is. -/
inductive Argument where
  | option (name : Name) (value : Option String)
  | separator
  | plain
  | help
  | version
  | unknown

/-- An argument with two hyphens. -/
def long (cs : List Char) : Argument :=
  let body := trim '-' cs
  let name := String.ofList (body.takeWhile (· != '='))
  let value? :=
    match body.dropWhile (· != '=') with
    | [] => none
    | rest => some (String.ofList (trim '=' rest))
  match names.find? (·.1 == name) with
  | some (_, option) => .option option value?
  | none => if name == "help" then .help else if name == "version" then .version else .unknown

/-- An argument with one hyphen, by its first letter. -/
def short : List Char → Argument
  | 'f' :: rest =>
    .option .config (if rest.isEmpty then none else some (String.ofList (trim '=' rest)))
  | 'h' :: _ => .help
  | 'V' :: _ => .version
  | _ => .unknown

def classify (s : String) : Argument :=
  match s.toList with
  | ['-', '-'] => .separator
  | '-' :: '-' :: rest => long rest
  | '-' :: c :: rest => short (c :: rest)
  | _ => .plain

/-- An option that was given, with its value if there is one. -/
structure Given where
  name : Name
  value : Option String

/-- Reads arguments. `open?` is an option whose value is the next argument, unless that is an option
itself. -/
def read (open? : Option Name) : List String → Except OptionsError (List Given)
  | [] => .ok (open?.map fun name => Given.mk name none).toList
  | arg :: rest =>
    let before : List Given := (open?.map fun name => Given.mk name none).toList
    match classify arg with
    | .option name (some value) =>
      (read none rest).map fun later => before ++ ⟨name, value⟩ :: later
    | .option name none => (read (some name) rest).map (before ++ ·)
    | .separator => if rest.isEmpty then .ok before else .error .unknownArgument
    | .plain =>
      match open? with
      | some name => (read none rest).map (⟨name, arg⟩ :: ·)
      | none => .error .unknownArgument
    | .help => .error .helpWanted
    | .version => .error .versionWanted
    | .unknown => .error .unknownArgument

def granularityOf? (s : String) : Option Nat :=
  (Setting.natOfText? s).bind fun n => if n < 0x100000000 then some n else none

/-- Whether a value is fit for an option. -/
def accepts (name : Name) (value : String) : Bool :=
  match name with
  | .granularity => (granularityOf? value).isSome
  | .strategy => (Strategy.parse value).isOk
  | _ => true

def valuesOf (given : List Given) (name : Name) : List String :=
  (given.filter (·.name == name)).filterMap (·.value)

/-- What is wrong with how an option was given. -/
def faultOf? (given : List Given) (name : Name) : Option OptionsError :=
  let times := (given.filter (·.name == name)).length
  let values := valuesOf given name
  if times = 0 then none
  else if values.isEmpty then some .missingValue
  else if !values.all (accepts name) then some .invalidValue
  else if 1 < times then some .repeatedOption
  else none

/-- The option at the end whose value is missing, if it never had one. -/
def unfinished? (given : List Given) : Option OptionsError :=
  match given.getLast? with
  | some ⟨name, none⟩ => if (valuesOf given name).isEmpty then some .missingValue else none
  | _ => none

/-- What is wrong with the options that were given. -/
def firstFault? (given : List Given) : Option OptionsError :=
  (unfinished? given).or ((names.map (·.2)).findSome? (faultOf? given))

/-- The options of a command line, without the name of the program. -/
def parse (arguments : List String) : Except OptionsError Options := do
  let given ← read none arguments
  match firstFault? given with
  | some fault => throw fault
  | none =>
    let value? (name : Name) : Option String := (valuesOf given name).head?
    pure {
      config := value? .config
      id := value? .id
      granularity := (value? .granularity).bind granularityOf?
      strategy := (value? .strategy).bind fun s => (Strategy.parse s).toOption }

end Options

end Geocast
