/-! The grammar of the command line. An argument that begins with a dash names options,
by a long name or by letters; an option is a flag or takes a value. Each command has
options of its own and shares those that are global. -/

namespace EndpointCatalog.CommandLine

/-- The ways in which reading a command line ends without a command to run. -/
inductive Refusal
  | unknownArgument
  | invalidValue
  | argumentConflict
  | missingRequiredArgument
  | invalidSubcommand
  | tooManyValues
  | displayHelp
  | displayVersion
  deriving DecidableEq, Repr

/-- What an option does: it is set once, with or without a value, it collects a value
each time, or it asks for help or for the version. -/
inductive Action
  | flag
  | value
  | values
  | help
  | version
  deriving DecidableEq, Repr

def Action.takesValue : Action → Bool
  | value | values => true
  | _ => false

/-- The values that an option accepts. -/
inductive Accepts
  | anything
  | nonEmpty
  | oneOf (names : List String)
  deriving DecidableEq, Repr

def Accepts.holds : Accepts → String → Bool
  | anything, _ => true
  | nonEmpty, v => !v.isEmpty
  | oneOf names, v => names.contains v

structure Parameter where
  long : String
  short : Option Char
  action : Action
  accepts : Accepts
  required : Bool
  deriving DecidableEq, Repr

/-- The options of a command and the name of its one positional argument, if it has one. -/
structure Signature where
  parameters : List Parameter
  positional : Option Parameter
  deriving DecidableEq, Repr

namespace Signature

def byLong (s : Signature) (name : String) : Option Parameter := s.parameters.find? (·.long = name)

def byShort (s : Signature) (c : Char) : Option Parameter := s.parameters.find? (·.short = some c)

end Signature

/-! ### Declarations -/

def flag (long : String) (short : Option Char) : Parameter := ⟨long, short, .flag, .anything, false⟩

def option (long : String) (short : Option Char) (accepts : Accepts) : Parameter :=
  ⟨long, short, .value, accepts, false⟩

/-- The options that every command understands. -/
def shared : List Parameter :=
  [flag "quiet" (some 'q'), flag "verbose" (some 'v'), option "config-dir" (some 'c') .anything,
    ⟨"help", some 'h', .help, .anything, false⟩, ⟨"version", some 'V', .version, .anything, false⟩]

def topLevel : Signature := ⟨shared, none⟩

/-- The commands by name. -/
def commands : List (String × Signature) :=
  [("init", ⟨shared ++ [flag "force" (some 'f')], none⟩),
   ("scan", ⟨shared ++ [
      option "directive-root" (some 'd') .anything,
      option "suffix" (some 's') .anything,
      option "redirect-policy" (some 'r') (.oneOf ["first", "nearest"]),
      flag "batch" none, flag "lowercase-directives" none, flag "dry-run" none],
      some (option "ROOT" none .anything)⟩),
   ("add", ⟨shared ++ [
      ⟨"folder", none, .value, .anything, true⟩,
      ⟨"controller", none, .value, .anything, true⟩,
      ⟨"url", some 'u', .values, .anything, true⟩,
      option "redirect" (some 'r') .anything], none⟩),
   ("list", ⟨shared ++ [
      option "format" (some 'f') (.oneOf ["text", "json", "csv", "markdown"]),
      option "output" (some 'o') .nonEmpty], none⟩),
   ("sessions", ⟨shared, none⟩),
   ("menu", ⟨shared, none⟩)]

/-- The command that explains the others. -/
def helpCommand : String := "help"

end EndpointCatalog.CommandLine
