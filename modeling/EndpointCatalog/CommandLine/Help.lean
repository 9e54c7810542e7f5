import EndpointCatalog.CommandLine.Grammar
import EndpointCatalog.Report.Render
import EndpointCatalog.Text.Pad

/-! What is shown for a command line that names no command to run: help, the version, or
the reason why it is refused. -/

namespace EndpointCatalog.CommandLine

def summary : String → String
  | "init" => "Creates the configuration folder, the configuration and the database"
  | "scan" => "Scans a tree of controllers into the catalog"
  | "add" => "Adds endpoints to a page by hand"
  | "list" => "Prints or saves the catalog"
  | "sessions" => "Lists the scans so far"
  | "menu" => "Starts the interactive menu"
  | _ => ""

def commandLine (name : String) : String :=
  "  " ++ Text.padRight ' ' 10 name ++ summary name ++ "\n"

/-- An option with the word that stands for its value. -/
def Parameter.usage (p : Parameter) : String :=
  (p.short.elim "" fun c => "-" ++ String.singleton c ++ ", ") ++ "--" ++ p.long ++
    (if p.action.takesValue then " <" ++ p.long.toUpper ++ ">" else "")

def Signature.usage (name : String) (s : Signature) : String :=
  "  " ++ name ++ (s.positional.elim "" fun p => " [" ++ p.long ++ "]") ++ "\n" ++
    String.join (s.parameters.map fun p => "      " ++ p.usage ++ "\n")

def help : String :=
  "Usage: ctrlscan [OPTIONS] [COMMAND]\n\nCommands:\n" ++
    String.join (commands.map fun c => commandLine c.1) ++
    "\nOptions by command:\n" ++ String.join (commands.map fun c => c.2.usage c.1)

def Refusal.text : Refusal → String
  | .displayHelp => help
  | .displayVersion => "ctrlscan " ++ version ++ "\n"
  | .unknownArgument => "error: unexpected argument\n"
  | .invalidValue => "error: a value is missing or not allowed\n"
  | .argumentConflict => "error: an option is given twice\n"
  | .missingRequiredArgument => "error: a required option is missing\n"
  | .invalidSubcommand => "error: unknown command\n"
  | .tooManyValues => "error: an option that takes no value is given one\n"

end EndpointCatalog.CommandLine
