import EndpointCatalog.CommandLine.Grammar

/-! Matching arguments against the signature of a command, one argument at a time. An
option whose value is still to come waits; it is settled when the next option, the
next positional value or the end of the arguments comes. Behind `--` all arguments
are positional. -/

namespace EndpointCatalog.CommandLine

/-- An option or positional argument that waits to be settled, with its value so far. -/
structure Waiting where
  parameter : Parameter
  value : Option String
  deriving DecidableEq, Repr

structure Matching where
  /-- The values of each parameter that was given; a flag has none. -/
  given : List (String × List String)
  waiting : Option Waiting
  /-- Whether the next argument is the value of the option that waits. -/
  valueDue : Bool
  trailing : Bool
  positionalGiven : Bool
  deriving DecidableEq, Repr

namespace Matching

def empty : Matching := ⟨[], none, false, false, false⟩

def has (m : Matching) (name : String) : Bool := (m.given.lookup name).isSome

def valuesOf (m : Matching) (name : String) : List String := (m.given.lookup name).getD []

def value? (m : Matching) (name : String) : Option String := (m.valuesOf name).head?

/-- Adds values to those given for a parameter. -/
def record (m : Matching) (name : String) (values : List String) : Matching :=
  if m.has name then
    { m with given := m.given.map fun g => if g.1 = name then (name, g.2 ++ values) else g }
  else { m with given := m.given ++ [(name, values)] }

/-- Takes a parameter as given, with the value it has been given, if any. -/
def take (m : Matching) (p : Parameter) (value : Option String) : Except Refusal Matching :=
  match p.action, value with
  | .help, _ => .error .displayHelp
  | .version, _ => .error .displayVersion
  | .flag, _ => if m.has p.long then .error .argumentConflict else .ok (m.record p.long [])
  | .value, some v =>
    if m.has p.long then .error .argumentConflict
    else if p.accepts.holds v then .ok (m.record p.long [v])
    else .error .invalidValue
  | .values, some v =>
    if p.accepts.holds v then .ok (m.record p.long [v]) else .error .invalidValue
  | _, none => .error .invalidValue

/-- Settles the parameter that waits. -/
def settle (m : Matching) : Except Refusal Matching :=
  match m.waiting with
  | none => .ok m
  | some w => { m with waiting := none }.take w.parameter w.value

/-- Takes an option whose value, if it needs one, stands in the same argument. -/
def takeNow (m : Matching) (p : Parameter) (value : Option String) : Except Refusal Matching := do
  let m ← m.settle
  let m ← m.take p value
  return { m with valueDue := false }

/-- Lets an option wait for its value in the next argument. -/
def await (m : Matching) (p : Parameter) : Except Refusal Matching := do
  let m ← m.settle
  return { m with waiting := some ⟨p, none⟩, valueDue := true }

/-- An option by its long name, with the text behind `=`, if there is any. -/
def matchLong (s : Signature) (m : Matching) (name : String) (attached : Option String) :
    Except Refusal Matching :=
  match s.byLong name with
  | none => .error .unknownArgument
  | some p =>
    if p.action.takesValue then
      match attached with
      | some v => m.takeNow p (some v)
      | none => m.await p
    else if attached.isSome then .error .tooManyValues
    else m.takeNow p none

/-- Options by their letters. What follows the letter of an option with a value, with or
without `=`, is that value. -/
def matchShort (s : Signature) (m : Matching) : List Char → Except Refusal Matching
  | [] => .ok m
  | c :: rest =>
    match s.byShort c with
    | none => .error .unknownArgument
    | some p =>
      if p.action.takesValue then
        match rest with
        | [] => m.await p
        | '=' :: v => m.takeNow p (some (String.ofList v))
        | v => m.takeNow p (some (String.ofList v))
      else do
        let m ← m.takeNow p none
        matchShort s m rest

/-- A value that belongs to no option. Where none is expected it is refused, and at the
top level it is taken for a command. -/
def matchPositional (s : Signature) (unexpected : Refusal) (m : Matching) (v : String) :
    Except Refusal Matching :=
  match s.positional, m.positionalGiven with
  | some p, false => do
    let m ← m.settle
    return { m with waiting := some ⟨p, some v⟩, positionalGiven := true, valueDue := false }
  | _, _ => .error unexpected

/-- Splits the text behind two dashes at the first `=`. -/
def splitAttached (cs : List Char) : String × Option String :=
  (String.ofList (cs.takeWhile (· != '=')),
    match cs.dropWhile (· != '=') with
    | _ :: v => some (String.ofList v)
    | [] => none)

/-- Matches one argument. -/
def matchArgument (s : Signature) (unexpected : Refusal) (m : Matching) (arg : String) :
    Except Refusal Matching :=
  if m.trailing then matchPositional s unexpected m arg
  else
    match arg.toList with
    | ['-', '-'] => .ok { m with trailing := true }
    | '-' :: '-' :: rest =>
      let (name, attached) := splitAttached rest
      matchLong s m name attached
    | '-' :: c :: rest => matchShort s m (c :: rest)
    | _ =>
      match m.valueDue, m.waiting with
      | true, some w => .ok { m with waiting := some { w with value := some arg }, valueDue := false }
      | _, _ => matchPositional s unexpected m arg

/-- Settles what waits and checks that every required parameter was given. -/
def conclude (s : Signature) (m : Matching) : Except Refusal Matching := do
  let m ← m.settle
  if s.parameters.all fun p => !p.required || m.has p.long then return m
  else throw .missingRequiredArgument

/-- Matches the arguments of a command. -/
def run (s : Signature) (args : List String) : Except Refusal Matching := do
  let m ← args.foldlM (matchArgument s .unknownArgument) empty
  m.conclude s

end Matching

end EndpointCatalog.CommandLine
