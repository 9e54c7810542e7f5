import EndpointCatalog.Files.Change
import EndpointCatalog.Files.Home
import EndpointCatalog.Scan.Error
import EndpointCatalog.Scan.Options
import EndpointCatalog.Toml.Document
import EndpointCatalog.Toml.Write

/-! The configuration: defaults for scans, kept in a table `scan` of a TOML document.
Keys that are absent have their defaults and keys that are unknown are ignored. -/

namespace EndpointCatalog

structure Config where
  root : Option String
  directiveRoot : Option String
  fileSuffix : String
  lowercaseDirectives : Bool
  policy : RedirectPolicy
  batched : Bool
  deriving DecidableEq, Repr

namespace Config

def standard : Config := ⟨none, none, ScanOptions.defaultSuffix, false, .first, false⟩

/-! ### Reading -/

open Toml

def asString : Value → Option String
  | .string s => some s
  | _ => none

def asBoolean : Value → Option Bool
  | .boolean b => some b
  | _ => none

def isEmptyValue : Value → Bool
  | .array [] => true
  | .table _ [] => true
  | _ => false

/-- A policy is given by its name, or by a table with that name as its only key. -/
def asPolicy : Value → Option RedirectPolicy
  | .string s => RedirectPolicy.ofName? s
  | .table _ [(name, v)] => if isEmptyValue v then RedirectPolicy.ofName? name else none
  | _ => none

/-- Takes over the value of one key. -/
def setField (c : Config) (key : String) (v : Value) : Option Config :=
  match key with
  | "root" => (asString v).map fun s => { c with root := some s }
  | "directive_root" => (asString v).map fun s => { c with directiveRoot := some s }
  | "file_suffix" => (asString v).map fun s => { c with fileSuffix := s }
  | "lowercase_directives" => (asBoolean v).map fun b => { c with lowercaseDirectives := b }
  | "redirect_policy" => (asPolicy v).map fun p => { c with policy := p }
  | "batched" => (asBoolean v).map fun b => { c with batched := b }
  | _ => some c

def setFields (c : Config) (fields : Fields) : Option Config :=
  fields.foldlM (fun c f => c.setField f.1 f.2) c

/-- The keys in the order in which they are written. -/
def keys : List String :=
  ["root", "directive_root", "file_suffix", "lowercase_directives", "redirect_policy", "batched"]

/-- The `scan` table. The values of its keys may also be listed in their order; a point
in time has none of the keys. -/
def ofValue : Value → Option Config
  | .table _ fields => standard.setFields fields
  | .array items => standard.setFields (keys.zip items)
  | .time => some standard
  | _ => none

def ofFields (fields : Fields) : Option Config :=
  match fields.lookup "scan" with
  | none => some standard
  | some v => ofValue v

def parse (text : List Char) : Option Config := (Toml.read text).bind ofFields

/-! ### Writing -/

def line (key value : String) : String := key ++ " = " ++ value ++ "\n"

def optionalLine (key : String) (value : Option String) : String :=
  value.elim "" fun s => line key (Toml.writeString s)

def boolText (b : Bool) : String := if b then "true" else "false"

def text (c : Config) : String :=
  "[scan]\n" ++ optionalLine "root" c.root ++ optionalLine "directive_root" c.directiveRoot ++
    line "file_suffix" (Toml.writeString c.fileSuffix) ++
    line "lowercase_directives" (boolText c.lowercaseDirectives) ++
    line "redirect_policy" (Toml.writeString c.policy.name) ++
    line "batched" (boolText c.batched)

/-! ### Files -/

inductive LoadError
  | io (e : IoError)
  | malformed
  deriving DecidableEq, Repr

namespace LoadError

def message : LoadError → String
  | io e => (CatalogError.io e).message
  | malformed => "Config error"

/-- The message and then, after a colon, that of the cause behind it. -/
def chain : LoadError → String
  | io e => (CatalogError.io e).chain
  | malformed => message malformed

end LoadError

/-- The configuration in a file; without a file, the defaults. -/
def load (p : Path) (t : FileTree) : Except LoadError Config :=
  if !t.isPresent p then .ok standard
  else
    match t.readText p with
    | .error e => .error (.io e)
    | .ok s => match parse s.toList with
      | some c => .ok c
      | none => .error .malformed

def save (p : Path) (c : Config) : FileTree.Change Unit :=
  FileTree.write p (Text.Utf8.encode c.text.toList)

/-! ### Options of a scan -/

def scanOptions (c : Config) : ScanOptions where
  fileSuffix := c.fileSuffix
  directiveRoot := c.directiveRoot.map (⟨·⟩)
  letters := if c.lowercaseDirectives then .lower else .preserve
  policy := c.policy
  persistence := if c.batched then .batched else .incremental

end Config

end EndpointCatalog
