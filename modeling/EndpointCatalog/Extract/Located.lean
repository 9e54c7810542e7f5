import EndpointCatalog.Distinct
import EndpointCatalog.Extract.Candidate

/-! Located values. Candidates are trimmed, blank ones are dropped, and each value is
listed once, in the order in which the candidates first show it and with the
smallest offset at which any of them starts. -/

namespace EndpointCatalog

/-- A value and the byte offset at which it was found. -/
structure Located where
  value : String
  offset : Nat
  deriving DecidableEq, Repr

namespace Extract

/-- The trimmed values of the candidates that are not blank. -/
def trimmed (cs : List Candidate) : List Located :=
  cs.filterMap fun c =>
    let value := Text.trimChars c.value
    if value.isEmpty then none else some ⟨String.ofList value, c.start⟩

/-- The smallest offset at which a list has the given value. -/
def earliest (found : List Located) (l : Located) : Located :=
  { l with offset := (found.filter (·.value == l.value)).foldl (min · ·.offset) l.offset }

def locate (cs : List Candidate) : List Located :=
  let found := trimmed cs
  (distinctBy (·.value) found).map (earliest found)

def endpoints (text : List Char) : List Located := locate (candidates Pattern.endpoints text)

def redirects (text : List Char) : List Located := locate (candidates Pattern.redirects text)

end Extract

end EndpointCatalog
