import EndpointCatalog.Pattern.Library
import EndpointCatalog.Pattern.Match

/-! Candidates. Every pattern of a set is searched for on its own, and the matches
are listed pattern by pattern. Where a fallback match overlaps the value of
another pattern, the fallback match is dropped. -/

namespace EndpointCatalog

/-- The value of one match, untrimmed, with the bytes it takes up in the text. -/
structure Candidate where
  pattern : String
  value : List Char
  start : Nat
  stop : Nat
  fallback : Bool
  deriving DecidableEq

namespace Candidate

def overlaps (a b : Candidate) : Bool := a.start < b.stop && b.start < a.stop

end Candidate

/-- The values that a pattern finds in a text. -/
def Pattern.candidates (p : Pattern) (text : List Char) : List Candidate :=
  (p.find text).map fun (offset, hit) =>
    let start := offset + Text.byteSize hit.before
    { pattern := p.name, value := hit.value, start,
      stop := start + Text.byteSize hit.value, fallback := p.fallback }

namespace Extract

/-- The values of every pattern, without the fallback matches that overlap another. -/
def candidates (patterns : List Pattern) (text : List Char) : List Candidate :=
  let all := patterns.flatMap (·.candidates text)
  let claimed := all.filter (!·.fallback)
  all.filter fun c => !c.fallback || !claimed.any (·.overlaps c)

end Extract

end EndpointCatalog
