import EndpointCatalog.Text.Blank
import EndpointCatalog.Text.WordChar

/-! Patterns. A pattern is a choice between branches, tried in order; a branch is a
sequence of atoms in three parts, of which the middle one is the value that the
pattern looks for and the outer two are the call or the quotes around it. Atoms
read one character of a set, as many characters of a set as they can, or nothing
at a word boundary. Letter case never matters: a letter of a pattern stands for
every spelling of it. -/

namespace EndpointCatalog

/-- The characters an atom accepts. -/
abbrev CharSet := Char → Bool

/-- One step of a pattern. -/
inductive Atom
  | one (set : CharSet)
  | many (set : CharSet)
  | boundary

/-- The atoms before, of and after the value. -/
structure Branch where
  before : List Atom
  value : List Atom
  after : List Atom

def Branch.atoms (b : Branch) : List Atom := b.before ++ b.value ++ b.after

/-- A named pattern. A fallback pattern gives way to any other pattern that
claims part of the same text. -/
structure Pattern where
  name : String
  branches : List Branch
  fallback : Bool

namespace CharSet

/-- The spellings of a small letter: itself, its capital, and for `s` and `k` the
long s and the kelvin sign. A character that is no letter has one spelling. -/
def spelling (c : Char) : CharSet := fun d =>
  d.toLower == c || (c == 's' && d == 'ſ') || (c == 'k' && d == '\u212A')

def oneOf (cs : List Char) : CharSet := fun d => cs.contains d

def noneOf (cs : List Char) : CharSet := fun d => !cs.contains d

def andNotBlank (set : CharSet) : CharSet := fun d => set d && !Text.isBlank d

end CharSet

namespace Atom

/-- The atoms of a fixed word, given in small letters. -/
def word (s : String) : List Atom := s.toList.map fun c => .one (CharSet.spelling c)

/-- One character of a set and then as many as there are. -/
def run (set : CharSet) : List Atom := [.one set, .many set]

end Atom

end EndpointCatalog
