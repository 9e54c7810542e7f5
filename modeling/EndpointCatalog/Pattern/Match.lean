import EndpointCatalog.Pattern.Basic
import EndpointCatalog.Text.Utf8

/-! Matching a pattern. Atoms match from left to right; a `many` takes as much as it
can and gives back one character at a time until the atoms after it match. A
search goes through a text from left to right and continues behind each match it
finds, so its matches do not overlap. -/

namespace EndpointCatalog

/-- Matches atoms at the start of `rest`, where `left` is the character before it.
The answer holds what each atom has read. -/
def Atom.matchAll : List Atom → Option Char → List Char → Option (List (List Char))
  | [], _, _ => some []
  | .boundary :: atoms, left, rest =>
    if Text.isBoundary left rest.head? then
      (Atom.matchAll atoms left rest).map ([] :: ·)
    else none
  | .one set :: atoms, _, rest =>
    match rest with
    | [] => none
    | c :: rest => if set c then (Atom.matchAll atoms (some c) rest).map ([c] :: ·) else none
  | .many set :: atoms, left, rest =>
    match rest with
    | [] => (Atom.matchAll atoms left []).map ([] :: ·)
    | c :: tail =>
      if set c then
        match Atom.matchAll (.many set :: atoms) (some c) tail with
        | some (run :: parts) => some ((c :: run) :: parts)
        | _ => (Atom.matchAll atoms left (c :: tail)).map ([] :: ·)
      else (Atom.matchAll atoms left (c :: tail)).map ([] :: ·)
termination_by atoms _ rest => (atoms.length, rest.length)

/-- What a branch has read: the value and the text on its two sides. -/
structure Hit where
  before : List Char
  value : List Char
  after : List Char
  deriving DecidableEq

def Hit.text (h : Hit) : List Char := h.before ++ h.value ++ h.after

/-- Splits what the atoms of a branch have read into the three parts of the branch. -/
def Branch.hit (b : Branch) (parts : List (List Char)) : Hit where
  before := (parts.take b.before.length).flatten
  value := ((parts.drop b.before.length).take b.value.length).flatten
  after := (parts.drop (b.before.length + b.value.length)).flatten

def Branch.match? (b : Branch) (left : Option Char) (rest : List Char) : Option Hit :=
  (Atom.matchAll b.atoms left rest).map b.hit

/-- The first branch that matches at the start of `rest`. -/
def Pattern.match? (p : Pattern) (left : Option Char) (rest : List Char) : Option Hit :=
  p.branches.findSome? (·.match? left rest)

/-- The matches in `rest`, which starts `offset` bytes into a text and follows the
character `left`, each with the offset at which it starts. -/
def Pattern.findFrom (p : Pattern) (left : Option Char) (offset : Nat) (rest : List Char) :
    List (Nat × Hit) :=
  match rest with
  | [] => []
  | c :: tail =>
    match p.match? left (c :: tail) with
    | none => p.findFrom (some c) (offset + c.utf8Size) tail
    | some hit =>
      (offset, hit) ::
        p.findFrom (hit.text.getLast?.or (some c)) (offset + Text.byteSize hit.text)
          (tail.drop (hit.text.length - 1))
termination_by rest.length

def Pattern.find (p : Pattern) (text : List Char) : List (Nat × Hit) := p.findFrom none 0 text

end EndpointCatalog
