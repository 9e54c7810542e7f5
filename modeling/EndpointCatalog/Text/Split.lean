/-! Splitting a text at separators. The pieces lie between the separators, so there
is one more piece than there are separators, and pieces may be empty. -/

namespace EndpointCatalog.Text

/-- Puts a character in front of the first piece. -/
def consHead (c : Char) : List (List Char) → List (List Char)
  | [] => [[c]]
  | piece :: rest => (c :: piece) :: rest

def split (isSeparator : Char → Bool) : List Char → List (List Char)
  | [] => [[]]
  | c :: rest =>
    if isSeparator c then [] :: split isSeparator rest
    else consHead c (split isSeparator rest)

/-- The pieces of a text that are not empty. -/
def splitPieces (isSeparator : Char → Bool) (s : String) : List String :=
  ((split isSeparator s.toList).filter (!·.isEmpty)).map String.ofList

end EndpointCatalog.Text
