/-! Lists without repetitions. Two elements repeat each other when they have the same
key, and the first of them stays. -/

namespace EndpointCatalog

/-- The elements whose key is neither in `seen` nor that of an earlier element. -/
def distinctFrom {α κ : Type} [BEq κ] (key : α → κ) (seen : List κ) : List α → List α
  | [] => []
  | a :: rest =>
    if seen.contains (key a) then distinctFrom key seen rest
    else a :: distinctFrom key (key a :: seen) rest

def distinctBy {α κ : Type} [BEq κ] (key : α → κ) (as : List α) : List α :=
  distinctFrom key [] as

end EndpointCatalog
