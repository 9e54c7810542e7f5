/-! Tables of code points. A class of characters is an ascending list of disjoint
ranges, so that looking up a small code point reads only the head of the list. -/

namespace EndpointCatalog.Text

/-- The code points from `first` to `last`, both included. -/
structure CodeRange where
  first : Nat
  last : Nat
  deriving DecidableEq

/-- Whether one of the ranges holds `n`, for ranges in ascending order. -/
def CodeRange.covers : List CodeRange → Nat → Bool
  | [], _ => false
  | r :: rest, n => if n < r.first then false else n ≤ r.last || covers rest n

end EndpointCatalog.Text
