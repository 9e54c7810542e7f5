/-! Texts of a fixed width. A text that is too long stays as it is. -/

namespace EndpointCatalog.Text

def padLeft (fill : Char) (width : Nat) (s : String) : String :=
  String.ofList (List.replicate (width - s.length) fill) ++ s

def padRight (fill : Char) (width : Nat) (s : String) : String :=
  s ++ String.ofList (List.replicate (width - s.length) fill)

end EndpointCatalog.Text
