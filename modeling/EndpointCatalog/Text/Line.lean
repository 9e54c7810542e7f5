import EndpointCatalog.Text.Split

/-! Lines of a text. A line ends at a line feed, and a carriage return directly
before that line feed belongs to the line end; a text that ends with a line end
has no empty line after it. -/

namespace EndpointCatalog.Text

def lines : List Char → List (List Char)
  | [] => []
  | '\r' :: '\n' :: rest => [] :: lines rest
  | '\n' :: rest => [] :: lines rest
  | c :: rest => consHead c (lines rest)

end EndpointCatalog.Text
