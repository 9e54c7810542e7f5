import EndpointCatalog.Pattern.Library
import EndpointCatalog.Pattern.Match
import EndpointCatalog.Text.Line
import EndpointCatalog.Text.LowerCase

/-! Routes in a directive script. A script is read line by line, and the first route
of a line counts. A route is freed of white space and closing quotes at its ends,
and one that names a page template is no endpoint. -/

namespace EndpointCatalog.Directive

/-- Whether endpoints of scripts keep their letter case. -/
inductive LetterCase
  | preserve
  | lower
  deriving DecidableEq, Repr

def LetterCase.apply : LetterCase → List Char → List Char
  | preserve, cs => cs
  | lower, cs => Text.lowerChars cs

/-- The quotes that may be left at the end of a route. -/
def isClosingQuote (c : Char) : Bool := c == '\x27' || c == '\x22' || c == '\x60'

/-- A route without white space and closing quotes around it. -/
def bareRoute (raw : List Char) : List Char :=
  Text.trimChars (Text.dropWhileEnd isClosingQuote (Text.trimChars raw))

/-- Whether a route ends in `.html`, in any letter case. -/
def isTemplate (route : List Char) : Bool :=
  ".html".toList.isSuffixOf (route.map Char.toLower)

/-- The endpoint that a route stands for, if any. -/
def normalize (letters : LetterCase) (raw : List Char) : Option (List Char) :=
  let route := bareRoute raw
  if route.isEmpty || isTemplate route then none else some (letters.apply route)

/-- The first route of a line, as it is written. -/
def firstRoute (line : List Char) : Option (List Char) :=
  (Pattern.directiveEndpoint.find line).head?.map (·.2.value)

/-- The endpoints of a script, at most one for each of its lines. -/
def scriptEndpoints (letters : LetterCase) (script : Text.Utf8.Bytes) : List String :=
  (Text.lines (Text.Utf8.decodeLossy script)).filterMap fun line =>
    ((firstRoute line).bind (normalize letters)).map String.ofList

end EndpointCatalog.Directive
