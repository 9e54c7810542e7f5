import EndpointCatalog.Toml.Text

/-! Writing a string into a TOML document. Of the forms that show a text as it is, the
first one that can hold it is taken: double quotes, single quotes, then three of
each. A text that none of them can hold has its characters escaped. -/

namespace EndpointCatalog.Toml

/-- Control characters that no string shows as they are. -/
def isControl (c : Char) : Bool :=
  (c.toNat < 0x20 && c != '\t' && c != '\n') || c == '\x7f'

/-- The longest run of a character in a text. -/
def longestRun (q : Char) : List Char → Nat
  | [] => 0
  | c :: rest => max (((c :: rest).takeWhile (· == q)).length) (longestRun q rest)

inductive Form
  | basic
  | literal
  | multiBasic
  | multiLiteral
  deriving DecidableEq, Repr

namespace Form

/-- Whether a form shows a text without escapes, tabs in double quotes aside. -/
def holds (cs : List Char) : Form → Bool
  | basic => !cs.any fun c => c == '\x22' || c == '\\' || c == '\n' || isControl c
  | literal => !cs.any fun c => c == '\x27' || c == '\n' || isControl c
  | multiBasic => !cs.any (fun c => c == '\\' || isControl c) && longestRun '\x22' cs ≤ 2
  | multiLiteral => !cs.any isControl && longestRun '\x27' cs ≤ 2

/-- The form that a text is written in. -/
def of (cs : List Char) : Form :=
  (([basic, literal, multiBasic, multiLiteral].find? (·.holds cs))).getD
    (if cs.contains '\n' then multiBasic else basic)

end Form

/-- The escape of a character in double quotes, if it needs one for its own sake. -/
def escapeOf? (c : Char) : Option (List Char) :=
  if c = '\\' then some ['\\', '\\']
  else if c = '\x08' then some ['\\', 'b']
  else if c = '\t' then some ['\\', 't']
  else if c = '\x0c' then some ['\\', 'f']
  else if c = '\r' then some ['\\', 'r']
  else if isControl c then
    some ['\\', 'u', '0', '0', upperHex (c.toNat / 16), upperHex (c.toNat % 16)]
  else none
where
  upperHex (n : Nat) : Char := Char.ofNat (if n < 10 then 0x30 + n else 0x37 + n)

/-- A text in one pair of double quotes. -/
def basicBody (cs : List Char) : List Char :=
  cs.flatMap fun c =>
    if c = '\x22' then ['\\', '\x22']
    else if c = '\n' then ['\\', 'n']
    else (escapeOf? c).getD [c]

/-- A text in three double quotes, behind `run` quotes in a row; of three quotes in a row
the last one is escaped. -/
def multiBasicBody (run : Nat) : List Char → List Char
  | [] => []
  | c :: rest =>
    if c = '\x22' then
      if run < 2 then c :: multiBasicBody (run + 1) rest
      else ['\\', '\x22'] ++ multiBasicBody 0 rest
    else (escapeOf? c).getD [c] ++ multiBasicBody 0 rest

/-- A text between triple quotes; one with a line end in it starts on a line of its own. -/
def tripled (q : Char) (cs body : List Char) : List Char :=
  [q, q, q] ++ (if cs.contains '\n' then ['\n'] else []) ++ body ++ [q, q, q]

def writeChars (cs : List Char) : List Char :=
  match Form.of cs with
  | .basic => '\x22' :: basicBody cs ++ ['\x22']
  | .literal => '\x27' :: cs ++ ['\x27']
  | .multiBasic => tripled '\x22' cs (multiBasicBody 0 cs)
  | .multiLiteral => tripled '\x27' cs cs

def writeString (s : String) : String := String.ofList (writeChars s.toList)

end EndpointCatalog.Toml
