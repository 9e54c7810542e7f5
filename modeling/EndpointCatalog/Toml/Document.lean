import EndpointCatalog.Toml.Number

/-! Reading a TOML document: lines with a key and a value, headers of tables and of
arrays of tables, comments and blank lines. Values may nest in lists and braces up
to a fixed depth, and keys have a bounded number of pieces. -/

namespace EndpointCatalog.Toml

/-! ### Space between tokens -/

def skipBlanks (cs : List Char) : List Char := cs.dropWhile isInlineBlank

/-- The rest of a comment, up to the end of its line. -/
def skipComment (cs : List Char) : List Char := cs.dropWhile isPlain

def skipLineEnd : List Char → Option (List Char)
  | '\n' :: rest => some rest
  | '\r' :: '\n' :: rest => some rest
  | _ => none

/-- The end of a line behind a value or a header: blanks, a comment, and a line end or
the end of the document. -/
def endLine (cs : List Char) : Option (List Char) :=
  let cs := match skipBlanks cs with
    | '#' :: rest => skipComment rest
    | cs => cs
  if cs.isEmpty then some [] else skipLineEnd cs

/-- Skips blanks, line ends and comments inside a list. -/
def skipSpace (comment : Bool) : List Char → List Char
  | [] => []
  | '\r' :: '\n' :: rest => skipSpace false rest
  | c :: rest =>
    if c = '\n' then skipSpace false rest
    else if comment then if isPlain c then skipSpace true rest else c :: rest
    else if isInlineBlank c then skipSpace false rest
    else if c = '#' then skipSpace true rest
    else c :: rest

/-! ### Keys -/

def maxDepth : Nat := 79

def isBareKey (c : Char) : Bool := c.isAlphanum || c == '-' || c == '_'

/-- One piece of a key, bare or quoted. -/
def readKeyPiece (cs : List Char) : Option (Rest String) :=
  let bare := cs.takeWhile isBareKey
  if bare.isEmpty then readLineString cs else some (String.ofList bare, cs.dropWhile isBareKey)

/-- At most `fuel` pieces of a key with points between them, and the blanks around. -/
def readKey : Nat → List Char → Option (Rest (List String))
  | 0, _ => none
  | fuel + 1, cs => do
    let (piece, rest) ← readKeyPiece (skipBlanks cs)
    match skipBlanks rest with
    | '.' :: rest => do
      let (more, rest) ← readKey fuel rest
      return (piece :: more, rest)
    | rest => return ([piece], rest)

/-! ### Values -/

abbrev Reader (α : Type) := List Char → Option (Rest α)

/-- The elements of a list behind the opening bracket or a comma. -/
def readItems (item : Reader Value) (cs : List Char) : Option (Rest (List Value)) :=
  match skipSpace false cs with
  | ']' :: rest => some ([], rest)
  | start => do
    let (v, rest) ← item start
    match skipSpace false rest with
    | ']' :: rest => return ([v], rest)
    | ',' :: rest =>
      if rest.length < cs.length then do
        let (vs, rest) ← readItems item rest
        return (v :: vs, rest)
      else none
    | _ => none
termination_by cs.length

/-- A key and its value inside braces. -/
def readPair (item : Reader Value) (cs : List Char) : Option (Rest (List String × Value)) := do
  let (key, rest) ← readKey maxDepth cs
  let rest ← skip '=' rest
  let (v, rest) ← item (skipBlanks rest)
  return ((key, v), skipBlanks rest)

/-- The pairs of a table in braces, to be added to those read before. -/
def readPairs (item : Reader Value) (fields : Fields) (cs : List Char) : Option (Rest Fields) := do
  let ((key, v), rest) ← readPair item cs
  let fields ← Fields.addKey key v .braces fields
  match rest with
  | '\x7d' :: rest => return (fields, rest)
  | ',' :: rest => if rest.length < cs.length then readPairs item fields rest else none
  | _ => none
termination_by cs.length

def readBraces (item : Reader Value) (cs : List Char) : Option (Rest Value) :=
  match skipBlanks cs with
  | '\x7d' :: rest => some (.table .braces [], rest)
  | cs => (readPairs item [] cs).map fun (fields, rest) => (.table .braces fields, rest)

/-- A value with at most `depth` levels of lists and braces. -/
def readValue : Nat → Reader Value
  | depth, cs =>
    match cs with
    | 't' :: 'r' :: 'u' :: 'e' :: rest => some (.boolean true, rest)
    | 'f' :: 'a' :: 'l' :: 's' :: 'e' :: rest => some (.boolean false, rest)
    | c :: rest =>
      if c = '\x22' ∨ c = '\x27' then (readString cs).map fun (s, rest) => (.string s, rest)
      else if c = '[' then
        match depth with
        | 0 => none
        | depth + 1 =>
          (readItems (readValue depth) rest).map fun (vs, rest) => (.array vs, rest)
      else if c = '\x7b' then
        match depth with
        | 0 => none
        | depth + 1 => readBraces (readValue depth) rest
      else readNumber cs
    | [] => none

/-! ### Documents -/

/-- The table that a document has built up so far, and the header that is in force. -/
structure Building where
  fields : Fields
  header : List String

def Building.addPair (b : Building) (key : List String) (v : Value) : Option Building :=
  (Fields.below b.header (Fields.addKey key v) b.fields).map ({ b with fields := · })

def Building.open (b : Building) (header : List String) (change : String → Fields.Change) :
    Option Building :=
  (Fields.below header.dropLast (change (header.getLastD "")) b.fields).map (⟨·, header⟩)

/-- A line that begins with something other than a blank. -/
def readLine (b : Building) (cs : List Char) : Option (Rest Building) :=
  match cs with
  | '#' :: _ => (endLine cs).map (b, ·)
  | '[' :: '[' :: rest => do
    let (header, rest) ← readKey maxDepth rest
    let rest ← skip ']' rest >>= skip ']' >>= endLine
    let b ← b.open header Fields.openArrayTable
    return (b, rest)
  | '[' :: rest => do
    let (header, rest) ← readKey maxDepth rest
    let rest ← skip ']' rest >>= endLine
    let b ← b.open header Fields.openTable
    return (b, rest)
  | '\n' :: _ | '\r' :: _ => (skipLineEnd cs).map (b, ·)
  | _ => do
    let (key, rest) ← readKey maxDepth cs
    let rest ← skip '=' rest
    let (v, rest) ← readValue maxDepth (skipBlanks rest)
    let rest ← endLine rest
    let b ← b.addPair key v
    return (b, rest)

def readLines (b : Building) (cs : List Char) : Option Fields :=
  match skipBlanks cs with
  | [] => some b.fields
  | start => do
    let (b, rest) ← readLine b start
    if rest.length < cs.length then readLines b rest else none
termination_by cs.length

/-- The table of a document; a byte order mark may stand in front. -/
def read (text : List Char) : Option Fields :=
  match text with
  | '\uFEFF' :: rest => readLines ⟨[], []⟩ rest
  | _ => readLines ⟨[], []⟩ text

end EndpointCatalog.Toml
