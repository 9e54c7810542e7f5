/-! Text inside a TOML document. A string stands between single or triple quotes of
either kind. Double quotes have escapes, single quotes have none; triple quotes
may hold line ends, drop one directly behind the opening quotes, and may hold up
to two quotes in a row, also directly before the closing quotes. -/

namespace EndpointCatalog.Toml

/-- Control characters, tab aside, stand nowhere in a document as they are. -/
def isPlain (c : Char) : Bool := c == '\t' || (0x20 ≤ c.toNat && c != '\x7f')

/-! ### Escapes -/

def hexValue (c : Char) : Option Nat :=
  if c.isDigit then some (c.toNat - 0x30)
  else if 'a' ≤ c ∧ c ≤ 'f' then some (c.toNat - 0x57)
  else if 'A' ≤ c ∧ c ≤ 'F' then some (c.toNat - 0x37)
  else none

/-- The number that hexadecimal digits stand for. -/
def hexNumber (digits : List Char) : Option Nat :=
  digits.foldlM (fun n c => (hexValue c).map (16 * n + ·)) 0

/-- The character of a code point given by its digits. -/
def scalar (digits : List Char) : Option Char :=
  (hexNumber digits).bind fun n => if n.isValidChar then some (Char.ofNat n) else none

/-- The character that a letter behind a backslash stands for. -/
def escapeLetter (c : Char) : Option Char :=
  if c = 'b' then some '\x08'
  else if c = 't' then some '\t'
  else if c = 'n' then some '\n'
  else if c = 'f' then some '\x0c'
  else if c = 'r' then some '\r'
  else if c = '\x22' then some '\x22'
  else if c = '\\' then some '\\'
  else none

/-! ### Reading -/

/-- A value that has been read and the rest of the text behind it. -/
abbrev Rest (α : Type) := α × List Char

/-- Puts a character in front of what has been read. -/
def Rest.cons (c : Char) (r : Rest (List Char)) : Rest (List Char) := (c :: r.1, r.2)

/-- The content of a string in double quotes, and the rest behind the closing quote. -/
def readBasic : List Char → Option (Rest (List Char))
  | '\\' :: 'u' :: a :: b :: c :: d :: rest =>
    (scalar [a, b, c, d]).bind fun x => (readBasic rest).map (Rest.cons x)
  | '\\' :: 'U' :: a :: b :: c :: d :: e :: f :: g :: h :: rest =>
    (scalar [a, b, c, d, e, f, g, h]).bind fun x => (readBasic rest).map (Rest.cons x)
  | '\\' :: c :: rest => (escapeLetter c).bind fun x => (readBasic rest).map (Rest.cons x)
  | c :: rest =>
    if c = '\x22' then some ([], rest)
    else if isPlain c then (readBasic rest).map (Rest.cons c)
    else none
  | [] => none

def readLiteral : List Char → Option (Rest (List Char))
  | c :: rest =>
    if c = '\x27' then some ([], rest)
    else if isPlain c then (readLiteral rest).map (Rest.cons c)
    else none
  | [] => none

/-- What a backslash at the end of a line does: it drops the blanks and line ends that
follow. Before the first line end only blanks may stand. -/
inductive Continuation
  | none
  | beforeLineEnd
  | afterLineEnd
  deriving DecidableEq

def isInlineBlank (c : Char) : Bool := c == ' ' || c == '\t'

/-- Recognizes the closing quotes of a triple-quoted string, with up to two quotes in
front of them that belong to the content. -/
def closing (q : Char) : List Char → Option (Rest (List Char))
  | a :: b :: c :: rest =>
    if a = q ∧ b = q ∧ c = q then
      match rest with
      | d :: e :: rest' =>
        if d = q ∧ e = q then some ([q, q], rest')
        else if d = q then some ([q], e :: rest')
        else some ([], rest)
      | [d] => if d = q then some ([q], []) else some ([], rest)
      | [] => some ([], rest)
    else none
  | _ => none

/-- The content of a string in three double quotes, behind the opening ones. -/
def readMultiBasic (k : Continuation) : List Char → Option (Rest (List Char))
  | [] => none
  | '\r' :: '\n' :: rest =>
    match k with
    | .none => (readMultiBasic .none rest).map (Rest.cons '\n')
    | _ => readMultiBasic .afterLineEnd rest
  | c :: rest =>
    if c = '\n' then
      match k with
      | .none => (readMultiBasic .none rest).map (Rest.cons '\n')
      | _ => readMultiBasic .afterLineEnd rest
    else if k ≠ .none ∧ isInlineBlank c then readMultiBasic k rest
    else if k = .beforeLineEnd then none
    else if c = '\\' then
      match rest with
      | 'u' :: a :: b :: c :: d :: rest' =>
        (scalar [a, b, c, d]).bind fun x => (readMultiBasic .none rest').map (Rest.cons x)
      | 'U' :: a :: b :: c :: d :: e :: f :: g :: h :: rest' =>
        (scalar [a, b, c, d, e, f, g, h]).bind fun x => (readMultiBasic .none rest').map (Rest.cons x)
      | '\r' :: '\n' :: rest' => readMultiBasic .afterLineEnd rest'
      | e :: rest' =>
        if e = '\n' then readMultiBasic .afterLineEnd rest'
        else if isInlineBlank e then readMultiBasic .beforeLineEnd rest'
        else (escapeLetter e).bind fun x => (readMultiBasic .none rest').map (Rest.cons x)
      | [] => none
    else
      match closing '\x22' (c :: rest) with
      | some done => some done
      | none => if isPlain c then (readMultiBasic .none rest).map (Rest.cons c) else none

def readMultiLiteral : List Char → Option (Rest (List Char))
  | [] => none
  | '\r' :: '\n' :: rest => (readMultiLiteral rest).map (Rest.cons '\n')
  | c :: rest =>
    match closing '\x27' (c :: rest) with
    | some done => some done
    | none => if c = '\n' ∨ isPlain c then (readMultiLiteral rest).map (Rest.cons c) else none

/-- Drops one line end at the start of a triple-quoted string. -/
def dropLineEnd : List Char → List Char
  | '\n' :: rest => rest
  | '\r' :: '\n' :: rest => rest
  | cs => cs

/-- A string of any of the four forms. -/
def readString : List Char → Option (Rest String)
  | cs => (content cs).map fun (s, rest) => (String.ofList s, rest)
where
  content : List Char → Option (Rest (List Char))
    | a :: b :: c :: rest =>
      if a = '\x22' then
        if b = '\x22' ∧ c = '\x22' then readMultiBasic .none (dropLineEnd rest)
        else readBasic (b :: c :: rest)
      else if a = '\x27' then
        if b = '\x27' ∧ c = '\x27' then readMultiLiteral (dropLineEnd rest)
        else readLiteral (b :: c :: rest)
      else none
    | a :: rest =>
      if a = '\x22' then readBasic rest
      else if a = '\x27' then readLiteral rest
      else none
    | [] => none

/-- A string of one of the two forms that keep to one line, as keys may have. -/
def readLineString : List Char → Option (Rest String)
  | a :: rest =>
    if a = '\x22' then (readBasic rest).map fun (s, rest) => (String.ofList s, rest)
    else if a = '\x27' then (readLiteral rest).map fun (s, rest) => (String.ofList s, rest)
    else none
  | [] => none

end EndpointCatalog.Toml
