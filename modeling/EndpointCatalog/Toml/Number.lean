import EndpointCatalog.Toml.Text
import EndpointCatalog.Toml.Value

/-! Numbers and points in time in a TOML document. An integer must fit in 64 bits; of
numbers with a fraction and of times only the form is checked, and that a number is
not too large to be one. -/

namespace EndpointCatalog.Toml

/-! ### Digits -/

def isDecimal (c : Char) : Bool := c.isDigit

/-- Digits behind a first one, where single underscores may stand between digits. -/
def moreDigits (isDigit : Char → Bool) : List Char → List Char × List Char
  | [] => ([], [])
  | c :: rest =>
    if isDigit c then
      let (ds, rest) := moreDigits isDigit rest
      (c :: ds, rest)
    else
      match rest with
      | d :: rest' =>
        if c = '_' ∧ isDigit d then
          let (ds, rest) := moreDigits isDigit rest'
          (d :: ds, rest)
        else ([], c :: rest)
      | [] => ([], c :: rest)

def digits (isDigit : Char → Bool) : List Char → Option (Rest (List Char))
  | [] => none
  | c :: rest =>
    if isDigit c then
      let (ds, rest) := moreDigits isDigit rest
      some (c :: ds, rest)
    else none

/-- Digits without a needless zero in front. -/
def decimalDigits : List Char → Option (Rest (List Char))
  | '0' :: rest => some (['0'], rest)
  | cs => digits isDecimal cs

def number (base : Nat) (ds : List Char) : Nat :=
  ds.foldl (fun n c => base * n + (hexValue c).getD 0) 0

/-- A sign, if there is one; `true` stands for minus. -/
def sign : List Char → Bool × List Char
  | '+' :: rest => (false, rest)
  | '-' :: rest => (true, rest)
  | cs => (false, cs)

/-! ### Integers -/

def maxInteger : Nat := Nat.pow 2 63 - 1

def based (base : Nat) (isDigit : Char → Bool) (cs : List Char) : Option (Rest Value) := do
  let (ds, rest) ← digits isDigit cs
  let n := number base ds
  if n ≤ maxInteger then some (.integer n, rest) else none

def decimal (cs : List Char) : Option (Rest Value) := do
  let (minus, cs) := sign cs
  let (ds, rest) ← decimalDigits cs
  let n := number 10 ds
  if minus then
    if n ≤ maxInteger + 1 then some (.integer (-n), rest) else none
  else if n ≤ maxInteger then some (.integer n, rest) else none

def integer : List Char → Option (Rest Value)
  | '0' :: 'x' :: rest => based 16 (fun c => (hexValue c).isSome) rest
  | '0' :: 'o' :: rest => based 8 (fun c => '0' ≤ c && c ≤ '7') rest
  | '0' :: 'b' :: rest => based 2 (fun c => c == '0' || c == '1') rest
  | cs => decimal cs

/-! ### Numbers with a fraction -/

def fraction : List Char → Option (Rest (List Char))
  | '.' :: rest => digits isDecimal rest
  | _ => none

def exponent : List Char → Option (Rest Int)
  | c :: rest =>
    if c = 'e' ∨ c = 'E' then do
      let (minus, rest) := sign rest
      let (ds, rest) ← digits isDecimal rest
      let n : Int := number 10 ds
      some (if minus then -n else n, rest)
    else none
  | [] => none

/-- The least number that rounds to infinity among the floating-point numbers of 64
bits. -/
def floatLimit : Nat := (Nat.pow 2 54 - 1) * Nat.pow 2 970

/-- Whether `ds · 10 ^ e` is below the limit. Far from the limit, the number of digits
decides. -/
def isFinite (ds : List Char) (e : Int) : Bool :=
  let n := number 10 ds
  let size := (ds.dropWhile (· == '0')).length + e
  if n = 0 ∨ size < 300 then true
  else if 400 < size then false
  else if 0 ≤ e then n * Nat.pow 10 e.toNat < floatLimit
  else n < floatLimit * Nat.pow 10 (-e).toNat

/-- A fraction, an exponent, or both; a large negative number counts as finite. -/
def float (cs : List Char) : Option (Rest Value) := do
  let (minus, cs) := sign cs
  let (whole, cs) ← decimalDigits cs
  let (part, cs') := (fraction cs).getD ([], cs)
  let (e, rest) := (exponent cs').getD (0, cs')
  if part.isEmpty ∧ (exponent cs').isNone then none
  else if minus ∨ isFinite (whole ++ part) (e - part.length) then some (.float, rest)
  else none

/-- Infinity and what is no number, with or without a sign. -/
def specialFloat (cs : List Char) : Option (Rest Value) :=
  match (sign cs).2 with
  | 'i' :: 'n' :: 'f' :: rest => some (.float, rest)
  | 'n' :: 'a' :: 'n' :: rest => some (.float, rest)
  | _ => none

/-! ### Times -/

def two : List Char → Option (Rest Nat)
  | a :: b :: rest => if a.isDigit ∧ b.isDigit then some (number 10 [a, b], rest) else none
  | _ => none

def skip (c : Char) : List Char → Option (List Char)
  | d :: rest => if d = c then some rest else none
  | [] => none

def isLeap (year : Nat) : Bool := year % 4 = 0 ∧ (year % 100 ≠ 0 ∨ year % 400 = 0)

def daysIn (year month : Nat) : Nat :=
  if month = 2 then if isLeap year then 29 else 28
  else if month ∈ [4, 6, 9, 11] then 30
  else 31

def date (cs : List Char) : Option (List Char) := do
  let (century, cs) ← two cs
  let (year, cs) ← two cs
  let cs ← skip '-' cs
  let (month, cs) ← two cs
  let cs ← skip '-' cs
  let (day, cs) ← two cs
  if 1 ≤ month ∧ month ≤ 12 ∧ 1 ≤ day ∧ day ≤ daysIn (100 * century + year) month then some cs
  else none

def hourMinute (cs : List Char) : Option (List Char) := do
  let (hour, cs) ← two cs
  let cs ← skip ':' cs
  let (minute, cs) ← two cs
  if hour ≤ 23 ∧ minute ≤ 59 then some cs else none

def timeOfDay (cs : List Char) : Option (List Char) := do
  let cs ← hourMinute cs
  let cs ← skip ':' cs
  let (second, cs) ← two cs
  if 60 < second then none
  else
    match cs with
    | '.' :: c :: rest => some (if c.isDigit then rest.dropWhile Char.isDigit else cs)
    | _ => some cs

/-- The distance of a local time from universal time, if it is given. -/
def offset (cs : List Char) : List Char :=
  match cs with
  | c :: rest =>
    if c = 'Z' ∨ c = 'z' then rest
    else if c = '+' ∨ c = '-' then (hourMinute rest).getD cs
    else cs
  | [] => cs

/-- A date, a time of day, or both with a `T` or a blank between them. -/
def time (cs : List Char) : Option (Rest Value) :=
  match date cs with
  | some rest =>
    match rest with
    | c :: rest' =>
      if c = 'T' ∨ c = 't' ∨ c = ' ' then
        match timeOfDay rest' with
        | some rest => some (.time, offset rest)
        | none => some (.time, rest)
      else some (.time, rest)
    | [] => some (.time, rest)
  | none => (timeOfDay cs).map (.time, ·)

/-- Whatever begins with a digit or a sign. -/
def readNumber (cs : List Char) : Option (Rest Value) :=
  time cs <|> float cs <|> specialFloat cs <|> integer cs

end EndpointCatalog.Toml
