/-! Bytes and characters. A decoder reads bytes one at a time: it is either between
two characters or within one, and then it knows how many bytes are missing and
which range the next one must lie in. Each maximal piece of bytes that begins no
character, or that is cut off before its character is complete, is one ill-formed
piece; the byte that reveals the cut is read again as the start of something new. -/

namespace EndpointCatalog.Text.Utf8

abbrev Bytes := List UInt8

/-- Where a decoder stands: between characters, or with `missing` bytes of a
character to come, `bits` read so far and the next byte due from `low` to `high`. -/
inductive State
  | between
  | within (missing bits low high : Nat)
  deriving DecidableEq

/-- What one byte completes: nothing, a character, or an ill-formed piece (`none`). -/
abbrev Piece := Option Char

/-- Reads the first byte of a character. -/
def start (b : Nat) : List Piece × State :=
  if b < 0x80 then ([some (Char.ofNat b)], .between)
  else if b < 0xC2 then ([none], .between)
  else if b < 0xE0 then ([], .within 1 (b - 0xC0) 0x80 0xBF)
  else if b = 0xE0 then ([], .within 2 0 0xA0 0xBF)
  else if b = 0xED then ([], .within 2 0xD 0x80 0x9F)
  else if b < 0xF0 then ([], .within 2 (b - 0xE0) 0x80 0xBF)
  else if b = 0xF0 then ([], .within 3 0 0x90 0xBF)
  else if b < 0xF4 then ([], .within 3 (b - 0xF0) 0x80 0xBF)
  else if b = 0xF4 then ([], .within 3 4 0x80 0x8F)
  else ([none], .between)

def step : State → Nat → List Piece × State
  | .between, b => start b
  | .within missing bits low high, b =>
    if low ≤ b ∧ b ≤ high then
      let bits := bits * 64 + (b - 0x80)
      if missing ≤ 1 then ([some (Char.ofNat bits)], .between)
      else ([], .within (missing - 1) bits 0x80 0xBF)
    else
      let (pieces, next) := start b
      (none :: pieces, next)

/-- The pieces of the bytes still to come; a character cut off by the end is ill-formed. -/
def run : State → Bytes → List Piece
  | .between, [] => []
  | .within .., [] => [none]
  | s, b :: rest => (step s b.toNat).1 ++ run (step s b.toNat).2 rest

def pieces (bytes : Bytes) : List Piece := run .between bytes

/-- The text of some bytes, with U+FFFD in place of each ill-formed piece. -/
def decodeLossy (bytes : Bytes) : List Char := (pieces bytes).map (·.getD '\uFFFD')

/-- The text of some bytes, if they hold no ill-formed piece. -/
def decode? (bytes : Bytes) : Option (List Char) := (pieces bytes).mapM id

def encodeChar (c : Char) : Bytes :=
  let n := c.toNat
  let tail (k : Nat) : UInt8 := UInt8.ofNat (0x80 + n / k % 64)
  if n < 0x80 then [UInt8.ofNat n]
  else if n < 0x800 then [UInt8.ofNat (0xC0 + n / 64), tail 1]
  else if n < 0x10000 then [UInt8.ofNat (0xE0 + n / 4096), tail 64, tail 1]
  else [UInt8.ofNat (0xF0 + n / 262144), tail 4096, tail 64, tail 1]

def encode (cs : List Char) : Bytes := cs.flatMap encodeChar

end EndpointCatalog.Text.Utf8

namespace EndpointCatalog.Text

/-- The number of bytes a piece of text takes, the unit of every offset. -/
def byteSize (cs : List Char) : Nat := cs.foldr (fun c size => c.utf8Size + size) 0

end EndpointCatalog.Text
