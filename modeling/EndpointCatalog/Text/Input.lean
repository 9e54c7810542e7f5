import EndpointCatalog.Text.Utf8

/-! Input that is read line by line. The lines before the first one that is not valid
UTF-8 can be read; that one ends the input with an error. -/

namespace EndpointCatalog.Text

/-- The bytes of a text up to and with each line feed, and what follows the last one. -/
def rawLines : Utf8.Bytes → List Utf8.Bytes
  | [] => []
  | b :: rest =>
    if b = 10 then [b] :: rawLines rest
    else
      match rawLines rest with
      | [] => [[b]]
      | line :: lines => (b :: line) :: lines

/-- Lines that can be read, and whether an unreadable one follows them. -/
structure Input where
  lines : List String
  broken : Bool
  deriving DecidableEq, Repr

def Input.ofLines : List Utf8.Bytes → Input
  | [] => ⟨[], false⟩
  | raw :: rest =>
    match Utf8.decode? raw with
    | none => ⟨[], true⟩
    | some cs => ⟨String.ofList cs :: (ofLines rest).lines, (ofLines rest).broken⟩

def Input.ofBytes (bytes : Utf8.Bytes) : Input := .ofLines (rawLines bytes)

end EndpointCatalog.Text
