import EndpointCatalog.Text.Utf8

/-! Values as bytes. A codec writes a value so that it can be read back from the front
of any bytes that follow it; numbers are written in base 128, and everything else
is put together from numbers. -/

namespace EndpointCatalog

abbrev Bytes := Text.Utf8.Bytes

/-- A way to write values of a type, with the reader that undoes it. -/
structure Codec (α : Type) where
  encode : α → Bytes
  decode : Bytes → Option (α × Bytes)
  decode_encode : ∀ a rest, decode (encode a ++ rest) = some (a, rest)

namespace Codec

/-! ### Numbers -/

/-- The digits of a number in base 128, lowest first; all but the last have the high
bit set. -/
def encodeNat (n : Nat) : Bytes :=
  if n < 128 then [UInt8.ofNat n] else UInt8.ofNat (n % 128 + 128) :: encodeNat (n / 128)

def decodeNat : Bytes → Option (Nat × Bytes)
  | [] => none
  | b :: rest =>
    if b.toNat < 128 then some (b.toNat, rest)
    else (decodeNat rest).map fun (high, rest) => (b.toNat - 128 + 128 * high, rest)

theorem decodeNat_encodeNat (n : Nat) (rest : Bytes) :
    decodeNat (encodeNat n ++ rest) = some (n, rest) := by
  induction n using Nat.strongRecOn with
  | _ n ih =>
    rw [encodeNat]
    split
    · have h : n % 256 = n := by omega
      simp [decodeNat, *]
    · have h : (n % 128 + 128) % 256 = n % 128 + 128 := by omega
      have hlt : n / 128 < n := by omega
      simp only [List.cons_append, decodeNat, UInt8.toNat_ofNat', Nat.reducePow, h,
        ih _ hlt, Option.map_some]
      split
      · omega
      · simp; omega

def nat : Codec Nat := ⟨encodeNat, decodeNat, decodeNat_encodeNat⟩

/-! ### Building codecs -/

/-- A codec for values that stand for values of another type. -/
def via {α β : Type} (c : Codec α) (take : β → α) (make : α → β)
    (h : ∀ b, make (take b) = b) :
    Codec β where
  encode b := c.encode (take b)
  decode bytes := (c.decode bytes).map fun (a, rest) => (make a, rest)
  decode_encode b rest := by simp [c.decode_encode, h]

def pair {α β : Type} (c : Codec α) (d : Codec β) : Codec (α × β) where
  encode p := c.encode p.1 ++ d.encode p.2
  decode bytes := do
    let (a, bytes) ← c.decode bytes
    let (b, bytes) ← d.decode bytes
    return ((a, b), bytes)
  decode_encode p rest := by simp [List.append_assoc, c.decode_encode, d.decode_encode]

/-- Reads a given number of values. -/
def decodeMany {α : Type} (c : Codec α) : Nat → Bytes → Option (List α × Bytes)
  | 0, bytes => some ([], bytes)
  | n + 1, bytes => do
    let (a, bytes) ← c.decode bytes
    let (as, bytes) ← decodeMany c n bytes
    return (a :: as, bytes)

theorem decodeMany_encode {α : Type} (c : Codec α) (as : List α) (rest : Bytes) :
    decodeMany c as.length (as.flatMap c.encode ++ rest) = some (as, rest) := by
  induction as with
  | nil => rfl
  | cons a as ih => simp [decodeMany, List.append_assoc, c.decode_encode, ih]

/-- A list is written as its length and then its elements. -/
def list {α : Type} (c : Codec α) : Codec (List α) where
  encode as := encodeNat as.length ++ as.flatMap c.encode
  decode bytes := do
    let (n, bytes) ← decodeNat bytes
    decodeMany c n bytes
  decode_encode as rest := by
    simp [List.append_assoc, decodeNat_encodeNat, decodeMany_encode]

/-- An optional value is a list of at most one. -/
def option {α : Type} (c : Codec α) : Codec (Option α) :=
  c.list.via Option.toList List.head? (by intro a; cases a <;> rfl)

def string : Codec String :=
  (nat.via Char.toNat Char.ofNat Char.ofNat_toNat).list.via String.toList String.ofList
    (fun _ => String.ofList_toList)

/-- An integer is written as twice its size, one less if it is negative. -/
def int : Codec Int :=
  nat.via (fun i => if 0 ≤ i then 2 * i.toNat else 2 * (-i).toNat - 1)
    (fun n => if n % 2 = 0 then Int.ofNat (n / 2) else -Int.ofNat ((n + 1) / 2))
    (by intro i; simp only [Int.ofNat_eq_natCast]; split <;> split <;> omega)

end Codec

end EndpointCatalog
