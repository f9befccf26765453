/-!
# UTF-8

The bytes of a text, and the text of a list of bytes. A character takes one to four bytes: the
first tells how many, the others hold six bits each. Longer forms than needed, halves of surrogate
pairs and numbers above the last character are refused, so every text has one form.
-/

namespace CodeOutline.Utf8

/-- The bytes of a text. -/
def encode (s : String) : List UInt8 := s.toList.flatMap String.utf8EncodeChar

/-- The six bits of a byte that follows the first one. -/
def tail? (b : UInt8) : Option Nat :=
  if 0x80 ≤ b.toNat ∧ b.toNat < 0xC0 then some (b.toNat - 0x80) else none

/-- The character with a number, if the number is not below `least`. -/
def char? (least n : Nat) : Option Char :=
  if h : least ≤ n ∧ n.isValidChar then some ⟨UInt32.ofNat n, by
    have hlt : n < 2 ^ 32 := by
      rcases h.2 with h | h <;> omega
    simpa [UInt32.isValidChar, UInt32.toNat_ofNat_of_lt' hlt] using h.2⟩
  else none

/-- The character that a list of bytes begins with, and the bytes after it. -/
def next? : List UInt8 → Option (Char × List UInt8)
  | [] => none
  | a :: rest =>
    if a.toNat < 0x80 then (char? 0 a.toNat).map fun c => (c, rest)
    else if a.toNat < 0xC0 then none
    else if a.toNat < 0xE0 then
      match rest with
      | b :: rest => do
        let c ← char? 0x80 ((a.toNat - 0xC0) * 64 + (← tail? b))
        return (c, rest)
      | _ => none
    else if a.toNat < 0xF0 then
      match rest with
      | b :: c :: rest => do
        let c ← char? 0x800 (((a.toNat - 0xE0) * 64 + (← tail? b)) * 64 + (← tail? c))
        return (c, rest)
      | _ => none
    else if a.toNat < 0xF8 then
      match rest with
      | b :: c :: d :: rest => do
        let head := ((a.toNat - 0xF0) * 64 + (← tail? b)) * 64 + (← tail? c)
        let c ← char? 0x10000 (head * 64 + (← tail? d))
        return (c, rest)
      | _ => none
    else none

/-- The characters of a list of bytes, at most `n` of them, or the number of bytes before the first
that is not part of one. -/
def decodeFrom : Nat → List UInt8 → Except Nat (List Char)
  | 0, _ => .ok []
  | n + 1, bytes =>
    if bytes.isEmpty then .ok []
    else match next? bytes with
      | none => .error 0
      | some (c, rest) =>
        match decodeFrom n rest with
        | .ok cs => .ok (c :: cs)
        | .error offset => .error (bytes.length - rest.length + offset)

/-- The text of a list of bytes, or the length of its longest part, from the front, that is one. -/
def decode (bytes : List UInt8) : Except Nat String :=
  (decodeFrom bytes.length bytes).map String.ofList

end CodeOutline.Utf8
