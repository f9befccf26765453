import CodeOutline.Text.Utf8
import Mathlib.Data.List.Basic

/-!
# Decoding inverts encoding

`Utf8.decode` reads a list of bytes back to the text they encode.

**Theorem (`decode_eq_ok_iff`).** The bytes of a text, and no other bytes, decode to it.

**Theorem (`longestText_of_decode`).** Where bytes are no text, the offset that is reported is the
length of the longest part of them, from the front, that is one.

Both rest on one character: `next?` takes a character off the front of a list of bytes exactly if
the list begins with the bytes of that character (`next?_eq_some_iff`). So no list begins with the
bytes of two characters, and two ways of reading bytes agree as far as both go.
-/

namespace CodeOutline.Utf8

open String (utf8EncodeChar)

/-! ## Parts of a character -/

theorem toNat_ofNat_of_lt {n : Nat} (h : n < 256) : (UInt8.ofNat n).toNat = n :=
  UInt8.toNat_ofNat_of_lt' h

theorem char?_eq_some_iff {least n : Nat} {c : Char} :
    char? least n = some c ↔ least ≤ n ∧ c.toNat = n := by
  rw [char?]
  constructor
  · intro h
    split at h
    · next hn =>
      have hlt : n < 2 ^ 32 := by
        rcases hn.2 with h | h <;> omega
      rw [← Option.some.inj h]
      exact ⟨hn.1, UInt32.toNat_ofNat_of_lt' hlt⟩
    · cases h
  · rintro ⟨hleast, rfl⟩
    rw [dif_pos ⟨hleast, c.valid⟩]
    exact congrArg some (Char.ext (UInt32.ofNat_toNat))

theorem tail?_eq_some_iff {b : UInt8} {n : Nat} :
    tail? b = some n ↔ n < 64 ∧ b = UInt8.ofNat (n + 128) := by
  rw [tail?]
  constructor
  · intro h
    split at h
    · next hb =>
      obtain rfl := Option.some.inj h
      refine ⟨by omega, UInt8.toNat_inj.mp ?_⟩
      rw [toNat_ofNat_of_lt (by omega)]
      omega
    · cases h
  · rintro ⟨hn, rfl⟩
    rw [toNat_ofNat_of_lt (by omega), if_pos (by omega), Nat.add_sub_cancel]

/-! ## One character -/

variable {c : Char}

theorem encodeChar_one (h : c.toNat < 0x80) : utf8EncodeChar c = [UInt8.ofNat c.toNat] := by
  have hval : c.val.toNat = c.toNat := rfl
  simp only [utf8EncodeChar, hval]
  rw [if_pos (by omega)]

theorem encodeChar_two (hlow : 0x80 ≤ c.toNat) (hhigh : c.toNat < 0x800) :
    utf8EncodeChar c =
      [UInt8.ofNat (c.toNat / 64 + 0xC0), UInt8.ofNat (c.toNat % 64 + 128)] := by
  have hval : c.val.toNat = c.toNat := rfl
  have hfirst : c.toNat / 64 % 32 = c.toNat / 64 := by omega
  simp only [utf8EncodeChar, hval]
  rw [if_neg (by omega), if_pos (by omega), hfirst]

theorem encodeChar_three (hlow : 0x800 ≤ c.toNat) (hhigh : c.toNat < 0x10000) :
    utf8EncodeChar c =
      [UInt8.ofNat (c.toNat / 4096 + 0xE0), UInt8.ofNat (c.toNat / 64 % 64 + 128),
        UInt8.ofNat (c.toNat % 64 + 128)] := by
  have hval : c.val.toNat = c.toNat := rfl
  have hfirst : c.toNat / 4096 % 16 = c.toNat / 4096 := by omega
  simp only [utf8EncodeChar, hval]
  rw [if_neg (by omega), if_neg (by omega), if_pos (by omega), hfirst]

theorem toNat_lt (c : Char) : c.toNat < 0x110000 := by
  have hvalid : c.toNat.isValidChar := c.valid
  rcases hvalid with h | h <;> omega

theorem encodeChar_four (hlow : 0x10000 ≤ c.toNat) :
    utf8EncodeChar c =
      [UInt8.ofNat (c.toNat / 262144 + 0xF0), UInt8.ofNat (c.toNat / 4096 % 64 + 128),
        UInt8.ofNat (c.toNat / 64 % 64 + 128), UInt8.ofNat (c.toNat % 64 + 128)] := by
  have hval : c.val.toNat = c.toNat := rfl
  have hlt := toNat_lt c
  have hfirst : c.toNat / 262144 % 8 = c.toNat / 262144 := by omega
  simp only [utf8EncodeChar, hval]
  rw [if_neg (by omega), if_neg (by omega), if_neg (by omega), hfirst]

theorem next?_encodeChar_append (c : Char) (rest : List UInt8) :
    next? (utf8EncodeChar c ++ rest) = some (c, rest) := by
  have hlt := toNat_lt c
  have htail : ∀ n, tail? (UInt8.ofNat (n % 64 + 128)) = some (n % 64) := fun n =>
    tail?_eq_some_iff.mpr ⟨Nat.mod_lt n (by decide), rfl⟩
  have hchar : ∀ least n, least ≤ c.toNat → n = c.toNat → char? least n = some c :=
    fun least n hleast hn => char?_eq_some_iff.mpr ⟨hn ▸ hleast, hn.symm⟩
  -- one case for each number of bytes
  by_cases hone : c.toNat < 0x80
  · have hfirst : (UInt8.ofNat c.toNat).toNat = c.toNat := toNat_ofNat_of_lt (by omega)
    rw [encodeChar_one hone]
    simp only [List.cons_append, List.nil_append, next?, hfirst]
    rw [if_pos hone, hchar 0 _ (Nat.zero_le _) rfl, Option.map_some]
  by_cases htwo : c.toNat < 0x800
  · have hfirst : (UInt8.ofNat (c.toNat / 64 + 0xC0)).toNat = c.toNat / 64 + 0xC0 :=
      toNat_ofNat_of_lt (by omega)
    rw [encodeChar_two (by omega) htwo]
    simp only [List.cons_append, List.nil_append, next?, hfirst, htail, Option.bind_eq_bind,
      Option.bind_some]
    rw [if_neg (by omega), if_neg (by omega), if_pos (by omega), hchar 0x80 _ (by omega) (by omega)]
    rfl
  by_cases hthree : c.toNat < 0x10000
  · have hfirst : (UInt8.ofNat (c.toNat / 4096 + 0xE0)).toNat = c.toNat / 4096 + 0xE0 :=
      toNat_ofNat_of_lt (by omega)
    rw [encodeChar_three (by omega) hthree]
    simp only [List.cons_append, List.nil_append, next?, hfirst, htail, Option.bind_eq_bind,
      Option.bind_some]
    rw [if_neg (by omega), if_neg (by omega), if_neg (by omega), if_pos (by omega),
      hchar 0x800 _ (by omega) (by omega)]
    rfl
  · have hfirst : (UInt8.ofNat (c.toNat / 262144 + 0xF0)).toNat = c.toNat / 262144 + 0xF0 :=
      toNat_ofNat_of_lt (by omega)
    rw [encodeChar_four (by omega)]
    simp only [List.cons_append, List.nil_append, next?, hfirst, htail, Option.bind_eq_bind,
      Option.bind_some]
    rw [if_neg (by omega), if_neg (by omega), if_neg (by omega), if_neg (by omega),
      if_pos (by omega), hchar 0x10000 _ (by omega) (by omega)]
    rfl

/-- What is taken off the front of a list of bytes is the bytes of a character. -/
theorem eq_append_of_next? {bytes rest : List UInt8} (h : next? bytes = some (c, rest)) :
    bytes = utf8EncodeChar c ++ rest := by
  have hbyte : ∀ {x : UInt8} {n : Nat}, x.toNat = n → x = UInt8.ofNat n := by
    rintro x n rfl
    exact UInt8.ofNat_toNat.symm
  unfold next? at h
  split at h
  · cases h
  next x bytes =>
  split at h
  · next hone =>
    simp only [Option.map_eq_some_iff, char?_eq_some_iff, Prod.mk.injEq] at h
    obtain ⟨d, ⟨-, hd⟩, rfl, rfl⟩ := h
    rw [encodeChar_one (by omega), hd, ← hbyte rfl]
    rfl
  split at h
  · cases h
  simp only [Option.bind_eq_bind, Option.pure_def] at h
  split at h
  · next htwo =>
    split at h
    · next y bytes =>
      simp only [Option.bind_eq_some_iff, Option.some.injEq, tail?_eq_some_iff, char?_eq_some_iff,
        Prod.mk.injEq] at h
      obtain ⟨i, ⟨hi, rfl⟩, d, ⟨hlow, hd⟩, rfl, rfl⟩ := h
      have hx : x = UInt8.ofNat (d.toNat / 64 + 0xC0) := hbyte (by omega)
      rw [encodeChar_two (by omega) (by omega), ← hx, show d.toNat % 64 = i by omega]
      rfl
    · cases h
  split at h
  · next hthree =>
    split at h
    · next y z bytes =>
      simp only [Option.bind_eq_some_iff, Option.some.injEq, tail?_eq_some_iff, char?_eq_some_iff,
        Prod.mk.injEq] at h
      obtain ⟨i, ⟨hi, rfl⟩, j, ⟨hj, rfl⟩, d, ⟨hlow, hd⟩, rfl, rfl⟩ := h
      have hx : x = UInt8.ofNat (d.toNat / 4096 + 0xE0) := hbyte (by omega)
      rw [encodeChar_three (by omega) (by omega), ← hx, show d.toNat / 64 % 64 = i by omega,
        show d.toNat % 64 = j by omega]
      rfl
    · cases h
  split at h
  · next hfour =>
    split at h
    · next y z w bytes =>
      simp only [Option.bind_eq_some_iff, Option.some.injEq, tail?_eq_some_iff, char?_eq_some_iff,
        Prod.mk.injEq] at h
      obtain ⟨i, ⟨hi, rfl⟩, j, ⟨hj, rfl⟩, k, ⟨hk, rfl⟩, d, ⟨hlow, hd⟩, rfl, rfl⟩ := h
      have hx : x = UInt8.ofNat (d.toNat / 262144 + 0xF0) := hbyte (by omega)
      rw [encodeChar_four (by omega), ← hx, show d.toNat / 4096 % 64 = i by omega,
        show d.toNat / 64 % 64 = j by omega, show d.toNat % 64 = k by omega]
      rfl
    · cases h
  · cases h

/-- A character is taken off the front exactly where its bytes stand. -/
theorem next?_eq_some_iff {bytes rest : List UInt8} :
    next? bytes = some (c, rest) ↔ bytes = utf8EncodeChar c ++ rest := by
  constructor
  · exact eq_append_of_next?
  · rintro rfl
    exact next?_encodeChar_append c rest

/-! ## Texts -/

variable {cs others : List Char} {bytes rest suffix : List UInt8}

theorem length_encode (s : String) : (encode s).length = s.utf8ByteSize := by
  have hbytes : s.toByteArray = (encode s).toByteArray := by
    conv => lhs; rw [← String.ofList_toList (s := s)]
    rfl
  rw [← String.size_toByteArray, hbytes, List.size_toByteArray]

/-- Of two ways to read the front of some bytes, the one that ends where no character begins goes on
at least as far as the other. -/
theorem isPrefix_of_append_eq (hrest : next? rest = none)
    (h : others.flatMap utf8EncodeChar ++ suffix = cs.flatMap utf8EncodeChar ++ rest) :
    others <+: cs := by
  induction others generalizing cs with
  | nil => exact List.nil_prefix
  | cons c others ih =>
    rw [List.flatMap_cons, List.append_assoc] at h
    have hnext := next?_encodeChar_append c (others.flatMap utf8EncodeChar ++ suffix)
    cases cs with
    | nil =>
      rw [h, List.flatMap_nil, List.nil_append, hrest] at hnext
      cases hnext
    | cons d cs =>
      rw [h, List.flatMap_cons, List.append_assoc, next?_encodeChar_append] at hnext
      obtain ⟨rfl, htail⟩ := Prod.mk.inj (Option.some.inj hnext)
      exact List.cons_prefix_cons.mpr ⟨rfl, ih htail.symm⟩

theorem length_le_of_append_eq (hrest : next? rest = none)
    (h : others.flatMap utf8EncodeChar ++ suffix = cs.flatMap utf8EncodeChar ++ rest) :
    (others.flatMap utf8EncodeChar).length ≤ (cs.flatMap utf8EncodeChar).length := by
  obtain ⟨more, rfl⟩ := isPrefix_of_append_eq hrest h
  rw [List.flatMap_append, List.length_append]
  exact Nat.le_add_right _ _

/-- Decoding reads all bytes, or it stops where no character begins. -/
theorem decodeFrom_cases {n : Nat} (hn : bytes.length ≤ n) :
    (∃ cs : List Char, decodeFrom n bytes = .ok cs ∧ bytes = cs.flatMap utf8EncodeChar) ∨
      ∃ (cs : List Char) (rest : List UInt8),
        decodeFrom n bytes = .error (cs.flatMap utf8EncodeChar).length ∧
        bytes = cs.flatMap utf8EncodeChar ++ rest ∧ rest ≠ [] ∧ next? rest = none := by
  induction n generalizing bytes with
  | zero =>
    obtain rfl := List.eq_nil_of_length_eq_zero (Nat.le_zero.mp hn)
    exact Or.inl ⟨[], rfl, rfl⟩
  | succ n ih =>
    rw [decodeFrom]
    by_cases hempty : bytes = []
    · rw [hempty]
      exact Or.inl ⟨[], rfl, rfl⟩
    rw [if_neg (by simpa using hempty)]
    cases hnext : next? bytes with
    | none => exact Or.inr ⟨[], bytes, rfl, rfl, hempty, hnext⟩
    | some pair =>
      obtain ⟨c, rest⟩ := pair
      have hbytes := next?_eq_some_iff.mp hnext
      have hlength : bytes.length = c.utf8Size + rest.length := by
        rw [hbytes, List.length_append, String.length_utf8EncodeChar]
      have hpos := Char.utf8Size_pos c
      have hrest : rest.length ≤ n := by omega
      rcases ih hrest with ⟨cs, hdecode, hcs⟩ | ⟨cs, more, hdecode, hcs, hmore, hnone⟩
      · refine Or.inl ⟨c :: cs, ?_, ?_⟩
        · simp only [hdecode]
        · rw [hbytes, hcs, List.flatMap_cons]
      · refine Or.inr ⟨c :: cs, more, ?_, ?_, hmore, hnone⟩
        · simp only [hdecode]
          rw [List.flatMap_cons, List.length_append, String.length_utf8EncodeChar, hlength,
            Nat.add_sub_cancel]
        · rw [hbytes, hcs, List.flatMap_cons, List.append_assoc]

/-- **Decoding.** Bytes decode to a text exactly if they are the bytes of it. -/
theorem decode_eq_ok_iff {s : String} : decode bytes = .ok s ↔ bytes = encode s := by
  rw [decode, encode]
  rcases decodeFrom_cases (Nat.le_refl bytes.length) with
    ⟨cs, hdecode, hcs⟩ | ⟨cs, rest, hdecode, hcs, hrest, hnone⟩
  · rw [hdecode]
    constructor
    · intro h
      obtain rfl : String.ofList cs = s := Except.ok.inj h
      rw [String.toList_ofList, hcs]
    · intro h
      have hsame : s.toList.flatMap utf8EncodeChar ++ [] = cs.flatMap utf8EncodeChar ++ [] := by
        rw [← hcs, h]
      have hle := isPrefix_of_append_eq rfl hsame
      have hge := isPrefix_of_append_eq rfl hsame.symm
      rw [← hle.eq_of_length (Nat.le_antisymm hle.length_le hge.length_le)]
      exact congrArg Except.ok String.ofList_toList
  · rw [hdecode]
    constructor
    · intro h
      cases h
    · intro h
      -- a reading to the end would be longer than one that stops before it
      have hall : s.toList.flatMap utf8EncodeChar ++ [] = cs.flatMap utf8EncodeChar ++ rest := by
        rw [List.append_nil, ← h, hcs]
      have hlength := length_le_of_append_eq hnone hall
      rw [← h, hcs, List.length_append] at hlength
      exact absurd (List.eq_nil_of_length_eq_zero (by omega)) hrest

/-- `n` is the length of the longest part of the bytes, from the front, that is a text. -/
structure LongestText (bytes : List UInt8) (n : Nat) : Prop where
  le_length : n ≤ bytes.length
  isText : ∃ s, bytes.take n = encode s
  longest : ∀ m ≤ bytes.length, (∃ s, bytes.take m = encode s) → m ≤ n

/-- **Offsets of errors.** Bytes that do not decode are a text up to the offset that is reported,
and no further. -/
theorem longestText_of_decode {offset : Nat} (h : decode bytes = .error offset) :
    LongestText bytes offset := by
  rcases decodeFrom_cases (Nat.le_refl bytes.length) with
    ⟨cs, hdecode, hcs⟩ | ⟨cs, rest, hdecode, hcs, hrest, hnone⟩
  · rw [decode, hdecode] at h
    cases h
  · rw [decode, hdecode] at h
    obtain rfl : (cs.flatMap utf8EncodeChar).length = offset := Except.error.inj h
    refine ⟨?_, ⟨String.ofList cs, ?_⟩, ?_⟩
    · rw [hcs, List.length_append]
      exact Nat.le_add_right _ _
    · rw [hcs, List.take_left, encode, String.toList_ofList]
    · rintro m hm ⟨s, hs⟩
      have hall : s.toList.flatMap utf8EncodeChar ++ bytes.drop m =
          cs.flatMap utf8EncodeChar ++ rest := by
        rw [← hcs, ← encode, ← hs, List.take_append_drop]
      have hlength := length_le_of_append_eq hnone hall
      rw [← encode, ← hs, List.length_take] at hlength
      omega

end CodeOutline.Utf8
