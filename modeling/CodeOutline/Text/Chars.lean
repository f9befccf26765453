import CodeOutline.Text.Blank

/-!
# Cutting lists of characters

The operations on text, on lists of characters: trimming ends, cutting at a separator, splitting
into lines and words, and counting in bytes of UTF-8. `CodeOutline.Text` lifts them to strings.
-/

namespace CodeOutline.Chars

open Text (isBlank)

/-! ## Ends -/

/-- The list without the longest run at its end on which `p` holds. -/
def dropEndWhile (p : Char → Bool) (cs : List Char) : List Char :=
  (cs.reverse.dropWhile p).reverse

def trim (cs : List Char) : List Char := dropEndWhile isBlank (cs.dropWhile isBlank)

/-- What follows `pre`, if the list begins with it. -/
def after? : (pre cs : List Char) → Option (List Char)
  | [], cs => some cs
  | _ :: _, [] => none
  | p :: pre, c :: cs => if p = c then after? pre cs else none

/-- What precedes `suf`, if the list ends with it. -/
def before? (suf cs : List Char) : Option (List Char) :=
  (after? suf.reverse cs.reverse).map List.reverse

/-- Takes `pre` off the front, at most `n` times. -/
def dropTimes (pre : List Char) : Nat → List Char → List Char
  | 0, cs => cs
  | n + 1, cs =>
    match after? pre cs with
    | some rest => dropTimes pre n rest
    | none => cs

/-- Takes `pre` off the front as often as it stands there. -/
def dropAll (pre cs : List Char) : List Char := dropTimes pre cs.length cs

/-- Takes `suf` off the end as often as it stands there. -/
def dropAllEnd (suf cs : List Char) : List Char := (dropAll suf.reverse cs.reverse).reverse

theorem eq_append_of_after? {pre cs rest : List Char} (h : after? pre cs = some rest) :
    cs = pre ++ rest := by
  induction pre generalizing cs with
  | nil => exact Option.some.inj h
  | cons p pre ih =>
    cases cs with
    | nil => simp [after?] at h
    | cons c cs =>
      rw [after?] at h
      split at h
      · next hp => rw [hp, ih h, List.cons_append]
      · simp at h

theorem length_dropEndWhile_le (p : Char → Bool) (cs : List Char) :
    (dropEndWhile p cs).length ≤ cs.length := by
  simpa [dropEndWhile] using (List.dropWhile_suffix p (l := cs.reverse)).length_le

theorem length_trim_le (cs : List Char) : (trim cs).length ≤ cs.length :=
  Nat.le_trans (length_dropEndWhile_le isBlank _) (List.dropWhile_suffix isBlank).length_le

theorem length_dropTimes_le (pre : List Char) (n : Nat) (cs : List Char) :
    (dropTimes pre n cs).length ≤ cs.length := by
  induction n generalizing cs with
  | zero => exact Nat.le_refl _
  | succ n ih =>
    rw [dropTimes]
    split
    · next rest h =>
      have hlen := congrArg List.length (eq_append_of_after? h)
      rw [List.length_append] at hlen
      exact Nat.le_trans (ih rest) (by omega)
    · exact Nat.le_refl _

theorem length_dropAll_le (pre cs : List Char) : (dropAll pre cs).length ≤ cs.length :=
  length_dropTimes_le pre cs.length cs

/-! ## Separators -/

/-- What stands before and after the first place where `sep` begins. -/
def cut? (sep : List Char) : List Char → Option (List Char × List Char)
  | [] => (after? sep []).map fun rest => ([], rest)
  | c :: cs =>
    match after? sep (c :: cs) with
    | some rest => some ([], rest)
    | none => (cut? sep cs).map fun (before, after) => (c :: before, after)

theorem eq_append_of_cut? {sep cs before after : List Char}
    (h : cut? sep cs = some (before, after)) : cs = before ++ sep ++ after := by
  induction cs generalizing before with
  | nil =>
    obtain ⟨rest, hrest, heq⟩ := Option.map_eq_some_iff.mp h
    obtain ⟨rfl, rfl⟩ := Prod.mk.inj heq
    exact eq_append_of_after? hrest
  | cons c cs ih =>
    rw [cut?] at h
    split at h
    · next rest hrest =>
      obtain ⟨rfl, rfl⟩ := Prod.mk.inj (Option.some.inj h)
      simpa using eq_append_of_after? hrest
    · obtain ⟨⟨b, a⟩, hcut, heq⟩ := Option.map_eq_some_iff.mp h
      obtain ⟨rfl, rfl⟩ := Prod.mk.inj heq
      rw [ih hcut, List.cons_append, List.cons_append]

/-- What stands before and after the last place where `sep` begins. -/
def cutLast? (sep : List Char) : List Char → Option (List Char × List Char)
  | [] => (after? sep []).map fun rest => ([], rest)
  | c :: cs =>
    match cutLast? sep cs with
    | some (before, after) => some (c :: before, after)
    | none => (after? sep (c :: cs)).map fun rest => ([], rest)

/-- The pieces between the characters on which `p` holds. There is always one. -/
def pieces (p : Char → Bool) : List Char → List (List Char)
  | [] => [[]]
  | c :: cs =>
    if p c then [] :: pieces p cs
    else match pieces p cs with
      | [] => [[c]]
      | piece :: rest => (c :: piece) :: rest

/-! ## Lines and words -/

/-- The lines of a text whose current line so far is `line`, reversed. -/
def linesFrom (line : List Char) : List Char → List (List Char)
  | [] => if line.isEmpty then [] else [line.reverse]
  | c :: cs =>
    if c = '\n' then
      (match line with
        | '\r' :: rest => rest
        | _ => line).reverse :: linesFrom [] cs
    else linesFrom (c :: line) cs

/-- A line ends at a line feed, and a carriage return before that is not part of it. What follows
the last line feed is a line unless it is empty. -/
def lines (cs : List Char) : List (List Char) := linesFrom [] cs

/-- The words of a text whose current word so far is `word`, reversed. -/
def wordsFrom (word : List Char) : List Char → List (List Char)
  | [] => if word.isEmpty then [] else [word.reverse]
  | c :: cs =>
    if isBlank c then
      if word.isEmpty then wordsFrom [] cs else word.reverse :: wordsFrom [] cs
    else wordsFrom (c :: word) cs

/-- The longest runs without a blank. -/
def words (cs : List Char) : List (List Char) := wordsFrom [] cs

/-! ## Bytes -/

/-- The number of bytes. -/
def byteLength : List Char → Nat
  | [] => 0
  | c :: cs => c.utf8Size + byteLength cs

/-- What follows the first `n` bytes, if those are whole characters. -/
def dropBytes? : Nat → List Char → Option (List Char)
  | 0, cs => some cs
  | _ + 1, [] => none
  | n + 1, c :: cs => if c.utf8Size ≤ n + 1 then dropBytes? (n + 1 - c.utf8Size) cs else none

/-! ## Substitution -/

/-- The text with its recognised pieces replaced, from left to right. Where `found?` recognises a
piece it gives the replacement and the piece's length; `skip` characters of such a piece are still
to be passed over. -/
def substituteFrom (found? : List Char → Option (List Char × Nat)) : Nat → List Char → List Char
  | _, [] => []
  | skip + 1, _ :: cs => substituteFrom found? skip cs
  | 0, c :: cs =>
    match found? (c :: cs) with
    | some (replacement, size) => replacement ++ substituteFrom found? (size - 1) cs
    | none => c :: substituteFrom found? 0 cs

def substitute (found? : List Char → Option (List Char × Nat)) (cs : List Char) : List Char :=
  substituteFrom found? 0 cs

end CodeOutline.Chars
