import CodeOutline.Proofs.Splitting

/-!
# Splitting and joining

A text is cut at the separators that stand outside brackets and quotes. The scan that finds them
carries its state from one piece to the next, and yet nothing is lost and nothing hangs on what
stands around a piece.

**Theorem (`splitTop_and_join`).** The separator is *plain*: no bracket and no quote. The pieces of
any text, joined by it, are the text again. The other way round, parts that are joined are found
again, one by one, if each is *whole*: a scan of the part alone meets no separator outside brackets
and quotes, and ends outside both. A scan of all that is joined ends there, too.

A scan meets no separator in a text just if the text is not cut (`splitTopFrom_eq_singleton_iff`).
So what the theorem asks of the parts is what `splitTop_intercalate_iff` asks for.
-/

namespace CodeOutline

namespace Nesting

variable {angles : Bool} {n : Nesting} {sep : Char}

theorem isTop_iff : n.isTop = true ↔ n.quote = none ∧ n.depth = 0 := by
  simp [isTop]

/-- Whether the character opens and closes neither brackets nor quotes. -/
def isPlain (angles : Bool) (c : Char) : Bool :=
  !isQuote c && !isOpener angles c && !isCloser angles c

/-- Outside quotes, a plain character leaves the scan where it is. -/
theorem step_of_isPlain (h : isPlain angles sep = true) (hquote : n.quote = none) :
    n.step angles sep = n := by
  simp only [isPlain, Bool.and_eq_true, Bool.not_eq_true'] at h
  simp [step, hquote, h]

/-- A scan that comes back to its start on every part does so on the parts joined. -/
theorem scan_intercalate (hsep : isPlain angles sep = true) (hquote : n.quote = none)
    {parts : List (List Char)} (h : ∀ p ∈ parts, n.scan angles p = n) :
    n.scan angles ([sep].intercalate parts) = n := by
  induction parts with
  | nil => rfl
  | cons p parts ih =>
    cases parts with
    | nil => simpa using h p List.mem_cons_self
    | cons q parts =>
      have hrest := ih fun r hr => h r (List.mem_cons_of_mem p hr)
      rw [List.intercalate_cons_cons, List.append_assoc, List.singleton_append, scan_append,
        h p List.mem_cons_self, scan_cons, step_of_isPlain hsep hquote, hrest]

end Nesting

namespace Chars

variable {sep : Char} {angles : Bool} {n : Nesting} {cs : List Char}

/-! ## Joining the pieces -/

theorem intercalate_cons_append (sep c : Char) (piece : List Char) (pieces : List (List Char)) :
    [sep].intercalate ((c :: piece) :: pieces) = c :: [sep].intercalate (piece :: pieces) := by
  cases pieces with
  | nil => simp
  | cons next pieces => simp [List.intercalate_cons_cons]

/-- No character is lost, wherever the scan stands at the start. -/
theorem intercalate_splitTopFrom (sep : Char) (angles : Bool) (n : Nesting) (cs : List Char) :
    [sep].intercalate (splitTopFrom sep angles n cs) = cs := by
  induction cs generalizing n with
  | nil => rfl
  | cons c cs ih =>
    rw [splitTopFrom_cons]
    split
    · next hsep =>
      -- the separator itself comes back between an empty piece and the first one of the rest
      obtain ⟨piece, pieces, hsplit⟩ := List.exists_cons_of_ne_nil
        (splitTopFrom_ne_nil sep angles n cs)
      have hrest := ih n
      rw [hsplit] at hrest ⊢
      rw [List.intercalate_cons_cons, hrest, hsep.1]
      rfl
    · obtain ⟨piece, pieces, hsplit⟩ := List.exists_cons_of_ne_nil
        (splitTopFrom_ne_nil sep angles (n.step angles c) cs)
      have hrest := ih (n.step angles c)
      rw [hsplit] at hrest ⊢
      rw [List.modifyHead_cons, intercalate_cons_append, hrest]

/-! ## Whole parts -/

/-- A scan of the text that begins at `n` comes to a separator outside brackets and quotes. -/
def Meets (sep : Char) (angles : Bool) (n : Nesting) (cs : List Char) : Prop :=
  ∃ before after, cs = before ++ sep :: after ∧
    (n.scan angles before).quote = none ∧ (n.scan angles before).depth = 0

theorem not_meets_nil : ¬ Meets sep angles n [] := by
  rintro ⟨before, after, hcs, -⟩
  simp at hcs

/-- A separator is met at the first character or after it. -/
theorem meets_cons {c : Char} : Meets sep angles n (c :: cs) ↔
    (c = sep ∧ n.isTop = true) ∨ Meets sep angles (n.step angles c) cs := by
  constructor
  · rintro ⟨before, after, hcs, htop⟩
    cases before with
    | nil =>
      obtain ⟨rfl, -⟩ := List.cons.inj hcs
      exact .inl ⟨rfl, Nesting.isTop_iff.mpr htop⟩
    | cons d before =>
      obtain ⟨rfl, rfl⟩ := List.cons.inj hcs
      exact .inr ⟨before, after, rfl, htop⟩
  · rintro (⟨rfl, htop⟩ | ⟨before, after, rfl, htop⟩)
    · exact ⟨[], cs, rfl, Nesting.isTop_iff.mp htop⟩
    · exact ⟨c :: before, after, rfl, htop⟩

/-- **Uncut** texts are those in which no separator is met. -/
theorem splitTopFrom_eq_singleton_iff :
    splitTopFrom sep angles n cs = [cs] ↔ ¬ Meets sep angles n cs := by
  induction cs generalizing n with
  | nil => simp [splitTopFrom, not_meets_nil]
  | cons c cs ih =>
    rw [splitTopFrom_cons, meets_cons, not_or, ← ih]
    by_cases hsep : c = sep ∧ n.isTop = true
    · simp [hsep]
    · obtain ⟨piece, pieces, hsplit⟩ := List.exists_cons_of_ne_nil
        (splitTopFrom_ne_nil sep angles (n.step angles c) cs)
      rw [if_neg hsep, hsplit, List.modifyHead_cons]
      simp [hsep]

end Chars

/-- A text that may stand between separators: a scan of it alone meets no separator outside brackets
and quotes, and ends outside both, with no character escaped. -/
structure WholePart (sep : Char) (angles : Bool) (part : String) : Prop where
  unmet : ¬ Chars.Meets sep angles {} part.toList
  closed : (Nesting.scan angles {} part.toList).depth = 0
  unquoted : (Nesting.scan angles {} part.toList).quote = none
  unescaped : (Nesting.scan angles {} part.toList).escaped = false

namespace WholePart

variable {sep : Char} {angles : Bool} {part : String}

theorem isTop (h : WholePart sep angles part) :
    (Nesting.scan angles {} part.toList).isTop = true :=
  Nesting.isTop_iff.mpr ⟨h.unquoted, h.closed⟩

/-- Being whole can be decided by splitting the part. -/
theorem iff_splitTop : WholePart sep angles part ↔
    Chars.splitTop sep angles part.toList = [part.toList] ∧
      Nesting.scan angles {} part.toList = {} := by
  constructor
  · intro h
    exact ⟨Chars.splitTopFrom_eq_singleton_iff.mpr h.unmet, Nesting.scan_eq_of_isTop h.isTop⟩
  · rintro ⟨huncut, hback⟩
    refine ⟨Chars.splitTopFrom_eq_singleton_iff.mp huncut, ?_, ?_, ?_⟩ <;> rw [hback]

instance : Decidable (WholePart sep angles part) := decidable_of_iff _ iff_splitTop.symm

end WholePart

namespace Text

/-- **Splitting and joining.** The separator is no bracket and no quote. The pieces of a text are
joined to the text, and whole parts that are joined are the pieces of what they are joined to. Its
brackets and quotes are all closed again. -/
theorem splitTop_and_join (sep : Char) (angles : Bool) (hsep : Nesting.isPlain angles sep = true) :
    (∀ text : String, (String.singleton sep).intercalate (splitTop sep angles text) = text) ∧
    ∀ parts : List String, parts ≠ [] → (∀ part ∈ parts, WholePart sep angles part) →
      splitTop sep angles ((String.singleton sep).intercalate parts) = parts ∧
        Nesting.scan angles {} ((String.singleton sep).intercalate parts).toList = {} := by
  constructor
  · intro text
    apply String.toList_injective
    rw [String.toList_intercalate, splitTop, List.map_map]
    simpa [Function.comp_def, Chars.splitTop] using
      Chars.intercalate_splitTopFrom sep angles {} text.toList
  · intro parts hne hwhole
    have hjoined : ((String.singleton sep).intercalate parts).toList =
        [sep].intercalate (parts.map String.toList) := by
      rw [String.toList_intercalate, String.toList_singleton]
    have hsplit : Chars.splitTop sep angles ([sep].intercalate (parts.map String.toList)) =
        parts.map String.toList := by
      refine (Chars.splitTop_intercalate_iff (by simpa using hne)).mpr ⟨?_, ?_⟩
      · intro p hp
        obtain ⟨part, hpart, rfl⟩ := List.mem_map.mp hp
        exact Chars.splitTopFrom_eq_singleton_iff.mpr (hwhole part hpart).unmet
      · intro p hp
        obtain ⟨part, hpart, rfl⟩ := List.mem_map.mp ((List.dropLast_sublist _).mem hp)
        exact (hwhole part hpart).isTop
    rw [splitTop, hjoined]
    refine ⟨?_, Nesting.scan_intercalate hsep rfl fun p hp => ?_⟩
    · rw [hsplit, List.map_map]
      simp [Function.comp_def]
    · obtain ⟨part, hpart, rfl⟩ := List.mem_map.mp hp
      exact Nesting.scan_eq_of_isTop (hwhole part hpart).isTop

/-- Separators in brackets and in a quote, also behind an escaped quotation mark, do not cut. -/
theorem splitTop_argumentList :
    let parts := ["f(é, [x, y])", " \"a\\\",b\"", "", " Map<K, V>"]
    Nesting.isPlain true ',' = true ∧ (∀ part ∈ parts, WholePart ',' true part) ∧
      splitTop ',' true ((String.singleton ',').intercalate parts) = parts ∧
        Nesting.scan true {} ((String.singleton ',').intercalate parts).toList = {} := by
  intro parts
  have hsep : Nesting.isPlain true ',' = true := by decide
  have hwhole : ∀ part ∈ parts, WholePart ',' true part := by decide +kernel
  exact ⟨hsep, hwhole, (splitTop_and_join ',' true hsep).2 parts (List.cons_ne_nil _ _) hwhole⟩

end Text

end CodeOutline
