import CodeOutline.Arguments
import CodeOutline.Proofs.Collapse
import CodeOutline.Proofs.Names.Bindings
import CodeOutline.Proofs.Splitting

/-!
# Arguments of marks

What the dictionary of a list of arguments holds, said without the scan. `IsNamed` gives the form of
a named argument: a name, blanks, an equals sign or colon that begins no operator, and a value.
`Unquotes` gives the text of a literal. An argument is *closed* if it is not blank, and the scan
finds no comma in it and ends outside brackets and quotes.

**Theorem (`arguments_keyed_by_place_or_name`).** For closed arguments, joined with commas in
parentheses, the dictionary has the text of each positional one under its place among them, and
under each name the last value given to it. It has nothing else. A name never is a number, so none
of these is lost.
-/

namespace CodeOutline

/-! ## Entries of a dictionary -/

theorem Dictionary.mem_iff_find? {entries : List (String × String)} (h : Increasing entries)
    {key value : String} : (key, value) ∈ entries ↔
      (entries.find? fun e => e.1 == key).map (·.2) = some value := by
  induction entries with
  | nil => simp
  | cons e rest ih =>
    obtain ⟨hfirst, hrest⟩ := List.pairwise_cons.mp h
    by_cases hkey : e.1 = key
    · have hnot : (key, value) ∉ rest := by
        intro hmem
        have hlt := hfirst _ hmem
        rw [hkey] at hlt
        exact String.lt_irrefl _ hlt
      rw [List.mem_cons, or_iff_left hnot, List.find?_cons_of_pos (by simpa using hkey),
        Option.map_some, Option.some_inj]
      subst hkey
      simp [Prod.ext_iff, eq_comm]
    · have hne : (key, value) ≠ e := fun heq => hkey (congrArg Prod.fst heq).symm
      rw [List.mem_cons, or_iff_right hne, List.find?_cons_of_neg (by simpa using hkey), ih hrest]

theorem Dictionary.mem_entries_iff {d : Dictionary} {key value : String} :
    (key, value) ∈ d.entries ↔ d.get? key = some value :=
  mem_iff_find? d.increasing

theorem Dictionary.entries_ofList_singleton (key value : String) :
    (ofList [(key, value)]).entries = [(key, value)] := rfl

/-! ## Literals -/

namespace Chars

theorem before?_eq_some_iff {suf cs rest : List Char} :
    before? suf cs = some rest ↔ cs = rest ++ suf := by
  rw [before?, Option.map_eq_some_iff]
  constructor
  · rintro ⟨reversed, h, rfl⟩
    rw [after?_eq_some_iff] at h
    rw [← List.reverse_reverse cs, h, List.reverse_append, List.reverse_reverse]
  · rintro rfl
    exact ⟨rest.reverse, after?_eq_some_iff.mpr (by simp), by simp⟩

end Chars

namespace Text

/-- What stands between two marks at the ends of a text. -/
theorem between?_eq_some_iff {pre suf s inner : String} :
    (afterStart? pre s).bind (beforeEnd? suf) = some inner ↔
      s.toList = pre.toList ++ inner.toList ++ suf.toList := by
  simp only [Option.bind_eq_some_iff, afterStart?, beforeEnd?, Option.map_eq_some_iff,
    Chars.after?_eq_some_iff, Chars.before?_eq_some_iff]
  constructor
  · rintro ⟨-, ⟨rest, hs, rfl⟩, inner, hrest, rfl⟩
    rw [hs, String.toList_ofList, List.append_assoc, ← hrest, String.toList_ofList]
  · intro h
    refine ⟨_, ⟨_, ?_, rfl⟩, inner.toList, String.toList_ofList, String.ofList_toList⟩
    rw [h, List.append_assoc]

/-- The value that a text stands for: what is between its quotes, or the text itself if it is not in
quotes. Blanks at the ends do not count. -/
inductive Unquotes (text : String) : String → Prop
  | literal {q : Char} {value : String} : Nesting.isQuote q = true →
      (trim text).toList = q :: value.toList ++ [q] → Unquotes text value
  | plain : (∀ q inner, Nesting.isQuote q = true → (trim text).toList ≠ q :: inner ++ [q]) →
      Unquotes text (trim text)

theorem unquotes_unquote (text : String) : Unquotes text (unquote text) := by
  rw [unquote]
  cases hfound : ["\"", "'", "\x60"].findSome? fun q =>
      (afterStart? q (trim text)).bind (beforeEnd? q) with
  | some value =>
    obtain ⟨q, hq, hbetween⟩ := List.exists_of_findSome?_eq_some hfound
    rw [between?_eq_some_iff] at hbetween
    simp only [List.mem_cons, List.not_mem_nil, or_false] at hq
    rcases hq with rfl | rfl | rfl <;> exact .literal rfl hbetween
  | none =>
    rw [List.findSome?_eq_none_iff] at hfound
    refine .plain fun q inner hq heq => ?_
    simp only [Nesting.isQuote, Bool.or_eq_true, beq_iff_eq] at hq
    have hnone : (afterStart? (String.ofList [q]) (trim text)).bind
        (beforeEnd? (String.ofList [q])) = none :=
      hfound _ (by rcases hq with (rfl | rfl) | rfl <;> simp)
    have hsome : (afterStart? (String.ofList [q]) (trim text)).bind
        (beforeEnd? (String.ofList [q])) = some (String.ofList inner) :=
      between?_eq_some_iff.mpr (by simpa using heq)
    cases hnone.symm.trans hsome

theorem Unquotes.unique {text value other : String} (h : Unquotes text value)
    (hother : Unquotes text other) : value = other := by
  cases h with
  | literal hq heq =>
    cases hother with
    | literal _ hother =>
      obtain ⟨rfl, hrest⟩ := List.cons.inj (heq.symm.trans hother)
      exact String.toList_inj.mp (List.append_cancel_right hrest)
    | plain hplain => exact absurd heq (hplain _ _ hq)
  | plain hplain =>
    cases hother with
    | literal hq heq => exact absurd heq (hplain _ _ hq)
    | plain _ => rfl

theorem unquote_eq_iff {text value : String} : unquote text = value ↔ Unquotes text value :=
  ⟨fun h => h ▸ unquotes_unquote text, (unquotes_unquote text).unique⟩

theorem unquote_trim (text : String) : unquote (trim text) = unquote text := by
  have htrim : trim (trim text) = trim text := by
    rw [trim, trim, String.toList_ofList, Chars.trim_trim]
  rw [unquote, htrim, unquote]

end Text

namespace Argument

open Text (isBlank)

/-! ## Named arguments -/

/-- A dollar sign may begin a name, a digit may not. -/
def IsName : List Char → Prop
  | [] => False
  | c :: cs => (inName c = true ∨ c = '$') ∧ Text.isAsciiDigit c = false ∧
      ∀ d ∈ cs, inName d = true

/-- An equals sign or colon, and `rest` after it. -/
inductive Assigns : List Char → List Char → Prop
  | equals {rest : List Char} : rest.head? ≠ some '=' → rest.head? ≠ some '>' →
      Assigns ('=' :: rest) rest
  | colon {rest : List Char} : rest.head? ≠ some ':' → Assigns (':' :: rest) rest

theorem assigned?_eq_some_iff {cs rest : List Char} :
    assigned? cs = some rest ↔ Assigns cs rest := by
  constructor
  · intro h
    unfold assigned? at h
    split at h
    · cases h
    · cases h
    · cases h
    · next value hequals harrow =>
      obtain rfl := Option.some.inj h
      refine .equals (fun hhead => ?_) fun hhead => ?_
      · obtain ⟨tail, rfl⟩ := List.head?_eq_some_iff.mp hhead
        exact hequals tail rfl
      · obtain ⟨tail, rfl⟩ := List.head?_eq_some_iff.mp hhead
        exact harrow tail rfl
    · next value hcolon =>
      obtain rfl := Option.some.inj h
      refine .colon fun hhead => ?_
      obtain ⟨tail, rfl⟩ := List.head?_eq_some_iff.mp hhead
      exact hcolon tail rfl
    · cases h
  · intro h
    cases h with
    | equals hequals harrow => cases rest <;> simp_all [assigned?]
    | colon hcolon => cases rest <;> simp_all [assigned?]

/-- The code points of the blanks. -/
def blankCodes : List Nat :=
  [9, 10, 11, 12, 13, 0x20, 0x85, 0xa0, 0x1680, 0x2000, 0x2001, 0x2002, 0x2003, 0x2004, 0x2005,
    0x2006, 0x2007, 0x2008, 0x2009, 0x200a, 0x2028, 0x2029, 0x202f, 0x205f, 0x3000]

theorem toNat_mem_blankCodes {c : Char} (h : isBlank c = true) : c.toNat ∈ blankCodes := by
  simp only [isBlank, Bool.or_eq_true, Bool.and_eq_true, decide_eq_true_eq, beq_iff_eq] at h
  simp only [blankCodes, List.mem_cons, List.not_mem_nil, or_false]
  omega

/-- No blank is part of a name. -/
theorem inName_of_isBlank {c : Char} (h : isBlank c = true) : inName c = false := by
  have hnone : (blankCodes.all fun n => !inName (Char.ofNat n)) = true := by decide +kernel
  have hc := List.all_eq_true.mp hnone _ (toNat_mem_blankCodes h)
  rwa [Char.ofNat_toNat, Bool.not_eq_true'] at hc

/-- The longest name at the front ends where a character is none of a name. -/
theorem leadingName_append {name rest : List Char} (hname : IsName name)
    (hrest : ∀ c ∈ rest.head?, inName c = false) : leadingName (name ++ rest) = name := by
  cases name with
  | nil => exact hname.elim
  | cons c cs =>
    obtain ⟨hfirst, _, hcs⟩ := hname
    have hstop : rest.takeWhile inName = [] := by
      cases rest with
      | nil => rfl
      | cons d rest => exact List.takeWhile_cons_of_neg (by simp [hrest d rfl])
    have htake : (cs ++ rest).takeWhile inName = cs := by
      rw [List.takeWhile_append_of_pos hcs, hstop, List.append_nil]
    rw [List.cons_append, leadingName, if_pos (by simpa using hfirst), htake]

theorem leadingName_cons {cs name : List Char} {c : Char} (h : leadingName cs = c :: name) :
    ∃ rest, cs = c :: name ++ rest ∧ (inName c = true ∨ c = '$') ∧ ∀ d ∈ name, inName d = true := by
  cases cs with
  | nil => cases h
  | cons d ds =>
    rw [leadingName] at h
    split at h
    · next hfirst =>
      obtain ⟨rfl, rfl⟩ := List.cons.inj h
      refine ⟨ds.dropWhile inName, ?_, by simpa using hfirst, fun e he => ?_⟩
      · exact congrArg (d :: ·) List.takeWhile_append_dropWhile.symm
      · exact List.mem_takeWhile_imp (p := inName) he
    · cases h

/-- The argument gives a name the value: after the name and blanks comes an equals sign or colon,
and then the value. Blanks at the ends do not count. -/
def IsNamed (text name value : String) : Prop :=
  ∃ gap mark rest, (Text.trim text).toList = name.toList ++ gap ++ mark ∧ IsName name.toList ∧
    (∀ c ∈ gap, isBlank c = true) ∧ Assigns mark rest ∧ value = Text.trim (String.ofList rest)

theorem Assigns.startsSolid {cs rest : List Char} (h : Assigns cs rest) : Chars.StartsSolid cs := by
  cases h with
  | equals _ _ => exact Chars.startsSolid_cons (by decide) _
  | colon _ => exact Chars.startsSolid_cons (by decide) _

/-- A name ends before the blanks and the mark. -/
theorem Assigns.inName_head? {mark rest gap : List Char} (h : Assigns mark rest)
    (hgap : ∀ c ∈ gap, isBlank c = true) : ∀ c ∈ (gap ++ mark).head?, inName c = false := by
  cases gap with
  | nil =>
    cases h with
    | equals _ _ => simp [show inName '=' = false by decide]
    | colon _ => simp [show inName ':' = false by decide]
  | cons d gap => simpa using inName_of_isBlank (hgap d List.mem_cons_self)

theorem named?_trim_eq_some_iff {text name value : String} :
    named? (Text.trim text) = some (name, value) ↔ IsNamed text name value := by
  rw [named?]
  constructor
  · intro h
    cases hname : leadingName (Text.trim text).toList with
    | nil => simp [hname] at h
    | cons c cs =>
      obtain ⟨rest, htext, hfirst, hcs⟩ := leadingName_cons hname
      simp only [hname] at h
      split at h
      · cases h
      · next hdigit =>
        rw [htext, List.drop_left, Option.map_eq_some_iff] at h
        obtain ⟨tail, hassigned, heq⟩ := h
        obtain ⟨rfl, rfl⟩ := Prod.mk.inj heq
        refine ⟨rest.takeWhile isBlank, rest.dropWhile isBlank, tail, ?_, ?_, ?_, ?_, rfl⟩
        · rw [htext, String.toList_ofList, List.append_assoc, List.takeWhile_append_dropWhile]
        · rw [String.toList_ofList]
          exact ⟨hfirst, by simpa using hdigit, hcs⟩
        · exact fun c hc => List.mem_takeWhile_imp hc
        · exact assigned?_eq_some_iff.mp hassigned
  · rintro ⟨gap, mark, rest, htext, hname, hgap, hassigns, rfl⟩
    rw [List.append_assoc] at htext
    have hleading : leadingName (Text.trim text).toList = name.toList := by
      rw [htext, leadingName_append hname (hassigns.inName_head? hgap)]
    have hmark : (gap ++ mark).dropWhile isBlank = mark := by
      rw [List.dropWhile_append_of_pos hgap, hassigns.startsSolid.dropWhile_eq]
    simp only [hleading]
    cases hcs : name.toList with
    | nil => rw [hcs] at hname; exact hname.elim
    | cons c cs =>
      rw [hcs] at hname htext
      simp only [hname.2.1, htext, List.drop_left, hmark, assigned?_eq_some_iff.mpr hassigns]
      simp [← hcs]

theorem IsNamed.unique {text name value name' value' : String} (h : IsNamed text name value)
    (h' : IsNamed text name' value') : name = name' ∧ value = value' := by
  rw [← named?_trim_eq_some_iff] at h h'
  exact Prod.mk.inj (Option.some.inj (h.symm.trans h'))

/-- The argument is not of named form. -/
def IsPositional (text : String) : Prop := ∀ name value, ¬ IsNamed text name value

theorem named?_trim_eq_none_iff {text : String} :
    named? (Text.trim text) = none ↔ IsPositional text := by
  simp only [Option.eq_none_iff_forall_ne_some, IsPositional, ← named?_trim_eq_some_iff]
  exact ⟨fun h name value => h (name, value), fun h e => h e.1 e.2⟩

instance (text : String) : Decidable (IsPositional text) :=
  decidable_of_iff _ named?_trim_eq_none_iff

/-- A number is no name. -/
theorem IsNamed.ne_toString {text name value : String} (h : IsNamed text name value) (n : Nat) :
    name ≠ toString n := by
  rintro rfl
  obtain ⟨_, _, _, _, hname, _⟩ := h
  rw [Nat.toString_eq_repr, Nat.toList_repr] at hname
  cases hdigits : Nat.toDigits 10 n with
  | nil => exact absurd hdigits Nat.toDigits_ne_nil
  | cons c cs =>
    have hdigit : c.isDigit = true :=
      Nat.isDigit_of_mem_toDigits (by decide) (Nat.le_refl 10) (hdigits ▸ List.mem_cons_self)
    rw [hdigits] at hname
    have hnot := hname.2.1
    rw [Char.isDigit_iff_toNat] at hdigit
    simp only [Text.isAsciiDigit, Bool.and_eq_false_iff, decide_eq_false_iff_not] at hnot
    have hzero : '0'.toNat = 0x30 := rfl
    have hnine : '9'.toNat = 0x39 := rfl
    omega

theorem toString_inj {m n : Nat} (h : toString m = toString n) : m = n := by
  rw [Nat.toString_eq_repr, Nat.toString_eq_repr, ← String.toList_inj, Nat.toList_repr,
    Nat.toList_repr] at h
  simpa using congrArg (fun digits => Nat.ofDigitChars 10 digits 0) h

/-! ## Lists of arguments -/

/-- The argument is not blank, and the scan finds no comma in it and ends outside brackets and
quotes. -/
structure Closed (text : String) : Prop where
  solid : Text.isBlankText text = false
  uncut : Text.splitTop ',' false text = [text]
  top : (Nesting.scan false {} text.toList).isTop = true

instance (text : String) : Decidable (Closed text) :=
  decidable_of_iff (Text.isBlankText text = false ∧ Text.splitTop ',' false text = [text] ∧
    (Nesting.scan false {} text.toList).isTop = true)
    ⟨fun h => ⟨h.1, h.2.1, h.2.2⟩, fun h => ⟨h.solid, h.uncut, h.top⟩⟩

/-- The arguments between parentheses, with commas between them. -/
def joined (args : List String) : String := "(" ++ ",".intercalate args ++ ")"

theorem splitTop_intercalate_of_closed {args : List String} (hargs : ∀ a ∈ args, Closed a)
    (hne : args ≠ []) : Text.splitTop ',' false (",".intercalate args) = args := by
  have hsplit : Chars.splitTop ',' false ([','].intercalate (args.map String.toList)) =
      args.map String.toList := by
    refine (Chars.splitTop_intercalate_iff (by simpa using hne)).mpr ⟨?_, ?_⟩
    · intro p hp
      obtain ⟨a, ha, rfl⟩ := List.mem_map.mp hp
      obtain ⟨piece, hpieces, rfl⟩ := List.map_eq_singleton_iff.mp (hargs a ha).uncut
      rwa [String.toList_ofList] at hpieces ⊢
    · intro p hp
      obtain ⟨a, ha, rfl⟩ := List.mem_map.mp ((List.dropLast_sublist _).mem hp)
      exact (hargs a ha).top
  rw [Text.splitTop, String.toList_intercalate]
  exact (congrArg (List.map String.ofList) hsplit).trans (by simp [Function.comp_def])

theorem toList_joined (args : List String) :
    (joined args).toList = '(' :: [','].intercalate (args.map String.toList) ++ [')'] := by
  simp [joined]

theorem trim_joined (args : List String) : Text.trim (joined args) = joined args := by
  rw [← String.toList_inj, Text.trim, String.toList_ofList, toList_joined]
  refine Chars.trim_eq_self ?_ ?_
  · rw [List.cons_append, List.head?_cons]
    rintro _ ⟨⟩
    decide
  · rw [List.getLast?_concat]
    rintro _ ⟨⟩
    decide

/-- Each argument is read by itself. -/
theorem list_joined {args : List String} (hargs : ∀ a ∈ args, Closed a) :
    list (joined args) = args.map fun a => ofText (Text.trim a) := by
  have hinner : (Text.afterStart? "(" (joined args)).bind (Text.beforeEnd? ")") =
      some (",".intercalate args) := Text.between?_eq_some_iff.mpr (by simp [joined])
  rw [list]
  simp only [trim_joined, hinner, Option.getD_some]
  cases args with
  | nil =>
    have hblank : Text.trim "" = "" := by decide
    simp [Text.splitTop, Chars.splitTop, Chars.splitTopFrom, hblank]
  | cons a args =>
    have hsolid : ∀ s ∈ (a :: args).map Text.trim, (!s.isEmpty) = true := by
      intro s hs
      obtain ⟨b, hb, rfl⟩ := List.mem_map.mp hs
      rw [Text.isEmpty_trim, (hargs b hb).solid, Bool.not_false]
    rw [splitTop_intercalate_of_closed hargs (List.cons_ne_nil a args),
      List.filter_eq_self.mpr hsolid]
    simp only [List.map_map, Function.comp_def]

/-! ## Places and names -/

/-- The argument after `before` is a positional one, at a place that is counted from `next`. -/
def AtPlace (next : Nat) (args : List String) (key value : String) : Prop :=
  ∃ before a after, args = before ++ a :: after ∧ IsPositional a ∧
    key = toString (next + before.countP fun b => IsPositional b) ∧ Text.Unquotes a value

/-- The last argument that is named `key` has the value. -/
def LastNamed (args : List String) (key value : String) : Prop :=
  ∃ before a after text, args = before ++ a :: after ∧ IsNamed a key text ∧
    Text.Unquotes text value ∧ ∀ later ∈ after, ∀ other, ¬ IsNamed later key other

section Places

variable {next : Nat} {a : String} {args : List String} {key value : String}

/-- A positional argument moves the places after it up by one. -/
theorem place_cons (next : Nat) (a : String) (before : List String) :
    next + (a :: before).countP (fun b => IsPositional b) =
      (next + if IsPositional a then 1 else 0) + before.countP fun b => IsPositional b := by
  rw [List.countP_cons]
  simp only [decide_eq_true_eq]
  omega

theorem atPlace_cons : AtPlace next (a :: args) key value ↔
    (IsPositional a ∧ key = toString next ∧ Text.Unquotes a value) ∨
      AtPlace (next + if IsPositional a then 1 else 0) args key value := by
  constructor
  · rintro ⟨before, b, after, hargs, hpositional, hkey, hvalue⟩
    cases before with
    | nil =>
      obtain ⟨rfl, rfl⟩ := List.cons.inj hargs
      exact Or.inl ⟨hpositional, hkey, hvalue⟩
    | cons c before =>
      obtain ⟨rfl, rfl⟩ := List.cons.inj hargs
      exact Or.inr ⟨before, b, after, rfl, hpositional,
        hkey.trans (congrArg toString (place_cons next a before)), hvalue⟩
  · rintro (⟨hpositional, hkey, hvalue⟩ | ⟨before, b, after, rfl, hpositional, hkey, hvalue⟩)
    · exact ⟨[], a, args, rfl, hpositional, hkey, hvalue⟩
    · exact ⟨a :: before, b, after, rfl, hpositional,
        hkey.trans (congrArg toString (place_cons next a before)).symm, hvalue⟩

theorem lastNamed_cons : LastNamed (a :: args) key value ↔ LastNamed args key value ∨
    (∃ text, IsNamed a key text ∧ Text.Unquotes text value) ∧
      ∀ later ∈ args, ∀ other, ¬ IsNamed later key other := by
  constructor
  · rintro ⟨before, b, after, text, hargs, hnamed, hvalue, hafter⟩
    cases before with
    | nil =>
      obtain ⟨rfl, rfl⟩ := List.cons.inj hargs
      exact Or.inr ⟨⟨text, hnamed, hvalue⟩, hafter⟩
    | cons c before =>
      obtain ⟨rfl, rfl⟩ := List.cons.inj hargs
      exact Or.inl ⟨before, b, after, text, rfl, hnamed, hvalue, hafter⟩
  · rintro (⟨before, b, after, text, rfl, hnamed, hvalue, hafter⟩ | ⟨⟨text, hnamed, hvalue⟩, hargs⟩)
    · exact ⟨a :: before, b, after, text, rfl, hnamed, hvalue, hafter⟩
    · exact ⟨[], a, args, text, rfl, hnamed, hvalue, hargs⟩

theorem ofText_of_isNamed {text : String} (h : IsNamed a key text) :
    ofText (Text.trim a) = named key (Text.unquote text) := by
  rw [ofText, named?_trim_eq_some_iff.mpr h]

theorem ofText_of_isPositional (h : IsPositional a) :
    ofText (Text.trim a) = positional (Text.unquote a) := by
  rw [ofText, named?_trim_eq_none_iff.mpr h, Text.unquote_trim]

/-- An argument is a positional one or gives a value to a name. -/
theorem isPositional_or_isNamed (a : String) :
    IsPositional a ∨ ∃ name text, IsNamed a name text ∧ ¬ IsPositional a := by
  by_cases h : IsPositional a
  · exact Or.inl h
  · simp only [IsPositional, not_forall, not_not] at h
    obtain ⟨name, text, hnamed⟩ := h
    exact Or.inr ⟨name, text, hnamed, fun hpositional => hpositional name text hnamed⟩

/-- The entries of a list of arguments. -/
def entriesOf (next : Nat) (args : List String) : List (String × String) :=
  entriesFrom next (args.map fun a => ofText (Text.trim a))

theorem entriesOf_cons_of_isNamed {text : String} (h : IsNamed a key text) :
    entriesOf next (a :: args) = (key, Text.unquote text) :: entriesOf next args := by
  rw [entriesOf, List.map_cons, ofText_of_isNamed h, entriesFrom, entriesOf]

theorem entriesOf_cons_of_isPositional (h : IsPositional a) :
    entriesOf next (a :: args) =
      (toString next, Text.unquote a) :: entriesOf (next + 1) args := by
  rw [entriesOf, List.map_cons, ofText_of_isPositional h, entriesFrom, entriesOf]

/-- Every key is a place or a name. -/
theorem key_of_mem_entriesOf {e : String × String} (h : e ∈ entriesOf next args) :
    (∃ n, next ≤ n ∧ e.1 = toString n) ∨ ∃ a ∈ args, ∃ text, IsNamed a e.1 text := by
  induction args generalizing next with
  | nil => cases h
  | cons a args ih =>
    rcases isPositional_or_isNamed a with hpositional | ⟨name, text, hnamed, -⟩
    · rw [entriesOf_cons_of_isPositional hpositional] at h
      rcases List.mem_cons.mp h with rfl | h
      · exact Or.inl ⟨next, Nat.le_refl next, rfl⟩
      · rcases ih h with ⟨n, hn, hkey⟩ | ⟨b, hb, text, hnamed⟩
        · exact Or.inl ⟨n, by omega, hkey⟩
        · exact Or.inr ⟨b, List.mem_cons_of_mem a hb, text, hnamed⟩
    · rw [entriesOf_cons_of_isNamed hnamed] at h
      rcases List.mem_cons.mp h with rfl | h
      · exact Or.inr ⟨a, List.mem_cons_self, text, hnamed⟩
      · rcases ih h with hplace | ⟨b, hb, text, hnamed⟩
        · exact Or.inl hplace
        · exact Or.inr ⟨b, List.mem_cons_of_mem a hb, text, hnamed⟩

/-- Every named argument has an entry. -/
theorem mem_entriesOf_of_isNamed {text : String} (ha : a ∈ args) (h : IsNamed a key text) :
    (key, Text.unquote text) ∈ entriesOf next args := by
  induction args generalizing next with
  | nil => cases ha
  | cons b args ih =>
    rcases List.mem_cons.mp ha with rfl | ha
    · rw [entriesOf_cons_of_isNamed h]
      exact List.mem_cons_self
    · rcases isPositional_or_isNamed b with hpositional | ⟨_, _, hnamed, -⟩
      · rw [entriesOf_cons_of_isPositional hpositional]
        exact List.mem_cons_of_mem _ (ih ha)
      · rw [entriesOf_cons_of_isNamed hnamed]
        exact List.mem_cons_of_mem _ (ih ha)

/-- No entry has the name as its key exactly if no argument is named so. -/
theorem IsNamed.forall_key_ne_iff {text : String} (h : IsNamed a key text) (next : Nat)
    (args : List String) : (∀ e ∈ entriesOf next args, e.1 ≠ key) ↔
      ∀ later ∈ args, ∀ other, ¬ IsNamed later key other := by
  constructor
  · intro hkeys later hlater other hother
    exact hkeys _ (mem_entriesOf_of_isNamed hlater hother) rfl
  · rintro hlater e he rfl
    rcases key_of_mem_entriesOf he with ⟨n, _, hplace⟩ | ⟨b, hb, other, hother⟩
    · exact h.ne_toString n hplace
    · exact hlater b hb other hother

/-- The last entries are those of the places and of the last uses of names. -/
theorem lastEntry_entriesOf_iff : LastEntry (entriesOf next args) key value ↔
    AtPlace next args key value ∨ LastNamed args key value := by
  induction args generalizing next with
  | nil => simp [entriesOf, entriesFrom, not_lastEntry_nil, AtPlace, LastNamed]
  | cons a args ih =>
    rcases isPositional_or_isNamed a with hpositional | ⟨name, text, hnamed, hnot⟩
    · -- No later place is the same number, and no name is a number.
      have hlater : ∀ e ∈ entriesOf (next + 1) args, e.1 ≠ toString next := by
        intro e he heq
        rcases key_of_mem_entriesOf he with ⟨n, hn, hkey⟩ | ⟨b, _, text, hnamed⟩
        · have hsame := toString_inj (heq.symm.trans hkey)
          omega
        · exact hnamed.ne_toString next heq
      rw [entriesOf_cons_of_isPositional hpositional, lastEntry_cons, ih, atPlace_cons,
        lastNamed_cons, if_pos hpositional]
      constructor
      · rintro ((hplace | hlast) | ⟨heq, -⟩)
        · exact Or.inl (Or.inr hplace)
        · exact Or.inr (Or.inl hlast)
        · obtain ⟨rfl, rfl⟩ := Prod.mk.inj heq
          exact Or.inl (Or.inl ⟨hpositional, rfl, Text.unquotes_unquote a⟩)
      · rintro ((⟨-, rfl, hvalue⟩ | hplace) | (hlast | ⟨⟨text, hnamed, -⟩, -⟩))
        · rw [Text.unquote_eq_iff.mpr hvalue]
          exact Or.inr ⟨rfl, hlater⟩
        · exact Or.inl (Or.inl hplace)
        · exact Or.inl (Or.inr hlast)
        · exact absurd hnamed (hpositional key text)
    · rw [entriesOf_cons_of_isNamed hnamed, lastEntry_cons, ih, atPlace_cons, lastNamed_cons,
        if_neg hnot, Nat.add_zero]
      constructor
      · rintro ((hplace | hlast) | ⟨heq, hkeys⟩)
        · exact Or.inl (Or.inr hplace)
        · exact Or.inr (Or.inl hlast)
        · obtain ⟨rfl, rfl⟩ := Prod.mk.inj heq
          exact Or.inr (Or.inr ⟨⟨text, hnamed, Text.unquotes_unquote text⟩,
            (hnamed.forall_key_ne_iff next args).mp hkeys⟩)
      · rintro ((⟨hpositional, -⟩ | hplace) | (hlast | ⟨⟨text', hnamed', hvalue⟩, hlater⟩))
        · exact absurd hpositional hnot
        · exact Or.inl (Or.inl hplace)
        · exact Or.inl (Or.inr hlast)
        · obtain ⟨rfl, rfl⟩ := hnamed.unique hnamed'
          rw [Text.unquote_eq_iff.mpr hvalue]
          exact Or.inr ⟨rfl, (hnamed.forall_key_ne_iff next args).mpr hlater⟩

end Places

theorem dictionary_of_single {text key value : String} (h : list text = [positional value]) :
    dictionary text (some key) = Dictionary.ofList [(key, value)] := by
  unfold dictionary
  split
  · next other hkey hlist =>
    obtain rfl := Option.some.inj hkey
    rw [h] at hlist
    cases hlist
    rfl
  · next hnot => exact absurd h (hnot key value rfl)

theorem dictionary_of_entries {text : String} {single : Option String}
    (h : ∀ key value, single = some key → list text ≠ [positional value]) :
    dictionary text single = Dictionary.ofList (entriesFrom 0 (list text)) := by
  unfold dictionary
  split
  · next key value hlist => exact absurd hlist (h key value rfl)
  · rfl

/-- A list of one positional argument is read as such only if it is one. -/
theorem list_joined_eq_singleton_iff {args : List String} (hargs : ∀ a ∈ args, Closed a)
    {value : String} : list (joined args) = [positional value] ↔
      ∃ a, args = [a] ∧ IsPositional a ∧ Text.Unquotes a value := by
  rw [list_joined hargs, List.map_eq_singleton_iff]
  refine exists_congr fun a => and_congr_right fun _ => ?_
  rcases isPositional_or_isNamed a with hpositional | ⟨name, text, hnamed, hnot⟩
  · simp [ofText_of_isPositional hpositional, hpositional, Text.unquote_eq_iff]
  · simp [ofText_of_isNamed hnamed, hnot]

/-- **Arguments.** Joined in parentheses, closed arguments give a dictionary that has the text of
each positional one under its place among them, the last value under each name, and nothing else. No
name is a place. A single positional argument goes by the name that is given for it, if one is. -/
theorem arguments_keyed_by_place_or_name {args : List String} (hargs : ∀ a ∈ args, Closed a)
    (single : Option String) :
    (∀ a ∈ args, ∀ name text, IsNamed a name text → ∀ n : Nat, name ≠ toString n) ∧
    ((single = none ∨ ¬ ∃ a, args = [a] ∧ IsPositional a) → ∀ key value,
      (key, value) ∈ (dictionary (joined args) single).entries ↔
        AtPlace 0 args key value ∨ LastNamed args key value) ∧
    ∀ key a, single = some key → args = [a] → IsPositional a →
      ∃ value, Text.Unquotes a value ∧
        (dictionary (joined args) single).entries = [(key, value)] := by
  refine ⟨fun a _ name text h n => h.ne_toString n, fun h key value => ?_, ?_⟩
  · have hentries : dictionary (joined args) single = Dictionary.ofList (entriesOf 0 args) := by
      rw [dictionary_of_entries, list_joined hargs, entriesOf]
      intro key value hsingle hlist
      obtain ⟨a, ha, hpositional, _⟩ := (list_joined_eq_singleton_iff hargs).mp hlist
      exact h.elim (by simp [hsingle]) fun hnot => hnot ⟨a, ha, hpositional⟩
    rw [hentries, Dictionary.mem_entries_iff, Dictionary.get?_ofList_eq_some_iff,
      lastEntry_entriesOf_iff]
  · intro key a hsingle ha hpositional
    have hvalue := Text.unquotes_unquote a
    have hlist := (list_joined_eq_singleton_iff hargs).mpr ⟨a, ha, hpositional, hvalue⟩
    refine ⟨Text.unquote a, hvalue, ?_⟩
    rw [hsingle, dictionary_of_single hlist, Dictionary.entries_ofList_singleton]

/-- A literal with a comma in it, a name that is used twice, a call and an operator. -/
def mixedArguments : List String := ["'x, y'", " b = \"v\"", "f(a, c)", "b: 1", "d == e"]

theorem lastNamed_mixedArguments : LastNamed mixedArguments "b" "1" := by
  refine ⟨["'x, y'", " b = \"v\"", "f(a, c)"], "b: 1", ["d == e"], "1", rfl, ?_, ?_, ?_⟩
  · exact named?_trim_eq_some_iff.mp (by decide +kernel)
  · exact Text.unquote_eq_iff.mp (by decide +kernel)
  · have hlast : IsPositional "d == e" := by decide +kernel
    intro later hlater other
    obtain rfl := List.mem_singleton.mp hlater
    exact hlast "b" other

theorem atPlace_mixedArguments : AtPlace 0 mixedArguments "2" "d == e" := by
  refine ⟨["'x, y'", " b = \"v\"", "f(a, c)", "b: 1"], "d == e", [], rfl, ?_, ?_, ?_⟩
  · decide +kernel
  · decide +kernel
  · exact Text.unquote_eq_iff.mp (by decide +kernel)

theorem arguments_mixedArguments :
    (∀ a ∈ mixedArguments, Closed a) ∧
    ("2", "d == e") ∈ (dictionary (joined mixedArguments) (some "value")).entries ∧
    ("b", "1") ∈ (dictionary (joined mixedArguments) (some "value")).entries ∧
    (∀ a ∈ ["'/api'"], Closed a) ∧ IsPositional "'/api'" ∧
    ∃ value, Text.Unquotes "'/api'" value ∧
      (dictionary (joined ["'/api'"]) (some "value")).entries = [("value", value)] := by
  have hmixed : ∀ a ∈ mixedArguments, Closed a := by decide +kernel
  have hone : ∀ a ∈ ["'/api'"], Closed a := by decide +kernel
  have hpositional : IsPositional "'/api'" := by decide +kernel
  have hmany : ¬ ∃ a, mixedArguments = [a] ∧ IsPositional a := by simp [mixedArguments]
  obtain ⟨_, hentries, _⟩ := arguments_keyed_by_place_or_name hmixed (some "value")
  obtain ⟨_, _, hsingle⟩ := arguments_keyed_by_place_or_name hone (some "value")
  exact ⟨hmixed, (hentries (Or.inr hmany) _ _).mpr (Or.inl atPlace_mixedArguments),
    (hentries (Or.inr hmany) _ _).mpr (Or.inr lastNamed_mixedArguments), hone, hpositional,
    hsingle "value" _ rfl rfl hpositional⟩

end Argument

end CodeOutline
