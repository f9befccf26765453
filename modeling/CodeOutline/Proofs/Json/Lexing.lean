import CodeOutline.Json.Lexer
import CodeOutline.Json.Writer
import Mathlib.Data.List.Basic

/-!
# Reading the tokens that were written

A written value is a list of pieces. Taking its text apart gives the tokens among the pieces back:
strings are unescaped to the text they were escaped from, numbers end where they ended, and blank
space is passed over.

`Lexed` says how a text falls into tokens without counting its characters. `Reads` says of a list of
pieces that its tokens come back whatever text follows, as long as that text cannot be taken for the
rest of a number. It is closed under the ways in which the writer puts pieces together.
-/

namespace CodeOutline.Json

/-! ## Strings -/

theorem hexFour?_of_control : ∀ n < 0x20,
    hexFour? '0' '0' (hexDigit (n / 16)) (hexDigit (n % 16)) = some n := by
  decide

/-- One escaped character is read as that character. -/
theorem stringFrom_escape (done : List Nat) (c : Char) (rest : List Char) :
    stringFrom done (escape c ++ rest) = stringFrom (c.toNat :: done) rest := by
  unfold escape
  split
  · next h => subst h; rfl
  split
  · next h => subst h; rfl
  split
  · next hquote hslash hprint =>
    rw [List.singleton_append, stringFrom]
    · rw [if_neg (by omega)]
    · exact hquote
    · intro _ _ _ _ _ h
      exact absurd h hslash
    · intro _ _ h
      exact absurd h hslash
  split
  · next h => rw [h]; rfl
  split
  · next h => subst h; rfl
  split
  · next h => subst h; rfl
  split
  · next h => rw [h]; rfl
  split
  · next h => subst h; rfl
  · next hprint _ _ _ _ _ =>
    have hcontrol := hexFour?_of_control c.toNat (by omega)
    simp only [List.cons_append, List.nil_append, stringFrom, hcontrol]

theorem stringFrom_flatMap_escape (done : List Nat) (cs rest : List Char) :
    stringFrom done (cs.flatMap escape ++ '"' :: rest) =
      some (done.reverse ++ cs.map Char.toNat, rest) := by
  induction cs generalizing done with
  | nil => simp [stringFrom]
  | cons c cs ih =>
    rw [List.flatMap_cons, List.append_assoc, stringFrom_escape, ih]
    simp

/-- The code points of characters make these characters, as none is a surrogate. -/
theorem ofCodePoints?_map_toNat (done cs : List Char) :
    ofCodePoints? done (cs.map Char.toNat) = some (done.reverse ++ cs) := by
  induction cs generalizing done with
  | nil => simp [ofCodePoints?]
  | cons c cs ih =>
    have hvalid : c.toNat < 0xd800 ∨ 0xdfff < c.toNat := by
      rcases c.valid with h | h
      · exact Or.inl h
      · exact Or.inr h.1
    cases cs with
    | nil =>
      have hsurrogate : ¬(0xd800 ≤ c.toNat ∧ c.toNat < 0xe000) := by omega
      simp [ofCodePoints?, hsurrogate, Char.ofNat_toNat]
    | cons d ds =>
      have hhigh : ¬(0xd800 ≤ c.toNat ∧ c.toNat < 0xdc00) := by omega
      have hlow : ¬(0xdc00 ≤ c.toNat ∧ c.toNat < 0xe000) := by omega
      have hrest := ih (c :: done)
      rw [List.map_cons] at hrest
      rw [List.map_cons, List.map_cons, ofCodePoints?, if_neg hhigh, if_neg hlow,
        Char.ofNat_toNat, hrest]
      simp

theorem token?_quote (s : String) (rest : List Char) :
    token? ((quote s).toList ++ rest) = some (.string (some s), rest) := by
  have htext : (quote s).toList ++ rest = '"' :: (s.toList.flatMap escape ++ '"' :: rest) := by
    simp [quote]
  rw [htext, token?, stringFrom_flatMap_escape]
  simp [ofCodePoints?_map_toNat]

/-! ## Numbers -/

/-- The text does not begin with a character that can go on a number. -/
def EndsNumber (cs : List Char) : Prop :=
  ∀ c ∈ cs.head?, isDigit c = false ∧ c ≠ '.' ∧ c ≠ 'e' ∧ c ≠ 'E'

theorem endsNumber_nil : EndsNumber [] := by simp [EndsNumber]

theorem endsNumber_cons {c : Char} (cs : List Char) (h : isDigit c = false)
    (hc : c ≠ '.' ∧ c ≠ 'e' ∧ c ≠ 'E') : EndsNumber (c :: cs) := by
  simp [EndsNumber, h, hc]

theorem isDigit_of_mem_toDigits {n : Nat} {c : Char} (h : c ∈ Nat.toDigits 10 n) :
    isDigit c = true :=
  Nat.isDigit_of_mem_toDigits (by decide) (by decide) h

/-- A number other than zero is not written with a zero in front. -/
theorem head?_toDigits {n : Nat} (h : n ≠ 0) : (Nat.toDigits 10 n).head? ≠ some '0' := by
  induction n using Nat.strongRecOn with
  | ind n ih =>
    rw [Nat.toDigits_eq_if (by decide)]
    split
    · simpa using h
    · have hhead := ih (n / 10) (by omega) (by omega)
      cases hds : Nat.toDigits 10 (n / 10) with
      | nil => exact absurd hds Nat.toDigits_ne_nil
      | cons d ds => rwa [hds] at hhead

theorem takeWhile_isDigit_append {ds rest : List Char} (hd : ∀ c ∈ ds, isDigit c = true)
    (h : EndsNumber rest) : (ds ++ rest).takeWhile isDigit = ds ∧
      (ds ++ rest).dropWhile isDigit = rest := by
  rw [List.takeWhile_append_of_pos hd, List.dropWhile_append_of_pos hd]
  cases rest with
  | nil => simp
  | cons c rest => simp [(h c rfl).1]

theorem whole?_toDigits (n : Nat) {rest : List Char} (h : EndsNumber rest) :
    whole? (Nat.toDigits 10 n ++ rest) = some (Nat.toDigits 10 n, rest) := by
  by_cases hzero : n = 0
  · subst hzero
    rfl
  · obtain ⟨htake, hdrop⟩ := takeWhile_isDigit_append (fun c => isDigit_of_mem_toDigits) h
    have hhead := head?_toDigits hzero
    cases hds : Nat.toDigits 10 n with
    | nil => exact absurd hds Nat.toDigits_ne_nil
    | cons d ds =>
      rw [hds] at htake hdrop hhead
      have hd : d ≠ '0' := fun heq => hhead (by rw [heq]; rfl)
      rw [List.cons_append] at htake hdrop ⊢
      rw [whole?, digits?, htake, hdrop]
      intro _ heq
      exact hd (List.cons.inj heq).1

theorem fraction?_of_endsNumber {cs : List Char} (h : EndsNumber cs) :
    fraction? cs = some ([], cs) := by
  cases cs with
  | nil => rfl
  | cons c cs =>
    rw [fraction?]
    intro _ heq
    exact (h c rfl).2.1 (List.cons.inj heq).1

theorem exponent?_of_endsNumber {cs : List Char} (h : EndsNumber cs) :
    exponent? cs = some ([], cs) := by
  cases cs with
  | nil => rfl
  | cons c cs =>
    have hc : ¬(c = 'e' ∨ c = 'E') := not_or.mpr (h c rfl).2.2
    exact if_neg hc

theorem token?_of_isDigit {c : Char} (h : isDigit c = true) (cs : List Char) :
    token? (c :: cs) = (number? (c :: cs)).map fun (digits, after) =>
      (.number (String.ofList digits), after) := by
  unfold token?
  split
  iterate 10
    · next heq =>
      obtain ⟨rfl, _⟩ := List.cons.inj heq
      exact absurd h (by decide)
  · rfl

theorem number?_toDigits (n : Nat) {rest : List Char} (h : EndsNumber rest) :
    number? (Nat.toDigits 10 n ++ rest) = some (Nat.toDigits 10 n, rest) := by
  have hwhole := whole?_toDigits n h
  cases hds : Nat.toDigits 10 n with
  | nil => exact absurd hds Nat.toDigits_ne_nil
  | cons d ds =>
    have hd : d ≠ '-' := by
      rintro rfl
      exact absurd (isDigit_of_mem_toDigits (hds ▸ List.mem_cons_self)) (by decide)
    rw [hds, List.cons_append] at hwhole
    simp [number?, hd, hwhole, fraction?_of_endsNumber h, exponent?_of_endsNumber h]

theorem token?_toString (n : Nat) {rest : List Char} (h : EndsNumber rest) :
    token? ((toString n).toList ++ rest) = some (.number (toString n), rest) := by
  have hnumber := number?_toDigits n h
  rw [Nat.toString_eq_ofList_toDigits, String.toList_ofList]
  cases hds : Nat.toDigits 10 n with
  | nil => exact absurd hds Nat.toDigits_ne_nil
  | cons d ds =>
    rw [hds, List.cons_append] at hnumber
    have hd : isDigit d = true := isDigit_of_mem_toDigits (hds ▸ List.mem_cons_self)
    rw [List.cons_append, token?_of_isDigit hd, hnumber]
    rfl

/-! ## Tokens -/

/-- The text falls into the tokens, with blank space around them. -/
inductive Lexed : List Char → List Token → Prop
  | nil : Lexed [] []
  | space {c : Char} {cs : List Char} {ts : List Token} :
      isSpace c = true → Lexed cs ts → Lexed (c :: cs) ts
  | token {c : Char} (cs : List Char) {rest : List Char} {t : Token} {ts : List Token} :
      isSpace c = false → token? (c :: (cs ++ rest)) = some (t, rest) → Lexed rest ts →
      Lexed (c :: (cs ++ rest)) (t :: ts)

namespace Lexed

/-- Counting characters does not stop the lexer early. -/
theorem tokensFrom_eq {cs : List Char} {ts : List Token} (h : Lexed cs ts) (done : List Token)
    {n : Nat} (hn : cs.length ≤ n) : tokensFrom done n cs = some (done.reverse ++ ts) := by
  induction h generalizing done n with
  | nil => cases n <;> simp [tokensFrom]
  | space hspace _ ih =>
    cases n with
    | zero => simp at hn
    | succ n =>
      rw [← ih done (Nat.le_of_succ_le hn), tokensFrom, tokensFrom,
        List.dropWhile_cons_of_pos hspace]
  | token cs hspace htoken _ ih =>
    cases n with
    | zero => simp at hn
    | succ n =>
      simp only [List.length_cons, List.length_append] at hn
      rw [tokensFrom, List.dropWhile_cons_of_neg (by simp [hspace])]
      simp only [htoken]
      rw [ih _ (by omega)]
      simp

theorem tokens?_eq {s : String} {ts : List Token} (h : Lexed s.toList ts) :
    tokens? s = some ts :=
  h.tokensFrom_eq [] (Nat.le_refl _)

theorem blank {cs rest : List Char} {ts : List Token} (hcs : ∀ c ∈ cs, isSpace c = true)
    (h : Lexed rest ts) : Lexed (cs ++ rest) ts := by
  induction cs with
  | nil => exact h
  | cons c cs ih =>
    exact .space (hcs c List.mem_cons_self) (ih fun d hd => hcs d (List.mem_cons_of_mem _ hd))

end Lexed

/-- The token stands for what its spelling says, and does not hang on what follows it. -/
def Token.Stands : Token → Prop
  | .string text => text.isSome
  | .number _ => False
  | _ => True

theorem Lexed.cons {t : Token} (ht : t.Stands) {rest : List Char} {ts : List Token}
    (h : Lexed rest ts) : Lexed (t.spell.toList ++ rest) (t :: ts) := by
  cases t with
  | string text =>
    cases text with
    | none => simp [Token.Stands] at ht
    | some s =>
      have htext : (quote s).toList = '"' :: (s.toList.flatMap escape ++ ['"']) := by simp [quote]
      have htoken := token?_quote s rest
      rw [htext, List.cons_append] at htoken
      have hlexed := Lexed.token _ (by decide) htoken h
      rwa [← List.cons_append, ← htext] at hlexed
  | number digits => exact ht.elim
  | bool value =>
    cases value with
    | true => exact .token ['r', 'u', 'e'] (by decide) rfl h
    | false => exact .token ['a', 'l', 's', 'e'] (by decide) rfl h
  | null => exact .token ['u', 'l', 'l'] (by decide) rfl h
  | _ => exact .token [] (by decide) rfl h

theorem isSpace_of_isDigit {c : Char} (h : isDigit c = true) : isSpace c = false := by
  by_contra hspace
  simp only [isSpace, Bool.not_eq_false, Bool.or_eq_true, beq_iff_eq] at hspace
  rcases hspace with ((rfl | rfl) | rfl) | rfl <;> exact absurd h (by decide)

/-- No number goes on with blank space. -/
theorem endsNumber_blank_append {cs rest : List Char} (h : ∀ c ∈ cs, isSpace c = true)
    (hrest : EndsNumber rest) : EndsNumber (cs ++ rest) := by
  cases cs with
  | nil => exact hrest
  | cons c cs =>
    have hspace := h c List.mem_cons_self
    refine endsNumber_cons _ ?_ ?_
    · by_contra hdigit
      rw [isSpace_of_isDigit (by simpa using hdigit)] at hspace
      exact absurd hspace (by decide)
    · refine ⟨?_, ?_, ?_⟩ <;> rintro rfl <;> exact absurd hspace (by decide)

theorem Lexed.cons_number (n : Nat) {rest : List Char} {ts : List Token} (h : Lexed rest ts)
    (hends : EndsNumber rest) :
    Lexed ((toString n).toList ++ rest) (.number (toString n) :: ts) := by
  have htoken := token?_toString n hends
  have htext : (toString n).toList = Nat.toDigits 10 n := by
    rw [Nat.toString_eq_ofList_toDigits, String.toList_ofList]
  rw [htext] at htoken ⊢
  cases hds : Nat.toDigits 10 n with
  | nil => exact absurd hds Nat.toDigits_ne_nil
  | cons d ds =>
    have hd : isDigit d = true := isDigit_of_mem_toDigits (hds ▸ List.mem_cons_self)
    rw [hds] at htoken
    exact .token ds (isSpace_of_isDigit hd) htoken h

/-! ## Pieces -/

/-- The token that a piece is. -/
def Piece.token? : Piece → Option Token
  | .token t => some t
  | .space _ => none

/-- The text of a list of pieces. -/
def spelling (ps : List Piece) : List Char := ps.flatMap fun p => p.spell.toList

/-- The tokens in a list of pieces. -/
def tokensOf (ps : List Piece) : List Token := ps.filterMap Piece.token?

/-- There is nothing but blank space in the pieces. -/
def Blank (ps : List Piece) : Prop :=
  ∀ p ∈ ps, p.token? = none ∧ ∀ c ∈ p.spell.toList, isSpace c = true

theorem Blank.tokensOf_eq {ps : List Piece} (h : Blank ps) : tokensOf ps = [] :=
  List.filterMap_eq_nil_iff.mpr fun p hp => (h p hp).1

theorem Blank.isSpace {ps : List Piece} (h : Blank ps) : ∀ c ∈ spelling ps, isSpace c = true := by
  intro c hc
  obtain ⟨p, hp, hc⟩ := List.mem_flatMap.mp hc
  exact (h p hp).2 c hc

/-- The tokens of the pieces are read back, whatever follows that ends a number. -/
def Reads (ps : List Piece) : Prop :=
  ∀ rest ts, Lexed rest ts → EndsNumber rest → Lexed (spelling ps ++ rest) (tokensOf ps ++ ts)

/-- The text of the pieces ends a number, if what follows does. -/
def Ends (ps : List Piece) : Prop := ∀ rest, EndsNumber rest → EndsNumber (spelling ps ++ rest)

namespace Ends

theorem nil : Ends [] := fun _ h => h

theorem comma (ps : List Piece) : Ends (.token .comma :: ps) := fun _ _ =>
  endsNumber_cons _ (by decide) (by decide)

theorem closeBracket (ps : List Piece) : Ends (.token .closeBracket :: ps) := fun _ _ =>
  endsNumber_cons _ (by decide) (by decide)

theorem closeBrace (ps : List Piece) : Ends (.token .closeBrace :: ps) := fun _ _ =>
  endsNumber_cons _ (by decide) (by decide)

theorem append {ps qs : List Piece} (hp : Ends ps) (hq : Ends qs) : Ends (ps ++ qs) := by
  intro rest h
  rw [spelling, List.flatMap_append, List.append_assoc]
  exact hp _ (hq rest h)

theorem blank {ps : List Piece} (h : Blank ps) : Ends ps :=
  fun _ hrest => endsNumber_blank_append h.isSpace hrest

end Ends

namespace Reads

theorem nil : Reads [] := fun _ _ h _ => h

theorem token (t : Token) (ht : t.Stands) {ps : List Piece} (h : Reads ps) :
    Reads (.token t :: ps) := by
  intro rest ts hrest hends
  have hlexed := (h rest ts hrest hends).cons ht
  rwa [← List.append_assoc] at hlexed

theorem number (n : Nat) : Reads [.token (.number (toString n))] := by
  intro rest ts hrest hends
  have hlexed := hrest.cons_number n hends
  simpa [spelling, tokensOf, Piece.spell, Piece.token?, Token.spell] using hlexed

theorem blank_append {ps qs : List Piece} (hp : Blank ps) (hq : Reads qs) : Reads (ps ++ qs) := by
  intro rest ts hrest hends
  have hlexed := (hq rest ts hrest hends).blank hp.isSpace
  rw [spelling, tokensOf, List.flatMap_append, List.filterMap_append, List.append_assoc]
  have hnone : ps.filterMap Piece.token? = [] := hp.tokensOf_eq
  rw [hnone]
  exact hlexed

theorem append {ps qs : List Piece} (hp : Reads ps) (hq : Reads qs) (hends : Ends qs) :
    Reads (ps ++ qs) := by
  intro rest ts hrest hrestends
  have hlexed := hp _ _ (hq rest ts hrest hrestends) (hends rest hrestends)
  rw [spelling, tokensOf, List.flatMap_append, List.filterMap_append, List.append_assoc,
    List.append_assoc]
  exact hlexed

end Reads

/-! ## Values -/

/-- The layout puts nothing but blank space between tokens. -/
structure Layout.IsBlank (style : Layout) : Prop where
  newline : ∀ depth, Blank (style.newline depth)
  afterColon : Blank style.afterColon

theorem Layout.compact_isBlank : Layout.compact.IsBlank where
  newline _ := by simp [compact, Blank]
  afterColon := by simp [compact, Blank]

theorem Layout.indented_isBlank : Layout.indented.IsBlank where
  newline depth := by
    simp only [indented, Blank, List.mem_singleton]
    rintro p rfl
    refine ⟨rfl, fun c hc => ?_⟩
    simp only [Piece.spell, String.toList_ofList, List.mem_cons, List.mem_replicate] at hc
    rcases hc with rfl | ⟨_, rfl⟩ <;> decide
  afterColon := by
    simp only [indented, Blank, List.mem_singleton]
    rintro p rfl
    have hspace : (Piece.space " ").spell.toList = [' '] := rfl
    refine ⟨rfl, fun c hc => ?_⟩
    rw [hspace, List.mem_singleton] at hc
    rw [hc]
    rfl

/-- The numbers in the value are natural, and its strings and keys stand for texts. -/
inductive Plain : Json → Prop
  | null : Plain .null
  | bool (value : Bool) : Plain (.bool value)
  | nat (n : Nat) : Plain (.nat n)
  | text (s : String) : Plain (.text s)
  | array {items : List Json} : (∀ item ∈ items, Plain item) → Plain (.array items)
  | record {entries : List (String × Json)} :
      (∀ e ∈ entries, Plain e.2) → Plain (.record entries)

section Values

variable {style : Layout}

theorem ends_itemPieces (depth : Nat) (items : List Json) :
    Ends (style.itemPieces depth items) := by
  cases items with
  | nil => exact Ends.nil
  | cons item items =>
    simp only [Layout.itemPieces, List.cons_append]
    exact Ends.comma _

theorem ends_entryPieces (depth : Nat) (entries : List (Option String × Json)) :
    Ends (style.entryPieces depth entries) := by
  cases entries with
  | nil => exact Ends.nil
  | cons e entries =>
    simp only [Layout.entryPieces, List.cons_append]
    exact Ends.comma _

theorem reads_itemPieces (hstyle : style.IsBlank) (depth : Nat) {items : List Json}
    (h : ∀ item ∈ items, Reads (style.pieces depth item)) :
    Reads (style.itemPieces depth items) := by
  induction items with
  | nil => exact Reads.nil
  | cons item items ih =>
    have hrest := ih fun i hi => h i (List.mem_cons_of_mem _ hi)
    simp only [Layout.itemPieces, List.cons_append, List.append_assoc]
    refine Reads.token .comma trivial (Reads.blank_append (hstyle.newline depth) ?_)
    exact Reads.append (h item List.mem_cons_self) hrest (ends_itemPieces depth items)

theorem reads_entryPieces (hstyle : style.IsBlank) (depth : Nat) {entries : List (String × Json)}
    (h : ∀ e ∈ entries, Reads (style.pieces depth e.2)) :
    Reads (style.entryPieces depth (entries.map fun (key, value) => (some key, value))) := by
  induction entries with
  | nil => exact Reads.nil
  | cons e entries ih =>
    have hrest := ih fun i hi => h i (List.mem_cons_of_mem _ hi)
    simp only [List.map_cons, Layout.entryPieces, List.cons_append, List.append_assoc]
    refine Reads.token .comma trivial (Reads.blank_append (hstyle.newline depth) ?_)
    refine Reads.token (.string (some e.1)) rfl (Reads.token .colon trivial ?_)
    refine Reads.blank_append hstyle.afterColon ?_
    exact Reads.append (h e List.mem_cons_self) hrest (ends_entryPieces depth _)

/-- The tokens of a plain value are read back. -/
theorem Plain.reads (hstyle : style.IsBlank) {v : Json} (h : v.Plain) (depth : Nat) :
    Reads (style.pieces depth v) := by
  induction h generalizing depth with
  | null => exact Reads.token .null trivial Reads.nil
  | bool value => exact Reads.token (.bool value) trivial Reads.nil
  | nat n => exact Reads.number n
  | text s => exact Reads.token (.string (some s)) rfl Reads.nil
  | @array items _ ih =>
    cases items with
    | nil => exact Reads.token .openBracket trivial (Reads.token .closeBracket trivial Reads.nil)
    | cons item items =>
      have hclose : Reads [.token .closeBracket] := Reads.token .closeBracket trivial Reads.nil
      have hrest := reads_itemPieces hstyle (depth + 1)
        fun i hi => ih i (List.mem_cons_of_mem _ hi) (depth + 1)
      simp only [Layout.pieces, List.cons_append, List.append_assoc]
      refine Reads.token .openBracket trivial (Reads.blank_append (hstyle.newline _) ?_)
      refine Reads.append (ih item List.mem_cons_self _) (Reads.append hrest ?_ ?_) ?_
      · exact Reads.blank_append (hstyle.newline depth) hclose
      · exact (Ends.blank (hstyle.newline depth)).append (Ends.closeBracket _)
      · exact (ends_itemPieces _ items).append
          ((Ends.blank (hstyle.newline depth)).append (Ends.closeBracket _))
  | @record entries _ ih =>
    cases entries with
    | nil => exact Reads.token .openBrace trivial (Reads.token .closeBrace trivial Reads.nil)
    | cons e entries =>
      have hclose : Reads [.token .closeBrace] := Reads.token .closeBrace trivial Reads.nil
      have hrest := reads_entryPieces hstyle (depth + 1)
        fun i hi => ih i (List.mem_cons_of_mem _ hi) (depth + 1)
      simp only [Json.record, List.map_cons, Layout.pieces, List.cons_append, List.append_assoc]
      refine Reads.token .openBrace trivial (Reads.blank_append (hstyle.newline _) ?_)
      refine Reads.token (.string (some e.1)) rfl (Reads.token .colon trivial ?_)
      refine Reads.blank_append hstyle.afterColon ?_
      refine Reads.append (ih e List.mem_cons_self _) (Reads.append hrest ?_ ?_) ?_
      · exact Reads.blank_append (hstyle.newline depth) hclose
      · exact (Ends.blank (hstyle.newline depth)).append (Ends.closeBrace _)
      · exact (ends_entryPieces _ _).append
          ((Ends.blank (hstyle.newline depth)).append (Ends.closeBrace _))

/-- **Tokens.** Taking a written value apart gives the tokens it was written as, whatever blank
space follows it. -/
theorem Plain.tokens?_write_append (hstyle : style.IsBlank) {v : Json} (h : v.Plain)
    (blank : String) (hblank : ∀ c ∈ blank.toList, isSpace c = true) :
    tokens? (v.write style ++ blank) = some (tokensOf (style.pieces 0 v)) := by
  have hrest := Lexed.blank hblank .nil
  have hlexed := h.reads hstyle 0 _ [] hrest (endsNumber_blank_append hblank endsNumber_nil)
  have htext : (v.write style ++ blank).toList =
      spelling (style.pieces 0 v) ++ blank.toList := by
    rw [String.toList_append, write, String.toList_join, List.flatMap_map]
    rfl
  rw [List.append_nil, List.append_nil, ← htext] at hlexed
  exact hlexed.tokens?_eq

end Values

end CodeOutline.Json
