import CodeOutline.Dialect.Rust
import CodeOutline.Dialect.TypeScript
import CodeOutline.Proofs.Collapse
import CodeOutline.Proofs.Splitting

/-!
# Lists of parents

The parents of a class, an interface or a trait are cut out of the text of a clause. The scan that
cuts it counts every `>` as a closing bracket, also in the arrows `=>` and `->` of function types.

**Theorem (`edges_per_entry`).** A list is cut into its entries exactly if it is *separable*: no
entry is cut, and each but the last ends outside brackets and quotes. Then there is one edge for
each entry that names a parent, in order. Entries whose brackets are balanced are separable if they
hold no arrows. If an entry other than the last holds one, the list is not separable, for after it
the scan stands below the top and takes what follows for the same entry. A lifetime has the same
effect, since it opens a quote that nothing closes.

The edge of an entry that is a name with type arguments goes to the bare name exactly if the
arguments hold no arrow. An arrow closes the arguments early, and the rest of them is taken for a
part of the name. A parenthesis in the rest may hide this, for the name in a call ends there.
-/

namespace CodeOutline

open Text (isBlank)

/-! ## Arrows -/

namespace Chars

/-- Without the arrows `=>` and `->`. -/
def dropArrows : List Char → List Char
  | [] => []
  | [c] => [c]
  | c :: d :: cs =>
    if (c = '=' ∨ c = '-') ∧ d = '>' then dropArrows cs else c :: dropArrows (d :: cs)

theorem dropArrows_sublist (cs : List Char) : (dropArrows cs).Sublist cs := by
  fun_induction dropArrows cs with
  | case1 => exact List.Sublist.refl _
  | case2 c => exact List.Sublist.refl _
  | case3 c d cs harrow ih => exact (ih.cons d).cons c
  | case4 c d cs harrow ih => exact ih.cons_cons c

/-- What a character adds to the number of open brackets, of any kind. -/
def nestingWeight (c : Char) : Int :=
  if Nesting.isOpener true c then 1 else if Nesting.isCloser true c then -1 else 0

/-- What a character adds to the number of open square and angle brackets. -/
def argumentWeight (c : Char) : Int :=
  if c = '<' ∨ c = '[' then 1 else if c = '>' ∨ c = ']' then -1 else 0

/-- Brackets opened less brackets closed. -/
def balance (weight : Char → Int) : List Char → Int
  | [] => 0
  | c :: cs => weight c + balance weight cs

theorem balance_append (weight : Char → Int) (cs ds : List Char) :
    balance weight (cs ++ ds) = balance weight cs + balance weight ds := by
  induction cs with
  | nil => rw [List.nil_append, balance, Int.zero_add]
  | cons c cs ih => rw [List.cons_append, balance, balance, ih, Int.add_assoc]

/-- Each arrow takes two characters and closes a bracket. -/
theorem exists_arrows (weight : Char → Int) (hbar : weight '=' = 0) (hdash : weight '-' = 0)
    (hclose : weight '>' = -1) (cs : List Char) : ∃ count : Nat,
    cs.length = (dropArrows cs).length + 2 * count ∧
      balance weight cs = balance weight (dropArrows cs) - count := by
  fun_induction dropArrows cs with
  | case1 => exact ⟨0, rfl, rfl⟩
  | case2 c => exact ⟨0, rfl, by simp⟩
  | case3 c d cs harrow ih =>
    obtain ⟨count, hlength, hbalance⟩ := ih
    obtain ⟨hc, rfl⟩ := harrow
    have hzero : weight c = 0 := by rcases hc with rfl | rfl <;> assumption
    refine ⟨count + 1, ?_, ?_⟩
    · rw [List.length_cons, List.length_cons]
      omega
    · rw [balance, balance, hzero, hclose, hbalance]
      omega
  | case4 c d cs harrow ih =>
    obtain ⟨count, hlength, hbalance⟩ := ih
    refine ⟨count, ?_, ?_⟩
    · rw [List.length_cons, hlength, List.length_cons]
      omega
    · have hfirst : ∀ ds, balance weight (c :: ds) = weight c + balance weight ds := fun _ => rfl
      rw [hfirst, hfirst, hbalance]
      omega

theorem step_of_unquoted {c : Char} (hc : Nesting.isQuote c = false) (depth : Int)
    (escaped : Bool) :
    Nesting.step true ⟨depth, none, escaped⟩ c = ⟨depth + nestingWeight c, none, escaped⟩ := by
  rw [Nesting.step, nestingWeight]
  simp only [hc, Bool.false_eq_true, if_false]
  by_cases hopener : Nesting.isOpener true c = true
  · rw [if_pos hopener, if_pos hopener]
  · by_cases hcloser : Nesting.isCloser true c = true
    · rw [if_neg hopener, if_neg hopener, if_pos hcloser, if_pos hcloser, Int.sub_eq_add_neg]
    · rw [if_neg hopener, if_neg hopener, if_neg hcloser, if_neg hcloser, Int.add_zero]

theorem scan_of_unquoted {cs : List Char} (h : ∀ c ∈ cs, Nesting.isQuote c = false) (depth : Int)
    (escaped : Bool) : Nesting.scan true ⟨depth, none, escaped⟩ cs =
      ⟨depth + balance nestingWeight cs, none, escaped⟩ := by
  induction cs generalizing depth with
  | nil => rw [balance, Int.add_zero, Nesting.scan, List.foldl_nil]
  | cons c cs ih =>
    rw [Nesting.scan_cons, step_of_unquoted (h c List.mem_cons_self),
      ih fun d hd => h d (List.mem_cons_of_mem c hd), balance, Int.add_assoc]

/-- A quote stays open up to the character that closes it. -/
theorem quote_scan {n : Nesting} {q : Char} {cs : List Char} (hn : n.quote = some q) (h : q ∉ cs) :
    (n.scan true cs).quote = some q := by
  induction cs generalizing n with
  | nil => exact hn
  | cons c cs ih =>
    have hc : c ≠ q := fun heq => h (heq ▸ List.mem_cons_self)
    rw [Nesting.scan_cons]
    apply ih _ fun hq => h (List.mem_cons_of_mem c hq)
    rw [Nesting.step, hn]
    simp only [if_neg hc]
    split_ifs
    · rfl
    · rfl
    · exact hn

/-- Text that passes the scan but for its arrows ends at the top if it has none. -/
theorem isTop_scan_iff {sep : Char} {cs : List Char} (hquotes : ∀ c ∈ cs, Nesting.isQuote c = false)
    (h : Passes sep true {} (dropArrows cs)) :
    (Nesting.scan true {} cs).isTop = true ↔ dropArrows cs = cs := by
  obtain ⟨count, hlength, hbalance⟩ := exists_arrows nestingWeight rfl rfl rfl cs
  have hzero : balance nestingWeight (dropArrows cs) = 0 := by
    have hback := h.back
    rw [scan_of_unquoted fun c hc => hquotes c ((dropArrows_sublist cs).mem hc)] at hback
    have hdepth := congrArg Nesting.depth hback
    rwa [Int.zero_add] at hdepth
  have htop : (Nesting.scan true {} cs).isTop = true ↔ count = 0 := by
    rw [scan_of_unquoted hquotes, hbalance, hzero]
    simp [Nesting.isTop]
  rw [htop]
  constructor
  · intro hcount
    exact (dropArrows_sublist cs).eq_of_length (by omega)
  · intro heq
    rw [heq] at hlength
    omega

/-! ## Type arguments -/

/-- The number of open square and angle brackets after some text, if none is closed that is not
open. -/
def openAfter? (depth : Nat) : List Char → Option Nat
  | [] => some depth
  | c :: cs =>
    if c = '<' ∨ c = '[' then openAfter? (depth + 1) cs
    else if c = '>' ∨ c = ']' then
      match depth with
      | 0 => none
      | depth + 1 => openAfter? depth cs
    else openAfter? depth cs

/-- Inside a bracket, text with balanced brackets is dropped. -/
theorem outsideBrackets_append {depth after : Nat} {cs : List Char}
    (h : openAfter? depth cs = some after) (rest : List Char) :
    outsideBrackets (depth + 1) (cs ++ rest) = outsideBrackets (after + 1) rest := by
  fun_induction openAfter? depth cs with
  | case1 depth => rw [← Option.some.inj h, List.nil_append]
  | case2 depth c cs hopener ih => rw [List.cons_append, outsideBrackets, if_pos hopener, ih h]
  | case3 c cs hopener hcloser => cases h
  | case4 c cs hopener hcloser depth ih =>
    rw [List.cons_append, outsideBrackets, if_neg hopener, if_pos ⟨hcloser, Nat.succ_pos _⟩,
      Nat.add_sub_cancel, ih h]
  | case5 depth c cs hopener hcloser ih =>
    rw [List.cons_append, outsideBrackets, if_neg hopener, if_neg fun hc => hcloser hc.1,
      if_neg (Nat.succ_ne_zero depth), ih h]

theorem outsideBrackets_plain_append {cs : List Char} (h : ∀ c ∈ cs, c ≠ '<' ∧ c ≠ '[')
    (rest : List Char) : outsideBrackets 0 (cs ++ rest) = cs ++ outsideBrackets 0 rest := by
  induction cs with
  | nil => rfl
  | cons c cs ih =>
    obtain ⟨hangle, hsquare⟩ := h c List.mem_cons_self
    rw [List.cons_append, outsideBrackets, if_neg (not_or.mpr ⟨hangle, hsquare⟩),
      if_neg fun hc => Nat.lt_irrefl 0 hc.2, if_pos rfl,
      ih fun d hd => h d (List.mem_cons_of_mem c hd), List.cons_append]

/-- Text without opening brackets stays as it is, also where it closes one. -/
theorem outsideBrackets_of_plain {cs : List Char} (h : ∀ c ∈ cs, c ≠ '<' ∧ c ≠ '[') :
    outsideBrackets 0 cs = cs := by
  have hplain := outsideBrackets_plain_append h []
  rwa [outsideBrackets, List.append_nil] at hplain

theorem balance_of_openAfter? {depth after : Nat} {cs : List Char}
    (h : openAfter? depth cs = some after) : (after : Int) = depth + balance argumentWeight cs := by
  fun_induction openAfter? depth cs with
  | case1 depth => rw [← Option.some.inj h, balance, Int.add_zero]
  | case2 depth c cs hopener ih =>
    rw [ih h, balance, argumentWeight, if_pos hopener]
    omega
  | case3 c cs hopener hcloser => cases h
  | case4 c cs hopener hcloser depth ih =>
    rw [ih h, balance, argumentWeight, if_neg hopener, if_pos hcloser]
    omega
  | case5 depth c cs hopener hcloser ih =>
    rw [ih h, balance, argumentWeight, if_neg hopener, if_neg hcloser]
    omega

/-- Of more closing brackets than there are open ones, one is kept. -/
theorem exists_mem_outsideBrackets {depth : Nat} {cs : List Char}
    (h : (depth : Int) + balance argumentWeight cs < 0) :
    ∃ c ∈ outsideBrackets depth cs, c = '>' ∨ c = ']' := by
  induction cs generalizing depth with
  | nil =>
    rw [balance] at h
    omega
  | cons c cs ih =>
    rw [balance, argumentWeight] at h
    rw [outsideBrackets]
    by_cases hopener : c = '<' ∨ c = '['
    · rw [if_pos hopener] at h ⊢
      exact ih (by omega)
    rw [if_neg hopener] at h ⊢
    by_cases hcloser : c = '>' ∨ c = ']'
    · rw [if_pos hcloser] at h
      by_cases hdepth : 0 < depth
      · rw [if_pos ⟨hcloser, hdepth⟩]
        exact ih (by omega)
      · rw [if_neg fun hc => hdepth hc.2, if_pos (Nat.eq_zero_of_not_pos hdepth)]
        exact ⟨c, List.mem_cons_self, hcloser⟩
    · rw [if_neg hcloser, Int.zero_add] at h
      rw [if_neg fun hc => hcloser hc.1]
      obtain ⟨d, hd, hkept⟩ := ih h
      by_cases hdepth : depth = 0
      · subst hdepth
        exact ⟨d, List.mem_cons_of_mem c hd, hkept⟩
      · rw [if_neg hdepth]
        exact ⟨d, hd, hkept⟩

/-- What follows a name is trimmed off only if it is blank. -/
theorem trim_append_ne {cs ds : List Char} {c : Char} (hne : cs ≠ [])
    (hfirst : ∀ c ∈ cs.head?, isBlank c = false) (hc : c ∈ ds) (hblank : isBlank c = false) :
    trim (cs ++ ds) ≠ cs := by
  obtain ⟨front, back, rfl⟩ := List.append_of_mem hc
  obtain ⟨first, rest, rfl⟩ := List.exists_cons_of_ne_nil hne
  have hfirst : ¬ isBlank first = true := by simp [hfirst first rfl]
  rw [← List.append_assoc, trim_append_cons hblank, List.cons_append,
    List.dropWhile_cons_of_neg hfirst]
  intro heq
  have hlength := congrArg List.length heq
  simp only [List.length_append, List.length_cons] at hlength
  omega

theorem after?_append (pre cs : List Char) : after? pre (pre ++ cs) = some cs := by
  induction pre with
  | nil => rfl
  | cons c pre ih => rw [List.cons_append, after?, if_pos rfl, ih]

end Chars

/-- An arrow `=>` or `->` stands in the text. -/
def HasArrow (s : String) : Prop := Chars.dropArrows s.toList ≠ s.toList

instance (s : String) : Decidable (HasArrow s) :=
  inferInstanceAs (Decidable (Chars.dropArrows s.toList ≠ s.toList))

/-- An entry that is a name and a list of type arguments, with blanks around them. The brackets of
the arguments are balanced if arrows do not count. -/
structure NamedEntry (entry name args : String) : Prop where
  isBare : BareName name
  noCall : '(' ∉ name.toList
  balanced : Chars.openAfter? 0 (Chars.dropArrows args.toList) = some 0
  written : ∃ before after : String, (∀ c ∈ before.toList, isBlank c = true) ∧
    (∀ c ∈ after.toList, isBlank c = true) ∧ entry = before ++ (name ++ "<" ++ args ++ ">") ++ after

theorem ne_brackets_of_isBlank {c : Char} (h : isBlank c = true) : c ≠ '<' ∧ c ≠ '[' := by
  constructor <;> rintro rfl <;> revert h <;> decide

theorem Chars.balance_of_isBlank {cs : List Char} (h : ∀ c ∈ cs, isBlank c = true) :
    balance argumentWeight cs = 0 := by
  induction cs with
  | nil => rfl
  | cons c cs ih =>
    have hc := h c List.mem_cons_self
    have hcloser : ¬ (c = '>' ∨ c = ']') := by
      rintro (rfl | rfl) <;> revert hc <;> decide
    rw [balance, ih fun d hd => h d (List.mem_cons_of_mem c hd), argumentWeight,
      if_neg (not_or.mpr (ne_brackets_of_isBlank hc)), if_neg hcloser, Int.add_zero]

namespace BareName

variable {name : String}

theorem toList_ne_nil (h : BareName name) : name.toList ≠ [] := by
  intro hnil
  exact h.ne_empty (String.toList_eq_nil_iff.mp hnil)

theorem plain (h : BareName name) {c : Char} (hc : c ∈ name.toList) : c ≠ '<' ∧ c ≠ '[' :=
  ⟨fun heq => h.no_angle (heq ▸ hc), fun heq => h.no_square (heq ▸ hc)⟩

theorem trim_toList (h : BareName name) : Chars.trim name.toList = name.toList :=
  Chars.trim_eq_self h.first h.last

theorem dropTypeArguments_eq (h : BareName name) : Text.dropTypeArguments name = name := by
  rw [Text.dropTypeArguments, Chars.outsideBrackets_of_plain fun c hc => h.plain hc, Text.trim,
    String.toList_ofList, h.trim_toList, String.ofList_toList]

end BareName

namespace NamedEntry

variable {entry name args : String}

/-- The name is kept, and what is left of the type arguments follows it. -/
theorem exists_outsideBrackets (h : NamedEntry entry name args) : ∃ before after : List Char,
    (∀ c ∈ before, isBlank c = true) ∧ (∀ c ∈ after, isBlank c = true) ∧
      Chars.outsideBrackets 0 entry.toList =
        before ++ (name.toList ++ Chars.outsideBrackets 1 (args.toList ++ '>' :: after)) := by
  obtain ⟨before, after, hbefore, hafter, rfl⟩ := h.written
  refine ⟨before.toList, after.toList, hbefore, hafter, ?_⟩
  have hchars : (before ++ (name ++ "<" ++ args ++ ">") ++ after).toList =
      before.toList ++ (name.toList ++ '<' :: (args.toList ++ '>' :: after.toList)) := by
    simp
  rw [hchars, Chars.outsideBrackets_plain_append fun c hc => ne_brackets_of_isBlank (hbefore c hc),
    Chars.outsideBrackets_plain_append fun c hc => h.isBare.plain hc, Chars.outsideBrackets,
    if_pos (Or.inl rfl)]

/-- Each arrow closes a bracket. Then the one after the arguments, or one in them, closes none and
is kept. -/
theorem exists_kept (h : NamedEntry entry name args) (harrow : HasArrow args) {after : List Char}
    (hafter : ∀ c ∈ after, isBlank c = true) :
    ∃ c ∈ Chars.outsideBrackets 1 (args.toList ++ '>' :: after), isBlank c = false := by
  obtain ⟨count, hlength, hbalance⟩ :=
    Chars.exists_arrows Chars.argumentWeight rfl rfl rfl args.toList
  have hcount : count ≠ 0 := by
    rintro rfl
    exact harrow ((Chars.dropArrows_sublist _).eq_of_length (by omega))
  have hdropped := Chars.balance_of_openAfter? h.balanced
  have hclose : Chars.argumentWeight '>' = -1 := rfl
  obtain ⟨c, hc, hkept⟩ : ∃ c ∈ Chars.outsideBrackets 1 (args.toList ++ '>' :: after),
      c = '>' ∨ c = ']' := by
    apply Chars.exists_mem_outsideBrackets
    rw [Chars.balance_append, Chars.balance, hclose, hbalance, Chars.balance_of_isBlank hafter]
    omega
  refine ⟨c, hc, ?_⟩
  rcases hkept with rfl | rfl <;> decide

/-- Type arguments are dropped, with nothing but blanks beside them, exactly if they hold no
arrow. -/
theorem dropTypeArguments_eq_iff (h : NamedEntry entry name args) :
    Text.dropTypeArguments entry = name ↔ ¬ HasArrow args := by
  obtain ⟨before, after, hbefore, hafter, houtside⟩ := h.exists_outsideBrackets
  rw [Text.dropTypeArguments, houtside, Text.trim, String.toList_ofList,
    Chars.trim_blank_append hbefore]
  constructor
  · intro heq harrow
    obtain ⟨c, hc, hblank⟩ := h.exists_kept harrow hafter
    apply Chars.trim_append_ne h.isBare.toList_ne_nil h.isBare.first hc hblank
    rw [← String.toList_ofList (l := Chars.trim _), heq]
  · intro harrow
    have hbalanced : Chars.openAfter? 0 args.toList = some 0 := not_not.mp harrow ▸ h.balanced
    rw [Chars.outsideBrackets_append hbalanced, Chars.outsideBrackets, if_neg (by decide),
      if_pos (by decide),
      Chars.outsideBrackets_of_plain fun c hc => ne_brackets_of_isBlank (hafter c hc),
      Chars.trim_append_blank hafter, h.isBare.trim_toList, String.ofList_toList]

/-- Without the blanks around it, it still is such an entry. -/
theorem trimmed (h : NamedEntry entry name args) : NamedEntry (Text.trim entry) name args := by
  obtain ⟨before, after, hbefore, hafter, rfl⟩ := h.written
  refine ⟨h.isBare, h.noCall, h.balanced, "", "", by simp, by simp, ?_⟩
  have hself : Chars.trim (name ++ "<" ++ args ++ ">").toList =
      (name ++ "<" ++ args ++ ">").toList := by
    refine Chars.trim_eq_self (fun c hc => h.isBare.first c ?_) (fun c hc => ?_)
    · simpa [List.head?_append_of_ne_nil _ h.isBare.toList_ne_nil] using hc
    · rw [String.toList_append, List.getLast?_append_of_ne_nil _ (by decide)] at hc
      obtain rfl : '>' = c := by simpa using hc
      decide
  rw [Text.trim, String.toList_append, String.toList_append, Chars.trim_append_blank hafter,
    Chars.trim_blank_append hbefore, hself, String.ofList_toList]
  simp

end NamedEntry

/-! ## Separable entries -/

/-- The entries can be told apart when they are joined by separators. -/
structure Separable (sep : Char) (entries : List String) : Prop where
  uncut : ∀ e ∈ entries, Text.splitTop sep true e = [e]
  closed : ∀ e ∈ entries.dropLast, (Nesting.scan true {} e.toList).isTop = true

/-- The brackets of the entry are balanced, and no separator stands outside them, if arrows do not
count. -/
def BalancedButArrows (sep : Char) (entry : String) : Prop :=
  Chars.Passes sep true {} (Chars.dropArrows entry.toList)

def Unquoted (s : String) : Prop := ∀ c ∈ s.toList, Nesting.isQuote c = false

/-- Just one `'` stands in the text, as it does in a lifetime, and no other quote before it. -/
def HasLifetime (s : String) : Prop :=
  ∃ before after : String, Unquoted before ∧ '\'' ∉ after.toList ∧ s = before ++ "'" ++ after

variable {sep : Char} {entries : List String}

theorem splitTop_eq_iff {s : String} {parts : List String} :
    Text.splitTop sep true s = parts ↔
      Chars.splitTop sep true s.toList = parts.map String.toList := by
  constructor
  · intro h
    rw [← h, Text.splitTop, List.map_map]
    simp
  · intro h
    rw [Text.splitTop, h, List.map_map]
    simp

/-- A list is cut into its entries exactly if they are separable. -/
theorem splitTop_eq_entries_iff (hne : entries ≠ []) :
    Text.splitTop sep true ((String.singleton sep).intercalate entries) = entries ↔
      Separable sep entries := by
  have hparts : entries.map String.toList ≠ [] := by simpa using hne
  rw [splitTop_eq_iff, String.toList_intercalate, String.toList_singleton,
    Chars.splitTop_intercalate_iff hparts, ← List.map_dropLast, List.forall_mem_map,
    List.forall_mem_map]
  constructor
  · rintro ⟨huncut, hclosed⟩
    exact ⟨fun e he => splitTop_eq_iff.mpr (huncut e he), hclosed⟩
  · rintro ⟨huncut, hclosed⟩
    exact ⟨fun e he => splitTop_eq_iff.mp (huncut e he), hclosed⟩

/-- Entries without arrows, with balanced brackets, are separable. -/
theorem separable_of_balanced
    (h : ∀ e ∈ entries, BalancedButArrows sep e ∧ ¬ HasArrow e) : Separable sep entries := by
  have hpasses : ∀ e ∈ entries, Chars.Passes sep true {} e.toList := by
    intro e he
    obtain ⟨hbalanced, harrow⟩ := h e he
    rwa [BalancedButArrows, not_not.mp harrow] at hbalanced
  refine ⟨fun e he => splitTop_eq_iff.mpr (hpasses e he).uncut, fun e he => ?_⟩
  rw [(hpasses e ((List.dropLast_sublist entries).mem he)).back]
  rfl

/-- An arrow in an entry other than the last spoils the list. -/
theorem not_hasArrow_of_separable (hsep : Separable sep entries) {e : String}
    (he : e ∈ entries.dropLast) (hquotes : Unquoted e) (h : BalancedButArrows sep e) :
    ¬ HasArrow e :=
  not_not.mpr ((Chars.isTop_scan_iff hquotes h).mp (hsep.closed e he))

/-- So does a lifetime, which opens a quote. -/
theorem not_hasLifetime_of_separable (hsep : Separable sep entries) {e : String}
    (he : e ∈ entries.dropLast) : ¬ HasLifetime e := by
  rintro ⟨before, after, hbefore, hafter, rfl⟩
  have hchars : (before ++ "'" ++ after).toList = before.toList ++ '\'' :: after.toList := by simp
  have hclosed := hsep.closed _ he
  rw [hchars, Nesting.scan_append, Chars.scan_of_unquoted hbefore, Nesting.scan_cons,
    Nesting.isTop, Chars.quote_scan rfl hafter] at hclosed
  exact Bool.false_ne_true hclosed

/-! ## Edges -/

/-- The edges from a type to those of its parents that have a name. -/
def edgesTo (child : String) (parents : List String) : List Item :=
  (parents.filter fun parent => parent ≠ "").map fun parent =>
    .found (.inheritance { child, parent })

variable {child : String}

theorem flatMap_inherit (hchild : child ≠ "") (parents : List String) :
    parents.flatMap (Item.inherit child) = edgesTo child (parents.map Text.dropTypeArguments) := by
  have hempty : child.isEmpty = false := by simpa using hchild
  induction parents with
  | nil => rfl
  | cons parent parents ih =>
    rw [List.flatMap_cons, ih, edgesTo, edgesTo, List.map_cons, Item.inherit, hempty]
    by_cases hparent : Text.dropTypeArguments parent = ""
    · simp [hparent]
    · simp [hparent]

namespace TypeScript

/-- The parent that an entry of a clause names. A call stands for what is called. -/
def entryParent (entry : String) : String :=
  Text.dropTypeArguments (Text.firstPiece ['('] (Text.dropTypeArguments entry))

theorem clauseParents_eq {clause keyword list : String}
    (hkeyword : keyword ∈ ["extends", "implements"])
    (hclause : Text.trim clause = keyword ++ list) :
    clauseParents clause = (Text.splitTop ',' true list).map fun parent =>
      Text.firstPiece ['('] (Text.dropTypeArguments parent) := by
  have hafter : (Text.afterStart? "extends" (keyword ++ list)).or
      (Text.afterStart? "implements" (keyword ++ list)) = some list := by
    simp only [Text.afterStart?, String.toList_append]
    rcases List.mem_pair.mp hkeyword with rfl | rfl
    · rw [Chars.after?_append, Option.map_some, String.ofList_toList, Option.some_or]
    · have hother : Chars.after? "extends".toList ("implements".toList ++ list.toList) = none := rfl
      rw [hother, Chars.after?_append, Option.map_none, Option.none_or, Option.map_some,
        String.ofList_toList]
  simp only [clauseParents, hclause, hafter, Option.getD_some]

theorem inheritClause_eq (hchild : child ≠ "") (hne : entries ≠ []) {src keyword : String}
    {clause : Tree} (hkeyword : keyword ∈ ["extends", "implements"])
    (hclause : Text.trim (clause.text src) = keyword ++ ",".intercalate entries)
    (hsep : Separable ',' entries) :
    inheritClause src child clause = edgesTo child (entries.map entryParent) := by
  have hsplit : Text.splitTop ',' true (",".intercalate entries) = entries :=
    (splitTop_eq_entries_iff hne).mpr hsep
  rw [inheritClause, clauseParents_eq hkeyword hclause, hsplit, flatMap_inherit hchild,
    List.map_map]
  rfl

theorem entryParent_of_noCall {entry : String}
    (hcall : '(' ∉ (Text.dropTypeArguments entry).toList) :
    entryParent entry = Text.dropTypeArguments entry := by
  have hpiece : Text.firstPiece ['('] (Text.dropTypeArguments entry) =
      Text.dropTypeArguments entry := by
    rw [Text.firstPiece, List.takeWhile_eq_self_iff.mpr, String.ofList_toList]
    intro c hc
    have hne : c ≠ '(' := fun heq => hcall (heq ▸ hc)
    simpa using hne
  rw [entryParent, hpiece]
  by_cases hempty : Text.dropTypeArguments entry = ""
  · rw [hempty]
    rfl
  · exact (bareName_dropTypeArguments hempty).dropTypeArguments_eq

theorem entryParent_eq_iff {entry name args : String} (h : NamedEntry entry name args) :
    entryParent entry = name ∧ '(' ∉ (Text.dropTypeArguments entry).toList ↔ ¬ HasArrow args := by
  rw [← h.dropTypeArguments_eq_iff]
  constructor
  · rintro ⟨hparent, hcall⟩
    rw [← entryParent_of_noCall hcall, hparent]
  · intro heq
    have hcall : '(' ∉ (Text.dropTypeArguments entry).toList := heq ▸ h.noCall
    exact ⟨(entryParent_of_noCall hcall).trans heq, hcall⟩

end TypeScript

namespace Rust

/-- Whether an entry in a list of bounds is a trait, and no lifetime or relaxed bound. -/
def isTraitBound (entry : String) : Bool :=
  !Text.startsWith "'" (Text.trim entry) && !Text.startsWith "?" (Text.trim entry)

/-- The trait that an entry in a list of bounds names. -/
def entryParent (entry : String) : String := Text.dropTypeArguments (Text.trim entry)

theorem supertraits_eq (hchild : child ≠ "") (hne : entries ≠ []) {src bounds : String} {t : Tree}
    (hbounds : t.fieldText? src "bounds" = some bounds)
    (hlist : Text.dropStart [':'] (Text.trim bounds) = "+".intercalate entries)
    (hsep : Separable '+' entries) :
    supertraits src child t =
      edgesTo child ((entries.filter isTraitBound).map entryParent) := by
  have hsplit : Text.splitTop '+' true ("+".intercalate entries) = entries :=
    (splitTop_eq_entries_iff hne).mpr hsep
  have hbound :
      (fun bound => !Text.startsWith "'" bound && !Text.startsWith "?" bound) ∘ Text.trim =
        isTraitBound := by
    funext e
    rw [isTraitBound, Function.comp_apply]
  simp only [supertraits, hbounds, boundNames, hlist, hsplit]
  rw [List.filter_map, hbound, flatMap_inherit hchild, List.map_map]
  rfl

theorem entryParent_eq_iff {entry name args : String} (h : NamedEntry entry name args) :
    entryParent entry = name ↔ ¬ HasArrow args :=
  h.trimmed.dropTypeArguments_eq_iff

end Rust

/-- **One edge for each entry.** A list is cut into its entries exactly if they are separable, and
then a clause of a class or interface and the bounds of a trait give, in order, one edge for each
entry that names a parent. Entries with balanced brackets and without arrows are separable. An arrow
or a lifetime in one that is not the last prevents it. If an entry is a name with type arguments,
the parent is the bare name, with no call cut off, exactly if there is no arrow in the arguments. -/
theorem edges_per_entry (hchild : child ≠ "") (hne : entries ≠ []) :
    (∀ sep, Text.splitTop sep true ((String.singleton sep).intercalate entries) = entries ↔
      Separable sep entries) ∧
    (∀ sep, (∀ e ∈ entries, BalancedButArrows sep e ∧ ¬ HasArrow e) → Separable sep entries) ∧
    (∀ sep, Separable sep entries → ∀ e ∈ entries.dropLast, ¬ HasLifetime e ∧
      (Unquoted e → BalancedButArrows sep e → ¬ HasArrow e)) ∧
    (∀ (src : String) (clause : Tree), ∀ keyword ∈ ["extends", "implements"],
      Text.trim (clause.text src) = keyword ++ ",".intercalate entries → Separable ',' entries →
        TypeScript.inheritClause src child clause =
          edgesTo child (entries.map TypeScript.entryParent)) ∧
    (∀ (src : String) (t : Tree) (bounds : String), t.fieldText? src "bounds" = some bounds →
      Text.dropStart [':'] (Text.trim bounds) = "+".intercalate entries → Separable '+' entries →
        Rust.supertraits src child t =
          edgesTo child ((entries.filter Rust.isTraitBound).map Rust.entryParent)) ∧
    (∀ e ∈ entries, ∀ name args, NamedEntry e name args →
      (Rust.entryParent e = name ↔ ¬ HasArrow args) ∧
        (TypeScript.entryParent e = name ∧ '(' ∉ (Text.dropTypeArguments e).toList ↔
          ¬ HasArrow args)) := by
  refine ⟨fun sep => splitTop_eq_entries_iff hne, fun sep => separable_of_balanced, ?_, ?_, ?_, ?_⟩
  · intro sep hsep e he
    exact ⟨not_hasLifetime_of_separable hsep he, not_hasArrow_of_separable hsep he⟩
  · intro src clause keyword hkeyword hclause hsep
    exact TypeScript.inheritClause_eq hchild hne hkeyword hclause hsep
  · intro src t bounds hbounds hlist hsep
    exact Rust.supertraits_eq hchild hne hbounds hlist hsep
  · intro e _ name args h
    exact ⟨Rust.entryParent_eq_iff h, TypeScript.entryParent_eq_iff h⟩

/-! ## A list with an arrow -/

def genericSource : String := "interface X extends A<B, C>, D \x7b\x7d\n"

def genericClause : Tree := .node ⟨"extends_type_clause", true, false, false, none, 12, 30⟩ []

def arrowSource : String := "interface C extends A<() => void>, B \x7b\x7d\n"

def arrowClause : Tree := .node ⟨"extends_type_clause", true, false, false, none, 12, 36⟩ []

theorem text_arrowClause : Text.trim (arrowClause.text arrowSource) =
    "extends" ++ ",".intercalate [" A<() => void>", " B"] := by
  decide +kernel

theorem balancedButArrows_arrow : ∀ e ∈ [" A<() => void>", " B"], BalancedButArrows ',' e := by
  intro e he
  rcases List.mem_pair.mp he with rfl | rfl <;> exact ⟨by decide +kernel, by decide +kernel⟩

/-- Type arguments with a comma in them do no harm, and those with an arrow do. -/
theorem edges_genericClause :
    TypeScript.inheritClause genericSource "X" genericClause = edgesTo "X" ["A", "D"] ∧
    TypeScript.entryParent " A<B, C>" = "A" ∧ Rust.entryParent " A<B, C>" = "A" ∧
    ¬ Separable ',' [" A<() => void>", " B"] := by
  have htext : Text.trim (genericClause.text genericSource) =
      "extends" ++ ",".intercalate [" A<B, C>", " D"] := by decide +kernel
  have hbalanced : ∀ e ∈ [" A<B, C>", " D"], BalancedButArrows ',' e ∧ ¬ HasArrow e := by
    intro e he
    rcases List.mem_pair.mp he with rfl | rfl <;>
      exact ⟨⟨by decide +kernel, by decide +kernel⟩, by decide⟩
  have hnamed : NamedEntry " A<B, C>" "A" "B, C" :=
    ⟨⟨by decide, by simp; decide, by simp; decide, by decide, by decide⟩, by decide, by decide,
      " ", "", by simp; decide, by simp, rfl⟩
  obtain ⟨_, hseparable, _, hedges, _, hnames⟩ :=
    @edges_per_entry [" A<B, C>", " D"] "X" (by decide) (by decide)
  obtain ⟨hrust, htypescript⟩ := hnames _ List.mem_cons_self _ _ hnamed
  have harrow : ¬ HasArrow "B, C" := by decide
  refine ⟨?_, (htypescript.mpr harrow).1, hrust.mpr harrow, fun hsep => ?_⟩
  · have hplain : TypeScript.entryParent " D" = "D" := by decide +kernel
    rw [hedges _ _ "extends" (by decide) htext (hseparable ',' hbalanced), List.map_cons,
      List.map_cons, List.map_nil, (htypescript.mpr harrow).1, hplain]
  · obtain ⟨_, _, hspoilt, _⟩ :=
      @edges_per_entry [" A<() => void>", " B"] "C" (by decide) (by decide)
    refine (hspoilt ',' hsep _ List.mem_cons_self).2 ?_ (balancedButArrows_arrow _ ?_) (by decide)
    · simp [Unquoted, Nesting.isQuote]
    · exact List.mem_cons_self

/-- Balanced entries do not always give one edge each. -/
theorem arrow_joins_entries :
    ¬ ∀ (src child : String) (clause : Tree) (entries : List String), child ≠ "" → entries ≠ [] →
      (∀ e ∈ entries, BalancedButArrows ',' e) →
      Text.trim (clause.text src) = "extends" ++ ",".intercalate entries →
        (TypeScript.inheritClause src child clause).length = entries.length := by
  intro h
  have hlength := h arrowSource "C" arrowClause _ (by decide) (by decide) balancedButArrows_arrow
    text_arrowClause
  revert hlength
  decide +kernel

end CodeOutline
