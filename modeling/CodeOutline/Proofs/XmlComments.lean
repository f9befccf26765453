import CodeOutline.Proofs.CommentStyles

/-!
# XML comments

In an XML comment references stand for the names they hold, and tags stand for nothing. The summary
is that of the summary element if this says something. Otherwise it is taken from the whole text,
and tags are dropped from what was taken.

**Theorem (`xml_comment_kept_iff`).** A comment with some text in it is reduced to nothing exactly
if nothing is said in the two places that are looked at: no line of the summary element has more
than tags, and what is taken from the whole text has no more than tags either. This can happen
although something is said elsewhere, and it always does if the whole comment is one tag. There is
no summary at all exactly if the comment has nothing but references without a name.

A text is *hollow* if it is made of blanks and of pieces that stand for nothing. Dropping the pieces
leaves blanks exactly then (`Recognises.blank_substitute_iff`). What the pieces look like is said
without the functions that find them, by `IsTag` and `IsReference`.
-/

namespace CodeOutline

namespace Chars

open Text (isBlank)

/-! ## Pieces that stand for nothing -/

/-- The text is made of blanks, and of pieces that stand for nothing but blanks. -/
inductive Hollow (Piece : List Char → List Char → Prop) : List Char → Prop
  | nil : Hollow Piece []
  | blank {c : Char} {cs : List Char} : isBlank c = true → Hollow Piece cs → Hollow Piece (c :: cs)
  | piece {p meaning cs : List Char} : Piece p meaning → (∀ c ∈ meaning, isBlank c = true) →
      Hollow Piece cs → Hollow Piece (p ++ cs)

/-- Where a piece begins, `found?` gives what it stands for and how long it is. All pieces begin
with an angle bracket. -/
structure Recognises (found? : List Char → Option (List Char × Nat))
    (Piece : List Char → List Char → Prop) : Prop where
  found_iff : ∀ {cs meaning : List Char} {size : Nat}, found? cs = some (meaning, size) ↔
    ∃ p rest, Piece p meaning ∧ cs = p ++ rest ∧ size = p.length
  opens : ∀ {p meaning : List Char}, Piece p meaning → ∃ rest, p = '<' :: rest

theorem hollow_of_blank {Piece : List Char → List Char → Prop} {cs : List Char}
    (h : ∀ c ∈ cs, isBlank c = true) : Hollow Piece cs := by
  induction cs with
  | nil => exact .nil
  | cons c cs ih =>
    obtain ⟨hc, hcs⟩ := List.forall_mem_cons.mp h
    exact .blank hc (ih hcs)

theorem substituteFrom_eq_drop (found? : List Char → Option (List Char × Nat)) (n : Nat)
    (cs : List Char) : substituteFrom found? n cs = substitute found? (cs.drop n) := by
  induction cs generalizing n with
  | nil => cases n <;> rfl
  | cons c cs ih =>
    cases n with
    | zero => rfl
    | succ n => exact ih n

namespace Recognises

variable {found? : List Char → Option (List Char × Nat)} {Piece : List Char → List Char → Prop}

theorem substitute_append (h : Recognises found? Piece) {p meaning : List Char}
    (hp : Piece p meaning) (cs : List Char) :
    substitute found? (p ++ cs) = meaning ++ substitute found? cs := by
  have hfound := h.found_iff.mpr ⟨p, cs, hp, rfl, rfl⟩
  obtain ⟨rest, rfl⟩ := h.opens hp
  rw [List.cons_append] at hfound ⊢
  rw [substitute, substituteFrom, hfound]
  simp [substituteFrom_eq_drop]

theorem substitute_cons (h : Recognises found? Piece) {c : Char} (hc : c ≠ '<') (cs : List Char) :
    substitute found? (c :: cs) = c :: substitute found? cs := by
  have hnone : found? (c :: cs) = none := by
    rw [Option.eq_none_iff_forall_ne_some]
    rintro ⟨meaning, size⟩ hfound
    obtain ⟨p, rest, hp, hcs, -⟩ := h.found_iff.mp hfound
    obtain ⟨tail, rfl⟩ := h.opens hp
    exact hc (List.cons.inj hcs).1
  rw [substitute, substituteFrom, hnone, substitute]

theorem substitute_eq_self (h : Recognises found? Piece) {cs : List Char} (hcs : '<' ∉ cs) :
    substitute found? cs = cs := by
  induction cs with
  | nil => rfl
  | cons c cs ih =>
    obtain ⟨hc, hcs⟩ := not_or.mp (mt List.mem_cons.mpr hcs)
    rw [h.substitute_cons (Ne.symm hc), ih hcs]

/-- **Hollow texts** are those of which nothing but blanks is left. -/
theorem blank_substitute_iff (h : Recognises found? Piece) (cs : List Char) :
    (∀ c ∈ substitute found? cs, isBlank c = true) ↔ Hollow Piece cs := by
  constructor
  · intro hblank
    -- a piece may be of any length, so the induction is on the length of the text
    induction hlength : cs.length using Nat.strong_induction_on generalizing cs with
    | h n ih =>
      cases cs with
      | nil => exact .nil
      | cons c cs =>
        cases hfound : found? (c :: cs) with
        | none =>
          rw [substitute, substituteFrom, hfound] at hblank
          obtain ⟨hc, hcs⟩ := List.forall_mem_cons.mp hblank
          exact .blank hc (ih cs.length (by simp [← hlength]) cs hcs rfl)
        | some found =>
          obtain ⟨p, rest, hp, hcs, -⟩ := h.found_iff.mp hfound
          rw [hcs, h.substitute_append hp] at hblank
          obtain ⟨hmeaning, hrest⟩ := List.forall_mem_append.mp hblank
          rw [hcs] at hlength ⊢
          obtain ⟨tail, rfl⟩ := h.opens hp
          have hshorter : rest.length < n := by
            rw [← hlength, List.length_append, List.length_cons]
            omega
          exact .piece hp hmeaning (ih rest.length hshorter rest hrest rfl)
  · intro hhollow
    induction hhollow with
    | nil => simp [substitute, substituteFrom]
    | @blank c cs hc _ ih =>
      have hne : c ≠ '<' := by
        rintro rfl
        revert hc
        decide
      rw [h.substitute_cons hne]
      exact List.forall_mem_cons.mpr ⟨hc, ih⟩
    | piece hp hmeaning _ ih =>
      rw [h.substitute_append hp]
      exact List.forall_mem_append.mpr ⟨hmeaning, ih⟩

theorem head_of_hollow (h : Recognises found? Piece) {c : Char} {cs : List Char}
    (hhollow : Hollow Piece (c :: cs)) : isBlank c = true ∨ c = '<' := by
  generalize htext : c :: cs = text at hhollow
  cases hhollow with
  | nil => cases htext
  | blank hc _ => exact Or.inl ((List.cons.inj htext).1 ▸ hc)
  | piece hp _ _ =>
    obtain ⟨rest, rfl⟩ := h.opens hp
    exact Or.inr (List.cons.inj htext).1

theorem blank_of_hollow (h : Recognises found? Piece) {cs : List Char} (hhollow : Hollow Piece cs)
    (hcs : '<' ∉ cs) : ∀ c ∈ cs, isBlank c = true := by
  have hblank := (h.blank_substitute_iff cs).mpr hhollow
  rwa [h.substitute_eq_self hcs] at hblank

end Recognises

end Chars

namespace Summary

open Text

/-! ## Tags -/

/-- A tag begins with a letter, which a slash may precede, and goes on to the next `>`. -/
inductive IsTag : List Char → Prop
  | opening {c : Char} {inside : List Char} : isAsciiLetter c = true → '>' ∉ inside →
      IsTag ('<' :: c :: inside ++ ['>'])
  | closing {c : Char} {inside : List Char} : isAsciiLetter c = true → '>' ∉ inside →
      IsTag ('<' :: '/' :: c :: inside ++ ['>'])

theorem takeWhile_ne_iff {stop : Char} {body inside : List Char} :
    body.takeWhile (· != stop) = inside ∧ inside.length < body.length ↔
      stop ∉ inside ∧ ∃ rest, body = inside ++ stop :: rest := by
  constructor
  · rintro ⟨rfl, hlt⟩
    refine ⟨fun hmem => by simpa using List.mem_takeWhile_imp hmem, ?_⟩
    have hsplit := List.takeWhile_append_dropWhile (p := (· != stop)) (l := body)
    cases hdrop : body.dropWhile (· != stop) with
    | nil =>
      rw [hdrop, List.append_nil] at hsplit
      rw [hsplit] at hlt
      exact absurd hlt (Nat.lt_irrefl _)
    | cons c rest =>
      have hc : (body.dropWhile (· != stop)).head? = some c := by rw [hdrop]; rfl
      have hstop : c = stop := by simpa using Chars.head?_dropWhile hc
      rw [hdrop, hstop] at hsplit
      exact ⟨rest, hsplit.symm⟩
  · rintro ⟨hstop, rest, rfl⟩
    have hinside : ∀ c ∈ inside, (c != stop) = true := by
      intro c hc
      simpa using fun heq : c = stop => hstop (heq ▸ hc)
    rw [List.takeWhile_append_of_pos hinside, List.takeWhile_cons_of_neg (by simp)]
    simp

theorem exists_tag_of_tagSize? {cs : List Char} {size : Nat} (h : tagSize? cs = some size) :
    ∃ p rest, IsTag p ∧ cs = p ++ rest ∧ size = p.length := by
  unfold tagSize? at h
  split at h
  · next rest =>
    split at h
    next slash name hname =>
    split at h
    · next c body =>
      simp only at h
      split at h
      · next hinside =>
        rw [Bool.and_eq_true, decide_eq_true_eq] at hinside
        obtain ⟨hstop, after, hbody⟩ := takeWhile_ne_iff.mp ⟨rfl, hinside.2⟩
        have hsize := Option.some.inj h
        split at hname
        · obtain ⟨rfl, rfl⟩ := Prod.mk.inj hname
          refine ⟨_, after, .closing hinside.1 hstop, ?_, ?_⟩
          · simpa using hbody
          · simp only [← hsize, List.length_append, List.length_cons, List.length_nil]
            omega
        · obtain ⟨rfl, rfl⟩ := Prod.mk.inj hname
          refine ⟨_, after, .opening hinside.1 hstop, ?_, ?_⟩
          · simpa using hbody
          · simp only [← hsize, List.length_append, List.length_cons, List.length_nil]
            omega
      · cases h
    · cases h
  · cases h

theorem tagSize?_append {p : List Char} (h : IsTag p) (rest : List Char) :
    tagSize? (p ++ rest) = some p.length := by
  cases h with
  | @opening c inside hc hstop =>
    have hslash : c ≠ '/' := by
      rintro rfl
      revert hc
      decide
    obtain ⟨htake, -⟩ := takeWhile_ne_iff.mpr ⟨hstop, rest, rfl⟩
    have htext : '<' :: c :: inside ++ ['>'] ++ rest = '<' :: c :: (inside ++ '>' :: rest) := by
      simp
    have hsize : tagSize? ('<' :: c :: (inside ++ '>' :: rest)) = some (3 + inside.length) := by
      simp [tagSize?, hslash, hc, htake]
    rw [htext, hsize, Option.some.injEq, List.length_append, List.length_cons, List.length_cons,
      List.length_singleton]
    omega
  | @closing c inside hc hstop =>
    obtain ⟨htake, -⟩ := takeWhile_ne_iff.mpr ⟨hstop, rest, rfl⟩
    have htext : '<' :: '/' :: c :: inside ++ ['>'] ++ rest =
        '<' :: '/' :: c :: (inside ++ '>' :: rest) := by
      simp
    have hsize : tagSize? ('<' :: '/' :: c :: (inside ++ '>' :: rest)) =
        some (4 + inside.length) := by
      simp [tagSize?, hc, htake]
    rw [htext, hsize, Option.some.injEq, List.length_append, List.length_cons, List.length_cons,
      List.length_cons, List.length_singleton]
    omega

theorem recognises_tags : Chars.Recognises (fun cs => (tagSize? cs).map fun size => ([], size))
    fun p meaning => IsTag p ∧ meaning = [] where
  found_iff := by
    intro cs meaning size
    simp only [Option.map_eq_some_iff, Prod.mk.injEq]
    constructor
    · rintro ⟨_, hsize, rfl, rfl⟩
      obtain ⟨p, rest, hp, hcs, hlength⟩ := exists_tag_of_tagSize? hsize
      exact ⟨p, rest, ⟨hp, rfl⟩, hcs, hlength⟩
    · rintro ⟨p, rest, ⟨hp, rfl⟩, rfl, rfl⟩
      exact ⟨p.length, tagSize?_append hp rest, rfl, rfl⟩
  opens := by
    rintro p meaning ⟨hp, -⟩
    cases hp with
    | opening => exact ⟨_, rfl⟩
    | closing => exact ⟨_, rfl⟩

/-! ## References -/

/-- The elements that refer to something. -/
def referring : List String := ["<see", "<paramref", "<typeparamref"]

/-- The attributes that hold the name of what is referred to. -/
def naming : List String := ["cref=\"", "name=\""]

/-- A reference is an empty element with one attribute, which holds a name. -/
inductive IsReference (name : List Char) : List Char → Prop
  | mk {start key : String} {gap stop : List Char} : start ∈ referring → gap ≠ [] →
      (∀ c ∈ gap, isBlank c = true) → key ∈ naming → '"' ∉ name → (∀ c ∈ stop, isBlank c = true) →
      IsReference name
        (start.toList ++ (gap ++ (key.toList ++ (name ++ '"' :: (stop ++ ['/', '>'])))))

theorem afterBlanks?_eq_some_iff {cs body : List Char} :
    afterBlanks? cs = some body ↔ ∃ gap, gap ≠ [] ∧ (∀ c ∈ gap, isBlank c = true) ∧
      cs = gap ++ body ∧ Chars.StartsSolid body := by
  constructor
  · intro h
    cases cs with
    | nil => cases h
    | cons c rest =>
      rw [afterBlanks?] at h
      split at h
      · next hc =>
        obtain rfl := Option.some.inj h
        refine ⟨c :: rest.takeWhile isBlank, by simp, ?_, ?_, fun d hd => Chars.head?_dropWhile hd⟩
        · exact List.forall_mem_cons.mpr ⟨hc, fun d hd => List.mem_takeWhile_imp hd⟩
        · rw [List.cons_append, List.takeWhile_append_dropWhile]
      · cases h
  · rintro ⟨gap, hne, hgap, rfl, hbody⟩
    obtain ⟨c, gap, rfl⟩ := List.exists_cons_of_ne_nil hne
    obtain ⟨hc, hgap⟩ := List.forall_mem_cons.mp hgap
    rw [List.cons_append, afterBlanks?, if_pos hc, List.dropWhile_append_of_pos hgap,
      hbody.dropWhile_eq]

theorem exists_reference_of_reference? {cs name : List Char} {size : Nat}
    (h : reference? cs = some (name, size)) :
    ∃ p rest, IsReference name p ∧ cs = p ++ rest ∧ size = p.length := by
  simp only [reference?, Option.bind_eq_bind, Option.bind_eq_some_iff, Option.pure_def,
    Option.some.injEq, Prod.mk.injEq, Chars.after?_eq_some_iff] at h
  obtain ⟨body, hbody, value, hvalue, rest, hrest, after, hafter, rfl, hsize⟩ := h
  obtain ⟨start, hstart, hbody⟩ := List.exists_of_findSome?_eq_some hbody
  obtain ⟨key, hkey, hvalue⟩ := List.exists_of_findSome?_eq_some hvalue
  obtain ⟨tail, htail, hbody⟩ := Option.bind_eq_some_iff.mp hbody
  obtain ⟨gap, hne, hgap, hgapped, -⟩ := afterBlanks?_eq_some_iff.mp hbody
  have hname : value = value.takeWhile (· != '"') ++ '"' :: rest := by
    rw [← List.singleton_append, ← hrest, List.takeWhile_append_dropWhile]
  have hstop : rest = rest.takeWhile isBlank ++ (['/', '>'] ++ after) := by
    conv_lhs => rw [← List.takeWhile_append_dropWhile (p := isBlank) (l := rest), hafter]
    rfl
  have hquote : '"' ∉ value.takeWhile (· != '"') := by
    intro hmem
    simpa using List.mem_takeWhile_imp hmem
  have hcs : cs = start.toList ++ (gap ++ (key.toList ++ (value.takeWhile (· != '"') ++
      '"' :: (rest.takeWhile isBlank ++ ['/', '>'])))) ++ after := by
    rw [Chars.after?_eq_some_iff.mp htail, hgapped, Chars.after?_eq_some_iff.mp hvalue]
    conv_lhs => rw [hname, hstop]
    simp
  refine ⟨_, after, .mk hstart hne hgap hkey hquote fun c hc => List.mem_takeWhile_imp hc, hcs, ?_⟩
  rw [← hsize, hcs, List.length_append, Nat.add_sub_cancel]

/-- Where no start begins like another one, the first that fits is the one that is written. -/
theorem findSome?_start {starts : List String}
    (hapart : ∀ a ∈ starts, ∀ b ∈ starts, a ≠ b → ¬ a.toList <+: b.toList) {start : String}
    (hstart : start ∈ starts) (next : List Char → Option (List Char)) (tail : List Char)
    {body : List Char} (hbody : next tail = some body) :
    (starts.findSome? fun s => (Chars.after? s.toList (start.toList ++ tail)).bind next) =
      some body := by
  have hother : ∀ s ∈ starts, s ≠ start →
      Chars.after? s.toList (start.toList ++ tail) = none := by
    intro s hs hne
    rw [Chars.after?_eq_none_iff]
    intro hfits
    rcases List.prefix_or_prefix_of_prefix hfits (List.prefix_append start.toList tail) with h | h
    · exact hapart s hs start hstart hne h
    · exact hapart start hstart s hs hne.symm h
  clear hapart
  induction starts with
  | nil => cases hstart
  | cons s starts ih =>
    by_cases hs : s = start
    · have hfits : Chars.after? s.toList (start.toList ++ tail) = some tail :=
        Chars.after?_eq_some_iff.mpr (by rw [hs])
      rw [List.findSome?_cons, hfits, Option.bind_some, hbody]
    · have hrest := ih ((List.mem_cons.mp hstart).resolve_left (Ne.symm hs)) fun s' hs' =>
        hother s' (List.mem_cons_of_mem _ hs')
      rw [List.findSome?_cons, hother s List.mem_cons_self hs, Option.bind_none]
      exact hrest

theorem startsSolid_naming {key : String} (hkey : key ∈ naming) (value : List Char) :
    Chars.StartsSolid (key.toList ++ value) := by
  simp only [naming, List.mem_cons, List.not_mem_nil, or_false] at hkey
  rcases hkey with rfl | rfl
  · exact Chars.startsSolid_cons (c := 'c') (by decide) _
  · exact Chars.startsSolid_cons (c := 'n') (by decide) _

theorem reference?_append {p name : List Char} (h : IsReference name p) (rest : List Char) :
    reference? (p ++ rest) = some (name, p.length) := by
  cases h with
  | @mk start key gap stop hstart hne hgap hkey hname hstop =>
    let closing := stop ++ (['/', '>'] ++ rest)
    let value := name ++ '"' :: closing
    let whole := start.toList ++ (gap ++ (key.toList ++ value))
    let element := start.toList ++ (gap ++ (key.toList ++ (name ++ '"' :: (stop ++ ['/', '>']))))
    have htext : element ++ rest = whole := by
      simp [element, whole, value, closing]
    have hlength : whole.length - rest.length = element.length := by
      rw [← htext, List.length_append, Nat.add_sub_cancel]
    have hbody : afterBlanks? (gap ++ (key.toList ++ value)) = some (key.toList ++ value) :=
      afterBlanks?_eq_some_iff.mpr ⟨gap, hne, hgap, rfl, startsSolid_naming hkey value⟩
    obtain ⟨htake, -⟩ := takeWhile_ne_iff.mpr ⟨hname, closing, rfl⟩
    have hquoted : value.dropWhile (· != '"') = ['"'] ++ closing := by
      have hsplit := List.takeWhile_append_dropWhile (p := (· != '"')) (l := value)
      rw [htake] at hsplit
      exact List.append_cancel_left hsplit
    have hopened : Chars.after? ['"'] (['"'] ++ closing) = some closing :=
      Chars.after?_eq_some_iff.mpr rfl
    have hclosing : closing.dropWhile isBlank = "/>".toList ++ rest :=
      List.dropWhile_append_of_pos hstop
    have hclosed : Chars.after? "/>".toList ("/>".toList ++ rest) = some rest :=
      Chars.after?_eq_some_iff.mpr rfl
    have hstarted := findSome?_start (by decide) hstart afterBlanks? _ hbody
    have hkeyed := findSome?_start (by decide) hkey some value rfl
    rw [referring] at hstarted
    simp only [Option.bind_fun_some, naming] at hkeyed
    rw [htext, reference?, hstarted, Option.bind_eq_bind, Option.bind_some, hkeyed]
    simp only [Option.bind_some, hquoted, hopened, hclosing, hclosed, hlength, value, htake]
    rfl

theorem recognises_references : Chars.Recognises reference? fun p name => IsReference name p where
  found_iff := by
    intro cs name size
    constructor
    · exact exists_reference_of_reference?
    · rintro ⟨p, rest, hp, rfl, rfl⟩
      exact reference?_append hp rest
  opens := by
    rintro p name ⟨hstart, -, -, -, -, -⟩
    simp only [referring, List.mem_cons, List.not_mem_nil, or_false] at hstart
    rcases hstart with rfl | rfl | rfl <;> exact ⟨_, rfl⟩

/-! ## Hollow texts -/

/-- Nothing but blanks and tags. -/
def OnlyTags (s : String) : Prop :=
  Chars.Hollow (fun p meaning => IsTag p ∧ meaning = []) s.toList

/-- Nothing but blanks and references without a name. -/
def OnlyEmptyReferences (s : String) : Prop :=
  Chars.Hollow (fun p name => IsReference name p) s.toList

theorem isBlankText_dropXmlTags_iff {s : String} :
    isBlankText (dropXmlTags s) = true ↔ OnlyTags s := by
  rw [OnlyTags, ← recognises_tags.blank_substitute_iff, isBlankText, dropXmlTags,
    String.toList_ofList, List.all_eq_true]

/-- The comments without their markers. -/
def written (comments : List String) : String := "\n".intercalate (dropMarkers comments)

/-- The comments with names in the place of references. -/
def resolved (comments : List String) : String :=
  String.ofList (Chars.substitute reference? (written comments).toList)

theorem isBlankText_resolved_iff {comments : List String} :
    isBlankText (resolved comments) = true ↔ OnlyEmptyReferences (written comments) := by
  rw [OnlyEmptyReferences, ← recognises_references.blank_substitute_iff, isBlankText, resolved,
    String.toList_ofList, List.all_eq_true]

theorem isBlankText_written_iff {comments : List String} :
    isBlankText (written comments) = true ↔
      ∀ line ∈ dropMarkers comments, isBlankText line = true := by
  simp only [isBlankText, List.all_eq_true, written, String.toList_intercalate]
  constructor
  · intro h line hline c hc
    exact h c (Chars.mem_intercalate_of_mem (List.mem_map_of_mem hline) hc)
  · intro h c hc
    rcases Chars.mem_intercalate hc with hfeed | ⟨part, hpart, hc⟩
    · rw [List.mem_singleton.mp hfeed]
      decide
    · obtain ⟨line, hline, rfl⟩ := List.mem_map.mp hpart
      exact h line hline c hc

/-! ## Where a summary is looked for -/

/-- The summary of the summary element. -/
def ofElement (text : String) : Option String :=
  (summaryElement? text).bind fun body => ofLines ((lines body).map dropXmlTags)

theorem ofXmlComments_eq (comments : List String) :
    ofXmlComments comments = (ofElement (resolved comments)).or
      ((ofLines (lines (resolved comments))).map fun taken => trim (dropXmlTags taken)) := by
  have hinside : ofElement (resolved comments) = (summaryElement? (resolved comments)).bind
      fun body => ofLines ((lines body).map fun line => trim (dropXmlTags line)) := by
    refine Option.bind_congr fun body _ => ofLines_congr ?_
    simp [trim_trim]
  have houtside : ofLines (lines (resolved comments)) =
      ofLines ((lines (resolved comments)).map trim) :=
    ofLines_congr (by simp [trim_trim])
  rw [hinside, houtside, ofXmlComments]
  simp only [resolved, written]
  split
  · next summary hsummary => rw [hsummary, Option.some_or]
  · next hnone => rw [hnone, Option.none_or]

theorem ofLines_ne_empty {lines : List String} {text : String} (h : ofLines lines = some text) :
    text ≠ "" := by
  obtain ⟨i, j, hrun⟩ := exists_isRun h
  exact hrun.ne_empty

/-- Something is said in the summary element, or in what is taken from the whole text. -/
def Tells (text : String) : Prop :=
  (∃ body, summaryElement? text = some body ∧ ∃ line ∈ lines body, ¬ OnlyTags line) ∨
    ∃ taken, ofLines (lines text) = some taken ∧ ¬ OnlyTags taken

theorem ofElement_eq_none_iff {text : String} : ofElement text = none ↔
    ¬ ∃ body, summaryElement? text = some body ∧ ∃ line ∈ lines body, ¬ OnlyTags line := by
  have hlines : ∀ body : String, ofLines ((lines body).map dropXmlTags) = none ↔
      ∀ line ∈ lines body, OnlyTags line := by
    intro body
    simp only [ofLines_eq_none_iff, List.forall_mem_map, isBlankText_dropXmlTags_iff]
  simp only [ofElement, Option.bind_eq_none_iff, hlines]
  simp

theorem trim_dropXmlTags_eq_empty_iff {s : String} : trim (dropXmlTags s) = "" ↔ OnlyTags s := by
  rw [trim_eq_empty_iff, isBlankText_dropXmlTags_iff]

/-- **Summaries that say something** are found exactly if something is said where they are looked
for. -/
theorem exists_summary_iff {comments : List String} :
    (∃ text, ofXmlComments comments = some text ∧ text ≠ "") ↔ Tells (resolved comments) := by
  rw [ofXmlComments_eq, Tells]
  cases helement : ofElement (resolved comments) with
  | some text =>
    refine iff_of_true ⟨text, rfl, ?_⟩ (Or.inl ?_)
    · obtain ⟨body, -, hbody⟩ := Option.bind_eq_some_iff.mp helement
      exact ofLines_ne_empty hbody
    · by_contra hnone
      rw [ofElement_eq_none_iff.mpr hnone] at helement
      cases helement
  | none =>
    rw [or_iff_right (ofElement_eq_none_iff.mp helement), Option.none_or]
    constructor
    · rintro ⟨text, htext, hne⟩
      obtain ⟨taken, htaken, rfl⟩ := Option.map_eq_some_iff.mp htext
      exact ⟨taken, htaken, mt trim_dropXmlTags_eq_empty_iff.mpr hne⟩
    · rintro ⟨taken, htaken, hsaid⟩
      exact ⟨_, by rw [htaken]; rfl, mt trim_dropXmlTags_eq_empty_iff.mp hsaid⟩

theorem summaryElement?_eq_none {text : String} (h : '<' ∉ text.toList) :
    summaryElement? text = none := by
  have hcut : cut? "<summary>" text = none := by
    rw [cut?]
    exact congrArg (Option.map _) (Chars.cut?_eq_none h)
  rw [summaryElement?, hcut]
  rfl

/-- **No summary** is given exactly if there is nothing but references without a name. -/
theorem ofXmlComments_eq_none_iff {comments : List String} :
    ofXmlComments comments = none ↔ OnlyEmptyReferences (written comments) := by
  have htaken : ofLines (lines (resolved comments)) = none ↔
      isBlankText (resolved comments) = true := by
    rw [ofLines_eq_none_iff, blank_lines_iff]
  rw [ofXmlComments_eq, Option.or_eq_none_iff, Option.map_eq_none_iff, htaken,
    isBlankText_resolved_iff, and_iff_right_iff_imp, ← isBlankText_resolved_iff]
  intro hblank
  have hopen : '<' ∉ (resolved comments).toList := by
    intro hmem
    have hc := List.all_eq_true.mp hblank '<' hmem
    revert hc
    decide
  rw [ofElement, summaryElement?_eq_none hopen]
  rfl

/-! ## What is kept -/

/-- The comments are reduced to nothing only if they are blank. -/
def Kept (comments : List String) : Prop :=
  (ofXmlComments comments = none → ∀ line ∈ dropMarkers comments, isBlankText line = true) ∧
    ofXmlComments comments ≠ some ""

theorem kept_iff {comments : List String} : Kept comments ↔
    (∀ line ∈ dropMarkers comments, isBlankText line = true) ∨ Tells (resolved comments) := by
  rw [← exists_summary_iff]
  constructor
  · rintro ⟨hblank, hne⟩
    cases hsummary : ofXmlComments comments with
    | none => exact Or.inl (hblank hsummary)
    | some text => exact Or.inr ⟨text, rfl, fun hempty => hne (hempty ▸ hsummary)⟩
  · rintro (hblank | ⟨text, htext, hne⟩)
    · have hwritten := List.all_eq_true.mp (isBlankText_written_iff.mpr hblank)
      have hnone := ofXmlComments_eq_none_iff.mpr (Chars.hollow_of_blank hwritten)
      exact ⟨fun _ => hblank, by simp [hnone]⟩
    · exact ⟨by simp [htext], by simpa [htext] using hne⟩

theorem IsRun.mem_text {lines : List String} {i j : Nat} {text : String}
    (h : IsRun lines i j text) {c : Char} (hc : c ∈ text.toList) :
    c = '\n' ∨ ∃ line ∈ lines, c ∈ line.toList := by
  obtain ⟨-, -, -, rfl⟩ := h
  rw [String.toList_intercalate, List.map_map] at hc
  rcases Chars.mem_intercalate hc with hfeed | ⟨part, hpart, hc⟩
  · exact Or.inl (List.mem_singleton.mp hfeed)
  · obtain ⟨line, hline, rfl⟩ := List.mem_map.mp hpart
    rw [Function.comp_apply, trim, String.toList_ofList] at hc
    exact Or.inr ⟨line, List.mem_of_mem_take (List.mem_of_mem_drop hline), Chars.mem_of_mem_trim hc⟩

theorem IsRun.exists_solid {lines : List String} {i j : Nat} {text : String}
    (h : IsRun lines i j text) : ∃ c ∈ text.toList, isBlank c = false := by
  obtain ⟨hlt, hle, hsolid, rfl⟩ := h
  have hlength : 0 < (between lines i j).length := by
    rw [between, List.length_drop, List.length_take]
    omega
  obtain ⟨line, hline⟩ := List.exists_mem_of_length_pos hlength
  obtain ⟨c, hc, hblank⟩ := List.all_eq_false.mp (hsolid line hline)
  rw [Bool.not_eq_true] at hblank
  refine ⟨c, ?_, hblank⟩
  rw [String.toList_intercalate, List.map_map]
  refine Chars.mem_intercalate_of_mem (List.mem_map_of_mem hline) ?_
  rw [Function.comp_apply, trim, String.toList_ofList]
  exact Chars.mem_trim hc hblank

/-- Comments without an angle bracket are kept. -/
theorem kept_of_not_mem {comments : List String} (h : '<' ∉ (written comments).toList) :
    Kept comments := by
  rw [kept_iff, or_iff_not_imp_left]
  intro hsolid
  have hsame : resolved comments = written comments := by
    rw [resolved, recognises_references.substitute_eq_self h, String.ofList_toList]
  rw [hsame]
  cases htaken : ofLines (lines (written comments)) with
  | none =>
    rw [ofLines_eq_none_iff, blank_lines_iff, isBlankText_written_iff] at htaken
    exact absurd htaken hsolid
  | some taken =>
    refine Or.inr ⟨taken, htaken, fun htags => ?_⟩
    obtain ⟨i, j, hrun⟩ := exists_isRun htaken
    have hopen : '<' ∉ taken.toList := by
      intro hmem
      rcases hrun.mem_text hmem with hfeed | ⟨line, hline, hc⟩
      · exact absurd hfeed (by decide)
      · exact h (mem_of_mem_lines hline hc)
    obtain ⟨c, hc, hblank⟩ := hrun.exists_solid
    rw [recognises_tags.blank_of_hollow htags hopen c hc] at hblank
    cases hblank

/-- A tag line with a description has more than tags. -/
theorem not_onlyTags_of_hasDescription {line : String} (htag : isTagLine (trim line) = true)
    (hdescribed : hasDescription (trim line) = true) : ¬ OnlyTags (trim line) := by
  intro honly
  cases hopen : startsWith "<" (trim line) with
  | true =>
    rw [hasDescription, if_pos hopen, isBlankText_dropXmlTags_iff.mpr honly] at hdescribed
    cases hdescribed
  | false =>
    cases hchars : (trim line).toList with
    | nil =>
      rw [String.toList_eq_nil_iff.mp hchars, isTagLine_empty] at htag
      cases htag
    | cons c cs =>
      rw [OnlyTags, hchars] at honly
      rcases recognises_tags.head_of_hollow honly with hblank | rfl
      · have hfirst : (Chars.trim line.toList).head? = some c := by
          rw [← String.toList_ofList (l := Chars.trim line.toList), ← trim, hchars]
          rfl
        rw [Chars.head?_trim hfirst] at hblank
        cases hblank
      · rw [startsWith, hchars] at hopen
        simp at hopen

/-- Comments without prose at the front are kept if a tag line has a description. -/
theorem kept_of_hasDescription {comments : List String}
    (hprose : startsProse ((lines (resolved comments)).dropWhile isBlankText) = false)
    (h : ∃ line ∈ lines (resolved comments),
      isTagLine (trim line) = true ∧ hasDescription (trim line) = true) : Kept comments := by
  obtain ⟨line, hline, htag, hdescribed⟩ := h
  have hfound : (((lines (resolved comments)).map trim).find? fun line =>
      isTagLine line && hasDescription line).isSome = true := by
    rw [List.find?_isSome]
    exact ⟨trim line, List.mem_map_of_mem hline, by simp [htag, hdescribed]⟩
  obtain ⟨taken, htaken⟩ := Option.isSome_iff_exists.mp hfound
  obtain ⟨first, -, rfl⟩ := List.mem_map.mp (List.mem_of_find?_eq_some htaken)
  have hboth := List.find?_some htaken
  rw [Bool.and_eq_true] at hboth
  refine kept_iff.mpr (Or.inr (Or.inr ⟨trim first, ?_, ?_⟩))
  · rw [ofLines_of_not_startsProse hprose, standIn?, htaken]
    rfl
  · exact not_onlyTags_of_hasDescription hboth.1 hboth.2

/-- **What is kept of XML comments.** They are reduced to nothing only if they are blank, or if
nothing is said in the summary element nor in what is taken from the whole text. There is no summary
if there is nothing but references without a name. Comments without an angle bracket are kept, and
so are those without prose at the front that describe something. -/
theorem xml_comment_kept_iff (comments : List String) :
    (Kept comments ↔ (∀ line ∈ dropMarkers comments, isBlankText line = true) ∨
      Tells (resolved comments)) ∧
    (ofXmlComments comments = none ↔ OnlyEmptyReferences (written comments)) ∧
    ('<' ∉ (written comments).toList → Kept comments) ∧
    (startsProse ((lines (resolved comments)).dropWhile isBlankText) = false →
      (∃ line ∈ lines (resolved comments),
        isTagLine (trim line) = true ∧ hasDescription (trim line) = true) → Kept comments) :=
  ⟨kept_iff, ofXmlComments_eq_none_iff, kept_of_not_mem, kept_of_hasDescription⟩

/-- One element that is described and one that is not. -/
def describedElement : List String := ["/// <returns></returns>", "/// <remarks>R</remarks>"]

theorem kept_describedElement :
    startsProse ((lines (resolved describedElement)).dropWhile isBlankText) = false ∧
    (∃ line ∈ lines (resolved describedElement),
      isTagLine (trim line) = true ∧ hasDescription (trim line) = true) ∧
    Kept describedElement ∧ ofXmlComments describedElement = some "R" := by
  have hfixed : startsProse ((lines (resolved describedElement)).dropWhile isBlankText) = false ∧
      (∃ line ∈ lines (resolved describedElement),
        isTagLine (trim line) = true ∧ hasDescription (trim line) = true) ∧
      ofXmlComments describedElement = some "R" := by decide +kernel
  obtain ⟨hprose, hdescribed, hsummary⟩ := hfixed
  have hkept := (xml_comment_kept_iff describedElement).2.2.2 hprose hdescribed
  exact ⟨hprose, hdescribed, hkept, hsummary⟩

/-- A comment that is one tag is reduced to nothing, and so is one whose summary element is empty
although another element says something. A reference without a name has no summary at all. -/
theorem xml_comment_lost :
    ofXmlComments ["/// <inheritdoc/>"] = some "" ∧ ¬ Kept ["/// <inheritdoc/>"] ∧
    ¬ Kept ["/// <summary>  </summary>", "/// <remarks>R</remarks>"] ∧
    ¬ Kept ["/// <see cref=\"\"/>"] := by
  have hfixed : ofXmlComments ["/// <inheritdoc/>"] = some "" ∧
      ofXmlComments ["/// <summary>  </summary>", "/// <remarks>R</remarks>"] = some "" ∧
      ofXmlComments ["/// <see cref=\"\"/>"] = none ∧
      ¬ ∀ line ∈ dropMarkers ["/// <see cref=\"\"/>"], isBlankText line = true := by decide +kernel
  obtain ⟨htag, helement, hreference, hsolid⟩ := hfixed
  exact ⟨htag, fun h => h.2 htag, fun h => h.2 helement, fun h => hsolid (h.1 hreference)⟩

end Summary

end CodeOutline
