import CodeOutline.Proofs.Edges

/-!
# What a call shows of its target

A call site either names its target or says that the target is computed. A text *has a name* when
something is left of it once type arguments, blanks and leading separators are taken away.

`CallSite.Describes` says what every recognised call has in common, whatever the language: its kind
is that of a computed target just if there is no callee, its callee is not empty if the part of the
call that names the target has a name, and its arguments are counted in a child of the call.
-/

namespace CodeOutline

/-! ## Texts with a name -/

namespace Chars

open Text (isBlank)

theorem mem_dropWhile {p : Char → Bool} {cs : List Char} {c : Char} (hc : c ∈ cs)
    (hp : p c = false) : c ∈ cs.dropWhile p := by
  rw [← List.takeWhile_append_dropWhile (p := p) (l := cs)] at hc
  rcases List.mem_append.mp hc with htaken | hdropped
  · simp [List.mem_takeWhile_imp htaken] at hp
  · exact hdropped

theorem mem_dropEndWhile {p : Char → Bool} {cs : List Char} {c : Char} (hc : c ∈ cs)
    (hp : p c = false) : c ∈ dropEndWhile p cs :=
  List.mem_reverse.mpr (mem_dropWhile (List.mem_reverse.mpr hc) hp)

theorem mem_trim {cs : List Char} {c : Char} (hc : c ∈ cs) (hblank : isBlank c = false) :
    c ∈ trim cs :=
  mem_dropEndWhile (mem_dropWhile hc hblank) hblank

theorem outsideBrackets_subset (depth : Nat) (cs : List Char) : outsideBrackets depth cs ⊆ cs := by
  induction cs generalizing depth with
  | nil => simp [outsideBrackets]
  | cons d cs ih =>
    intro c hc
    rw [outsideBrackets] at hc
    split_ifs at hc with hopener hcloser hdepth
    · exact List.mem_cons_of_mem d (ih _ hc)
    · exact List.mem_cons_of_mem d (ih _ hc)
    · exact List.cons_subset_cons d (ih 0) hc
    · exact List.mem_cons_of_mem d (ih _ hc)

end Chars

namespace Text

/-- Something of the text stands outside all brackets that is neither a blank nor a backslash. -/
def HasName (s : String) : Prop :=
  ∃ c ∈ Chars.outsideBrackets 0 s.toList, isBlank c = false ∧ c ≠ '\\'

instance (s : String) : Decidable (HasName s) :=
  inferInstanceAs (Decidable (∃ c ∈ Chars.outsideBrackets 0 s.toList, _))

variable {s : String}

theorem ne_empty_of_mem {c : Char} (hc : c ∈ s.toList) : s ≠ "" := by
  rintro rfl
  simp at hc

theorem HasName.ne_empty (h : HasName s) : s ≠ "" := by
  obtain ⟨c, hc, _⟩ := h
  exact ne_empty_of_mem (Chars.outsideBrackets_subset 0 _ hc)

/-- A name is not lost with the type arguments. -/
theorem HasName.dropTypeArguments_ne_empty (h : HasName s) : dropTypeArguments s ≠ "" := by
  obtain ⟨c, hc, hblank, _⟩ := h
  apply ne_empty_of_mem (c := c)
  simpa [dropTypeArguments, trim] using Chars.mem_trim hc hblank

/-- A name is not lost with the separators in front of it. -/
theorem HasName.dropStart_ne_empty (h : HasName s) : dropStart ['\\'] s ≠ "" := by
  obtain ⟨c, hc, _, hslash⟩ := h
  apply ne_empty_of_mem (c := c)
  have hdropped := Chars.mem_dropWhile (p := fun c => c ∈ ['\\'])
    (Chars.outsideBrackets_subset 0 _ hc) (by simpa using hslash)
  simpa [dropStart] using hdropped

end Text

/-! ## Call sites -/

namespace CallSite

theorem memberKind_ne_dynamic (selfWords : List String) (receiver : String) :
    memberKind selfWords receiver ≠ .dynamic := by
  simp only [memberKind]
  split_ifs <;> simp

/-- The arguments are counted in a child of the node, if it has a child for them. -/
def Counts (t : Tree) (arguments : Nat) : Prop :=
  ∃ list : Option Tree, arguments = countArguments list ∧ ∀ s ∈ list, s ∈ t.children

theorem counts_field? (t : Tree) (role : String) : Counts t (countArguments (t.field? role)) :=
  ⟨t.field? role, rfl, fun _ hs => List.mem_of_find?_eq_some hs⟩

theorem counts_ofKind? (t : Tree) (kind : String) : Counts t (countArguments (t.ofKind? kind)) :=
  ⟨t.ofKind? kind, rfl, fun _ hs => List.mem_of_find?_eq_some hs⟩

/-- What a site says of the call at a node, given the part of the call that names its target. -/
structure Describes (src : String) (t : Tree) (part : Option Tree) (site : CallSite) : Prop where
  dynamic_iff : site.kind = .dynamic ↔ site.callee = none
  named : (∀ s ∈ part, Text.HasName (s.text src)) → site.callee ≠ some ""
  counts : Counts t site.arguments

namespace Describes

variable {src : String} {t : Tree} {part : Option Tree} {arguments : Nat}

theorem dynamic (hcounts : Counts t arguments) :
    (CallSite.dynamic arguments).Describes src t part :=
  ⟨by simp [CallSite.dynamic], by simp [CallSite.dynamic], hcounts⟩

theorem direct {callee : String} {kind : CallKind} (hkind : kind ≠ .dynamic)
    (hnamed : (∀ s ∈ part, Text.HasName (s.text src)) → callee ≠ "")
    (hcounts : Counts t arguments) :
    (CallSite.direct callee kind arguments).Describes src t part :=
  ⟨by simp [CallSite.direct, hkind], by simpa [CallSite.direct] using hnamed, hcounts⟩

end Describes

end CallSite

end CodeOutline
