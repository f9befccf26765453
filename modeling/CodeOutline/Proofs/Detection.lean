import CodeOutline.Proofs.Names.Bindings
import CodeOutline.Settings.Basic
import Mathlib.Data.List.Forall2

/-!
# Languages of files by their extensions

Extensions and names of languages are brought to small letters in several places: when settings are
put in normal form, when the extension of a path is taken, and when a language is looked up.

**Theorem (`detect_by_extension`).** If settings in normal form pass the check, an extension that is
set there decides the language of a file, and one that is not set is looked up among those of the
languages. An entry as it is written takes effect for each extension with the same small form,
unless another entry comes to have its key.

Texts with the same letters have the same small form as long as there is no capital sigma in them.
The small form of that letter depends on where it stands, so an entry for `ασ` does not take effect
for `ΑΣ`, which becomes `ας` (`detect_finalSigma`).
-/

namespace CodeOutline

/-! ## Small letters -/

namespace Text

/-- The texts agree letter by letter, but for case. -/
def SameLetters (s t : String) : Prop :=
  List.Forall₂ (fun c d => lowerChar c = lowerChar d) s.toList t.toList

/-- No letter of the text has a small form that depends on where it stands. -/
def SigmaFree (s : String) : Prop := ∀ c ∈ s.toList, isCapitalSigma c = false

theorem lowerAfter_eq_flatMap (before : List Char) {cs : List Char}
    (h : ∀ c ∈ cs, isCapitalSigma c = false) : lowerAfter before cs = cs.flatMap lowerChar := by
  induction cs generalizing before with
  | nil => rfl
  | cons c cs ih =>
    have hrest : ∀ d ∈ cs, isCapitalSigma d = false := fun d hd => h d (List.mem_cons_of_mem c hd)
    simp [lowerAfter, h c List.mem_cons_self, ih _ hrest]

theorem SameLetters.flatMap_eq {s t : String} (h : SameLetters s t) :
    s.toList.flatMap lowerChar = t.toList.flatMap lowerChar := by
  have hall : ∀ {cs ds : List Char}, List.Forall₂ (fun c d => lowerChar c = lowerChar d) cs ds →
      cs.flatMap lowerChar = ds.flatMap lowerChar := by
    intro cs ds h
    induction h with
    | nil => rfl
    | cons hletter _ ih => simp [hletter, ih]
  exact hall h

theorem SameLetters.lowercase_eq {s t : String} (h : SameLetters s t) (hs : SigmaFree s)
    (ht : SigmaFree t) : lowercase s = lowercase t := by
  rw [lowercase, lowercase, lowerAfter_eq_flatMap [] hs, lowerAfter_eq_flatMap [] ht, h.flatMap_eq]

end Text

/-! ## Names of languages -/

namespace Language

theorem lowercase_trim_of_mem_identifiers {id : String} (h : id ∈ identifiers) :
    Text.lowercase (Text.trim id) = id := by
  have hall : ∀ id ∈ identifiers, Text.lowercase (Text.trim id) = id := by decide +kernel
  exact hall id h

/-- What settings may use names a language. -/
theorem exists_ofName? {id : String} (h : id ∈ identifiers) : ∃ l, ofName? id = some l := by
  have hall : ∀ id ∈ identifiers, (ofName? id).isSome = true := by decide +kernel
  exact Option.isSome_iff_exists.mp (hall id h)

/-- A name stands for what its normal form stands for. -/
theorem ofName?_lowercase_trim {id : String} (h : Text.lowercase (Text.trim id) ∈ identifiers) :
    ofName? (Text.lowercase (Text.trim id)) = ofName? id := by
  simp only [ofName?, lowercase_trim_of_mem_identifiers h]

end Language

/-! ## Settings -/

namespace Settings

variable {s : Settings} {path extension : String}

/-- The key that an extension has in normal form. -/
def normalKey (extension : String) : String :=
  Text.lowercase (Text.dropStart ['.'] extension)

theorem mem_identifiers_of_fault? (h : s.fault? = none) {e : String × String}
    (he : e ∈ s.extensions.entries) : e.2 ∈ Language.identifiers := by
  unfold fault? at h
  split at h
  · cases h
  · split at h
    · cases h
    · have hnone := List.find?_eq_none.mp (Option.map_eq_none_iff.mp h) e he
      simpa using hnone

theorem mem_of_get? {d : Dictionary} {key value : String} (h : d.get? key = some value) :
    ∃ e ∈ d.entries, e.2 = value := by
  obtain ⟨e, he, hvalue⟩ := Option.map_eq_some_iff.mp h
  exact ⟨e, List.mem_of_find?_eq_some he, hvalue⟩

theorem named_of_ofName? {id : String} {l : Language} (h : Language.ofName? id = some l) :
    named id = .ok l := by
  unfold named
  rw [h]

/-- An extension that is set decides the language. -/
theorem detect_of_get? (hfault : s.fault? = none) (hpath : Path.extension? path = some extension)
    {id : String} (hget : s.extensions.get? (Text.lowercase extension) = some id) :
    ∃ l, Language.ofName? id = some l ∧ s.detect path none = .ok l := by
  obtain ⟨e, he, rfl⟩ := mem_of_get? hget
  obtain ⟨l, hl⟩ := Language.exists_ofName? (mem_identifiers_of_fault? hfault he)
  refine ⟨l, hl, ?_⟩
  simp [detect, hpath, hget, named_of_ofName? hl]

theorem toOption_detect_of_get? (hpath : Path.extension? path = some extension)
    (hget : s.extensions.get? (Text.lowercase extension) = none) :
    (s.detect path none).toOption = Language.ofExtension? (Text.lowercase extension) := by
  cases hl : Language.ofExtension? (Text.lowercase extension) with
  | none => simp [detect, hpath, hget, hl, Except.toOption]
  | some l => simp [detect, hpath, hget, hl, Except.toOption]

/-- No other entry comes to have the key of this one. -/
def Alone (s : Settings) (e : String × String) : Prop :=
  ∀ other ∈ s.extensions.entries, other.1 ≠ e.1 → normalKey other.1 ≠ normalKey e.1

theorem alone_of_entries_eq_singleton {e : String × String} (h : s.extensions.entries = [e]) :
    s.Alone e := by
  intro other hother hne
  rw [h, List.mem_singleton] at hother
  exact absurd (congrArg Prod.fst hother) hne

/-- An entry stands in the normal form if no other comes to have its key. -/
theorem get?_normalize {e : String × String} (he : e ∈ s.extensions.entries) (halone : s.Alone e) :
    s.normalize.extensions.get? (normalKey e.1) = some (Text.lowercase (Text.trim e.2)) := by
  obtain ⟨before, after, hentries⟩ := List.append_of_mem he
  refine Dictionary.get?_ofList_eq_some_iff.mpr
    ⟨before.map fun e => normalEntry e.1 e.2, after.map fun e => normalEntry e.1 e.2, ?_, ?_⟩
  · rw [hentries, List.map_append, List.map_cons]
    rfl
  · intro later hlater
    obtain ⟨other, hother, rfl⟩ := List.mem_map.mp hlater
    apply halone other (by simp [hentries, hother])
    -- The keys increase, so that of a later entry is another one.
    have hincreasing := s.extensions.increasing
    rw [hentries, Increasing, List.pairwise_append, List.pairwise_cons] at hincreasing
    intro heq
    exact String.lt_irrefl e.1 (heq ▸ hincreasing.2.1.1 other hother)

/-- An entry takes effect for each extension with the same small form. -/
theorem detect_of_mem (hfault : s.normalize.fault? = none)
    (hpath : Path.extension? path = some extension) {e : String × String}
    (he : e ∈ s.extensions.entries) (halone : s.Alone e)
    (hkey : Text.lowercase extension = normalKey e.1) :
    ∃ l, Language.ofName? e.2 = some l ∧ s.normalize.detect path none = .ok l := by
  have hget := get?_normalize he halone
  obtain ⟨entry, hentry, hvalue⟩ := mem_of_get? hget
  have hid := mem_identifiers_of_fault? hfault hentry
  rw [hvalue] at hid
  rw [← hkey] at hget
  obtain ⟨l, hl, hdetect⟩ := detect_of_get? hfault hpath hget
  exact ⟨l, Language.ofName?_lowercase_trim hid ▸ hl, hdetect⟩

end Settings

open Settings

/-- **Detection by extension.** Take settings whose normal form passes the check, and a path with an
extension. If the small form of the extension is set, the language is the one set for it. If it is
not, the language is the one whose extension it is, if there is one. An entry as it is written,
whose key no other comes to have, takes effect if the extension has the same small form as that of
the entry without its dots, and so if the two have the same letters and no capital sigma. -/
theorem detect_by_extension (s : Settings) (hfault : s.normalize.fault? = none)
    {path extension : String} (hpath : Path.extension? path = some extension) :
    (∀ id, s.normalize.extensions.get? (Text.lowercase extension) = some id →
      ∃ l, Language.ofName? id = some l ∧ s.normalize.detect path none = .ok l) ∧
    (s.normalize.extensions.get? (Text.lowercase extension) = none →
      (s.normalize.detect path none).toOption =
        Language.ofExtension? (Text.lowercase extension)) ∧
    ∀ e ∈ s.extensions.entries, s.Alone e →
      (Text.lowercase extension = normalKey e.1 ∨
        Text.SameLetters extension (Text.dropStart ['.'] e.1) ∧ Text.SigmaFree extension ∧
          Text.SigmaFree (Text.dropStart ['.'] e.1)) →
      ∃ l, Language.ofName? e.2 = some l ∧ s.normalize.detect path none = .ok l := by
  refine ⟨fun id hget => detect_of_get? hfault hpath hget,
    fun hget => toOption_detect_of_get? hpath hget, fun e he halone hsame => ?_⟩
  apply detect_of_mem hfault hpath he halone
  rcases hsame with hkey | ⟨hletters, hextension, hentry⟩
  · exact hkey
  · exact hletters.lowercase_eq hextension hentry

/-- An entry with a dot, capitals and blanks takes effect. -/
theorem detect_dottedEntry :
    let s : Settings := { extensions := Dictionary.ofList [(".PyW", " Python ")] }
    s.normalize.fault? = none ∧ Path.extension? "dir/a.pYw" = some "pYw" ∧
      s.normalize.detect "dir/a.pYw" none = .ok .python := by
  intro s
  have hfault : s.normalize.fault? = none := Option.isNone_iff_eq_none.mp (by decide +kernel)
  have hpath : Path.extension? "dir/a.pYw" = some "pYw" := by decide +kernel
  have hentries : s.extensions.entries = [(".PyW", " Python ")] := rfl
  obtain ⟨l, hl, hdetect⟩ := (detect_by_extension s hfault hpath).2.2 (".PyW", " Python ")
    (hentries ▸ List.mem_singleton_self _) (alone_of_entries_eq_singleton hentries)
    (.inl (by decide +kernel))
  have hpython : Language.ofName? " Python " = some .python := by decide +kernel
  cases hpython.symm.trans hl
  exact ⟨hfault, hpath, hdetect⟩

/-- An entry may not take effect for an extension with the same letters. -/
theorem detect_finalSigma :
    ¬ ∀ (s : Settings), s.normalize.fault? = none →
      ∀ path extension, Path.extension? path = some extension →
      ∀ e ∈ s.extensions.entries, s.Alone e →
        Text.SameLetters extension (Text.dropStart ['.'] e.1) →
        ∃ l, Language.ofName? e.2 = some l ∧ s.normalize.detect path none = .ok l := by
  intro hall
  let s : Settings := { extensions := Dictionary.ofList [("ασ", "python")] }
  have hentries : s.extensions.entries = [("ασ", "python")] := rfl
  have hletters : Text.SameLetters "ΑΣ" (Text.dropStart ['.'] "ασ") :=
    .cons (by decide +kernel) (.cons (by decide +kernel) .nil)
  obtain ⟨l, _, hdetect⟩ := hall s (Option.isNone_iff_eq_none.mp (by decide +kernel)) "x.ΑΣ" "ΑΣ"
    (by decide +kernel) ("ασ", "python") (hentries ▸ List.mem_singleton_self _)
    (alone_of_entries_eq_singleton hentries) hletters
  have hnone : (s.normalize.detect "x.ΑΣ" none).toOption = none := by decide +kernel
  rw [hdetect] at hnone
  cases hnone

end CodeOutline
