import CodeOutline.Outliner
import CodeOutline.Proofs.Depth

/-!
# When a text has no outline

Outlining a text goes through a row of checks, of which each can end it early. The result is always
an outline, and it is one of two kinds. Either it holds an error and nothing else, or it holds no
error and all that the dialect of its language finds.

**Theorem (`outlineSource_outcome`).** There is an error exactly if no language goes by the name, or
the text is too long, or it shows something and its tree is *unusable*: the root is an `ERROR` node,
some node lies more than 512 levels below it, or too much of the text is damaged.

Each check has a lemma that says when it lets a text pass, and the theorem joins them. The depth
comes from a walk with a limit, so that check rests on `nesting_eq_min`.
-/

namespace CodeOutline

/-! ## Order marks -/

namespace Outliner

/-- `src` is the text after the one order mark at its front, or all of it if there is none. -/
def Unmarked (text src : String) : Prop :=
  text = "\ufeff" ++ src ∨ text.toList.head? ≠ some '\ufeff' ∧ src = text

theorem unmarked_dropOrderMark (text : String) : Unmarked text (dropOrderMark text) := by
  have hmark : "\ufeff".toList = ['\ufeff'] := rfl
  cases hchars : text.toList with
  | nil =>
    refine Or.inr ⟨by simp [hchars], ?_⟩
    rw [dropOrderMark, Text.afterStart?, hmark, hchars]
    rfl
  | cons c rest =>
    by_cases hc : '\ufeff' = c
    · refine Or.inl (String.toList_injective ?_)
      have hdrop : dropOrderMark text = String.ofList rest := by
        rw [dropOrderMark, Text.afterStart?, hmark, hchars, Chars.after?, if_pos hc]
        rfl
      rw [hdrop, String.toList_append, hmark, String.toList_ofList, hchars, hc]
      rfl
    · refine Or.inr ⟨by simpa [hchars] using Ne.symm hc, ?_⟩
      rw [dropOrderMark, Text.afterStart?, hmark, hchars, Chars.after?, if_neg hc]
      rfl

end Outliner

/-! ## Usable trees -/

theorem Text.isBlankText_eq_false_iff {s : String} :
    isBlankText s = false ↔ ∃ c ∈ s.toList, isBlank c = false := by
  rw [isBlankText, List.all_eq_false]
  simp

namespace Tree

/-- The source shows something, and the tree as a whole is of no use for it. -/
structure Unusable (t : Tree) (src : String) (ratio : Float) : Prop where
  shown : ∃ c ∈ src.toList, Text.isBlank c = false
  faulty : t.isError = true ∨ (∃ n s, 512 < n ∧ s ∈ t.level n) ∨
    ratio * src.utf8ByteSize.toFloat < t.damage.weight.toFloat

theorem maxNesting_lt_nesting_iff {t : Tree} :
    Rejection.maxNesting < t.nesting Rejection.maxNesting ↔ ∃ n s, 512 < n ∧ s ∈ t.level n := by
  rw [nesting_eq_min, ← lt_height_iff, Rejection.maxNesting]
  omega

/-- A tree is refused exactly if it is unusable. -/
theorem exists_assess_eq_error_iff {t : Tree} {src : String} {ratio : Float} :
    (∃ rejection, t.assess src ratio = .error rejection) ↔ t.Unusable src ratio := by
  rw [assess]
  by_cases hblank : Text.isBlankText src = true
  · rw [if_pos hblank]
    constructor
    · rintro ⟨rejection, h⟩
      cases h
    · intro h
      rw [Text.isBlankText_eq_false_iff.mpr h.shown] at hblank
      cases hblank
  have hshown := Text.isBlankText_eq_false_iff.mp (by simpa using hblank)
  rw [if_neg hblank]
  by_cases herror : t.isError = true
  · rw [if_pos herror]
    exact ⟨fun _ => ⟨hshown, Or.inl herror⟩, fun _ => ⟨_, rfl⟩⟩
  rw [if_neg herror]
  by_cases hdeep : Rejection.maxNesting < t.nesting Rejection.maxNesting
  · rw [if_pos hdeep]
    exact ⟨fun _ => ⟨hshown, Or.inr (Or.inl (maxNesting_lt_nesting_iff.mp hdeep))⟩,
      fun _ => ⟨_, rfl⟩⟩
  rw [if_neg hdeep]
  by_cases hdamage : ratio * src.utf8ByteSize.toFloat < t.damage.weight.toFloat
  · rw [if_pos hdamage]
    exact ⟨fun _ => ⟨hshown, Or.inr (Or.inr hdamage)⟩, fun _ => ⟨_, rfl⟩⟩
  · rw [if_neg hdamage]
    constructor
    · rintro ⟨rejection, h⟩
      cases h
    · intro h
      rcases h.faulty with h | h | h
      · exact absurd h herror
      · exact absurd (maxNesting_lt_nesting_iff.mpr h) hdeep
      · exact absurd h hdamage

end Tree

/-! ## Outlines -/

/-- The outline says why there is none, and holds nothing else. -/
structure Outline.Failed (o : Outline) : Prop where
  error : o.error.isSome = true
  contents : o.contents = {}
  lineCount : o.lineCount = 0

theorem Outline.failed_failed (path language : String) (failure : Failure) :
    (Outline.failed path language failure).Failed := ⟨rfl, rfl, rfl⟩

namespace Outliner

variable {o : Outliner} {l : Language} {path source src id : String} {root : Tree}

theorem contents_of_grammar (hroot : o.grammar l src = .ok root) :
    o.contents l src =
      match root.assess src (o.settings.errorRatio l) with
      | .error rejection => .error (.malformed rejection.message)
      | .ok _ => .ok (l.contents src root) := by
  rw [contents, hroot]
  rfl

theorem outlineText_of_unusable (hroot : o.grammar l src = .ok root)
    (h : root.Unusable src (o.settings.errorRatio l)) : (o.outlineText path l src).Failed := by
  obtain ⟨rejection, hassess⟩ := Tree.exists_assess_eq_error_iff.mpr h
  rw [outlineText, contents_of_grammar hroot, hassess]
  exact Outline.failed_failed ..

theorem outlineText_of_usable (hroot : o.grammar l src = .ok root)
    (h : ¬ root.Unusable src (o.settings.errorRatio l)) : o.outlineText path l src =
      { path, language := l.name, contents := l.contents src root
        lineCount := (Text.lines src).length } := by
  rw [outlineText, contents_of_grammar hroot]
  cases hassess : root.assess src (o.settings.errorRatio l) with
  | error rejection => exact absurd (Tree.exists_assess_eq_error_iff.mp ⟨rejection, hassess⟩) h
  | ok damage => rfl

theorem outlineSource_of_ofName?_eq_none (hl : Language.ofName? id = none) :
    (o.outlineSource path source id).Failed := by
  rw [outlineSource, hl]
  exact Outline.failed_failed ..

theorem outlineSource_of_lt (hsize : o.settings.maxFileBytes < source.utf8ByteSize) :
    (o.outlineSource path source id).Failed := by
  rw [outlineSource]
  split
  · exact Outline.failed_failed ..
  · rw [if_pos hsize]
    exact Outline.failed_failed ..

theorem outlineSource_of_le (hl : Language.ofName? id = some l)
    (hsize : source.utf8ByteSize ≤ o.settings.maxFileBytes) :
    o.outlineSource path source id = o.outlineText path l (dropOrderMark source) := by
  rw [outlineSource, hl]
  exact if_neg (Nat.not_lt.mpr hsize)

/-- An outline without an error holds what is found in the tree. -/
theorem outlineSource_of_error_eq_none (hl : Language.ofName? id = some l)
    (hroot : o.grammar l (dropOrderMark source) = .ok root)
    (hok : (o.outlineSource path source id).error = none) : o.outlineSource path source id =
      { path, language := l.name, contents := l.contents (dropOrderMark source) root
        lineCount := (Text.lines (dropOrderMark source)).length } := by
  have hsuccess : ¬ (o.outlineSource path source id).Failed := by
    intro hfailed
    have herror := hfailed.error
    rw [hok] at herror
    cases herror
  by_cases hsize : o.settings.maxFileBytes < source.utf8ByteSize
  · exact absurd (outlineSource_of_lt hsize) hsuccess
  have htext : o.outlineSource path source id = o.outlineText path l (dropOrderMark source) :=
    outlineSource_of_le hl (Nat.not_lt.mp hsize)
  rw [htext] at hsuccess ⊢
  exact outlineText_of_usable hroot fun h => hsuccess (outlineText_of_unusable hroot h)

end Outliner

open Outliner

/-- **Outcomes.** With grammars that give a tree for every text, an outline has failed, or it holds
what is found in the text without its order mark. It has failed exactly if no language goes by the
name, the text is too long, or its tree is unusable. -/
theorem outlineSource_outcome (trees : Language → String → Tree) (settings : Settings)
    (path source id : String) :
    let o : Outliner := { grammar := fun l src => .ok (trees l src), settings }
    let outline := o.outlineSource path source id
    ∃ src, Unmarked source src ∧
      (outline.Failed ∨ ∃ l, Language.ofName? id = some l ∧ outline =
        { path, language := l.name, contents := l.contents src (trees l src), error := none
          lineCount := (Text.lines src).length }) ∧
      (outline.Failed ↔ Language.ofName? id = none ∨
        settings.maxFileBytes < source.utf8ByteSize ∨
        ∃ l, Language.ofName? id = some l ∧
          (trees l src).Unusable src (settings.maxErrorRatio.getD l.errorRatio)) := by
  intro o outline
  refine ⟨dropOrderMark source, unmarked_dropOrderMark source, ?_⟩
  cases hl : Language.ofName? id with
  | none =>
    have hfailed : outline.Failed := outlineSource_of_ofName?_eq_none hl
    exact ⟨Or.inl hfailed, fun _ => Or.inl rfl, fun _ => hfailed⟩
  | some l =>
    by_cases hsize : settings.maxFileBytes < source.utf8ByteSize
    · have hfailed : outline.Failed := outlineSource_of_lt hsize
      exact ⟨Or.inl hfailed, fun _ => Or.inr (Or.inl hsize), fun _ => hfailed⟩
    have hroot : o.grammar l (dropOrderMark source) = .ok (trees l (dropOrderMark source)) := rfl
    have htext : outline = o.outlineText path l (dropOrderMark source) :=
      outlineSource_of_le hl (Nat.not_lt.mp hsize)
    by_cases hunusable : (trees l (dropOrderMark source)).Unusable (dropOrderMark source)
        (settings.maxErrorRatio.getD l.errorRatio)
    · have hfailed : outline.Failed := htext ▸ outlineText_of_unusable hroot hunusable
      exact ⟨Or.inl hfailed, fun _ => Or.inr (Or.inr ⟨l, rfl, hunusable⟩), fun _ => hfailed⟩
    · have hok := htext.trans (outlineText_of_usable hroot hunusable)
      refine ⟨Or.inr ⟨l, rfl, hok⟩, fun hfailed => ?_, fun h => ?_⟩
      · have herror := hfailed.error
        rw [hok] at herror
        cases herror
      · rcases h with h | h | ⟨m, hm, h⟩
        · cases h
        · exact absurd h hsize
        · cases hm
          exact absurd h hunusable

end CodeOutline
