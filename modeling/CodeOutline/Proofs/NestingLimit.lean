import CodeOutline.Proofs.Outcomes
import Mathlib.Order.Bounds.Basic

/-!
# The limit of nesting

How deep a tree is nested is found by a walk that turns back below its limit, so that a tree of any
depth is measured without going all the way down. The walk still visits the first level below the
limit, which is what it takes to tell trees that reach the limit from those that go beyond it.

**Theorem (`nesting_up_to_limit`).** The measure is the depth of the deepest node, or one more than
the limit if that is less. So it is above the limit just if some node lies deeper than that, and
then the tree is refused. The two checks that come before go first: a blank source is accepted with
any tree, and a tree whose root is an `ERROR` node is refused for that. What is handed to a dialect
for a source that shows something is never nested deeper than the limit.
-/

namespace CodeOutline

namespace Tree

variable {t : Tree}

/-- The height of a tree is the depth of its deepest node. -/
theorem isGreatest_height (t : Tree) : IsGreatest {n | ∃ s, s ∈ t.level n} t.height :=
  ⟨exists_mem_level_iff.mpr (Nat.le_refl _), fun _ hn => exists_mem_level_iff.mp hn⟩

theorem height_of_children_eq_nil (h : t.children = []) : t.height = 0 := by
  rw [height_eq_heights, h, heights]

/-- The measure is above its limit just if some node lies deeper. -/
theorem lt_nesting_iff {limit : Nat} :
    limit < t.nesting limit ↔ ∃ n s, limit < n ∧ s ∈ t.level n := by
  rw [nesting_eq_min, ← lt_height_iff]
  omega

/-- A tree is refused for its nesting if it is too deep and nothing else decides before. -/
theorem assess_eq_tooDeep_iff {src : String} {ratio : Float} :
    t.assess src ratio = .error .tooDeep ↔
      (∃ c ∈ src.toList, Text.isBlank c = false) ∧ t.isError = false ∧
        ∃ n s, Rejection.maxNesting < n ∧ s ∈ t.level n := by
  rw [← Text.isBlankText_eq_false_iff, ← lt_nesting_iff, assess]
  cases hblank : Text.isBlankText src with
  | true => simp
  | false =>
    cases herror : t.isError with
    | true => simp
    | false =>
      by_cases hdeep : Rejection.maxNesting < t.nesting Rejection.maxNesting
      · simp [hdeep]
      · simp only [Bool.false_eq_true, if_false, if_neg hdeep]
        split <;> simp [hdeep]

end Tree

namespace Outliner

variable {o : Outliner} {l : Language} {src : String} {root : Tree} {contents : Contents}

/-- What a file holds is found in a tree that has been accepted. -/
theorem accepted_of_contents_eq_ok (hroot : o.grammar l src = .ok root)
    (h : o.contents l src = .ok contents) :
    ¬ root.Unusable src (o.settings.errorRatio l) ∧ contents = l.contents src root := by
  rw [contents_of_grammar hroot] at h
  cases hassess : root.assess src (o.settings.errorRatio l) with
  | error rejection =>
    rw [hassess] at h
    cases h
  | ok damage =>
    rw [hassess] at h
    refine ⟨fun hunusable => ?_, (Except.ok.inj h).symm⟩
    obtain ⟨rejection, hrejected⟩ := Tree.exists_assess_eq_error_iff.mpr hunusable
    rw [hassess] at hrejected
    cases hrejected

end Outliner

/-- **Nesting.** A walk with a limit measures the depth of the deepest node up to one more than the
limit. It is above the limit just if some node lies deeper, and this is what a tree is refused for,
if it is not decided before. A tree in which a dialect looks for something is not too deep. -/
theorem Tree.nesting_up_to_limit (t : Tree) :
    (IsGreatest {n | ∃ s, s ∈ t.level n} t.height ∧ (t.children = [] → t.height = 0)) ∧
    (∀ limit, t.nesting limit = min (limit + 1) t.height) ∧
    (Rejection.maxNesting < t.nesting Rejection.maxNesting ↔
      ∃ n s, Rejection.maxNesting < n ∧ s ∈ t.level n) ∧
    (∀ (src : String) (ratio : Float), t.assess src ratio = .error .tooDeep ↔
      (∃ c ∈ src.toList, Text.isBlank c = false) ∧ t.isError = false ∧
        ∃ n s, Rejection.maxNesting < n ∧ s ∈ t.level n) ∧
    ∀ (o : Outliner) (l : Language) (src : String) (contents : Contents),
      o.grammar l src = .ok t → (∃ c ∈ src.toList, Text.isBlank c = false) →
      o.contents l src = .ok contents →
      contents = l.contents src t ∧ t.height ≤ Rejection.maxNesting := by
  refine ⟨⟨t.isGreatest_height, height_of_children_eq_nil⟩, fun limit => ?_, lt_nesting_iff,
    fun src ratio => assess_eq_tooDeep_iff, ?_⟩
  · rw [nesting_eq_min, Nat.min_comm]
  · intro o l src contents hroot hshown hcontents
    obtain ⟨husable, heq⟩ := Outliner.accepted_of_contents_eq_ok hroot hcontents
    refine ⟨heq, Nat.not_lt.mp fun hdeep => husable ⟨hshown, .inr (.inl ?_)⟩⟩
    exact lt_height_iff.mp hdeep

/-- A tree of nodes one below the other. -/
def spine : Nat → Tree
  | 0 => .node ⟨"unary_operator", true, false, false, none, 0, 1⟩ []
  | n + 1 => .node ⟨"unary_operator", true, false, false, none, 0, 1⟩ [spine n]

theorem height_spine (n : Nat) : (spine n).height = n := by
  induction n with
  | zero => rfl
  | succ n ih => simp [spine, Tree.height, Tree.heights, ih]

/-- A tree that reaches the limit is accepted. -/
theorem assess_spine_eq_ok {ratio : Float}
    (hratio : ¬ ratio * "x".utf8ByteSize.toFloat < Nat.toFloat 0) :
    (spine 512).assess "x" ratio = .ok {} := by
  have hlimit : ¬ Rejection.maxNesting < (spine 512).nesting Rejection.maxNesting := by
    rw [Tree.lt_nesting_iff, ← Tree.lt_height_iff, height_spine]
    exact Nat.lt_irrefl _
  rw [Tree.assess, if_neg (by decide), if_neg (by decide), if_neg hlimit]
  exact if_neg hratio

/-- At the limit a tree is accepted, and one level below it is refused. -/
theorem nesting_spine :
    let o : Outliner := { grammar := fun _ _ => .ok (spine 512) }
    (spine 513).nesting 512 = 513 ∧ (spine 513).assess "x" 0.5 = .error .tooDeep ∧
      (∃ contents, o.contents .python "x" = .ok contents) ∧ (spine 512).height ≤ 512 := by
  intro o
  have hshown : ∃ c ∈ "x".toList, Text.isBlank c = false := ⟨'x', by decide, by decide⟩
  obtain ⟨-, hmeasure, -, hrefused, -⟩ := Tree.nesting_up_to_limit (spine 513)
  have hcontents : o.contents .python "x" = .ok (Language.python.contents "x" (spine 512)) := by
    rw [Outliner.contents_of_grammar rfl, assess_spine_eq_ok (by decide +kernel)]
  refine ⟨?_, ?_, ⟨_, hcontents⟩, ?_⟩
  · rw [hmeasure, height_spine]
    rfl
  · refine (hrefused "x" 0.5).mpr ⟨hshown, rfl, Tree.lt_height_iff.mp ?_⟩
    rw [height_spine]
    exact Nat.lt_succ_self _
  · exact ((Tree.nesting_up_to_limit (spine 512)).2.2.2.2 o .python "x" _ rfl hshown hcontents).2

end CodeOutline
