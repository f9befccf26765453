import CodeOutline.Proofs.Outcomes
import CodeOutline.Proofs.SourceOrder

/-!
# Calls without a callee

**Theorem (`callee_absent_iff`).** A call has no callee just if its target is computed or its site
names the empty text. The latter does not happen as long as the part of the call that names the
target has a name in it.

The second case is real. Type arguments are dropped by counting brackets, and a shift operator
counts as two of them. In `<[u8; 1 << 2]>::default()` the brackets never close, so nothing is left
of the name (`callee_absent_shiftInPath`).
-/

namespace CodeOutline

open CodeOutline.Tree Outliner

namespace CallSite

variable {src : String} {scopes : List Declared} {t : Tree} {site : CallSite}

/-- An empty name is no callee. -/
theorem callee_callAt_eq_none_iff :
    (site.callAt src scopes t).callee = none ↔ site.callee = none ∨ site.callee = some "" := by
  cases hcallee : site.callee with
  | none => simp [callAt, hcallee]
  | some callee => simp [callAt, hcallee]

end CallSite

/-- **Calls without a callee.** The calls of a file stand for the nodes recognised as calls, one for
each. A call has no callee just if its target is computed or its site names the empty text, so just
if its target is computed, given that the part that names the target has a name in it. -/
theorem callee_absent_iff (o : Outliner) (path source id : String) {l : Language} {root : Tree}
    (hl : Language.ofName? id = some l) (hroot : o.grammar l (dropOrderMark source) = .ok root)
    (hok : (o.outlineSource path source id).error = none) :
    let src := dropOrderMark source
    List.Forall₂
      (fun t call => ∃ site, l.callSite? src root t = some site ∧ call.kind = site.kind ∧
        (call.callee = none ↔ call.kind = .dynamic ∨ site.callee = some "") ∧
        ((∀ s ∈ l.namePart? t, Text.HasName (s.text src)) →
          (call.callee = none ↔ call.kind = .dynamic)))
      (root.exposed.filter fun t => (l.callSite? src root t).isSome)
      (o.outlineSource path source id).contents.calls := by
  intro src
  rw [outlineSource_of_error_eq_none hl hroot hok]
  refine l.forall₂_callSites.imp ?_
  rintro t call ⟨_, site, hsite, rfl⟩
  have hdescribes : site.Describes src t (l.namePart? t) := Language.describes_site _ hsite
  -- Resolving a callee neither gives nor takes it away.
  have habsent : Option.map (Resolver.ofContents l (l.dialect.contents src root)).resolve
      (site.callAt src (l.dialect.callers src root) t).callee = none ↔
        site.kind = .dynamic ∨ site.callee = some "" := by
    rw [Option.map_eq_none_iff, CallSite.callee_callAt_eq_none_iff, hdescribes.dynamic_iff]
  refine ⟨site, hsite, rfl, habsent, fun hnamed => habsent.trans ?_⟩
  exact or_iff_left (hdescribes.named hnamed)

/-- A call of what a call of `g` gives. -/
def callOfCall : Tree :=
  .node ⟨"module", true, false, false, none, 0, 6⟩
    [.node ⟨"call", true, false, false, none, 0, 5⟩
      [.node ⟨"call", true, false, false, some "function", 0, 3⟩
        [.node ⟨"identifier", true, false, false, some "function", 0, 1⟩ [],
          .node ⟨"argument_list", true, false, false, some "arguments", 1, 3⟩ []],
        .node ⟨"argument_list", true, false, false, some "arguments", 3, 5⟩ []]]

/-- The outer call has no callee, the inner one has. -/
theorem callee_absent_callOfCall :
    let o : Outliner := { grammar := fun _ _ => .ok callOfCall }
    let outline := o.outlineSource "a.py" "g()()\n" "python"
    let src := dropOrderMark "g()()\n"
    outline.error = none ∧
      outline.contents.calls.map (fun c => (c.callee, c.kind)) =
        [(none, .dynamic), (some "g", .function)] ∧
      List.Forall₂
        (fun t call => ∃ site, Language.python.callSite? src callOfCall t = some site ∧
          call.kind = site.kind ∧
          (call.callee = none ↔ call.kind = .dynamic ∨ site.callee = some "") ∧
          ((∀ s ∈ Language.python.namePart? t, Text.HasName (s.text src)) →
            (call.callee = none ↔ call.kind = .dynamic)))
        (callOfCall.exposed.filter fun t =>
          (Language.python.callSite? src callOfCall t).isSome)
        outline.contents.calls := by
  intro o outline src
  have hok : outline.error = none := by decide +kernel
  exact ⟨hok, by decide +kernel, callee_absent_iff o "a.py" "g()()\n" "python" rfl rfl hok⟩

/-- A call through a type whose brackets hold a shift operator. -/
def shiftInPath : Tree :=
  .node ⟨"source_file", true, false, false, none, 0, 38⟩
    [.node ⟨"function_item", true, false, false, none, 0, 37⟩
      [.node ⟨"identifier", true, false, false, some "name", 3, 4⟩ [],
        .node ⟨"block", true, false, false, some "body", 7, 37⟩
          [.node ⟨"call_expression", true, false, false, none, 9, 34⟩
            [.node ⟨"scoped_identifier", true, false, false, some "function", 9, 32⟩
              [.node ⟨"bracketed_type", true, false, false, some "path", 9, 23⟩ [],
                .node ⟨"identifier", true, false, false, some "name", 25, 32⟩ []],
              .node ⟨"arguments", true, false, false, some "arguments", 32, 34⟩ []]]]]

/-- A call may lack a callee although its target is not computed. -/
theorem callee_absent_shiftInPath :
    ¬ ∀ (o : Outliner) (path source id : String), (o.outlineSource path source id).error = none →
      ∀ call ∈ (o.outlineSource path source id).contents.calls,
        (call.callee = none ↔ call.kind = .dynamic) := by
  intro hall
  let o : Outliner := { grammar := fun _ _ => .ok shiftInPath }
  let source := "fn f() \x7b <[u8; 1 << 2]>::default(); \x7d\n"
  have hcall : (⟨"f", none, 1, .function, 0⟩ : Call) ∈
      (o.outlineSource "a.rs" source "rust").contents.calls := by decide +kernel
  have hdynamic := (hall o "a.rs" source "rust" (by decide +kernel) _ hcall).mp rfl
  cases hdynamic

end CodeOutline
