import CodeOutline.Proofs.Dialects
import Mathlib.Data.List.Forall2

/-!
# Callers

A call is attributed to the narrowest declaration around it.

**Theorem (`calls_have_innermost_callers`).** In a well-nested tree the caller of each call is the
innermost of the declarations that hold calls and cover the place where the call begins: one that
lies inside all others of them. If there is none, the call is outermost.

That the narrowest is the innermost rests on two facts. Each symbol covers a node of the tree
(`Local.spans`), and of two nodes with a byte in common one encloses the other
(`WellNested.nested_of_common`).
-/

namespace CodeOutline

open CodeOutline.Tree

/-! ## The narrowest declaration -/

namespace Declared

/-- Going through a list with a candidate at hand, the narrowest of them is kept. -/
theorem exists_foldl_narrower (b : Declared) (ds : List Declared) :
    ∃ d ∈ b :: ds, ds.foldl narrower (some b) = some d ∧ ∀ e ∈ b :: ds, d.width ≤ e.width := by
  induction ds generalizing b with
  | nil => exact ⟨b, List.mem_cons_self, rfl, by simp⟩
  | cons a ds ih =>
    rw [List.foldl_cons, narrower]
    split
    · next hlt =>
      obtain ⟨d, hd, hfold, hmin⟩ := ih a
      refine ⟨d, List.mem_cons_of_mem _ hd, hfold, fun e he => ?_⟩
      rcases List.mem_cons.mp he with rfl | he
      · have hle := hmin a List.mem_cons_self
        omega
      · exact hmin e he
    · next hge =>
      obtain ⟨d, hd, hfold, hmin⟩ := ih b
      have hle := hmin b List.mem_cons_self
      refine ⟨d, ?_, hfold, fun e he => ?_⟩
      · rcases List.mem_cons.mp hd with rfl | hd
        · exact List.mem_cons_self
        · exact List.mem_cons_of_mem _ (List.mem_cons_of_mem _ hd)
      · rcases List.mem_cons.mp he with rfl | he
        · exact hle
        · rcases List.mem_cons.mp he with rfl | he
          · omega
          · exact hmin e (List.mem_cons_of_mem _ he)

theorem innermost?_eq_none {scopes : List Declared} {offset : Nat}
    (h : ∀ d ∈ scopes, d.covers offset = false) : innermost? scopes offset = none := by
  have hnone : scopes.filter (fun d => d.covers offset) = [] :=
    List.filter_eq_nil_iff.mpr fun d hd => by simp [h d hd]
  rw [innermost?, hnone, List.foldl_nil]

/-- Where something covers an offset, a narrowest declaration that does so is found. -/
theorem exists_innermost? {scopes : List Declared} {offset : Nat} {c : Declared}
    (hc : c ∈ scopes) (hcovers : c.covers offset = true) :
    ∃ d ∈ scopes, innermost? scopes offset = some d ∧ d.covers offset = true ∧
      ∀ e ∈ scopes, e.covers offset = true → d.width ≤ e.width := by
  have hmem : ∀ d, d ∈ scopes.filter (fun d => d.covers offset) ↔
      d ∈ scopes ∧ d.covers offset = true := fun d => List.mem_filter
  rw [innermost?]
  cases hcandidates : scopes.filter (fun d => d.covers offset) with
  | nil =>
    have hin := (hmem c).mpr ⟨hc, hcovers⟩
    simp [hcandidates] at hin
  | cons b ds =>
    obtain ⟨d, hd, hfold, hmin⟩ := exists_foldl_narrower b ds
    rw [← hcandidates] at hd hmin
    exact ⟨d, ((hmem d).mp hd).1, hfold, ((hmem d).mp hd).2,
      fun e he hcov => hmin e ((hmem e).mpr ⟨he, hcov⟩)⟩

/-- Of two declarations of a well-nested tree with a byte in common, the one that is not wider lies
inside the other. -/
theorem inside_of_width_le {src : String} {root : Tree} (hwell : root.WellNested)
    {d e : Declared} {s t : Tree} (hs : s ∈ root.nodes) (hd : d.Spans src s) (ht : t ∈ root.nodes)
    (he : e.Spans src t) {offset : Nat} (hcd : d.covers offset = true)
    (hce : e.covers offset = true) (hwidth : d.width ≤ e.width) :
    e.start ≤ d.start ∧ d.stop ≤ e.stop := by
  simp only [covers, Bool.and_eq_true, decide_eq_true_eq] at hcd hce
  have hnested := hwell.nested_of_common hs ht (hd.start ▸ hd.stop ▸ hcd) (he.start ▸ he.stop ▸ hce)
  simp only [Encloses, ← hd.start, ← hd.stop, ← he.start, ← he.stop] at hnested
  rw [width, width] at hwidth
  omega

end Declared

/-! ## Callers -/

/-- `caller` names the innermost of the declarations that cover the offset, or says that none
does. -/
structure CallerAt (scopes : List Declared) (offset : Nat) (caller : String) : Prop where
  outermost : (∀ d ∈ scopes, d.covers offset = false) → caller = Call.outermost
  innermost : (∃ d ∈ scopes, d.covers offset = true) →
    ∃ d ∈ scopes, d.covers offset = true ∧ caller = d.symbol.name ∧
      ∀ e ∈ scopes, e.covers offset = true → e.start ≤ d.start ∧ d.stop ≤ e.stop

/-- The symbols of a file that hold calls. -/
def Dialect.callers (d : Dialect) (src : String) (root : Tree) : List Declared :=
  (d.declared src root).filter fun s => s.symbol.kind.isCaller

theorem callerAt_callAt {src : String} {root : Tree} (hwell : root.WellNested)
    {scopes : List Declared} (hspans : ∀ d ∈ scopes, ∃ s ∈ root.nodes, d.Spans src s) (t : Tree)
    (site : CallSite) : CallerAt scopes t.start (site.callAt src scopes t).caller where
  outermost hnone := by
    rw [CallSite.callAt, Declared.innermost?_eq_none hnone]
    rfl
  innermost := by
    rintro ⟨c, hc, hcovers⟩
    obtain ⟨d, hd, hsome, hcov, hmin⟩ := Declared.exists_innermost? hc hcovers
    refine ⟨d, hd, hcov, ?_, fun e he hcove => ?_⟩
    · rw [CallSite.callAt, hsome]
      rfl
    · obtain ⟨s, hs, hds⟩ := hspans d hd
      obtain ⟨r, hr, her⟩ := hspans e he
      exact Declared.inside_of_width_le hwell hs hds hr her hcov hcove (hmin e he hcove)

/-- **Callers.** The symbols of a file are declared by nodes of its tree. The calls of the file
stand at its call sites, in order, and the caller of each is the innermost symbol around it that
holds calls. -/
theorem calls_have_innermost_callers (l : Language) (src : String) {root : Tree}
    (hwell : root.WellNested) :
    (l.contents src root).symbols = (l.dialect.declared src root).map (·.symbol) ∧
    (∀ d ∈ l.dialect.declared src root, ∃ t ∈ root.nodes, d.Spans src t) ∧
    List.Forall₂
      (fun (t, _) call => call.line = t.startRow src + 1 ∧
        CallerAt (l.dialect.callers src root) t.start call.caller)
      (callSites (l.dialect.site? src (l.dialect.moduleNames (l.contents src root).imports)) root)
      (l.contents src root).calls := by
  refine ⟨rfl, fun d hd => Language.spans_of_mem_declared hd, ?_⟩
  have hspans : ∀ d ∈ l.dialect.callers src root, ∃ t ∈ root.nodes, d.Spans src t :=
    fun d hd => Language.spans_of_mem_declared (List.mem_filter.mp hd).1
  -- resolving references leaves callers and lines as they are
  let r := Resolver.ofContents l (l.dialect.contents src root)
  have hcalls : (l.contents src root).calls =
      (collectCalls src (l.dialect.callers src root)
        (l.dialect.site? src (l.dialect.moduleNames (l.contents src root).imports)) root).map
          fun c => { c with callee := c.callee.map r.resolve } := rfl
  rw [hcalls, collectCalls_eq_map, List.map_map, List.forall₂_map_right_iff, List.forall₂_same]
  rintro ⟨t, site⟩ _
  exact ⟨rfl, callerAt_callAt hwell hspans t site⟩

/-- A routine `f` with a call of `g` in it, and after it a call of `f`. -/
def callInside : Tree :=
  .node ⟨"module", true, false, false, none, 0, 16⟩
    [.node ⟨"function_definition", true, false, false, none, 0, 12⟩
      [.node ⟨"identifier", true, false, false, some "name", 4, 5⟩ [],
        .node ⟨"parameters", true, false, false, some "parameters", 5, 7⟩ [],
        .node ⟨"block", true, false, false, some "body", 9, 12⟩
          [.node ⟨"call", true, false, false, none, 9, 12⟩
            [.node ⟨"identifier", true, false, false, some "function", 9, 10⟩ []]]],
      .node ⟨"call", true, false, false, none, 13, 16⟩
        [.node ⟨"identifier", true, false, false, some "function", 13, 14⟩ []]]

/-- The first call stands in `f`, which covers its offset, and no symbol covers the second. -/
theorem callers_callInside :
    let src := "def f(): g()\nf()"
    callInside.WellNested ∧
      (Language.python.contents src callInside).calls.map (·.caller) = ["f", "<module>"] ∧
      List.Forall₂
        (fun (t, _) call => call.line = t.startRow src + 1 ∧
          CallerAt (Python.dialect.callers src callInside) t.start call.caller)
        (callSites (Python.dialect.site? src []) callInside)
        (Language.python.contents src callInside).calls := by
  intro src
  have hwell : callInside.WellNested := by decide
  exact ⟨hwell, by decide +kernel, (calls_have_innermost_callers .python src hwell).2.2⟩

end CodeOutline
