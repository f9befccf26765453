import CodeOutline.Names.Resolver
import CodeOutline.Proofs.Exploration

/-!
# Contents without marks

Marks are written on a declaration and used for nothing else: what is found, who calls and what
names stand for is the same if all marks are left out. `Dialect.withoutMarks` is a dialect that
gives no marks, and its contents are those of the dialect with the marks taken away
(`contents_withoutMarks`). So what is shown of a dialect that gives no marks holds of everything
but the marks in the contents that the dialect itself gives.
-/

namespace CodeOutline

def Symbol.withoutMarks (s : Symbol) : Symbol := { s with marks := [] }

def Declared.withoutMarks (d : Declared) : Declared := { d with symbol := d.symbol.withoutMarks }

def Finding.withoutMarks : Finding → Finding
  | .symbol d => .symbol d.withoutMarks
  | finding => finding

def Item.withoutMarks : Item → Item
  | .found finding => .found finding.withoutMarks
  | .enter place scope => .enter place scope

def Rule.withoutMarks (rule : Rule) : Rule := fun scope c => (rule scope c).map Item.withoutMarks

/-- The dialect that finds the same and gives no marks. -/
def Dialect.withoutMarks (d : Dialect) : Dialect :=
  { d with rule := fun src => (d.rule src).withoutMarks }

/-- The contents with the marks of all symbols taken away. -/
def Contents.withoutMarks (c : Contents) : Contents :=
  { c with symbols := c.symbols.map Symbol.withoutMarks }

/-! ## Items -/

namespace Item

@[simp] theorem withoutMarks_enter (place : Cursor) (scope : Scope) :
    (enter place scope).withoutMarks = enter place scope := rfl

@[simp] theorem withoutMarks_package (name : String) :
    (found (.package name)).withoutMarks = found (.package name) := rfl

@[simp] theorem withoutMarks_imports (i : Import) : (imports i).withoutMarks = imports i := rfl

@[simp] theorem map_withoutMarks_inherit (child parent : String) :
    (inherit child parent).map withoutMarks = inherit child parent := by
  simp only [inherit]
  split <;> rfl

@[simp] theorem map_withoutMarks_within (place : Option Cursor) (scope : Scope) :
    (within place scope).map withoutMarks = within place scope := by
  cases place <;> rfl

theorem Local.withoutMarks {src : String} {t : Tree} {item : Item} (h : item.Local src t) :
    item.withoutMarks.Local src t := by
  cases item with
  | enter place scope => exact h
  | found finding =>
    cases finding with
    | symbol d =>
      obtain ⟨s, hs, hspans⟩ := h
      exact ⟨s, hs, ⟨hspans.start, hspans.stop, hspans.lineStart, hspans.lineEnd⟩⟩
    | _ => trivial

end Item

/-! ## Findings -/

namespace Rule

theorem Local.withoutMarks {src : String} {rule : Rule} (h : rule.Local src) :
    rule.withoutMarks.Local src := by
  intro scope c hopen item hitem
  obtain ⟨original, horiginal, rfl⟩ := List.mem_map.mp hitem
  exact (h scope c hopen original horiginal).withoutMarks

theorem explore_withoutMarks (rule : Rule) (levels : Nat) (scope : Scope) (place : Cursor) :
    explore rule.withoutMarks levels scope place =
      (explore rule levels scope place).map Finding.withoutMarks := by
  induction levels generalizing scope place with
  | zero => rfl
  | succ levels ih =>
    rw [explore_succ, explore_succ, List.map_flatMap]
    refine List.flatMap_congr fun child _ => ?_
    split
    · rfl
    · rw [withoutMarks, List.flatMap_map, List.map_flatMap]
      refine List.flatMap_congr fun item _ => ?_
      cases item with
      | found finding => rfl
      | enter inner innerScope => exact ih innerScope inner

theorem findings_withoutMarks (rule : Rule) (root : Tree) :
    rule.withoutMarks.findings root = (rule.findings root).map Finding.withoutMarks :=
  explore_withoutMarks rule root.height {} (Cursor.root root)

end Rule

/-! ## Callers -/

namespace Declared

theorem narrower_withoutMarks (best : Option Declared) (d : Declared) :
    narrower (best.map withoutMarks) d.withoutMarks = (narrower best d).map withoutMarks := by
  cases best with
  | none => rfl
  | some b =>
    have hwidth : ∀ e : Declared, e.withoutMarks.width = e.width := fun _ => rfl
    simp only [Option.map_some, narrower, hwidth]
    split <;> rfl

theorem foldl_narrower_withoutMarks (best : Option Declared) (ds : List Declared) :
    (ds.map withoutMarks).foldl narrower (best.map withoutMarks) =
      (ds.foldl narrower best).map withoutMarks := by
  induction ds generalizing best with
  | nil => rfl
  | cons d ds ih =>
    rw [List.map_cons, List.foldl_cons, narrower_withoutMarks, ih, List.foldl_cons]

theorem innermost?_withoutMarks (scopes : List Declared) (offset : Nat) :
    innermost? (scopes.map withoutMarks) offset =
      (innermost? scopes offset).map withoutMarks := by
  rw [innermost?, List.filter_map]
  exact foldl_narrower_withoutMarks none _

end Declared

theorem CallSite.callAt_withoutMarks (src : String) (scopes : List Declared) (t : Tree)
    (site : CallSite) :
    site.callAt src (scopes.map Declared.withoutMarks) t = site.callAt src scopes t := by
  simp only [callAt, Declared.innermost?_withoutMarks, Option.map_map]
  rfl

/-! ## Contents -/

theorem Dialect.contents_withoutMarks (d : Dialect) (src : String) (root : Tree) :
    d.withoutMarks.contents src root = (d.contents src root).withoutMarks := by
  have hfindings : (d.withoutMarks.rule src).findings root =
      ((d.rule src).findings root).map Finding.withoutMarks := Rule.findings_withoutMarks _ root
  have hsymbol : Finding.symbol? ∘ Finding.withoutMarks =
      fun f => f.symbol?.map Declared.withoutMarks := by
    funext f
    cases f <;> rfl
  have himport : Finding.import? ∘ Finding.withoutMarks = Finding.import? := by
    funext f
    cases f <;> rfl
  have hinheritance : Finding.inheritance? ∘ Finding.withoutMarks = Finding.inheritance? := by
    funext f
    cases f <;> rfl
  have hpackage : Finding.package? ∘ Finding.withoutMarks = Finding.package? := by
    funext f
    cases f <;> rfl
  have hscopes : ∀ ds : List Declared,
      (ds.map Declared.withoutMarks).filter (fun s => s.symbol.kind.isCaller) =
        (ds.filter fun s => s.symbol.kind.isCaller).map Declared.withoutMarks := by
    intro ds
    rw [List.filter_map]
    rfl
  simp only [contents, hfindings, List.filterMap_map, hsymbol, himport, hinheritance, hpackage,
    ← List.map_filterMap, hscopes, Contents.withoutMarks, List.map_map, collectCalls,
    CallSite.callAt_withoutMarks]
  rfl

theorem Contents.resolve_withoutMarks (l : Language) (c : Contents) :
    c.withoutMarks.resolve l = (c.resolve l).withoutMarks := by
  have hresolver : Resolver.ofContents l c.withoutMarks = Resolver.ofContents l c := by
    simp only [Resolver.ofContents, withoutMarks, List.filter_map, List.map_map]
    rfl
  simp only [resolve, hresolver]
  rfl

end CodeOutline
