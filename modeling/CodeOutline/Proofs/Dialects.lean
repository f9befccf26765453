import CodeOutline.Dialects
import CodeOutline.Proofs.Dialect.CSharp
import CodeOutline.Proofs.Dialect.Go
import CodeOutline.Proofs.Dialect.Java
import CodeOutline.Proofs.Dialect.Php
import CodeOutline.Proofs.Dialect.Python
import CodeOutline.Proofs.Dialect.Rust
import CodeOutline.Proofs.Dialect.TypeScript

/-!
# What the dialects have in common

All rules are local, and all dialects but PHP are blind; PHP is, once marks are left out. The rules
of the languages whose declarations nest are anchored. In Go a method names its receiver, and in
Rust an implementation names its type, wherever that is declared, so theirs are not. All rules go
forward through nodes that have their parts in the order in which the rule takes them (`Orderly`).
But for Rust, all rules are rooted: edges start at types that the file declares. All rules give
heads that stand on one line, in Java if the names of enum constants do. A call site says what kind
of call it is and counts its arguments, and in every language one part of the call names its target
(`namePart?`).
-/

namespace CodeOutline.Language

/-- The languages in which the scope of every declaration is that of a symbol around it. -/
def nests : Language → Bool
  | go | rust => false
  | _ => true

variable {l : Language} {src : String}

theorem anchored_rule (h : l.nests = true) : (l.dialect.rule src).Anchored src := by
  cases l with
  | python => exact Python.anchored_rule
  | java => exact Java.anchored_rule
  | typescript => exact TypeScript.anchored_rule
  | tsx => exact TypeScript.anchored_rule
  | javascript => exact TypeScript.anchored_rule
  | go => simp [nests] at h
  | rust => simp [nests] at h
  | csharp => exact CSharp.anchored_rule
  | php => exact Php.anchored_rule

theorem local_rule : (l.dialect.rule src).Local src := by
  cases l with
  | go => exact Go.local_rule
  | rust => exact Rust.local_rule
  | _ => exact (anchored_rule rfl).isLocal

/-- Every symbol of a file is declared by a node of its tree. -/
theorem spans_of_mem_declared {root : Tree} {d : Declared}
    (hd : d ∈ l.dialect.declared src root) : ∃ t ∈ root.nodes, d.Spans src t :=
  local_rule.spans root (Dialect.mem_declared.mp hd)

/-- The parts of the node stand in the order in which the rule of the language takes them. -/
def Orderly : Language → Tree → Prop
  | java => Java.ParametersFirst
  | csharp => CSharp.ParametersFirst
  | typescript | tsx | javascript => TypeScript.SingleDeclarator
  | _ => fun _ => True

instance (l : Language) (t : Tree) : Decidable (l.Orderly t) :=
  match l with
  | java => inferInstanceAs (Decidable (Java.ParametersFirst t))
  | csharp => inferInstanceAs (Decidable (CSharp.ParametersFirst t))
  | typescript | tsx | javascript => inferInstanceAs (Decidable (TypeScript.SingleDeclarator t))
  | python | go | rust | php => inferInstanceAs (Decidable True)

theorem forward_rule : (l.dialect.rule src).Forward l.Orderly := by
  cases l with
  | python => exact Python.forward_rule
  | java => exact Java.forward_rule
  | typescript => exact TypeScript.forward_rule
  | tsx => exact TypeScript.forward_rule
  | javascript => exact TypeScript.forward_rule
  | go => exact Go.forward_rule
  | rust => exact Rust.forward_rule
  | csharp => exact CSharp.forward_rule
  | php => exact Php.forward_rule

/-- The kinds of the symbols that edges start at. In Go an alias of a struct may embed types. -/
def IsTypeKind : Language → SymbolKind → Prop
  | go => Go.IsNamedType
  | _ => fun kind => kind.isType = true

/-- The scopes known to be those of types. In PHP a class uses traits in its body. -/
def trusts : Language → Scope → Prop
  | php => fun scope => scope.container = .type
  | _ => fun _ => False

theorem not_trusts_file : ¬ l.trusts {} := by
  cases l with
  | php => exact fun h => Container.noConfusion h
  | _ => exact id

theorem rooted_rule (h : l ≠ .rust) : (l.dialect.rule src).Rooted l.IsTypeKind l.trusts := by
  cases l with
  | python => exact Python.rooted_rule
  | java => exact Java.rooted_rule
  | typescript => exact TypeScript.rooted_rule
  | tsx => exact TypeScript.rooted_rule
  | javascript => exact TypeScript.rooted_rule
  | go => exact Go.rooted_rule
  | rust => exact absurd rfl h
  | csharp => exact CSharp.rooted_rule
  | php => exact Php.rooted_rule

theorem edges_rule (scope : Scope) (c : Cursor) :
    EdgesFrom (fun _ => True) (l.dialect.rule src scope c) := by
  by_cases h : l = .rust
  · rw [h]
    exact Rust.edges_rule scope c
  · exact (rooted_rule h scope c).edges.mono fun _ _ => trivial

theorem oneLine_rule :
    (l.dialect.rule src).OneLine fun t => l = .java → Java.PlainConstant src t := by
  cases l with
  | python => exact fun scope c _ => Python.oneLine_rule scope c trivial
  | java => exact fun scope c hplain => Java.oneLine_rule scope c (hplain rfl)
  | typescript => exact fun scope c _ => TypeScript.oneLine_rule scope c trivial
  | tsx => exact fun scope c _ => TypeScript.oneLine_rule scope c trivial
  | javascript => exact fun scope c _ => TypeScript.oneLine_rule scope c trivial
  | go => exact fun scope c _ => Go.oneLine_rule scope c trivial
  | rust => exact fun scope c _ => Rust.oneLine_rule scope c trivial
  | csharp => exact fun scope c _ => CSharp.oneLine_rule scope c trivial
  | php => exact fun scope c _ => Php.oneLine_rule scope c trivial

theorem blind_dialect (h : l ≠ .php) : l.dialect.Blind := by
  cases l with
  | python => exact Python.blind_dialect
  | java => exact Java.blind_dialect
  | typescript => exact TypeScript.blind_dialect
  | tsx => exact TypeScript.blind_dialect
  | javascript => exact TypeScript.blind_dialect
  | go => exact Go.blind_dialect
  | rust => exact Rust.blind_dialect
  | csharp => exact CSharp.blind_dialect
  | php => exact absurd rfl h

/-- The part of a call that names its target. -/
def namePart? : Language → Tree → Option Tree
  | python => Python.namePart?
  | java => Java.namePart?
  | typescript | tsx | javascript => TypeScript.namePart?
  | go => Go.namePart?
  | rust => Rust.namePart?
  | csharp => CSharp.namePart?
  | php => Php.namePart?

theorem describes_site (modules : List String) {t : Tree} {site : CallSite}
    (h : l.dialect.site? src modules t = some site) : site.Describes src t (l.namePart? t) := by
  cases l with
  | python => exact Python.describes_site modules h
  | java => exact Java.describes_site modules h
  | typescript => exact TypeScript.describes_site modules h
  | tsx => exact TypeScript.describes_site modules h
  | javascript => exact TypeScript.describes_site modules h
  | go => exact Go.describes_site modules h
  | rust => exact Rust.describes_site modules h
  | csharp => exact CSharp.describes_site modules h
  | php => exact Php.describes_site modules h

end CodeOutline.Language
