import CodeOutline.Proofs.Names.Resolution
import CodeOutline.Proofs.SourceOrder

/-!
# Layout and resolution

A path that is called may be laid out in many ways, with blanks around its separators. The callee is
the text of the path, blanks included, and it is cut at the first separator. So the blanks after the
first name become a part of the head, and the head is no longer the name that an import binds.

**Theorem (`callees_of_layouts`).** Take two calls of one path, in two files that give names the
same meaning. If in both of them a separator directly follows the first name, that name is resolved
as if it stood alone, and the callees are the same but for blanks. If blanks follow the first name,
the callee is left as it is written, unless an import binds the name together with the blanks.

The second part is a trap for calls that are laid out over several lines:
`layout_changes_callee` shows a call that is resolved on one line and is not on two.
-/

namespace CodeOutline

open CodeOutline.Tree
open Text (isBlank)

/-! ## Calls and their nodes -/

/-- The call is the one that is listed for the node. -/
def Language.CallAt (l : Language) (src : String) (root t : Tree) (call : Call) : Prop :=
  (t, call) ∈ (root.exposed.filter fun t => (l.callSite? src root t).isSome).zip
    (l.contents src root).calls

/-- The names that a file declares outside all others. -/
def Contents.outermost (contents : Contents) : List String :=
  (contents.symbols.filter fun s => s.parentPath?.isNone).map (·.name)

/-- The resolver of a file. -/
def Language.resolver (l : Language) (src : String) (root : Tree) : Resolver :=
  (Resolver.ofImports l (l.contents src root).imports).withLocals (l.contents src root).outermost

theorem Language.callAt_of_callSite? (l : Language) {src : String} {root t : Tree} {site : CallSite}
    (ht : t ∈ root.exposed) (hsite : l.callSite? src root t = some site) {reference : String}
    (hcallee : site.callee = some reference) (hne : reference ≠ "") :
    ∃ call, l.CallAt src root t call ∧
      call.callee = some ((l.resolver src root).resolve reference) := by
  let call := site.callAt src (l.dialect.callers src root) t
  refine ⟨{ call with callee := call.callee.map (l.resolver src root).resolve }, ?_, ?_⟩
  · rw [CallAt, ← map_fst_callSites, l.calls_eq_map, List.zip_map', List.mem_map]
    exact ⟨(t, site), mem_callSites.mpr ⟨ht, hsite⟩, rfl⟩
  · have hcall : call.callee = some reference := by
      simp [call, CallSite.callAt, hcallee, hne]
    rw [hcall, Option.map_some]

/-! ## Where a path is cut -/

/-- No separator begins in the front, so the text is cut right after it. -/
theorem CutAt.of_front {separators : List (List Char)} {front rest : List Char}
    (hfront : ∀ c ∈ front, ∀ sep ∈ separators, ∃ d ∈ sep.head?, d ≠ c)
    (hrest : rest ≠ [] → ∃ sep ∈ separators, sep <+: rest) :
    CutAt separators (front ++ rest) front rest := by
  induction front with
  | nil => exact ⟨rfl, hrest, fun i hi => absurd hi (Nat.not_lt_zero i)⟩
  | cons c front ih =>
    refine (ih fun d hd => hfront d (List.mem_cons_of_mem c hd)).cons fun sep hsep hpre => ?_
    obtain ⟨d, hd, hne⟩ := hfront c List.mem_cons_self sep hsep
    cases sep with
    | nil => cases hd
    | cons e sep =>
      obtain rfl := Option.some.inj hd
      exact hne (List.cons_prefix_cons.mp hpre).1

namespace Language

variable {l : Language} {p : PathSyntax} {src head : String} {members : List Member}

/-- How the language writes calls of paths. -/
def pathSyntaxes : Language → List PathSyntax
  | python => [Python.attributePath]
  | typescript | tsx | javascript => [TypeScript.memberPath]
  | go => [Go.selectorPath]
  | rust => [Rust.fieldPath, Rust.scopedPath]
  | csharp => [CSharp.accessPath]
  | java | php => []

theorem site?_of_callsPath (hp : p ∈ l.pathSyntaxes) {c : Tree}
    (h : CallsPath p src c head members) (modules : List String) :
    ∃ site, l.dialect.site? src modules c = some site ∧
      site.callee = some (head ++ Member.writtenAll p.separator members) := by
  cases l with
  | python =>
    obtain rfl := List.mem_singleton.mp hp
    exact Python.site?_of_callsPath h modules
  | java => cases hp
  | typescript | tsx | javascript =>
    obtain rfl := List.mem_singleton.mp hp
    exact TypeScript.site?_of_callsPath h modules
  | go =>
    obtain rfl := List.mem_singleton.mp hp
    exact Go.site?_of_callsPath h modules
  | rust =>
    rcases List.mem_pair.mp hp with rfl | rfl
    · exact Rust.site?_of_callsPath_fieldPath h modules
    · exact Rust.site?_of_callsPath_scopedPath h modules
  | csharp =>
    obtain rfl := List.mem_singleton.mp hp
    exact CSharp.site?_of_callsPath h modules
  | php => cases hp

theorem separator_mem (hp : p ∈ l.pathSyntaxes) : p.separator.toList ∈ l.separators := by
  have hall : ∀ p ∈ l.pathSyntaxes, p.separator.toList ∈ l.separators := by
    cases l <;> decide
  exact hall p hp

/-- In a language with paths, every separator begins with a dot or a colon. -/
theorem head?_of_mem_separators (hp : p ∈ l.pathSyntaxes) {sep : List Char}
    (hsep : sep ∈ l.separators) : ∃ d ∈ sep.head?, d ∈ ['.', ':'] := by
  have hall : l.pathSyntaxes ≠ [] →
      (l.separators.all fun sep => sep.head?.any fun d => decide (d ∈ ['.', ':'])) = true := by
    cases l <;> decide
  have hany := List.all_eq_true.mp (hall (List.ne_nil_of_mem hp)) sep hsep
  obtain ⟨d, hd, hmem⟩ := (Option.any_eq_true _ _).mp hany
  exact ⟨d, hd, of_decide_eq_true hmem⟩

/-- A name and the blanks after it are the head of a path. -/
theorem cuts_of_front (hp : p ∈ l.pathSyntaxes) (hhead : IsName head) {gap : String}
    (hgap : Text.isBlankText gap = true) (rest : String)
    (hrest : rest ≠ "" → p.separator.toList <+: rest.toList) :
    l.Cuts (head ++ gap ++ rest) (head ++ gap) rest := by
  have htext : (head ++ gap ++ rest).toList = (head ++ gap).toList ++ rest.toList :=
    String.toList_append
  rw [Cuts, htext]
  refine .of_front (fun c hc sep hsep => ?_) fun hne => ?_
  · obtain ⟨d, hd, hmem⟩ := head?_of_mem_separators hp hsep
    refine ⟨d, hd, fun heq => ?_⟩
    subst heq
    have hmark : d ∈ ['.', ':', '<', '>', '[', ']'] :=
      List.mem_append_left ['<', '>', '[', ']'] hmem
    rw [String.toList_append, List.mem_append] at hc
    rcases hc with hc | hc
    · exact not_mem_of_isPlain (hhead.isPlain_of_mem hc) hmark
    · have hblank := List.all_eq_true.mp hgap d hc
      rw [isBlank_of_mem hmark] at hblank
      cases hblank
  · exact ⟨_, separator_mem hp, hrest fun heq => hne (by rw [heq]; rfl)⟩

/-- The blanks after the first name of a path are a part of its head. -/
theorem cuts_written (hp : p ∈ l.pathSyntaxes) (hhead : IsName head) (m : Member)
    (members : List Member) :
    l.Cuts (head ++ Member.writtenAll p.separator (m :: members)) (head ++ m.before)
      (m.afterGap p.separator ++ Member.writtenAll p.separator members) := by
  rw [Member.writtenAll_cons, ← String.append_assoc]
  refine cuts_of_front hp hhead m.before_blank _ fun _ => ?_
  simp only [Member.afterGap, String.toList_append, List.append_assoc]
  exact List.prefix_append _ _

theorem cuts_name (hp : p ∈ l.pathSyntaxes) (hhead : IsName head) : l.Cuts head head "" := by
  have hempty : Text.isBlankText "" = true := by decide
  have hcuts := cuts_of_front hp hhead hempty "" fun h => absurd rfl h
  rwa [String.append_empty, String.append_empty] at hcuts

end Language

/-! ## What a layout resolves to -/

/-- A head is resolved as if it stood alone. -/
theorem Resolver.resolve_append {r : Resolver} {head rest : String}
    (hsplit : r.split (head ++ rest) = (head, rest)) (halone : r.split head = (head, "")) :
    r.resolve (head ++ rest) = r.resolve head ++ rest := by
  simp only [resolve, hsplit, halone]
  split
  · rfl
  · split
    · rw [String.append_empty]
    · rfl

/-- No name that a language gives to every file has a blank in it. -/
theorem Language.IsBuiltin.not_blank {l : Language} {p : PathSyntax} (hp : p ∈ l.pathSyntaxes)
    {name target : String} (h : l.IsBuiltin name target) {c : Char} (hc : c ∈ name.toList) :
    isBlank c = false := by
  have hpython : NameRules.pythonBuiltins.all
      (fun name => name.toList.all fun c => !isBlank c) = true := by decide +kernel
  have hrust : NameRules.rustPrelude.all
      (fun entry => entry.1.toList.all fun c => !isBlank c) = true := by decide +kernel
  cases l with
  | python =>
    have hname := List.all_eq_true.mp hpython name h.1
    simpa using List.all_eq_true.mp hname c hc
  | rust =>
    have hname := List.all_eq_true.mp hrust (name, target) h
    simpa using List.all_eq_true.mp hname c hc
  | java | php => cases hp
  | typescript | tsx | javascript | go | csharp => exact h.elim

section Layouts

variable {l : Language} {p : PathSyntax} {imports : List Import} {locals : List String}
  {head : String} {members : List Member}

/-- If a separator directly follows the first name, that name is resolved, and all else is left as
it is written. -/
theorem resolve_of_firstGap_eq (hp : p ∈ l.pathSyntaxes) (hhead : IsName head)
    (hpicks : members ≠ []) (hgap : Member.firstGap members = "") :
    ((Resolver.ofImports l imports).withLocals locals).resolve
        (head ++ Member.writtenAll p.separator members) =
      ((Resolver.ofImports l imports).withLocals locals).resolve head ++
        Member.writtenAll p.separator members := by
  obtain ⟨m, rest, rfl⟩ := List.exists_cons_of_ne_nil hpicks
  have hbefore : m.before = "" := hgap
  have hwritten : Member.writtenAll p.separator (m :: rest) =
      m.afterGap p.separator ++ Member.writtenAll p.separator rest := by
    rw [Member.writtenAll_cons, hbefore, String.empty_append]
  have hcuts := l.cuts_written hp hhead m rest
  rw [hbefore, String.append_empty, ← hwritten] at hcuts
  exact Resolver.resolve_append (Resolver.split_ofImports_iff.mpr hcuts)
    (Resolver.split_ofImports_iff.mpr (Language.cuts_name hp hhead))

/-- If blanks follow the first name, nothing is resolved, unless an import binds the name together
with the blanks. -/
theorem resolve_of_firstGap_ne (hp : p ∈ l.pathSyntaxes) (hhead : IsName head)
    (hgap : Member.firstGap members ≠ "")
    (hfree : ∀ i ∈ imports, ∀ target, ¬ i.Binds l (head ++ Member.firstGap members) target) :
    ((Resolver.ofImports l imports).withLocals locals).resolve
        (head ++ Member.writtenAll p.separator members) =
      head ++ Member.writtenAll p.separator members := by
  cases members with
  | nil => exact absurd rfl hgap
  | cons m rest =>
    refine (Resolves.kept (l.cuts_written hp hhead m rest) fun target hstands => ?_).resolve_eq
    cases hstands with
    | imported hlast =>
      obtain ⟨before, i, after, himports, hbinds, _⟩ := hlast
      have hi : i ∈ imports := himports ▸ List.mem_append_right before List.mem_cons_self
      exact hfree i hi target hbinds
    | builtin _ _ hbuiltin =>
      -- the blanks would be a part of a name that every file has
      obtain ⟨c, hc⟩ := List.exists_mem_of_ne_nil _ (mt String.toList_eq_nil_iff.mp hgap)
      have hblank := List.all_eq_true.mp m.before_blank c hc
      have hmem : c ∈ (head ++ m.before).toList := by
        rw [String.toList_append]
        exact List.mem_append_right _ hc
      rw [hbuiltin.not_blank hp hmem] at hblank
      cases hblank

end Layouts

/-! ## Blanks between tokens -/

namespace Text

theorem compact_append (s t : String) : compact (s ++ t) = compact s ++ compact t := by
  rw [compact, String.toList_append, List.filter_append, String.ofList_append, compact, compact]

theorem compact_of_isBlankText {s : String} (h : isBlankText s = true) : compact s = "" := by
  rw [compact, List.filter_eq_nil_iff.mpr fun c hc => by simp [List.all_eq_true.mp h c hc]]

end Text

namespace Member

theorem compact_written (separator : String) (m : Member) :
    Text.compact (m.written separator) = Text.compact separator ++ Text.compact m.name := by
  rw [written, Text.compact_append, Text.compact_append, Text.compact_append,
    Text.compact_of_isBlankText m.before_blank, Text.compact_of_isBlankText m.after_blank,
    String.empty_append, String.append_empty]

/-- Layouts of the same members differ in blanks only. -/
theorem compact_writtenAll_congr (separator : String) {xs ys : List Member}
    (h : xs.map (·.name) = ys.map (·.name)) :
    Text.compact (writtenAll separator xs) = Text.compact (writtenAll separator ys) := by
  induction xs generalizing ys with
  | nil => rw [List.map_eq_nil_iff.mp h.symm]
  | cons x xs ih =>
    cases ys with
    | nil => cases h
    | cons y ys =>
      have hname : x.name = y.name := (List.cons.inj h).1
      have hrest : xs.map (·.name) = ys.map (·.name) := (List.cons.inj h).2
      rw [writtenAll, writtenAll, Text.compact_append, Text.compact_append, compact_written,
        compact_written, hname, ih hrest]

end Member

/-! ## Two layouts of one path -/

/-- The files give names the same meaning: they have the same imports, and they declare the same
names outside all others. -/
structure SameNames (a b : Contents) : Prop where
  imports : a.imports = b.imports
  outermost : a.outermost = b.outermost

/-- The node is listed as a call of its path, resolved. -/
theorem exists_callAt_of_callsPath {l : Language} {p : PathSyntax} (hp : p ∈ l.pathSyntaxes)
    {src : String} {root c : Tree} (hc : c ∈ root.exposed) {head : String} {members : List Member}
    (h : CallsPath p src c head members) :
    IsName head ∧ ∃ call, l.CallAt src root c call ∧
      call.callee = some
        ((l.resolver src root).resolve (head ++ Member.writtenAll p.separator members)) := by
  obtain ⟨t, _, hspells⟩ := h.target
  obtain ⟨site, hsite, hcallee⟩ := Language.site?_of_callsPath hp h
    (l.dialect.moduleNames (l.contents src root).imports)
  refine ⟨hspells.isName, l.callAt_of_callSite? hc hsite hcallee ?_⟩
  simp [hspells.isName.ne_empty]

/-- **Layout matters after the first name only.** Two files that give names the same meaning call
the same path in two layouts. If a separator directly follows the first name in both, the callees
are the first name, resolved as if it stood alone, and the rest of the path, as written. If blanks
follow the first name and no import binds it together with them, the callee is all of the path, as
written. -/
theorem callees_of_layouts {l : Language} {p : PathSyntax} (hp : p ∈ l.pathSyntaxes)
    {src src' : String} {root root' : Tree}
    (hnames : SameNames (l.contents src root) (l.contents src' root')) {c c' : Tree}
    (hc : c ∈ root.exposed) (hc' : c' ∈ root'.exposed) {head : String}
    {members members' : List Member} (h : CallsPath p src c head members)
    (h' : CallsPath p src' c' head members')
    (hsame : members.map (·.name) = members'.map (·.name)) :
    ∃ call call', l.CallAt src root c call ∧ l.CallAt src' root' c' call' ∧
      (Member.firstGap members = "" → Member.firstGap members' = "" →
        ∃ front,
          Resolves l (l.contents src root).imports (l.contents src root).outermost head front ∧
          call.callee = some (front ++ Member.writtenAll p.separator members) ∧
          call'.callee = some (front ++ Member.writtenAll p.separator members') ∧
          Text.compact (front ++ Member.writtenAll p.separator members) =
            Text.compact (front ++ Member.writtenAll p.separator members')) ∧
      (Member.firstGap members' ≠ "" →
        (∀ i ∈ (l.contents src' root').imports, ∀ target,
          ¬ i.Binds l (head ++ Member.firstGap members') target) →
        call'.callee = some (head ++ Member.writtenAll p.separator members')) := by
  obtain ⟨hhead, call, hcall, hcallee⟩ := exists_callAt_of_callsPath hp hc h
  obtain ⟨_, call', hcall', hcallee'⟩ := exists_callAt_of_callsPath hp hc' h'
  refine ⟨call, call', hcall, hcall', fun hgap hgap' => ?_, fun hgap' hfree => ?_⟩
  · obtain ⟨front, hfront⟩ := exists_resolves l (l.contents src root).imports
      (l.contents src root).outermost head
    refine ⟨front, hfront, ?_, ?_, ?_⟩
    · rw [hcallee, Language.resolver, resolve_of_firstGap_eq hp hhead h.picks hgap,
        hfront.resolve_eq]
    · rw [hcallee', Language.resolver, ← hnames.imports, ← hnames.outermost,
        resolve_of_firstGap_eq hp hhead h'.picks hgap', hfront.resolve_eq]
    · rw [Text.compact_append, Text.compact_append, Member.compact_writtenAll_congr _ hsame]
  · rw [hcallee', Language.resolver, resolve_of_firstGap_ne hp hhead hgap' hfree]

/-! ## A call on one line and on two -/

/-- A file that imports `z` from `zod` and calls its member `string`. -/
def importedCallText (m : Member) : String :=
  "import \x7b z \x7d from \"zod\";\nz" ++ m.written "." ++ "();\n"

/-- The call in it, with the numbers of blanks before and after the separator. -/
def importedCall (before after : Nat) : Tree :=
  .node ⟨"call_expression", true, false, false, none, 25, 35 + before + after⟩
    [.node ⟨"member_expression", true, false, false, some "function", 25, 33 + before + after⟩
      [.node ⟨"identifier", true, false, false, some "object", 25, 26⟩ [],
        .node ⟨".", false, false, false, none, 26 + before, 27 + before⟩ [],
        .node ⟨"property_identifier", true, false, false, some "property",
          27 + before + after, 33 + before + after⟩ []],
      .node ⟨"arguments", true, false, false, some "arguments",
        33 + before + after, 35 + before + after⟩ []]

def importedCallFile (before after : Nat) : Tree :=
  .node ⟨"program", true, false, false, none, 0, 37 + before + after⟩
    [.node ⟨"import_statement", true, false, false, none, 0, 24⟩
      [.node ⟨"import_clause", true, false, false, none, 7, 12⟩
        [.node ⟨"named_imports", true, false, false, none, 7, 12⟩
          [.node ⟨"import_specifier", true, false, false, none, 9, 10⟩
            [.node ⟨"identifier", true, false, false, some "name", 9, 10⟩ []]]],
        .node ⟨"string", true, false, false, some "source", 18, 23⟩ []],
      .node ⟨"expression_statement", true, false, false, none, 25, 36 + before + after⟩
        [importedCall before after]]

/-- The member `string`, with blanks around the separator. -/
def stringMember (before after : String) (hbefore : Text.isBlankText before = true)
    (hafter : Text.isBlankText after = true) : Member :=
  ⟨before, after, "string", hbefore, hafter, ⟨by decide, by decide +kernel⟩⟩

def onOneLine : Member := stringMember "" "" (by decide) (by decide)

def dotOnSecondLine : Member := stringMember "\n" "" (by decide) (by decide)

def dotOnFirstLine : Member := stringMember "" "\n" (by decide) (by decide)

theorem callsPath_importedCall {m : Member} {before after : Nat}
    (hname : Source.slice (importedCallText m) 25 26 = "z")
    (hpath : Source.slice (importedCallText m) 25 (33 + before + after) = "z" ++ m.written ".") :
    CallsPath TypeScript.memberPath (importedCallText m) (importedCall before after) "z" [m] := by
  let z : Tree := .node ⟨"identifier", true, false, false, some "object", 25, 26⟩ []
  have htext : z.text (importedCallText m) = "z" := hname
  have hz : Spells TypeScript.memberPath (importedCallText m) z "z" [] := by
    have hspells : Spells TypeScript.memberPath (importedCallText m) z
        (z.text (importedCallText m)) [] :=
      .name rfl (htext ▸ ⟨by decide, by decide +kernel⟩)
    rwa [htext] at hspells
  refine ⟨rfl, ⟨_, rfl, hz.pick m rfl rfl ?_⟩, List.cons_ne_nil _ _⟩
  rw [htext]
  exact hpath

theorem importedCall_mem_exposed (before after : Nat) :
    importedCall before after ∈ (importedCallFile before after).exposed :=
  List.mem_of_getElem? (i := 7) rfl

/-- The file imports `z`, whatever the layout of the call. -/
def ImportsZ (m : Member) (before after : Nat) : Prop :=
  (Language.typescript.contents (importedCallText m) (importedCallFile before after)).imports =
    [.member "zod" "z" none]

instance (m : Member) (before after : Nat) : Decidable (ImportsZ m before after) :=
  inferInstanceAs (Decidable (_ = _))

/-- In each of the layouts the call spells its path, and the file imports the head of it. -/
theorem importedCall_layouts :
    ∀ e ∈ [(onOneLine, 0, 0), (dotOnFirstLine, 0, 1), (dotOnSecondLine, 1, 0)],
      Source.slice (importedCallText e.1) 25 26 = "z" ∧
      Source.slice (importedCallText e.1) 25 (33 + e.2.1 + e.2.2) = "z" ++ e.1.written "." ∧
      ImportsZ e.1 e.2.1 e.2.2 := by
  decide +kernel

theorem callsPath_onOneLine : CallsPath TypeScript.memberPath (importedCallText onOneLine)
    (importedCall 0 0) "z" [onOneLine] :=
  have h := importedCall_layouts (onOneLine, 0, 0) (by simp)
  callsPath_importedCall h.1 h.2.1

theorem callsPath_dotOnFirstLine : CallsPath TypeScript.memberPath
    (importedCallText dotOnFirstLine) (importedCall 0 1) "z" [dotOnFirstLine] :=
  have h := importedCall_layouts (dotOnFirstLine, 0, 1) (by simp)
  callsPath_importedCall h.1 h.2.1

theorem callsPath_dotOnSecondLine : CallsPath TypeScript.memberPath
    (importedCallText dotOnSecondLine) (importedCall 1 0) "z" [dotOnSecondLine] :=
  have h := importedCall_layouts (dotOnSecondLine, 1, 0) (by simp)
  callsPath_importedCall h.1 h.2.1

theorem imported_onOneLine : ImportsZ onOneLine 0 0 :=
  (importedCall_layouts (onOneLine, 0, 0) (by simp)).2.2

theorem imported_dotOnFirstLine : ImportsZ dotOnFirstLine 0 1 :=
  (importedCall_layouts (dotOnFirstLine, 0, 1) (by simp)).2.2

theorem imported_dotOnSecondLine : ImportsZ dotOnSecondLine 1 0 :=
  (importedCall_layouts (dotOnSecondLine, 1, 0) (by simp)).2.2

theorem memberPath_mem : TypeScript.memberPath ∈ Language.typescript.pathSyntaxes :=
  List.mem_singleton.mpr rfl

/-- A line feed after the separator stays where it is, and one before it keeps the name from being
resolved. -/
theorem callees_importedCall :
    (∃ call call', Language.typescript.CallAt (importedCallText onOneLine) (importedCallFile 0 0)
        (importedCall 0 0) call ∧
      Language.typescript.CallAt (importedCallText dotOnFirstLine) (importedCallFile 0 1)
        (importedCall 0 1) call' ∧
      call.callee = some "zod.z.string" ∧ call'.callee = some "zod.z.\nstring") ∧
    ∃ call, Language.typescript.CallAt (importedCallText dotOnSecondLine) (importedCallFile 1 0)
        (importedCall 1 0) call ∧ call.callee = some "z\n.string" := by
  constructor
  · obtain ⟨call, call', hcall, hcall', hadjacent, _⟩ := callees_of_layouts memberPath_mem
      ⟨imported_onOneLine.trans imported_dotOnFirstLine.symm, by decide +kernel⟩
      (importedCall_mem_exposed 0 0) (importedCall_mem_exposed 0 1) callsPath_onOneLine
      callsPath_dotOnFirstLine rfl
    obtain ⟨front, hfront, hcallee, hcallee', _⟩ := hadjacent rfl rfl
    have himported : front = "zod.z" := by
      rw [← hfront.resolve_eq, imported_onOneLine]
      decide +kernel
    subst himported
    exact ⟨call, call', hcall, hcall', hcallee.trans (by decide +kernel),
      hcallee'.trans (by decide +kernel)⟩
  · obtain ⟨_, call, _, hcall, _, hgap⟩ := callees_of_layouts memberPath_mem
      ⟨imported_onOneLine.trans imported_dotOnSecondLine.symm, by decide +kernel⟩
      (importedCall_mem_exposed 0 0) (importedCall_mem_exposed 1 0) callsPath_onOneLine
      callsPath_dotOnSecondLine rfl
    rw [imported_dotOnSecondLine] at hgap
    have hfree := ImportTable.get?_ofImports_eq_none_iff.mp (show
      (ImportTable.ofImports .typescript [.member "zod" "z" none]).get? "z\n" = none by
        decide +kernel)
    exact ⟨call, hcall, (hgap (by decide) hfree).trans (by decide +kernel)⟩

/-- On one line the imported name is resolved. With the separator on a second line it is not. -/
theorem layout_changes_callee :
    ¬ ∀ (l : Language) (p : PathSyntax), p ∈ l.pathSyntaxes → ∀ (src src' : String)
      (root root' : Tree), SameNames (l.contents src root) (l.contents src' root') →
      ∀ c ∈ root.exposed, ∀ c' ∈ root'.exposed, ∀ (head : String) (members members' : List Member),
      CallsPath p src c head members → CallsPath p src' c' head members' →
      members.map (·.name) = members'.map (·.name) →
      ∀ call call', l.CallAt src root c call → l.CallAt src' root' c' call' →
      call.callee = call'.callee := by
  intro hall
  obtain ⟨_, call, hcall, hcallee⟩ := exists_callAt_of_callsPath memberPath_mem
    (importedCall_mem_exposed 0 0) callsPath_onOneLine
  obtain ⟨_, call', hcall', hcallee'⟩ := exists_callAt_of_callsPath memberPath_mem
    (importedCall_mem_exposed 1 0) callsPath_dotOnSecondLine
  have hequal := hall .typescript _ memberPath_mem _ _ _ _
    ⟨imported_onOneLine.trans imported_dotOnSecondLine.symm, by decide +kernel⟩ _
    (importedCall_mem_exposed 0 0) _
    (importedCall_mem_exposed 1 0) "z" _ _ callsPath_onOneLine callsPath_dotOnSecondLine rfl
    call call' hcall hcall'
  rw [hcallee, hcallee'] at hequal
  revert hequal
  decide +kernel

end CodeOutline
