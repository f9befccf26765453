import CodeOutline.Rule
import Mathlib.Data.List.Basic

/-!
# Paths in the source

The target of a call may be written as a path: a name, then members that are picked from it one
after another. Around each separator there may be blanks, so one path has many layouts.

`Spells p src t head members` says that the node `t` is such a path, with the given layout: its tree
is a chain of links down to a name, and its text is that of the name and the members. Its text is
then told by the layout (`Spells.text_eq`), and nothing of it is computed (`Spells.isChain`).
-/

namespace CodeOutline

open Text (isBlank)

/-! ## Names and members -/

/-- A character that is no blank, separator or bracket. -/
def isPlain (c : Char) : Bool := !isBlank c && decide (c ∉ ['.', ':', '<', '>', '[', ']'])

structure IsName (name : String) : Prop where
  ne_empty : name ≠ ""
  plain : name.toList.all isPlain = true

namespace IsName

variable {name : String} {c : Char}

theorem toList_ne_nil (h : IsName name) : name.toList ≠ [] :=
  fun hnil => h.ne_empty (String.toList_eq_nil_iff.mp hnil)

theorem isPlain_of_mem (h : IsName name) (hc : c ∈ name.toList) : isPlain c = true :=
  List.all_eq_true.mp h.plain c hc

end IsName

theorem isBlank_of_isPlain {c : Char} (h : isPlain c = true) : isBlank c = false := by
  simp only [isPlain, Bool.and_eq_true, Bool.not_eq_true'] at h
  exact h.1

theorem not_mem_of_isPlain {c : Char} (h : isPlain c = true) :
    c ∉ ['.', ':', '<', '>', '[', ']'] := by
  simp only [isPlain, Bool.and_eq_true, decide_eq_true_eq] at h
  exact h.2

/-- Separators and brackets are no blanks. -/
theorem isBlank_of_mem {c : Char} (h : c ∈ ['.', ':', '<', '>', '[', ']']) : isBlank c = false := by
  have hall : (['.', ':', '<', '>', '[', ']'].all fun c => !isBlank c) = true := by decide
  simpa using List.all_eq_true.mp hall c h

/-- A member that is picked from a path, with the blanks before and after the separator. -/
structure Member where
  before : String
  after : String
  name : String
  before_blank : Text.isBlankText before = true
  after_blank : Text.isBlankText after = true
  isName : IsName name

namespace Member

def written (separator : String) (m : Member) : String :=
  m.before ++ separator ++ m.after ++ m.name

/-- What a list of members looks like after the name they are picked from. -/
def writtenAll (separator : String) : List Member → String
  | [] => ""
  | m :: ms => m.written separator ++ writtenAll separator ms

/-- A member without the blanks before its separator. -/
def afterGap (separator : String) (m : Member) : String := separator ++ m.after ++ m.name

/-- The blanks between a name and the separator after it. -/
def firstGap : List Member → String
  | [] => ""
  | m :: _ => m.before

theorem writtenAll_cons (separator : String) (m : Member) (ms : List Member) :
    writtenAll separator (m :: ms) =
      m.before ++ (m.afterGap separator ++ writtenAll separator ms) := by
  simp only [writtenAll, written, afterGap, String.append_assoc]

theorem writtenAll_append (separator : String) (xs ys : List Member) :
    writtenAll separator (xs ++ ys) = writtenAll separator xs ++ writtenAll separator ys := by
  induction xs with
  | nil => rw [List.nil_append, writtenAll, String.empty_append]
  | cons m xs ih => rw [List.cons_append, writtenAll, writtenAll, ih, String.append_assoc]

theorem writtenAll_singleton (separator : String) (m : Member) :
    writtenAll separator [m] = m.written separator := by
  rw [writtenAll, writtenAll, String.append_empty]

theorem mem_written {separator : String} {m : Member} {c : Char}
    (h : c ∈ (m.written separator).toList) :
    isBlank c = true ∨ c ∈ separator.toList ∨ isPlain c = true := by
  simp only [written, String.toList_append, List.mem_append] at h
  rcases h with ((hbefore | hseparator) | hafter) | hname
  · exact .inl (List.all_eq_true.mp m.before_blank c hbefore)
  · exact .inr (.inl hseparator)
  · exact .inl (List.all_eq_true.mp m.after_blank c hafter)
  · exact .inr (.inr (m.isName.isPlain_of_mem hname))

theorem getLast?_written (separator : String) (m : Member) :
    (m.written separator).toList.getLast? = m.name.toList.getLast? := by
  rw [written, String.toList_append, List.getLast?_append_of_ne_nil _ m.isName.toList_ne_nil]

end Member

/-! ## Paths as nodes -/

/-- What stands between the parts of a path. -/
inductive Separator where
  | dot
  | colons
deriving DecidableEq

def Separator.text : Separator → String
  | dot => "."
  | colons => "::"

theorem Separator.mem_text {s : Separator} {c : Char} (h : c ∈ s.text.toList) :
    c ∈ ['.', ':'] := by
  cases s with
  | dot => exact List.mem_append_left [':'] h
  | colons =>
    have hcolons : colons.text.toList = [':', ':'] := rfl
    rw [hcolons, List.mem_pair, or_self] at h
    rw [h]
    exact List.mem_cons_of_mem '.' List.mem_cons_self

/-- How a language writes a call of a path. -/
structure PathSyntax where
  /-- The kind of the node that is the call. -/
  call : String
  /-- The kind of the nodes that pick a member. -/
  link : String
  /-- The part of such a node that the member is picked from. -/
  role : String
  mark : Separator

def PathSyntax.separator (p : PathSyntax) : String := p.mark.text

/-- The node is a path that begins with the name `head`. -/
inductive Spells (p : PathSyntax) (src : String) : Tree → String → List Member → Prop
  | name {t : Tree} : t.kind = "identifier" → IsName (t.text src) → Spells p src t (t.text src) []
  | pick {t inner : Tree} {head : String} {members : List Member} (m : Member) :
      t.kind = p.link → t.field? p.role = some inner → Spells p src inner head members →
      t.text src = inner.text src ++ m.written p.separator → Spells p src t head (members ++ [m])

namespace Spells

variable {p : PathSyntax} {src head : String} {t : Tree} {members : List Member}

theorem isName (h : Spells p src t head members) : IsName head := by
  induction h with
  | name _ hname => exact hname
  | pick _ _ _ _ _ ih => exact ih

theorem text_eq (h : Spells p src t head members) :
    t.text src = head ++ Member.writtenAll p.separator members := by
  induction h with
  | name => rw [Member.writtenAll, String.append_empty]
  | pick m _ _ _ htext ih =>
    rw [htext, ih, Member.writtenAll_append, Member.writtenAll_singleton, String.append_assoc]

theorem kind_eq (h : Spells p src t head members) (hne : members ≠ []) : t.kind = p.link := by
  cases h with
  | name => exact absurd rfl hne
  | pick _ hkind => exact hkind

theorem exists_field? (h : Spells p src t head members) (hne : members ≠ []) :
    ∃ inner, t.field? p.role = some inner := by
  cases h with
  | name => exact absurd rfl hne
  | pick _ _ hinner => exact ⟨_, hinner⟩

/-- A path is a chain of links, whatever else may begin one. -/
theorem isChain (h : Spells p src t head members) {isHead : Tree → Bool}
    (hhead : ∀ t : Tree, t.kind = "identifier" → isHead t = true) :
    t.isChain isHead [p.link] p.role = true := by
  induction h with
  | name hkind => rw [Tree.isChain, if_pos (hhead _ hkind)]
  | pick m hkind hinner _ _ ih =>
    rw [Tree.isChain]
    split
    · rfl
    · rw [if_pos (by simp [hkind])]
      split
      · next rest hrest =>
        rw [hinner] at hrest
        exact Option.some.inj hrest ▸ ih
      · next hnone =>
        rw [hinner] at hnone
        cases hnone

end Spells

/-- The node is a call of a path with at least one member. -/
structure CallsPath (p : PathSyntax) (src : String) (c : Tree) (head : String)
    (members : List Member) : Prop where
  kind_eq : c.kind = p.call
  target : ∃ t, c.field? "function" = some t ∧ Spells p src t head members
  picks : members ≠ []

/-! ## Texts without type arguments -/

namespace Chars

theorem outsideBrackets_eq_self {cs : List Char} (h : ∀ c ∈ cs, c ∉ ['<', '>', '[', ']']) :
    outsideBrackets 0 cs = cs := by
  induction cs with
  | nil => rfl
  | cons c cs ih =>
    have hc := h c List.mem_cons_self
    rw [outsideBrackets, if_neg (by simp_all), if_neg (by simp_all), if_pos rfl,
      ih fun d hd => h d (List.mem_cons_of_mem c hd)]

theorem trim_eq_self {cs : List Char} (hfirst : ∀ c ∈ cs.head?, isBlank c = false)
    (hlast : ∀ c ∈ cs.getLast?, isBlank c = false) : trim cs = cs := by
  have hstart : ∀ {ds : List Char}, (∀ c ∈ ds.head?, isBlank c = false) →
      ds.dropWhile isBlank = ds := by
    intro ds hds
    cases ds with
    | nil => rfl
    | cons d ds => exact List.dropWhile_cons_of_neg (by simp [hds d rfl])
  rw [trim, hstart hfirst, dropEndWhile, hstart, List.reverse_reverse]
  intro c hc
  exact hlast c (by rwa [List.head?_reverse] at hc)

end Chars

theorem dropTypeArguments_eq_self {s : String} (hplain : ∀ c ∈ s.toList, c ∉ ['<', '>', '[', ']'])
    (hfirst : ∀ c ∈ s.toList.head?, isBlank c = false)
    (hlast : ∀ c ∈ s.toList.getLast?, isBlank c = false) : Text.dropTypeArguments s = s := by
  rw [Text.dropTypeArguments, Chars.outsideBrackets_eq_self hplain, Text.trim, String.toList_ofList,
    Chars.trim_eq_self hfirst hlast, String.ofList_toList]

namespace Spells

variable {p : PathSyntax} {src head : String} {t : Tree} {members : List Member} {c : Char}

theorem isBlank_head? (h : Spells p src t head members) (hc : (t.text src).toList.head? = some c) :
    isBlank c = false := by
  rw [h.text_eq, String.toList_append, List.head?_append_of_ne_nil _ h.isName.toList_ne_nil] at hc
  exact isBlank_of_isPlain (h.isName.isPlain_of_mem (List.mem_of_mem_head? hc))

theorem isBlank_getLast? (h : Spells p src t head members)
    (hc : (t.text src).toList.getLast? = some c) : isBlank c = false := by
  cases h with
  | name _ hname => exact isBlank_of_isPlain (hname.isPlain_of_mem (List.mem_of_getLast? hc))
  | pick m _ _ _ htext =>
    have hne : (m.written p.separator).toList ≠ [] := by
      simp [Member.written, m.isName.ne_empty]
    rw [htext, String.toList_append, List.getLast?_append_of_ne_nil _ hne,
      Member.getLast?_written] at hc
    exact isBlank_of_isPlain (m.isName.isPlain_of_mem (List.mem_of_getLast? hc))

theorem not_mem_brackets (h : Spells p src t head members) (hc : c ∈ (t.text src).toList) :
    c ∉ ['<', '>', '[', ']'] := by
  have hplain : isPlain c = true → c ∉ ['<', '>', '[', ']'] :=
    fun hc hmem => not_mem_of_isPlain hc (List.mem_append_right ['.', ':'] hmem)
  induction h with
  | name _ hname => exact hplain (hname.isPlain_of_mem hc)
  | pick m _ _ _ htext ih =>
    rw [htext, String.toList_append, List.mem_append] at hc
    rcases hc with hinner | hmember
    · exact ih hinner
    · rcases Member.mem_written hmember with hblank | hseparator | hc
      · intro hmem
        rw [isBlank_of_mem (List.mem_append_right ['.', ':'] hmem)] at hblank
        cases hblank
      · rcases List.mem_pair.mp (Separator.mem_text hseparator) with rfl | rfl
        · decide
        · decide
      · exact hplain hc

/-- A path has no type arguments to drop. -/
theorem dropTypeArguments_text (h : Spells p src t head members) :
    Text.dropTypeArguments (t.text src) = head ++ Member.writtenAll p.separator members := by
  rw [← h.text_eq]
  exact dropTypeArguments_eq_self (fun _ => h.not_mem_brackets) (fun _ => h.isBlank_head?)
    (fun _ => h.isBlank_getLast?)

end Spells

end CodeOutline
