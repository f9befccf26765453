import CodeOutline.Proofs.Collapse
import Mathlib.Data.List.Chain

/-!
# Heads on one line

A head stands on one line: it holds no blank but the space, and no two spaces side by side.

Heads are put together from pieces of the source that are collapsed one by one. Collapsing gives one
line (`oneLine_collapse`), and so does all that is done with it afterwards: taking off what ends it
(`OneLine.of_part`), and putting two lines side by side, with a space between one that ends and one
that begins with no blank (`OneLine.join`).

**Runs.** A rule is *on one line* when every symbol it lists has its head on one line.
`Rule.OneLine.findings` carries this to all that the rule finds in a tree.
-/

namespace CodeOutline

open CodeOutline.Tree

/-! ## Lines -/

/-- The text holds no blank but the space, and no two spaces side by side. -/
structure Text.OneLine (s : String) : Prop where
  blanks : ∀ c ∈ s.toList, isBlank c = true → c = ' '
  apart : s.toList.IsChain fun c d => ¬ (c = ' ' ∧ d = ' ')

namespace Chars

open Text (isBlank)

variable {cs ds : List Char} {c : Char}

theorem ne_space_of_isBlank (h : isBlank c = false) : c ≠ ' ' := by
  rintro rfl
  cases h

theorem StartsSolid.of_initial (h : StartsSolid ds) (hinitial : cs <+: ds) : StartsSolid cs := by
  obtain ⟨rest, rfl⟩ := hinitial
  intro c hc
  apply h
  rw [List.head?_append, hc]
  rfl

theorem startsSolid_narrowFrom_true (cs : List Char) : StartsSolid (narrowFrom true cs) := by
  intro c hc
  rw [← dropWhile_narrowFrom true] at hc
  exact head?_dropWhile hc

theorem eq_space_of_mem_narrowFrom {afterBlank : Bool} (h : c ∈ narrowFrom afterBlank cs)
    (hc : isBlank c = true) : c = ' ' := by
  induction cs generalizing afterBlank with
  | nil => cases h
  | cons d cs ih =>
    rw [narrowFrom] at h
    split_ifs at h with hd
    · exact ih h
    · rcases List.mem_cons.mp h with hspace | h
      · exact hspace
      · exact ih h
    · rcases List.mem_cons.mp h with rfl | h
      · exact absurd hc hd
      · exact ih h

/-- Behind a space comes the rest of the text without the blanks it begins with. -/
theorem isChain_narrowFrom (afterBlank : Bool) (cs : List Char) :
    (narrowFrom afterBlank cs).IsChain fun c d => ¬ (c = ' ' ∧ d = ' ') := by
  induction cs generalizing afterBlank with
  | nil => exact List.isChain_nil
  | cons c cs ih =>
    rw [narrowFrom]
    split_ifs with hc
    · exact ih true
    · refine List.isChain_cons.mpr ⟨fun d hd hspaces => ?_, ih true⟩
      exact ne_space_of_isBlank (startsSolid_narrowFrom_true cs d hd) hspaces.2
    · refine List.isChain_cons.mpr ⟨fun d _ hspaces => ?_, ih false⟩
      exact ne_space_of_isBlank (by simpa using hc) hspaces.1

end Chars

namespace Text

variable {s t : String}

/-- A part of one line is one line. -/
theorem OneLine.of_part (h : OneLine s) (hpart : t.toList <:+: s.toList) : OneLine t :=
  ⟨fun c hc => h.blanks c (hpart.mem hc), List.IsChain.infix h.apart hpart⟩

/-- **Collapsing** puts a text on one line. -/
theorem oneLine_collapse (s : String) : OneLine (collapse s) := by
  have hnarrow : OneLine (String.ofList (Chars.narrow s.toList)) := by
    refine ⟨?_, ?_⟩ <;> rw [String.toList_ofList]
    · exact fun c => Chars.eq_space_of_mem_narrowFrom
    · exact Chars.isChain_narrowFrom false _
  apply hnarrow.of_part
  rw [toList_collapse, String.toList_ofList, Chars.trim]
  exact (Chars.prefix_dropEndWhile ..).isInfix.trans (List.dropWhile_suffix _).isInfix

theorem startsSolid_collapse (s : String) : Chars.StartsSolid (collapse s).toList := by
  intro c hc
  rw [toList_collapse] at hc
  exact Chars.head?_trim hc

theorem isBlank_of_getLast?_collapse (s : String) :
    ∀ c ∈ (collapse s).toList.getLast?, isBlank c = false := by
  intro c hc
  rw [toList_collapse] at hc
  exact Chars.getLast?_trim hc

/-- Without blanks there is nothing to break a line. -/
theorem oneLine_of_solid (h : ∀ c ∈ s.toList, isBlank c = false) : OneLine s := by
  refine ⟨fun c hc hblank => ?_, ?_⟩
  · rw [h c hc] at hblank
    cases hblank
  · rw [← Chars.narrow_of_solid h]
    exact Chars.isChain_narrowFrom false _

/-- Two lines side by side, with a space between what is no blank. -/
theorem OneLine.join (hs : OneLine s) (ht : OneLine t)
    (hend : ∀ c ∈ s.toList.getLast?, isBlank c = false) (hstart : Chars.StartsSolid t.toList) :
    OneLine (s ++ " " ++ t) := by
  have hchars : (s ++ " " ++ t).toList = s.toList ++ ' ' :: t.toList := by simp
  refine ⟨?_, ?_⟩ <;> rw [hchars]
  · intro c hc hblank
    rcases List.mem_append.mp hc with hc | hc
    · exact hs.blanks c hc hblank
    · rcases List.mem_cons.mp hc with hc | hc
      · exact hc
      · exact ht.blanks c hc hblank
  · refine List.isChain_append.mpr ⟨hs.apart, List.isChain_cons.mpr ⟨?_, ht.apart⟩, ?_⟩
    · intro c hc hspaces
      exact Chars.ne_space_of_isBlank (hstart c hc) hspaces.2
    · intro c hc d _ hspaces
      exact Chars.ne_space_of_isBlank (hend c hc) hspaces.1

/-! ## What is taken off a line -/

theorem prefix_trimEnd (s : String) : (trimEnd s).toList <+: s.toList := by
  rw [trimEnd, String.toList_ofList]
  exact Chars.prefix_dropEndWhile ..

theorem prefix_dropEnd (chars : List Char) (s : String) :
    (dropEnd chars s).toList <+: s.toList := by
  rw [dropEnd, String.toList_ofList]
  exact Chars.prefix_dropEndWhile ..

theorem prefix_firstPiece (chars : List Char) (s : String) :
    (firstPiece chars s).toList <+: s.toList := by
  rw [firstPiece, String.toList_ofList]
  exact List.takeWhile_prefix _

theorem prefix_dropTerminator (mark : Char) (s : String) :
    (dropTerminator mark s).toList <+: s.toList :=
  (prefix_trimEnd _).trans (prefix_dropEnd _ _)

theorem OneLine.dropEnd (h : OneLine s) (chars : List Char) : OneLine (dropEnd chars s) :=
  h.of_part (prefix_dropEnd chars s).isInfix

theorem OneLine.dropTerminator (h : OneLine s) (mark : Char) : OneLine (dropTerminator mark s) :=
  h.of_part (prefix_dropTerminator mark s).isInfix

end Text

/-! ## Heads -/

section Heads

variable (src : String) (start stop : Nat)

theorem oneLine_headline : Text.OneLine (headline src start stop) := Text.oneLine_collapse _

theorem startsSolid_headline : Chars.StartsSolid (headline src start stop).toList :=
  Text.startsSolid_collapse _

/-- A word before what a head begins with. -/
theorem oneLine_word_append (word : String) {head : String}
    (hword : (word.toList.all fun c => !Text.isBlank c) = true)
    (hhead : head.toList <+: (headline src start stop).toList) :
    Text.OneLine (word ++ " " ++ head) := by
  have hsolid : ∀ c ∈ word.toList, Text.isBlank c = false := by simpa using hword
  have hline := (oneLine_headline src start stop).of_part hhead.isInfix
  have hstart := (startsSolid_headline src start stop).of_initial hhead
  refine (Text.oneLine_of_solid hsolid).join hline (fun c hc => ?_) hstart
  exact hsolid c (List.mem_of_getLast? hc)

/-- The shared part of a head and what one declaration adds to it. -/
theorem oneLine_headlines (start' stop' : Nat) :
    Text.OneLine (headline src start stop ++ " " ++ headline src start' stop') :=
  (oneLine_headline ..).join (oneLine_headline ..) (Text.isBlank_of_getLast?_collapse _)
    (startsSolid_headline src start' stop')

end Heads

/-! ## Items -/

/-- The head of the symbol that the item lists, if it does, is on one line. -/
def Item.OneLine : Item → Prop
  | .found (.symbol d) => Text.OneLine d.symbol.signature
  | _ => True

/-- The heads of the symbols in the list are on one line each. -/
def OneLineItems (items : List Item) : Prop := ∀ item ∈ items, item.OneLine

namespace OneLineItems

variable {xs ys items : List Item}

theorem nil : OneLineItems [] := List.forall_mem_nil _

theorem append (hx : OneLineItems xs) (hy : OneLineItems ys) : OneLineItems (xs ++ ys) :=
  List.forall_mem_append.mpr ⟨hx, hy⟩

theorem cons {item : Item} (h : item.OneLine) (hitems : OneLineItems items) :
    OneLineItems (item :: items) :=
  List.forall_mem_cons.mpr ⟨h, hitems⟩

theorem flatMap {α : Type} {as : List α} {f : α → List Item} (h : ∀ a, OneLineItems (f a)) :
    OneLineItems (as.flatMap f) := by
  intro item hitem
  obtain ⟨a, _, hitem⟩ := List.mem_flatMap.mp hitem
  exact h a item hitem

theorem filterMap {α : Type} {as : List α} {item? : α → Option Item}
    (h : ∀ a item, item? a = some item → item.OneLine) : OneLineItems (as.filterMap item?) := by
  intro item hitem
  obtain ⟨a, _, hitem⟩ := List.mem_filterMap.mp hitem
  exact h a item hitem

theorem filterMap_map {α β : Type} {as : List α} {part? : α → Option β} {f : α → β → Item}
    (h : ∀ a b, (f a b).OneLine) : OneLineItems (as.filterMap fun a => (part? a).map (f a)) := by
  refine filterMap fun a item hitem => ?_
  obtain ⟨b, _, rfl⟩ := Option.map_eq_some_iff.mp hitem
  exact h a b

theorem map {α : Type} {as : List α} {f : α → Item} (h : ∀ a, (f a).OneLine) :
    OneLineItems (as.map f) := by
  intro item hitem
  obtain ⟨a, _, rfl⟩ := List.mem_map.mp hitem
  exact h a

/-- Nothing is declared by items that cover no text. -/
theorem silent (h : Silent items) : OneLineItems items := by
  intro item hitem
  cases item with
  | enter place scope => trivial
  | found finding =>
    cases finding with
    | symbol d => cases h _ hitem
    | _ => trivial

theorem within (place : Option Cursor) (scope : Scope) : OneLineItems (Item.within place scope) :=
  map fun _ => trivial

theorem enter (place : Cursor) (scope : Scope) : OneLineItems [.enter place scope] :=
  within (some place) scope

end OneLineItems

/-! ## Runs -/

namespace Rule

/-- What the rule lists for a place is on one line, if its node is as `P` says. -/
def OneLine (P : Tree → Prop) (rule : Rule) : Prop :=
  ∀ scope c, P c.node → OneLineItems (rule scope c)

/-- **Runs.** The symbols that a rule on one line finds in a tree have their heads on one line. -/
theorem OneLine.findings {P : Tree → Prop} {rule : Rule} {src : String} (h : rule.OneLine P)
    (hlocal : rule.Local src) {root : Tree} (hroot : ∀ t ∈ root.nodes, P t) {d : Declared}
    (hd : .symbol d ∈ rule.findings root) : Text.OneLine d.symbol.signature := by
  refine explore_induction (fun _ place => place.node ∈ root.nodes)
    (fun finding => (Item.found finding).OneLine) ?_ ?_ root.height {} (Cursor.root root)
    (self_mem_nodes root) _ hd
  · intro scope place child finding hplace hchild _ hitem
    have hin := mem_nodes_trans (Cursor.mem_nodes_of_mem_children hchild) hplace
    exact h scope child (hroot _ hin) _ hitem
  · intro scope place child inner innerScope hplace hchild hclear hitem
    have hin := mem_nodes_trans (Cursor.mem_nodes_of_mem_children hchild) hplace
    exact mem_nodes_trans (hlocal scope child (isSealed_of_isError hclear) _ hitem).1 hin

end Rule

end CodeOutline
