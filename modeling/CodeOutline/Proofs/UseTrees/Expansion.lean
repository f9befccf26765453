import CodeOutline.Proofs.Affixes
import CodeOutline.Proofs.Collapse
import CodeOutline.Proofs.Splitting
import CodeOutline.Proofs.UseTrees.Syntax
import Mathlib.Data.List.DropRight

/-!
# Reading use trees from text

`Rust.expand` reads a use tree from its text alone. It takes the first opening brace and, at the
very end, the closing one, and splits what is between them at commas; a text that does not end in a
brace is a leaf.

Nothing can go wrong there, whatever the text: the two braces are two places, the opening one first,
so the text is what stands before them, between them and the braces themselves (`eq_of_group?`), and
all that is read further is shorter.

If a text is put together from parts that pass the scan of commas, it is taken apart into these
parts (`expand_braced`).
-/

namespace CodeOutline

open Text (isBlank)

namespace Rust

/-! ## Copies of a separator -/

theorem colons_ne_nil : colons ≠ [] := by decide

/-- Leading separators are dropped up to a character that is not part of one. -/
theorem dropAll_colons_append_cons {c : Char} (hc : c ≠ ':') (cs ds : List Char) :
    Chars.dropAll colons (cs ++ c :: ds) = Chars.dropAll colons cs ++ c :: ds := by
  obtain ⟨n, hn, hstart⟩ := Chars.exists_dropAll colons_ne_nil cs
  refine Chars.dropAll_eq colons_ne_nil ⟨n, ?_⟩ fun hpre => ?_
  · rw [← List.append_assoc, ← hn]
  · -- a separator that began in `cs` would have to take `c`, or stand in `cs` itself
    rcases hrest : Chars.dropAll colons cs with - | ⟨a, - | ⟨b, rest⟩⟩
    · rw [hrest] at hpre
      exact hc (List.cons_prefix_cons.mp hpre).1.symm
    · rw [hrest] at hpre
      have hsecond := (List.cons_prefix_cons.mp hpre).2
      exact hc (List.cons_prefix_cons.mp hsecond).1.symm
    · rw [hrest] at hpre hstart
      obtain ⟨rfl, hsecond⟩ := List.cons_prefix_cons.mp hpre
      obtain ⟨rfl, -⟩ := List.cons_prefix_cons.mp hsecond
      exact hstart (List.prefix_append colons rest)

/-! ## The bare text -/

theorem bare_trim (cs : List Char) : bare (Chars.trim cs) = bare cs := by
  rw [bare, Chars.trim_trim, bare]

/-- Without a separator at the front, only blanks are taken off. -/
theorem bare_eq_trim {cs : List Char} (h : ¬ colons <+: Chars.trim cs) :
    bare cs = Chars.trim cs := by
  rw [bare, Chars.dropAll_eq_self colons_ne_nil h, Chars.trim_trim]

theorem bare_of_blank {cs : List Char} (h : ∀ c ∈ cs, isBlank c = true) : bare cs = [] := by
  rw [bare, Chars.trim_eq_nil h]
  decide

/-- A separator at the very start is no part of the tree. -/
theorem bare_colons_append {cs : List Char} (h : ∀ c ∈ cs.head?, isBlank c = false) :
    bare (colons ++ cs) = bare cs := by
  have hfirst : Chars.trim cs = Chars.dropEndWhile isBlank cs := by
    cases cs with
    | nil => rfl
    | cons c cs => rw [Chars.trim, List.dropWhile_cons_of_neg (by simp [h c rfl])]
  have htrim : Chars.trim (colons ++ cs) = colons ++ Chars.trim cs := by
    have hcons : colons ++ cs = [':'] ++ ':' :: cs := rfl
    rw [hcons, Chars.trim_append_cons (by decide), hfirst]
    rfl
  rw [bare, htrim, Chars.dropAll_append colons_ne_nil, bare]

theorem mem_bare {cs : List Char} {c : Char} (hblank : isBlank c = false) (hc : c ≠ ':')
    (h : c ∈ cs) : c ∈ bare cs := by
  refine Chars.mem_trim (Chars.mem_dropAll colons_ne_nil ?_ (Chars.mem_trim h hblank)) hblank
  have hcolons : colons = [':', ':'] := rfl
  simp [hcolons, hc]

theorem mem_of_mem_bare {cs : List Char} {c : Char} (h : c ∈ bare cs) : c ∈ cs :=
  Chars.mem_of_mem_trim (Chars.mem_of_mem_dropAll colons_ne_nil (Chars.mem_of_mem_trim h))

/-- What is left in front of a character that no blank and no separator reaches. -/
def front (cs : List Char) : List Char :=
  (Chars.dropAll colons (cs.dropWhile isBlank)).dropWhile isBlank

theorem bare_append_cons {c : Char} (hblank : isBlank c = false) (hc : c ≠ ':')
    (cs ds : List Char) :
    bare (cs ++ c :: ds) = front cs ++ c :: Chars.dropEndWhile isBlank ds := by
  have hagain : Chars.dropEndWhile isBlank (Chars.dropEndWhile isBlank ds) =
      Chars.dropEndWhile isBlank ds := by
    simp [Chars.dropEndWhile, List.dropWhile_idempotent]
  rw [bare, Chars.trim_append_cons hblank, dropAll_colons_append_cons hc,
    Chars.trim_append_cons hblank, hagain, front]

theorem mem_of_mem_front {cs : List Char} {c : Char} (h : c ∈ front cs) : c ∈ cs :=
  (List.dropWhile_suffix _).mem
    (Chars.mem_of_mem_dropAll colons_ne_nil ((List.dropWhile_suffix _).mem h))

/-! ## Groups -/

/-- **Braces are two places.** What is cut out of a group is what stands in it, and it is put back
together from that. -/
theorem eq_of_group? {cs base inner : List Char} (h : group? cs = some (base, inner)) :
    cs = base ++ '\x7b' :: (inner ++ ['\x7d']) := by
  rw [group?] at h
  split at h
  · next hlast =>
    obtain ⟨⟨before, rest⟩, hcut, heq⟩ := Option.map_eq_some_iff.mp h
    obtain ⟨rfl, rfl⟩ := Prod.mk.inj heq
    have htext := Chars.eq_append_of_cut? hcut
    rw [List.append_assoc, List.singleton_append] at htext
    rw [htext, List.getLast?_append_cons] at hlast
    cases rest with
    | nil => simp at hlast
    | cons c rest =>
      rw [List.getLast?_cons_cons] at hlast
      obtain ⟨inside, hrest⟩ := List.getLast?_eq_some_iff.mp hlast
      rw [htext, hrest, List.dropLast_concat]
  · cases h

theorem group?_eq_none {cs : List Char} (h : '\x7d' ∉ cs.getLast?) : group? cs = none :=
  if_neg h

theorem group?_braced {base : List Char} (hbase : '\x7b' ∉ base) (inner : List Char) :
    group? (base ++ '\x7b' :: (inner ++ ['\x7d'])) = some (base, inner) := by
  have hlast : (base ++ '\x7b' :: (inner ++ ['\x7d'])).getLast? = some '\x7d' := by
    rw [← List.cons_append, ← List.append_assoc, List.getLast?_concat]
  have hcut : Chars.cut? ['\x7b'] (base ++ '\x7b' :: (inner ++ ['\x7d'])) =
      some (base, inner ++ ['\x7d']) := Chars.cut?_append hbase _
  simp [group?, hlast, hcut]

/-! ## Leaves -/

/-- What a leaf names, and the name it gives to that. -/
def renamed (leaf : String) : String × Option String :=
  match Text.cut? " as " leaf with
  | some (path, name) => (Text.trim path, some (Text.trim name))
  | none => (leaf, none)

theorem renamed_of_cut? {leaf path name : List Char}
    (h : Chars.cut? " as ".toList leaf = some (path, name)) :
    renamed (String.ofList leaf) =
      (String.ofList (Chars.trim path), some (String.ofList (Chars.trim name))) := by
  have hcut : Text.cut? " as " (String.ofList leaf) =
      some (String.ofList path, String.ofList name) := by
    rw [Text.cut?, String.toList_ofList (l := leaf), h]
    rfl
  rw [renamed, hcut]
  simp only [Text.trim, String.toList_ofList]

theorem renamed_of_cut?_eq_none {leaf : List Char} (h : Chars.cut? " as ".toList leaf = none) :
    renamed (String.ofList leaf) = (String.ofList leaf, none) := by
  have hcut : Text.cut? " as " (String.ofList leaf) = none := by
    rw [Text.cut?, String.toList_ofList (l := leaf), h]
    rfl
  rw [renamed, hcut]

/-- The import of what a path leads to. -/
def pathImport (full : String) (asName : Option String) : Import :=
  match Text.cutLast? "::" full with
  | some (path, name) => .member path name asName
  | none => .whole full asName

theorem leafImport?_eq (root leaf : String) :
    leafImport? root leaf =
      if (renamed leaf).1 = "self" then
        if root.isEmpty then none else some (.whole root (renamed leaf).2)
      else some (pathImport (joinPath root (renamed leaf).1) (renamed leaf).2) := by
  show (if (renamed leaf).1 = "self" then _ else
    match Text.cutLast? "::" (joinPath root (renamed leaf).1) with
      | some (path, name) => some (Import.member path name (renamed leaf).2)
      | none => some (Import.whole (joinPath root (renamed leaf).1) (renamed leaf).2)) = _
  rw [pathImport]
  cases Text.cutLast? "::" (joinPath root (renamed leaf).1) <;> rfl

theorem asName_pathImport (full : String) (asName : Option String) :
    (pathImport full asName).asName = asName := by
  rw [pathImport]
  cases Text.cutLast? "::" full <;> rfl

/-! ## Expansion -/

theorem expand_eq (root : String) (text : List Char) :
    expand root text =
      if (bare text).isEmpty then []
      else match group? (bare text) with
        | some (base, inner) =>
          (Chars.splitTop ',' false inner).flatMap
            (expand (joinPath root (Text.dropAllEnd "::" (Text.trim (String.ofList base)))))
        | none => (leafImport? root (String.ofList (bare text))).toList := by
  rw [expand]
  split
  · rfl
  · split
    · next hgroup =>
      rw [hgroup, List.flatMap_subtype fun _ _ => rfl, List.unattach_attach]
    · next hgroup => rw [hgroup]

theorem expand_congr {cs ds : List Char} (root : String) (h : bare cs = bare ds) :
    expand root cs = expand root ds := by
  rw [expand_eq, expand_eq root ds, h]

theorem expand_of_blank {cs : List Char} (root : String) (h : ∀ c ∈ cs, isBlank c = true) :
    expand root cs = [] := by
  rw [expand_eq, bare_of_blank h]
  rfl

/-- A text that does not end in a brace is a leaf. -/
theorem expand_of_unclosed {cs : List Char} (root : String) (hne : bare cs ≠ [])
    (hlast : '\x7d' ∉ (bare cs).getLast?) :
    expand root cs = (leafImport? root (String.ofList (bare cs))).toList := by
  rw [expand_eq, if_neg (by simpa using hne), group?_eq_none hlast]

/-- The path to the parts of a group, as it is read from the text before the braces. -/
def basePath (base : List Char) : String :=
  Text.dropAllEnd "::" (Text.trim (String.ofList (front base)))

theorem toList_basePath (base : List Char) :
    (basePath base).toList = Chars.dropAllEnd colons (Chars.trim (front base)) := by
  rw [basePath, Text.dropAllEnd, Text.trim, String.toList_ofList,
    String.toList_ofList (l := Chars.trim _), String.toList_ofList (l := front base)]

/-- **A group is taken apart** into the parts it was put together from, each below the group's
path. -/
theorem expand_braced (root : String) {base rest : List Char} {parts : List (List Char)}
    (hbase : '\x7b' ∉ base) (hrest : ∀ c ∈ rest, isBlank c = true)
    (hparts : ∀ p ∈ parts, Chars.Passes ',' false {} p) :
    expand root (base ++ '\x7b' :: ([','].intercalate parts ++ '\x7d' :: rest)) =
      parts.flatMap (expand (joinPath root (basePath base))) := by
  have hbare : bare (base ++ '\x7b' :: ([','].intercalate parts ++ '\x7d' :: rest)) =
      front base ++ '\x7b' :: ([','].intercalate parts ++ ['\x7d']) := by
    rw [bare_append_cons (by decide) (by decide), Chars.dropEndWhile_append_cons (by decide),
      Chars.dropEndWhile_eq_nil hrest]
  have hgroup := group?_braced (fun h => hbase (mem_of_mem_front h)) ([','].intercalate parts)
  rw [expand_eq, hbare, hgroup, if_neg (by simp)]
  show (Chars.splitTop ',' false ([','].intercalate parts)).flatMap
    (expand (joinPath root (basePath base))) = _
  cases parts with
  | nil =>
    -- nothing between the braces is one empty part, which makes no import
    have hempty : Chars.splitTop ',' false ([','].intercalate []) = [[]] := rfl
    rw [hempty, List.flatMap_singleton, expand_of_blank _ (by simp)]
    rfl
  | cons part parts => rw [Chars.splitTop_intercalate (List.cons_ne_nil part parts) hparts]

end Rust

end CodeOutline
