import CodeOutline.Names.Resolver
import CodeOutline.Proofs.Affixes

/-!
# Heads of references

`CutAt separators text head rest` says that the first place of `text` where a separator begins is
between `head` and `rest`. The cut that the resolver makes is the only one (`cutHead_eq_iff`).

A head stands for the object at hand if a word for it is left when calls and question marks are
taken off (`Resolver.isSelf_iff`).

**Gluing.** Resolving replaces the head of a reference by a path, which may have separators of its
own. The head of the glued text is the head of the path (`CutAt.append`), unless a separator begins
at the end of the path and ends in the rest.
-/

namespace CodeOutline

/-! ## The first separator -/

/-- No separator begins inside `head`, and one begins right after it unless that is the end. -/
structure CutAt (separators : List (List Char)) (text head rest : List Char) : Prop where
  text_eq : text = head ++ rest
  starts : rest ≠ [] → ∃ sep ∈ separators, sep <+: rest
  earliest : ∀ i < head.length, ∀ sep ∈ separators, ¬ sep <+: text.drop i

namespace CutAt

variable {separators : List (List Char)} {text head rest cs : List Char} {c : Char}

/-- A separator at the front leaves an empty head. -/
theorem head_eq_nil (h : CutAt separators text head rest)
    (hsep : ∃ sep ∈ separators, sep <+: text) : head = [] := by
  by_contra hne
  obtain ⟨sep, hmem, hpre⟩ := hsep
  exact h.earliest 0 (List.length_pos_iff.mpr hne) sep hmem hpre

theorem of_starts (h : ∃ sep ∈ separators, sep <+: text) : CutAt separators text [] text :=
  ⟨rfl, fun _ => h, fun i hi => absurd hi (Nat.not_lt_zero i)⟩

theorem cons (h : CutAt separators cs head rest) (hnone : ∀ sep ∈ separators, ¬ sep <+: c :: cs) :
    CutAt separators (c :: cs) (c :: head) rest := by
  refine ⟨by rw [h.text_eq, List.cons_append], h.starts, fun i hi sep hsep => ?_⟩
  cases i with
  | zero => exact hnone sep hsep
  | succ i => exact h.earliest i (Nat.lt_of_succ_lt_succ hi) sep hsep

theorem tail (h : CutAt separators (c :: cs) (c :: head) rest) : CutAt separators cs head rest := by
  refine ⟨List.cons.inj h.text_eq |>.2, h.starts, fun i hi sep hsep => ?_⟩
  exact h.earliest (i + 1) (Nat.succ_lt_succ hi) sep hsep

end CutAt

theorem cutAt_cutHead (separators : List (List Char)) (text : List Char) :
    CutAt separators text (Resolver.cutHead separators text).1
      (Resolver.cutHead separators text).2 := by
  induction text with
  | nil => exact ⟨rfl, fun h => absurd rfl h, fun i hi => absurd hi (Nat.not_lt_zero i)⟩
  | cons c cs ih =>
    rw [Resolver.cutHead]
    split
    · next hany => exact .of_starts (by simpa using hany)
    · next hnone => exact ih.cons (by simpa using hnone)

theorem CutAt.cutHead_eq {separators : List (List Char)} {text head rest : List Char}
    (h : CutAt separators text head rest) : Resolver.cutHead separators text = (head, rest) := by
  induction text generalizing head with
  | nil =>
    obtain ⟨rfl, rfl⟩ := List.append_eq_nil_iff.mp h.text_eq.symm
    rfl
  | cons c cs ih =>
    rw [Resolver.cutHead]
    split
    · next hany =>
      obtain rfl := h.head_eq_nil (by simpa using hany)
      rw [h.text_eq, List.nil_append]
    · next hnone =>
      have hnone : ∀ sep ∈ separators, ¬ sep <+: c :: cs := by simpa using hnone
      cases head with
      | nil =>
        obtain ⟨sep, hsep, hpre⟩ := h.starts (by rw [← List.nil_append rest, ← h.text_eq]; simp)
        rw [← List.nil_append rest, ← h.text_eq] at hpre
        exact absurd hpre (hnone sep hsep)
      | cons d head =>
        obtain rfl : c = d := (List.cons.inj h.text_eq).1
        rw [ih h.tail]

/-- **The resolver cuts at the first separator,** and there is no other such cut. -/
theorem cutHead_eq_iff {separators : List (List Char)} {text head rest : List Char} :
    Resolver.cutHead separators text = (head, rest) ↔ CutAt separators text head rest := by
  refine ⟨fun h => ?_, CutAt.cutHead_eq⟩
  have hcut := cutAt_cutHead separators text
  rwa [h] at hcut

theorem CutAt.unique {separators : List (List Char)} {text head rest head' rest' : List Char}
    (h : CutAt separators text head rest) (h' : CutAt separators text head' rest') :
    head = head' ∧ rest = rest' :=
  Prod.mk.inj (h.cutHead_eq.symm.trans h'.cutHead_eq)

/-! ### Gluing -/

/-- No separator begins at the end of `path` and ends in `rest`. -/
def Seamless (separators : List (List Char)) (path rest : List Char) : Prop :=
  ∀ front back, front ++ back ∈ separators → front ≠ [] → back ≠ [] →
    front <:+ path → ¬ back <+: rest

/-- **Gluing.** What follows a path does not change its head. -/
theorem CutAt.append {separators : List (List Char)} {path head tail rest : List Char}
    (h : CutAt separators path head tail) (hrest : rest ≠ [] → ∃ sep ∈ separators, sep <+: rest)
    (hseam : Seamless separators path rest) :
    CutAt separators (path ++ rest) head (tail ++ rest) := by
  refine ⟨by rw [h.text_eq, List.append_assoc], fun hne => ?_, fun i hi sep hsep hpre => ?_⟩
  · by_cases htail : tail = []
    · subst htail
      exact hrest hne
    · obtain ⟨sep, hsep, hpre⟩ := h.starts htail
      exact ⟨sep, hsep, hpre.trans (List.prefix_append tail rest)⟩
  · have hlen : i < path.length := by
      rw [h.text_eq, List.length_append]
      omega
    rw [List.drop_append_of_le_length (Nat.le_of_lt hlen)] at hpre
    obtain ⟨after, heq⟩ := hpre
    rcases List.append_eq_append_iff.mp heq with ⟨mid, hdrop, -⟩ | ⟨back, rfl, hback⟩
    · exact h.earliest i hi sep hsep ⟨mid, hdrop.symm⟩
    · by_cases hnil : back = []
      · subst hnil
        exact h.earliest i hi _ hsep (by simp)
      · refine hseam _ back hsep ?_ hnil (List.drop_suffix i path) ⟨after, hback.symm⟩
        exact List.drop_eq_nil_iff.not.mpr (Nat.not_le.mpr hlen)

namespace Resolver

variable (r : Resolver)

theorem split_eq_iff {reference head rest : String} :
    r.split reference = (head, rest) ↔
      CutAt (r.rules.separators.map String.toList) reference.toList head.toList rest.toList := by
  rw [← cutHead_eq_iff]
  constructor
  · intro h
    obtain ⟨hhead, hrest⟩ := Prod.mk.inj h
    rw [← hhead, ← hrest, String.toList_ofList, String.toList_ofList]
  · intro h
    simp [split, h]

/-- A head stands for the object at hand if a word for it is left when the calls and then the
question marks at its end are taken off. -/
theorem isSelf_iff (head : String) :
    r.isSelf head = true ↔ ∃ called word, StripsTo "()".toList head.toList called ∧
      StripsTo "?".toList called word ∧ String.ofList word ∈ r.rules.selfWords := by
  have hcalled : StripsTo "()".toList head.toList (Chars.dropAllEnd "()".toList head.toList) :=
    Chars.stripsTo_dropAllEnd (by decide) head.toList
  have hword := Chars.stripsTo_dropEndWhile '?' (Chars.dropAllEnd "()".toList head.toList)
  have hself : r.isSelf head = true ↔ String.ofList (Chars.dropEndWhile (fun d => d ∈ ['?'])
      (Chars.dropAllEnd "()".toList head.toList)) ∈ r.rules.selfWords := by
    simp [isSelf, Text.dropEnd, Text.dropAllEnd]
  rw [hself]
  constructor
  · exact fun h => ⟨_, _, hcalled, hword, h⟩
  · rintro ⟨called, word, hcalled', hword', h⟩
    obtain rfl := hcalled.unique hcalled'
    rwa [hword.unique hword']

end Resolver

end CodeOutline
