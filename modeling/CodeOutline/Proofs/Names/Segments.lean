import CodeOutline.Proofs.Names.Heads
import Mathlib.Data.List.Induction

/-!
# Segments of paths

The *last segment* of a path follows its last separator, and the *first piece* comes before the
first one. A path's *trailing segment* is its last segment that is not empty
(`trailingSegment_eq_iff`). A *package name* is cut out of the last segment, or out of the one
before it if the last is a version (`packageName_eq_iff`).

The names are found by cutting a path into all its pieces. Both results go through
`Chars.reverse_pieces`: the pieces, last one first, begin with the last segment and go on with the
pieces of what precedes it.
-/

namespace CodeOutline

/-! ## Last segments -/

/-- `segment` is what follows the last separator of `path`, and `before` is all up to there. -/
structure LastSegment (isSep : Char → Bool) (path before segment : List Char) : Prop where
  path_eq : path = before ++ segment
  free : ∀ c ∈ segment, isSep c = false
  ends : before = [] ∨ ∃ front c, before = front ++ [c] ∧ isSep c = true

namespace Chars

variable {p : Char → Bool} {cs xs ys : List Char} {c : Char}

theorem pieces_ne_nil (p : Char → Bool) (cs : List Char) : pieces p cs ≠ [] := by
  cases cs with
  | nil => exact List.cons_ne_nil _ _
  | cons c cs =>
    rw [pieces]
    split
    · exact List.cons_ne_nil _ _
    · split <;> exact List.cons_ne_nil _ _

theorem pieces_of_free (h : ∀ c ∈ cs, p c = false) : pieces p cs = [cs] := by
  induction cs with
  | nil => rfl
  | cons c cs ih =>
    rw [pieces, h c List.mem_cons_self, ih fun d hd => h d (List.mem_cons_of_mem _ hd)]
    rfl

/-- A separator divides the pieces before it from those after it. -/
theorem pieces_append (h : p c = true) (xs ys : List Char) :
    pieces p (xs ++ c :: ys) = pieces p xs ++ pieces p ys := by
  induction xs with
  | nil => simp [pieces, h]
  | cons x xs ih =>
    rw [List.cons_append, pieces, ih, pieces]
    split
    · rfl
    · cases hpieces : pieces p xs with
      | nil => exact absurd hpieces (pieces_ne_nil p xs)
      | cons piece rest => rfl

/-- The last segment is the last piece, and the others are the pieces before the separator. -/
theorem reverse_pieces {path before segment : List Char} (h : LastSegment p path before segment) :
    (pieces p path).reverse =
      segment :: if before = [] then [] else (pieces p before.dropLast).reverse := by
  rw [h.path_eq]
  rcases h.ends with rfl | ⟨front, c, rfl, hc⟩
  · rw [List.nil_append, pieces_of_free h.free]
    rfl
  · rw [List.append_assoc, List.singleton_append, pieces_append hc, pieces_of_free h.free]
    simp

theorem exists_lastSegment (p : Char → Bool) (path : List Char) :
    ∃ before segment, LastSegment p path before segment := by
  induction path using List.reverseRecOn with
  | nil => exact ⟨[], [], rfl, by simp, Or.inl rfl⟩
  | append_singleton path c ih =>
    cases hc : p c with
    | true => exact ⟨path ++ [c], [], by simp, by simp, Or.inr ⟨path, c, rfl, hc⟩⟩
    | false =>
      obtain ⟨before, segment, h⟩ := ih
      refine ⟨before, segment ++ [c], ?_, ?_, h.ends⟩
      · rw [h.path_eq, List.append_assoc]
      · intro d hd
        rcases List.mem_append.mp hd with hd | hd
        · exact h.free d hd
        · rwa [List.mem_singleton.mp hd]

end Chars

/-! ## First pieces -/

theorem cutAt_takeWhile (c : Char) (text : List Char) :
    CutAt [[c]] text (text.takeWhile fun d => d ∉ [c]) (text.dropWhile fun d => d ∉ [c]) := by
  induction text with
  | nil => exact ⟨rfl, fun h => absurd rfl h, fun i hi => absurd hi (Nat.not_lt_zero i)⟩
  | cons d text ih =>
    by_cases hd : d = c
    · subst hd
      have hcut : CutAt [[d]] (d :: text) [] (d :: text) := .of_starts ⟨[d], by simp⟩
      simpa using hcut
    · have hcut := ih.cons (c := d) (by simpa using fun h => hd h.symm)
      simpa [hd] using hcut

theorem Text.firstPiece_eq_iff {c : Char} {s head : String} :
    Text.firstPiece [c] s = head ↔ ∃ rest, CutAt [[c]] s.toList head.toList rest := by
  constructor
  · rintro rfl
    exact ⟨_, by simpa [Text.firstPiece] using cutAt_takeWhile c s.toList⟩
  · rintro ⟨rest, h⟩
    rw [Text.firstPiece, ((cutAt_takeWhile c s.toList).unique h).1, String.ofList_toList]

/-! ## Trailing segments -/

/-- What may stand between the segments of a module's path, in any language. -/
def isPathSeparator (c : Char) : Bool := c ∈ ['.', '/', '\\', ':']

/-- The last segment that is not empty, or all of the path if it has only separators. -/
inductive TrailingSegment (path : List Char) : List Char → Prop
  | segment {base after before name : List Char} :
      path = base ++ after → (∀ c ∈ after, isPathSeparator c = true) →
      LastSegment isPathSeparator base before name → name ≠ [] → TrailingSegment path name
  | separators : (∀ c ∈ path, isPathSeparator c = true) → TrailingSegment path path

theorem Chars.pieces_append_separators {p : Char → Bool} (base : List Char) {after : List Char}
    (h : ∀ c ∈ after, p c = true) :
    pieces p (base ++ after) = pieces p base ++ List.replicate after.length [] := by
  induction after generalizing base with
  | nil => simp
  | cons c after ih =>
    rw [pieces_append (h c List.mem_cons_self)]
    have hrest := ih [] fun d hd => h d (List.mem_cons_of_mem _ hd)
    rw [List.nil_append] at hrest
    rw [hrest, List.length_cons, List.replicate_succ]
    rfl

theorem exists_trailingSegment (path : List Char) : ∃ name, TrailingSegment path name := by
  induction path using List.reverseRecOn with
  | nil => exact ⟨[], .separators (by simp)⟩
  | append_singleton path c ih =>
    by_cases hc : isPathSeparator c = true
    · have hlast : ∀ d ∈ [c], isPathSeparator d = true := by simpa using hc
      obtain ⟨name, hname⟩ := ih
      cases hname with
      | segment hpath hafter hseg hne =>
        refine ⟨name, .segment (by rw [hpath, List.append_assoc]) ?_ hseg hne⟩
        exact fun d hd => (List.mem_append.mp hd).elim (hafter d) (hlast d)
      | separators hall =>
        exact ⟨_, .separators fun d hd => (List.mem_append.mp hd).elim (hall d) (hlast d)⟩
    · obtain ⟨before, name, hseg⟩ := Chars.exists_lastSegment isPathSeparator (path ++ [c])
      refine ⟨name, .segment (List.append_nil _).symm (by simp) hseg fun hnil => ?_⟩
      -- an empty segment would follow a separator, which `c` is not
      subst hnil
      rcases hseg.ends with rfl | ⟨front, d, rfl, hd⟩
      · simpa using hseg.path_eq
      · have heq := List.append_inj_right' (hseg.path_eq.trans (List.append_nil _)) rfl
        exact hc (List.singleton_inj.mp heq ▸ hd)

/-- The last piece that is not empty, as the pieces of a path are searched for it. -/
theorem TrailingSegment.find?_pieces {path name : List Char} (h : TrailingSegment path name) :
    ((Chars.pieces isPathSeparator path).reverse.find? fun piece => piece ≠ []).getD path =
      name := by
  cases h with
  | segment hpath hafter hseg hne =>
    rw [hpath, Chars.pieces_append_separators _ hafter, List.reverse_append,
      Chars.reverse_pieces hseg]
    simp [List.find?_append, hne]
  | separators hall =>
    have hpieces := Chars.pieces_append_separators [] hall
    rw [List.nil_append] at hpieces
    rw [hpieces]
    simp [Chars.pieces]

theorem toList_trailingSegment (path : String) :
    (trailingSegment path).toList =
      ((Chars.pieces isPathSeparator path.toList).reverse.find? fun piece => piece ≠ []).getD
        path.toList := by
  have hpieces : Text.pieces ['.', '/', '\\', ':'] path =
      (Chars.pieces isPathSeparator path.toList).map String.ofList := rfl
  have hempty : ((fun piece : String => !piece.isEmpty) ∘ String.ofList) =
      fun piece => decide (piece ≠ []) := by
    funext piece
    cases piece <;> simp
  rw [trailingSegment, hpieces, ← List.map_reverse, List.find?_map, hempty]
  cases (Chars.pieces isPathSeparator path.toList).reverse.find? _ <;> simp

/-- **Trailing segments.** The search through the pieces of a path ends at its last segment that is
not empty. -/
theorem TrailingSegment.eq_trailingSegment {path name : String}
    (h : TrailingSegment path.toList name.toList) : trailingSegment path = name :=
  String.toList_inj.mp ((toList_trailingSegment path).trans h.find?_pieces)

theorem trailingSegment_eq_iff {path name : String} :
    trailingSegment path = name ↔ TrailingSegment path.toList name.toList := by
  refine ⟨?_, TrailingSegment.eq_trailingSegment⟩
  rintro rfl
  obtain ⟨name, h⟩ := exists_trailingSegment path.toList
  have heq : trailingSegment path = String.ofList name :=
    TrailingSegment.eq_trailingSegment (by rwa [String.toList_ofList])
  rwa [heq, String.toList_ofList]

/-! ## Package names -/

def isSlash (c : Char) : Bool := c ∈ ['/']

/-- A segment such as `v2`. -/
def IsVersion (segment : List Char) : Prop :=
  ∃ digits, segment = 'v' :: digits ∧ digits ≠ [] ∧ ∀ d ∈ digits, '0' ≤ d ∧ d ≤ '9'

/-- The segment that a package is named after: the last one, or the one before it if there is one
and the last is a version. -/
inductive NamingSegment (base : List Char) : List Char → Prop
  | last {before segment : List Char} : LastSegment isSlash base before segment →
      (IsVersion segment → before = []) → NamingSegment base segment
  | beforeVersion {front before segment version : List Char} :
      LastSegment isSlash base (front ++ ['/']) version → IsVersion version →
      LastSegment isSlash front before segment → NamingSegment base segment

/-- The name of the package at a path, which may end with slashes: the segment it is named after, up
to the first dot. -/
def PackageName (path name : List Char) : Prop :=
  ∃ base segment rest, StripsTo ['/'] path base ∧ NamingSegment base segment ∧
    CutAt [['.']] segment name rest

theorem exists_namingSegment (base : List Char) : ∃ segment, NamingSegment base segment := by
  obtain ⟨before, segment, h⟩ := Chars.exists_lastSegment isSlash base
  by_cases hversion : IsVersion segment → before = []
  · exact ⟨segment, .last h hversion⟩
  · obtain ⟨hversioned, hne⟩ := Classical.not_imp.mp hversion
    rcases h.ends with hnil | ⟨front, c, rfl, hc⟩
    · exact absurd hnil hne
    · obtain rfl : c = '/' := by simpa [isSlash] using hc
      obtain ⟨outer, named, hnamed⟩ := Chars.exists_lastSegment isSlash front
      exact ⟨named, .beforeVersion h hversioned hnamed⟩

section

variable {path last : String} {rest : List String}

theorem packageName_of_isVersion
    (hsegments : (Text.pieces ['/'] (Text.dropEnd ['/'] path)).reverse = last :: rest)
    (h : IsVersion last.toList) : packageName path = Text.firstPiece ['.'] (rest.headD last) := by
  obtain ⟨digits, hlast, hne, hdigits⟩ := h
  cases digits with
  | nil => exact absurd rfl hne
  | cons c cs =>
    have hall : ((c :: cs).all fun d => '0' ≤ d && d ≤ '9') = true := by
      simpa using hdigits
    simp [packageName, hsegments, hlast, hall]

theorem packageName_of_not_isVersion
    (hsegments : (Text.pieces ['/'] (Text.dropEnd ['/'] path)).reverse = last :: rest)
    (h : ¬ IsVersion last.toList) : packageName path = Text.firstPiece ['.'] last := by
  simp only [packageName, hsegments, List.headD_cons]
  split
  · next c cs heq =>
    split
    · next hall => exact absurd ⟨c :: cs, heq, by simp, by simpa using hall⟩ h
    · rfl
  · rfl

end

theorem reverse_slashPieces (path : String) :
    (Text.pieces ['/'] (Text.dropEnd ['/'] path)).reverse =
      (Chars.pieces isSlash (Chars.dropEndWhile (fun c => c ∈ ['/']) path.toList)).reverse.map
        String.ofList := by
  rw [List.map_reverse, Text.pieces, Text.dropEnd, String.toList_ofList]
  rfl

theorem NamingSegment.packageName_eq {path : String} {segment : List Char}
    (h : NamingSegment (Chars.dropEndWhile (fun c => c ∈ ['/']) path.toList) segment) :
    packageName path = Text.firstPiece ['.'] (String.ofList segment) := by
  have hsegments := reverse_slashPieces path
  cases h with
  | last hseg hversion =>
    rw [Chars.reverse_pieces hseg, List.map_cons] at hsegments
    by_cases hv : IsVersion segment
    · rw [packageName_of_isVersion hsegments (by rwa [String.toList_ofList]),
        if_pos (hversion hv)]
      rfl
    · exact packageName_of_not_isVersion hsegments (by rwa [String.toList_ofList])
  | beforeVersion hseg hv hnamed =>
    rw [Chars.reverse_pieces hseg, List.map_cons] at hsegments
    rw [packageName_of_isVersion hsegments (by rwa [String.toList_ofList]), if_neg (by simp),
      List.dropLast_concat, Chars.reverse_pieces hnamed]
    rfl

/-- **Package names.** The name of a package is cut out of the segment that it is named after. -/
theorem packageName_eq_iff {path name : String} :
    packageName path = name ↔ PackageName path.toList name.toList := by
  have hbase := Chars.stripsTo_dropEndWhile '/' path.toList
  constructor
  · intro h
    obtain ⟨segment, hseg⟩ := exists_namingSegment
      (Chars.dropEndWhile (fun c => c ∈ ['/']) path.toList)
    rw [hseg.packageName_eq, Text.firstPiece_eq_iff, String.toList_ofList] at h
    obtain ⟨rest, hcut⟩ := h
    exact ⟨_, segment, rest, hbase, hseg, hcut⟩
  · rintro ⟨base, segment, rest, hstrip, hseg, hcut⟩
    rw [← hbase.unique hstrip] at hseg
    rw [hseg.packageName_eq, Text.firstPiece_eq_iff, String.toList_ofList]
    exact ⟨rest, hcut⟩

end CodeOutline
