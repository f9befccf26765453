/-!
# Dictionaries of texts

A finite map from texts to texts, held as the list of its entries in increasing order of keys. The
order makes the list unique, so two dictionaries with the same entries are equal.
-/

namespace CodeOutline

/-- Whether the keys of a list of entries increase. -/
abbrev Increasing (entries : List (String × String)) : Prop :=
  entries.Pairwise fun a b => a.1 < b.1

structure Dictionary where
  entries : List (String × String)
  increasing : Increasing entries
deriving DecidableEq

namespace Dictionary

def empty : Dictionary := ⟨[], List.Pairwise.nil⟩

instance : EmptyCollection Dictionary := ⟨empty⟩

instance : Inhabited Dictionary := ⟨empty⟩

/-- The entries with one more, in the place of an older one with the same key. -/
def insertEntry (key value : String) : List (String × String) → List (String × String)
  | [] => [(key, value)]
  | entry :: rest =>
    if key < entry.1 then (key, value) :: entry :: rest
    else if entry.1 < key then entry :: insertEntry key value rest
    else (key, value) :: rest

theorem fst_of_mem_insertEntry {key value : String} {entries : List (String × String)}
    {e : String × String} (h : e ∈ insertEntry key value entries) :
    e.1 = key ∨ e ∈ entries := by
  induction entries with
  | nil => simp_all [insertEntry]
  | cons entry rest ih =>
    rw [insertEntry] at h
    split at h
    · rcases List.mem_cons.mp h with rfl | h
      · exact Or.inl rfl
      · exact Or.inr h
    · split at h
      · rcases List.mem_cons.mp h with rfl | h
        · exact Or.inr List.mem_cons_self
        · exact (ih h).imp_right (List.mem_cons_of_mem _)
      · rcases List.mem_cons.mp h with rfl | h
        · exact Or.inl rfl
        · exact Or.inr (List.mem_cons_of_mem _ h)

theorem increasing_insertEntry (key value : String) {entries : List (String × String)}
    (h : Increasing entries) : Increasing (insertEntry key value entries) := by
  induction entries with
  | nil => exact List.pairwise_singleton ..
  | cons entry rest ih =>
    have hrest := List.pairwise_cons.mp h
    rw [insertEntry]
    split
    · next hlt =>
      refine List.pairwise_cons.mpr ⟨fun e he => ?_, h⟩
      rcases List.mem_cons.mp he with rfl | he
      · exact hlt
      · exact String.lt_trans hlt (hrest.1 e he)
    · split
      · next hlt =>
        refine List.pairwise_cons.mpr ⟨fun e he => ?_, ih hrest.2⟩
        rcases fst_of_mem_insertEntry he with heq | he
        · exact heq ▸ hlt
        · exact hrest.1 e he
      · next hge hle =>
        have heq : key = entry.1 := String.le_antisymm (String.not_lt.mp hle) (String.not_lt.mp hge)
        refine List.pairwise_cons.mpr ⟨fun e he => ?_, hrest.2⟩
        exact heq ▸ hrest.1 e he

def insert (d : Dictionary) (key value : String) : Dictionary :=
  ⟨insertEntry key value d.entries, increasing_insertEntry key value d.increasing⟩

/-- Of several entries with one key the last counts. -/
def ofList (entries : List (String × String)) : Dictionary :=
  entries.foldl (fun d e => d.insert e.1 e.2) empty

def get? (d : Dictionary) (key : String) : Option String :=
  (d.entries.find? fun e => e.1 == key).map (·.2)

theorem find?_insertEntry (key value k : String) (entries : List (String × String)) :
    (insertEntry key value entries).find? (fun e => e.1 == k) =
      if key = k then some (key, value) else entries.find? fun e => e.1 == k := by
  induction entries with
  | nil => by_cases h : key = k <;> simp [insertEntry, h]
  | cons entry rest ih =>
    rw [insertEntry]
    split
    · by_cases h : key = k <;> simp [h]
    · split
      · next hlt =>
        have hne : entry.1 ≠ key := fun h => String.lt_irrefl key (h ▸ hlt)
        by_cases h : key = k
        · subst h
          simp [ih, hne]
        · simp [List.find?_cons, ih, h]
      · next hge hle =>
        have heq : entry.1 = key := String.le_antisymm (String.not_lt.mp hge) (String.not_lt.mp hle)
        by_cases h : key = k <;> simp [heq, h]

@[simp] theorem get?_empty (k : String) : empty.get? k = none := rfl

theorem get?_insert (d : Dictionary) (key value k : String) :
    (d.insert key value).get? k = if key = k then some value else d.get? k := by
  rw [get?, insert, find?_insertEntry]
  split <;> rfl

end Dictionary

end CodeOutline
