import CodeOutline.Json.Reader
import CodeOutline.Proofs.Json.Lexing

/-!
# Reading the value that was written

The machine that reads a value, set before the tokens of a value, takes all of them and hands the
value to the container around it (`Plain.run_pieces`). The items of a container after the first are
taken one by one, which `run_itemPieces` and `run_entryPieces` say.

**Theorem (`Plain.parse?_write`).** Writing a plain value in a layout of blank space and reading the
text gives the value back.
-/

namespace CodeOutline.Json

/-! ## Tokens of pieces -/

@[simp] theorem tokensOf_nil : tokensOf [] = [] := rfl

@[simp] theorem tokensOf_token (t : Token) (ps : List Piece) :
    tokensOf (.token t :: ps) = t :: tokensOf ps := rfl

@[simp] theorem tokensOf_append (ps qs : List Piece) :
    tokensOf (ps ++ qs) = tokensOf ps ++ tokensOf qs :=
  List.filterMap_append

namespace Machine

@[simp] theorem run_nil (m : Machine) : m.run [] = some m := rfl

@[simp] theorem run_cons (m : Machine) (t : Token) (ts : List Token) :
    m.run (t :: ts) = (m.step t).bind fun next => next.run ts := rfl

variable (items : List Json) (entries : List (Option String × Json)) (outer frames : List Frame)

@[simp] theorem give_array (v : Json) :
    give v (.array items :: outer) = some (reading .afterItem (.array (v :: items) :: outer)) := rfl

@[simp] theorem give_entry (v : Json) (key : Option String) :
    give v (.entry key entries :: outer) =
      some (reading .afterItem (.object ((key, v) :: entries) :: outer)) := rfl

@[simp] theorem step_array_comma : (reading .afterItem (.array items :: outer)).step .comma =
    some (reading .value (.array items :: outer)) := rfl

@[simp] theorem step_array_close : (reading .afterItem (.array items :: outer)).step .closeBracket =
    give (.array items.reverse) outer := rfl

@[simp] theorem step_object_comma : (reading .afterItem (.object entries :: outer)).step .comma =
    some (reading .key (.object entries :: outer)) := rfl

@[simp] theorem step_object_close :
    (reading .afterItem (.object entries :: outer)).step .closeBrace =
      give (.object entries.reverse) outer := rfl

@[simp] theorem step_firstKey (key : Option String) :
    (reading .firstKey (.object entries :: outer)).step (.string key) =
      some (reading .colon (.entry key entries :: outer)) := rfl

@[simp] theorem step_key (key : Option String) :
    (reading .key (.object entries :: outer)).step (.string key) =
      some (reading .colon (.entry key entries :: outer)) := rfl

@[simp] theorem step_colon : (reading .colon frames).step .colon = some (reading .value frames) :=
  rfl

/-- A container may begin wherever a value may. -/
theorem step_open {e : Expected} (he : e = .value ∨ e = .firstItem) :
    (reading e frames).step .openBracket = some (reading .firstItem (.array [] :: frames)) ∧
      (reading e frames).step .openBrace = some (reading .firstKey (.object [] :: frames)) := by
  rcases he with rfl | rfl <;> exact ⟨rfl, rfl⟩

end Machine

open Machine

section Values

variable {style : Layout}

/-- The items of an array after the first, taken one by one. -/
theorem run_itemPieces (hstyle : style.IsBlank) (depth : Nat) (items : List Json)
    (h : ∀ item ∈ items, ∀ frames ts, (reading .value frames).run
      (tokensOf (style.pieces depth item) ++ ts) = (give item frames).bind fun m => m.run ts)
    (done : List Json) (outer : List Frame) (ts : List Token) :
    (reading .afterItem (.array done :: outer)).run
        (tokensOf (style.itemPieces depth items) ++ ts) =
      (reading .afterItem (.array (items.reverse ++ done) :: outer)).run ts := by
  induction items generalizing done with
  | nil => rfl
  | cons item items ih =>
    have hrest := ih fun i hi => h i (List.mem_cons_of_mem _ hi)
    simp [Layout.itemPieces, (hstyle.newline depth).tokensOf_eq, h item List.mem_cons_self, hrest]

/-- The entries of an object after the first, taken one by one. -/
theorem run_entryPieces (hstyle : style.IsBlank) (depth : Nat)
    (entries : List (Option String × Json))
    (h : ∀ e ∈ entries, ∀ frames ts, (reading .value frames).run
      (tokensOf (style.pieces depth e.2) ++ ts) = (give e.2 frames).bind fun m => m.run ts)
    (done : List (Option String × Json)) (outer : List Frame) (ts : List Token) :
    (reading .afterItem (.object done :: outer)).run
        (tokensOf (style.entryPieces depth entries) ++ ts) =
      (reading .afterItem (.object (entries.reverse ++ done) :: outer)).run ts := by
  induction entries generalizing done with
  | nil => rfl
  | cons e entries ih =>
    have hrest := ih fun i hi => h i (List.mem_cons_of_mem _ hi)
    simp [Layout.entryPieces, (hstyle.newline depth).tokensOf_eq, hstyle.afterColon.tokensOf_eq,
      h e List.mem_cons_self, hrest]

/-- Where a value may begin, the machine takes the tokens of a value and hands it on. -/
theorem Plain.run_pieces (hstyle : style.IsBlank) {v : Json} (h : v.Plain) (depth : Nat)
    {e : Expected} (he : e = .value ∨ e = .firstItem) (frames : List Frame) (ts : List Token) :
    (reading e frames).run (tokensOf (style.pieces depth v) ++ ts) =
      (give v frames).bind fun m => m.run ts := by
  induction h generalizing depth e frames ts with
  | null => rcases he with rfl | rfl <;> rfl
  | bool value => rcases he with rfl | rfl <;> rfl
  | nat n => rcases he with rfl | rfl <;> rfl
  | text s => rcases he with rfl | rfl <;> rfl
  | @array items _ ih =>
    cases items with
    | nil => rcases he with rfl | rfl <;> rfl
    | cons item items =>
      have hrest := run_itemPieces hstyle (depth + 1) items fun i hi =>
        ih i (List.mem_cons_of_mem _ hi) (depth + 1) (.inl rfl)
      simp [Layout.pieces, (hstyle.newline _).tokensOf_eq, (step_open frames he).1,
        ih item List.mem_cons_self (depth + 1) (.inr rfl), hrest]
  | @record entries _ ih =>
    cases entries with
    | nil => rcases he with rfl | rfl <;> rfl
    | cons entry entries =>
      have hrest := run_entryPieces hstyle (depth + 1)
        (entries.map fun e => (some e.1, e.2)) fun i hi => by
          obtain ⟨e, hmem, rfl⟩ := List.mem_map.mp hi
          exact ih e (List.mem_cons_of_mem _ hmem) (depth + 1) (.inl rfl)
      simp [Json.record, Layout.pieces, (hstyle.newline _).tokensOf_eq,
        hstyle.afterColon.tokensOf_eq, (step_open frames he).2,
        ih entry List.mem_cons_self (depth + 1) (.inl rfl), hrest]

/-- **Round trip.** A plain value is read back from what is written of it, whatever blank space
follows it. -/
theorem Plain.parse?_write_append (hstyle : style.IsBlank) {v : Json} (h : v.Plain)
    (blank : String) (hblank : ∀ c ∈ blank.toList, isSpace c = true) :
    parse? (v.write style ++ blank) = some v := by
  have hrun := h.run_pieces hstyle 0 (.inl rfl) [] []
  rw [List.append_nil] at hrun
  rw [parse?, h.tokens?_write_append hstyle blank hblank, Option.bind_some, ofTokens?, hrun]
  rfl

theorem Plain.parse?_write (hstyle : style.IsBlank) {v : Json} (h : v.Plain) :
    parse? (v.write style) = some v := by
  have hparse := h.parse?_write_append hstyle "" (by simp)
  rwa [String.append_empty] at hparse

end Values

end CodeOutline.Json
