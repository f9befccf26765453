import CodeOutline.Outliner
import CodeOutline.Proofs.Utf8

/-!
# Files and texts

A file is outlined from its bytes, a text at hand from its characters. Size, encoding and order mark
are looked at in one order for bytes and in another for characters.

**Theorem (`outlineFile_agrees`).** The outline of a file whose bytes are those of a text is the
outline of that text, whatever its size and whether or not it begins with an order mark. A file that
is short enough and whose bytes are no text fails at the end of the longest part that is one.

The two sides meet in `Utf8.decode_eq_ok_iff`, and sizes agree because a text is as long as its
bytes (`Utf8.length_encode`).
-/

namespace CodeOutline

/-- A language is found by its own name. -/
theorem Language.ofName?_name (l : Language) : ofName? l.name = some l := by
  cases l <;> decide +kernel

namespace Outliner

variable {o : Outliner} {files : FileTree} {path : String} {bytes : List UInt8}

theorem readText_of_lt (hfile : files.get path = .ok (.file bytes))
    (hsize : o.settings.maxFileBytes < bytes.length) :
    o.readText files path = .error (.tooLarge bytes.length o.settings.maxFileBytes) := by
  rw [readText, hfile]
  exact if_pos hsize

theorem readText_of_le (hfile : files.get path = .ok (.file bytes))
    (hsize : bytes.length ≤ o.settings.maxFileBytes) :
    o.readText files path =
      match Utf8.decode bytes with
      | .ok text => .ok (dropOrderMark text)
      | .error offset => .error (.notUtf8 offset) := by
  rw [readText, hfile]
  exact if_neg (Nat.not_lt.mpr hsize)

/-- The outline of a file that holds a text. -/
theorem outlineFile_encode {given : Option String} {l : Language} {text : String}
    (hl : o.settings.detect path given = .ok l)
    (hfile : files.get path = .ok (.file (Utf8.encode text))) :
    o.outlineFile files path given = o.outlineSource path text l.name := by
  have hlength := Utf8.length_encode text
  rw [outlineFile, hl, outlineSource, Language.ofName?_name]
  by_cases hsize : o.settings.maxFileBytes < text.utf8ByteSize
  · simp only [readText_of_lt hfile (hlength ▸ hsize), if_pos hsize, hlength]
  · have hle : (Utf8.encode text).length ≤ o.settings.maxFileBytes :=
      hlength ▸ Nat.not_lt.mp hsize
    simp only [readText_of_le hfile hle, Utf8.decode_eq_ok_iff.mpr rfl, if_neg hsize]

/-- The outline of a file that does not decode. -/
theorem outlineFile_of_decode {given : Option String} {l : Language} {offset : Nat}
    (hl : o.settings.detect path given = .ok l)
    (hfile : files.get path = .ok (.file bytes)) (hsize : bytes.length ≤ o.settings.maxFileBytes)
    (hdecode : Utf8.decode bytes = .error offset) :
    o.outlineFile files path given = .failed path l.name (.notUtf8 offset) := by
  rw [outlineFile, hl]
  simp only [readText_of_le hfile hsize, hdecode]

end Outliner

open Outliner

/-- **Files agree with texts.** A file that holds the bytes of a text is outlined as the text is.
One that is short enough and holds no text fails at the end of the longest part that is one. -/
theorem outlineFile_agrees (o : Outliner) (files : FileTree) (path : String)
    (given : Option String) {l : Language} (hl : o.settings.detect path given = .ok l)
    {bytes : List UInt8} (hfile : files.get path = .ok (.file bytes)) :
    (∀ text, bytes = Utf8.encode text →
      o.outlineFile files path given = o.outlineSource path text l.name) ∧
    (bytes.length ≤ o.settings.maxFileBytes → (∀ text, bytes ≠ Utf8.encode text) →
      ∃ offset, Utf8.LongestText bytes offset ∧
        o.outlineFile files path given = .failed path l.name (.notUtf8 offset)) := by
  constructor
  · rintro text rfl
    exact outlineFile_encode hl hfile
  · intro hsize hnone
    cases hdecode : Utf8.decode bytes with
    | ok text => exact absurd (Utf8.decode_eq_ok_iff.mp hdecode) (hnone text)
    | error offset =>
      exact ⟨offset, Utf8.longestText_of_decode hdecode,
        outlineFile_of_decode hl hfile hsize hdecode⟩

/-- Two files: a text of one letter with an order mark, and a letter with half a character. -/
def markedAndCut : FileTree :=
  .ofList [("marked.py", .file [0xEF, 0xBB, 0xBF, 0x78]), ("cut.py", .file [0x78, 0xC3])]

/-- The first is outlined as its text is, and the second fails after the letter. -/
theorem outlineFile_markedAndCut :
    let leaf : Tree := .node ⟨"module", true, false, false, none, 0, 1⟩ []
    let o : Outliner := { grammar := fun _ _ => .ok leaf }
    markedAndCut.get "marked.py" = .ok (.file (Utf8.encode "\ufeffx")) ∧
      o.outlineFile markedAndCut "marked.py" none =
        o.outlineSource "marked.py" "\ufeffx" "python" ∧
      ∃ offset, Utf8.LongestText [0x78, 0xC3] offset ∧
        o.outlineFile markedAndCut "cut.py" none = .failed "cut.py" "python" (.notUtf8 offset) := by
  intro leaf o
  have hlanguage : ∀ path ∈ ["marked.py", "cut.py"], o.settings.detect path none = .ok .python := by
    decide +kernel
  have hmarked : markedAndCut.get "marked.py" = .ok (.file (Utf8.encode "\ufeffx")) := by
    decide +kernel
  have hcut : markedAndCut.get "cut.py" = .ok (.file [0x78, 0xC3]) := by decide +kernel
  have hdecode : Utf8.decode [0x78, 0xC3] = .error 1 := by decide +kernel
  have hnone : ∀ text, [0x78, 0xC3] ≠ Utf8.encode text := by
    intro text htext
    rw [Utf8.decode_eq_ok_iff.mpr htext] at hdecode
    cases hdecode
  have hfirst := outlineFile_agrees o markedAndCut "marked.py" none (hlanguage _ (by simp)) hmarked
  have hsecond := outlineFile_agrees o markedAndCut "cut.py" none (hlanguage _ (by simp)) hcut
  exact ⟨hmarked, hfirst.1 _ rfl, hsecond.2 (by decide) hnone⟩

end CodeOutline
