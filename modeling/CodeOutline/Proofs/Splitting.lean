import CodeOutline.Text.Nesting
import Mathlib.Data.List.Basic

/-!
# Splitting outside brackets and quotes

A list is split by a scan from left to right that knows how many brackets are open and whether a
quote is. A text *passes* the scan when no separator is found in it and the scan is afterwards where
it was before. What passes can be put together, and put in brackets, and still passes.

**Splitting undoes joining (`splitTop_intercalate_iff`).** If texts are joined by separators,
splitting gives them back, one by one, exactly if no separator is found in any of them and the scan
is outside brackets and quotes after each but the last. Texts that pass are such texts
(`splitTop_intercalate`).
-/

namespace CodeOutline

/-- Where a scan stands after some text. -/
def Nesting.scan (angles : Bool) (n : Nesting) (cs : List Char) : Nesting :=
  cs.foldl (step angles) n

theorem Nesting.scan_append (angles : Bool) (n : Nesting) (cs ds : List Char) :
    n.scan angles (cs ++ ds) = (n.scan angles cs).scan angles ds := List.foldl_append

theorem Nesting.scan_cons (angles : Bool) (n : Nesting) (c : Char) (cs : List Char) :
    n.scan angles (c :: cs) = (n.step angles c).scan angles cs := rfl

/-- Characters are escaped inside quotes only. -/
theorem Nesting.escaped_step {angles : Bool} {n : Nesting} {c : Char}
    (hn : n.quote = none → n.escaped = false) (h : (n.step angles c).quote = none) :
    (n.step angles c).escaped = false := by
  unfold step at h ⊢
  cases hquote : n.quote with
  | none =>
    rw [hquote] at h
    have hescaped := hn hquote
    simp only at h ⊢
    split_ifs at h ⊢ <;> exact hescaped
  | some q =>
    rw [hquote] at h
    simp only at h ⊢
    split_ifs at h ⊢ with hescaped <;> simp_all

theorem Nesting.escaped_scan {angles : Bool} {n : Nesting} {cs : List Char}
    (hn : n.quote = none → n.escaped = false) (h : (n.scan angles cs).quote = none) :
    (n.scan angles cs).escaped = false := by
  induction cs generalizing n with
  | nil => exact hn h
  | cons c cs ih => exact ih (escaped_step hn) h

/-- A scan that is outside brackets and quotes stands where it began. -/
theorem Nesting.scan_eq_of_isTop {angles : Bool} {cs : List Char}
    (h : (Nesting.scan angles {} cs).isTop = true) : Nesting.scan angles {} cs = {} := by
  have hescaped : (Nesting.scan angles {} cs).quote = none →
      (Nesting.scan angles {} cs).escaped = false := escaped_scan fun _ => rfl
  simp only [isTop, Bool.and_eq_true, Option.isNone_iff_eq_none, beq_iff_eq] at h
  have hdefault : ∀ m : Nesting, m.depth = 0 → m.quote = none → m.escaped = false → m = {} := by
    rintro ⟨depth, quote, escaped⟩ rfl rfl rfl
    rfl
  exact hdefault _ h.2 h.1 (hescaped h.1)

namespace Chars

variable {sep : Char} {angles : Bool} {n : Nesting} {cs : List Char}

theorem splitTopFrom_ne_nil (sep : Char) (angles : Bool) (n : Nesting) (cs : List Char) :
    splitTopFrom sep angles n cs ≠ [] := by
  cases cs with
  | nil => simp [splitTopFrom]
  | cons c cs =>
    rw [splitTopFrom]
    split
    · simp
    · split <;> simp

/-- A separator at the top ends a piece, and any other character belongs to one. -/
theorem splitTopFrom_cons (sep : Char) (angles : Bool) (n : Nesting) (c : Char) (cs : List Char) :
    splitTopFrom sep angles n (c :: cs) =
      if c = sep ∧ n.isTop then [] :: splitTopFrom sep angles n cs
      else (splitTopFrom sep angles (n.step angles c) cs).modifyHead (c :: ·) := by
  rw [splitTopFrom]
  split
  · rfl
  · cases hsplit : splitTopFrom sep angles (n.step angles c) cs with
    | nil => exact absurd hsplit (splitTopFrom_ne_nil sep angles _ cs)
    | cons piece rest => rfl

/-- Text without a separator is put in front of the first piece of what follows. -/
theorem splitTopFrom_append (h : splitTopFrom sep angles n cs = [cs]) (rest : List Char) :
    splitTopFrom sep angles n (cs ++ rest) =
      (splitTopFrom sep angles (n.scan angles cs) rest).modifyHead (cs ++ ·) := by
  induction cs generalizing n with
  | nil => exact (congrFun List.modifyHead_id _).symm
  | cons c cs ih =>
    rw [splitTopFrom_cons] at h
    by_cases hsep : c = sep ∧ n.isTop
    · rw [if_pos hsep] at h
      cases h
    · rw [if_neg hsep] at h
      have hrest : splitTopFrom sep angles (n.step angles c) cs = [cs] := by
        obtain ⟨piece, pieces, hsplit⟩ := List.exists_cons_of_ne_nil
          (splitTopFrom_ne_nil sep angles (n.step angles c) cs)
        rw [hsplit, List.modifyHead_cons, List.cons.injEq, List.cons.injEq] at h
        rw [hsplit, h.1.2, h.2]
      rw [List.cons_append, splitTopFrom_cons, if_neg hsep, ih hrest, List.modifyHead_modifyHead]
      rfl

/-- The other way round: if the first piece ends before some character, this is a separator, and
there is none in the piece. -/
theorem splitTopFrom_eq_cons {c : Char} {rest : List Char} {pieces : List (List Char)}
    (h : splitTopFrom sep angles n (cs ++ c :: rest) = cs :: pieces) :
    splitTopFrom sep angles n cs = [cs] ∧ (n.scan angles cs).isTop = true ∧
      splitTopFrom sep angles (n.scan angles cs) rest = pieces := by
  induction cs generalizing n with
  | nil =>
    rw [List.nil_append, splitTopFrom_cons] at h
    by_cases hsep : c = sep ∧ n.isTop
    · rw [if_pos hsep] at h
      exact ⟨rfl, hsep.2, (List.cons.inj h).2⟩
    · obtain ⟨piece, more, hsplit⟩ := List.exists_cons_of_ne_nil
        (splitTopFrom_ne_nil sep angles (n.step angles c) rest)
      rw [if_neg hsep, hsplit, List.modifyHead_cons] at h
      cases (List.cons.inj h).1
  | cons d cs ih =>
    rw [List.cons_append, splitTopFrom_cons] at h
    by_cases hsep : d = sep ∧ n.isTop
    · rw [if_pos hsep] at h
      cases (List.cons.inj h).1
    · obtain ⟨piece, more, hsplit⟩ := List.exists_cons_of_ne_nil
        (splitTopFrom_ne_nil sep angles (n.step angles d) (cs ++ c :: rest))
      rw [if_neg hsep, hsplit, List.modifyHead_cons, List.cons.injEq, List.cons.injEq] at h
      obtain ⟨huncut, htop, hrest⟩ := ih (by rw [hsplit, h.1.2, h.2])
      refine ⟨?_, htop, hrest⟩
      rw [splitTopFrom_cons, if_neg hsep, huncut, List.modifyHead_cons]

/-- **Splitting undoes joining** exactly if no part is cut and each but the last ends outside
brackets and quotes. -/
theorem splitTop_intercalate_iff {parts : List (List Char)} (hne : parts ≠ []) :
    splitTop sep angles ([sep].intercalate parts) = parts ↔
      (∀ p ∈ parts, splitTop sep angles p = [p]) ∧
        ∀ p ∈ parts.dropLast, (Nesting.scan angles {} p).isTop = true := by
  induction parts with
  | nil => exact absurd rfl hne
  | cons p parts ih =>
    cases parts with
    | nil => simp
    | cons q parts =>
      have hrest := ih (List.cons_ne_nil q parts)
      rw [List.intercalate_cons_cons, List.append_assoc, List.singleton_append,
        List.dropLast_cons_of_ne_nil (List.cons_ne_nil q parts)]
      rw [splitTop] at hrest ⊢
      constructor
      · intro h
        obtain ⟨huncut, htop, hsplit⟩ := splitTopFrom_eq_cons h
        rw [Nesting.scan_eq_of_isTop htop] at hsplit
        obtain ⟨hparts, hclosed⟩ := hrest.mp hsplit
        exact ⟨List.forall_mem_cons.mpr ⟨huncut, hparts⟩,
          List.forall_mem_cons.mpr ⟨htop, hclosed⟩⟩
      · rintro ⟨hparts, hclosed⟩
        obtain ⟨huncut, hparts⟩ := List.forall_mem_cons.mp hparts
        obtain ⟨htop, hclosed⟩ := List.forall_mem_cons.mp hclosed
        rw [splitTopFrom_append huncut, Nesting.scan_eq_of_isTop htop, splitTopFrom_cons,
          if_pos ⟨rfl, rfl⟩, hrest.mpr ⟨hparts, hclosed⟩, List.modifyHead_cons, List.append_nil]

/-! ## Texts that pass -/

/-- The scan finds no separator in the text, and ends where it began. -/
structure Passes (sep : Char) (angles : Bool) (n : Nesting) (cs : List Char) : Prop where
  uncut : splitTopFrom sep angles n cs = [cs]
  back : n.scan angles cs = n

namespace Passes

theorem nil : Passes sep angles n [] := ⟨rfl, rfl⟩

theorem append {ds : List Char} (hc : Passes sep angles n cs) (hd : Passes sep angles n ds) :
    Passes sep angles n (cs ++ ds) := by
  refine ⟨?_, ?_⟩
  · rw [splitTopFrom_append hc.uncut, hc.back, hd.uncut, List.modifyHead_cons]
  · rw [Nesting.scan_append, hc.back, hd.back]

theorem singleton {c : Char} (hsep : ¬ (c = sep ∧ n.isTop)) (hstep : n.step angles c = n) :
    Passes sep angles n [c] := by
  refine ⟨?_, hstep⟩
  rw [splitTopFrom_cons, if_neg hsep]
  rfl

/-- Characters that leave the scan where it is pass if none of them is a separator. -/
theorem of_forall (hsep : sep ∉ cs) (hstep : ∀ c ∈ cs, n.step angles c = n) :
    Passes sep angles n cs := by
  induction cs with
  | nil => exact nil
  | cons c cs ih =>
    have hc : Passes sep angles n [c] := by
      refine singleton (fun h => hsep ?_) (hstep c List.mem_cons_self)
      rw [h.1]
      exact List.mem_cons_self
    exact hc.append (ih (fun h => hsep (List.mem_cons_of_mem c h))
      fun d hd => hstep d (List.mem_cons_of_mem c hd))

/-- Below the top, separators pass too. -/
theorem intercalate {parts : List (List Char)} (htop : n.isTop = false)
    (hstep : n.step angles sep = n) (h : ∀ p ∈ parts, Passes sep angles n p) :
    Passes sep angles n ([sep].intercalate parts) := by
  have hsep : Passes sep angles n [sep] := singleton (fun h => by simp [htop] at h) hstep
  induction parts with
  | nil => exact nil
  | cons p parts ih =>
    cases parts with
    | nil => simpa using h p List.mem_cons_self
    | cons q parts =>
      rw [List.intercalate_cons_cons]
      exact ((h p List.mem_cons_self).append hsep).append
        (ih fun r hr => h r (List.mem_cons_of_mem p hr))

/-- What passes one level down passes in brackets. -/
theorem bracketed {opener closer : Char} {m : Nesting} (hopener : opener ≠ sep)
    (hcloser : closer ≠ sep) (hdown : n.step angles opener = m) (hup : m.step angles closer = n)
    (h : Passes sep angles m cs) : Passes sep angles n (opener :: cs ++ [closer]) := by
  refine ⟨?_, ?_⟩
  · have hclose : splitTopFrom sep angles m (cs ++ [closer]) = [cs ++ [closer]] := by
      rw [splitTopFrom_append h.uncut, h.back, splitTopFrom_cons, if_neg fun hc => hcloser hc.1]
      rfl
    rw [List.cons_append, splitTopFrom_cons, if_neg fun hc => hopener hc.1, hdown, hclose]
    rfl
  · rw [List.cons_append, Nesting.scan_cons, hdown, Nesting.scan_append, h.back]
    exact hup

end Passes

/-- Splitting undoes joining for parts that pass the scan. -/
theorem splitTop_intercalate {parts : List (List Char)} (hne : parts ≠ [])
    (h : ∀ p ∈ parts, Passes sep angles {} p) :
    splitTop sep angles ([sep].intercalate parts) = parts := by
  refine (splitTop_intercalate_iff hne).mpr ⟨fun p hp => (h p hp).uncut, fun p hp => ?_⟩
  rw [(h p ((List.dropLast_sublist parts).mem hp)).back]
  rfl

end Chars

end CodeOutline
