import CodeOutline.Text.Chars
import Mathlib.Data.List.Basic
import Mathlib.Data.List.TakeWhile

/-!
# What is taken off a text

A word is taken off the front or the end of a text as often as it stands there. `StripsTo suffix
text core` says that `core` is left of `text` when all copies of `suffix` are taken off its end.
There is only one such rest (`StripsTo.unique`), so this settles what `dropAllEnd` gives, and read
backwards what `dropAll` gives (`dropAll_eq`).

A text is cut where a word stands in it, and nowhere if the first character of the word is not in
it (`cut?_eq_none`).
-/

namespace CodeOutline

/-! ## Suffixes taken off -/

/-- What is left when all copies of `suffix` are taken off the end. -/
structure StripsTo (suffix text core : List Char) : Prop where
  text_eq : ∃ n, text = core ++ (List.replicate n suffix).flatten
  ends : ¬ suffix <:+ core

theorem flatten_replicate_succ (n : Nat) (suffix : List Char) :
    (List.replicate (n + 1) suffix).flatten = (List.replicate n suffix).flatten ++ suffix := by
  rw [List.replicate_succ', List.flatten_append, List.flatten_singleton]

theorem StripsTo.unique {suffix text core core' : List Char} (h : StripsTo suffix text core)
    (h' : StripsTo suffix text core') : core = core' := by
  obtain ⟨⟨n, hn⟩, hends⟩ := h
  obtain ⟨⟨m, hm⟩, hends'⟩ := h'
  induction n generalizing text m with
  | zero =>
    cases m with
    | zero => simpa using hn.symm.trans hm
    | succ m =>
      have hcore : core = core' ++ (List.replicate (m + 1) suffix).flatten := by
        simpa using hn.symm.trans hm
      rw [flatten_replicate_succ, ← List.append_assoc] at hcore
      exact absurd ⟨_, hcore.symm⟩ hends
  | succ n ih =>
    rw [flatten_replicate_succ, ← List.append_assoc] at hn
    cases m with
    | zero =>
      have hcore : core' = core ++ (List.replicate n suffix).flatten ++ suffix := by
        simpa using hm.symm.trans hn
      exact absurd ⟨_, hcore.symm⟩ hends'
    | succ m =>
      rw [flatten_replicate_succ, ← List.append_assoc] at hm
      exact ih rfl m (List.append_cancel_right (hn.symm.trans hm))

namespace Chars

/-! ## Words at the front -/

theorem after?_eq_some_iff {pre cs rest : List Char} :
    after? pre cs = some rest ↔ cs = pre ++ rest := by
  refine ⟨eq_append_of_after?, fun h => ?_⟩
  subst h
  induction pre with
  | nil => rfl
  | cons p pre ih => rw [List.cons_append, after?, if_pos rfl, ih]

theorem after?_eq_none_iff {pre cs : List Char} : after? pre cs = none ↔ ¬ pre <+: cs := by
  rw [Option.eq_none_iff_forall_ne_some]
  constructor
  · rintro h ⟨rest, rfl⟩
    exact h rest (after?_eq_some_iff.mpr rfl)
  · rintro h rest hrest
    exact h ⟨rest, (after?_eq_some_iff.mp hrest).symm⟩

/-! ## All copies -/

/-- As many copies are taken off as there are, or as many as may be. -/
theorem exists_dropTimes (pre : List Char) (n : Nat) (cs : List Char) :
    ∃ k, cs = (List.replicate k pre).flatten ++ dropTimes pre n cs ∧
      (k = n ∨ ¬ pre <+: dropTimes pre n cs) := by
  induction n generalizing cs with
  | zero => exact ⟨0, rfl, Or.inl rfl⟩
  | succ n ih =>
    rw [dropTimes]
    split
    · next rest hrest =>
      obtain ⟨k, hk, hstop⟩ := ih rest
      refine ⟨k + 1, ?_, hstop.imp_left (congrArg (· + 1))⟩
      rw [List.replicate_succ, List.flatten_cons, List.append_assoc, ← hk]
      exact eq_append_of_after? hrest
    · next hnone => exact ⟨0, rfl, Or.inr (after?_eq_none_iff.mp hnone)⟩

theorem exists_dropAll {pre : List Char} (hpre : pre ≠ []) (cs : List Char) :
    ∃ k, cs = (List.replicate k pre).flatten ++ dropAll pre cs ∧ ¬ pre <+: dropAll pre cs := by
  obtain ⟨k, hk, hstop⟩ := exists_dropTimes pre cs.length cs
  refine ⟨k, hk, ?_⟩
  rcases hstop with rfl | hstop
  · -- as many copies as there are characters leave nothing
    have hlen : (dropAll pre cs).length = 0 := by
      have hall := congrArg List.length hk
      have hle := Nat.le_mul_of_pos_right cs.length (List.length_pos_iff.mpr hpre)
      rw [List.length_append, List.length_flatten, List.map_replicate,
        List.sum_replicate_nat] at hall
      rw [dropAll]
      omega
    rw [List.length_eq_zero_iff.mp hlen, List.prefix_nil]
    exact hpre
  · exact hstop

theorem stripsTo_dropAllEnd {suffix : List Char} (hsuffix : suffix ≠ []) (text : List Char) :
    StripsTo suffix text (dropAllEnd suffix text) := by
  have hne : suffix.reverse ≠ [] := by simpa using hsuffix
  obtain ⟨k, hk, hstop⟩ := exists_dropAll hne text.reverse
  refine ⟨⟨k, ?_⟩, ?_⟩
  · have htext := congrArg List.reverse hk
    simpa [List.reverse_flatten, dropAllEnd] using htext
  · rw [dropAllEnd, ← List.reverse_prefix, List.reverse_reverse]
    exact hstop

theorem stripsTo_dropEndWhile (c : Char) (text : List Char) :
    StripsTo [c] text (dropEndWhile (fun d => d ∈ [c]) text) := by
  have hcopies : text.reverse.takeWhile (fun d => d ∈ [c]) =
      (List.replicate (text.reverse.takeWhile fun d => d ∈ [c]).length [c]).flatten := by
    rw [List.flatten_replicate_singleton, List.eq_replicate_iff]
    refine ⟨rfl, fun d hd => ?_⟩
    simpa using List.mem_takeWhile_imp hd
  refine ⟨⟨(text.reverse.takeWhile fun d => d ∈ [c]).length, ?_⟩, ?_⟩
  · have htext := congrArg List.reverse
      (List.takeWhile_append_dropWhile (p := fun d => d ∈ [c]) (l := text.reverse))
    rw [List.reverse_append, hcopies, List.reverse_reverse] at htext
    simpa [List.reverse_flatten, dropEndWhile] using htext.symm
  · rw [dropEndWhile, ← List.reverse_prefix, List.reverse_reverse]
    rintro ⟨rest, hrest⟩
    have hhead := List.head?_dropWhile_not (fun d => d ∈ [c]) text.reverse
    rw [← hrest] at hhead
    simp at hhead

/-- All copies of `pre` are taken off the front if something else follows them. -/
theorem dropAll_eq {pre cs core : List Char} (hpre : pre ≠ [])
    (htext : ∃ n, cs = (List.replicate n pre).flatten ++ core) (hstart : ¬ pre <+: core) :
    dropAll pre cs = core := by
  have hdropped : StripsTo pre.reverse cs.reverse (dropAll pre cs).reverse := by
    have hend := stripsTo_dropAllEnd (List.reverse_ne_nil_iff.mpr hpre) cs.reverse
    rwa [dropAllEnd, List.reverse_reverse, List.reverse_reverse] at hend
  have hcore : StripsTo pre.reverse cs.reverse core.reverse := by
    obtain ⟨n, rfl⟩ := htext
    refine ⟨⟨n, ?_⟩, fun h => hstart (List.reverse_suffix.mp h)⟩
    rw [List.reverse_append, List.reverse_flatten, List.map_replicate, List.reverse_replicate]
  exact List.reverse_injective (hdropped.unique hcore)

theorem dropAll_eq_self {pre cs : List Char} (hpre : pre ≠ []) (hstart : ¬ pre <+: cs) :
    dropAll pre cs = cs :=
  dropAll_eq hpre ⟨0, rfl⟩ hstart

theorem dropAll_append {pre cs : List Char} (hpre : pre ≠ []) :
    dropAll pre (pre ++ cs) = dropAll pre cs := by
  obtain ⟨n, hn, hstart⟩ := exists_dropAll hpre cs
  refine dropAll_eq hpre ⟨n + 1, ?_⟩ hstart
  rw [List.replicate_succ, List.flatten_cons, List.append_assoc, ← hn]

theorem mem_dropAll {pre cs : List Char} (hpre : pre ≠ []) {c : Char} (hc : c ∉ pre) (h : c ∈ cs) :
    c ∈ dropAll pre cs := by
  obtain ⟨n, hn, -⟩ := exists_dropAll hpre cs
  rw [hn, List.mem_append] at h
  rcases h with hcopies | h
  · obtain ⟨copy, hcopy, hmem⟩ := List.mem_flatten.mp hcopies
    rw [List.eq_of_mem_replicate hcopy] at hmem
    exact absurd hmem hc
  · exact h

theorem mem_of_mem_dropAll {pre cs : List Char} (hpre : pre ≠ []) {c : Char}
    (h : c ∈ dropAll pre cs) : c ∈ cs := by
  obtain ⟨n, hn, -⟩ := exists_dropAll hpre cs
  rw [hn]
  exact List.mem_append_right _ h

theorem dropAllEnd_append {suf cs : List Char} (hsuf : suf ≠ []) (hend : ¬ suf <:+ cs) :
    dropAllEnd suf (cs ++ suf) = cs :=
  (stripsTo_dropAllEnd hsuf _).unique ⟨⟨1, by simp⟩, hend⟩

theorem mem_dropAllEnd {suf cs : List Char} (hsuf : suf ≠ []) {c : Char} (hc : c ∉ suf)
    (h : c ∈ cs) : c ∈ dropAllEnd suf cs := by
  rw [dropAllEnd, List.mem_reverse]
  refine mem_dropAll (List.reverse_ne_nil_iff.mpr hsuf) ?_ (List.mem_reverse.mpr h)
  rwa [List.mem_reverse]

/-! ## Cuts -/

theorem cut?_append {c : Char} {sep before : List Char} (h : c ∉ before) (after : List Char) :
    cut? (c :: sep) (before ++ (c :: sep ++ after)) = some (before, after) := by
  induction before with
  | nil =>
    have hafter : after? (c :: sep) (c :: (sep ++ after)) = some after :=
      after?_eq_some_iff.mpr rfl
    rw [List.nil_append, List.cons_append, cut?, hafter]
  | cons d before ih =>
    have hafter : after? (c :: sep) (d :: (before ++ (c :: sep ++ after))) = none := by
      refine after?_eq_none_iff.mpr fun hpre => h ?_
      rw [(List.cons_prefix_cons.mp hpre).1]
      exact List.mem_cons_self
    rw [List.cons_append, cut?, hafter, ih fun hmem => h (List.mem_cons_of_mem d hmem)]
    rfl

theorem cut?_eq_none {c : Char} {sep cs : List Char} (h : c ∉ cs) : cut? (c :: sep) cs = none := by
  cases hcut : cut? (c :: sep) cs with
  | none => rfl
  | some parts =>
    refine absurd ?_ h
    rw [eq_append_of_cut? hcut]
    simp

theorem eq_append_of_cutLast? {sep cs before after : List Char}
    (h : cutLast? sep cs = some (before, after)) : cs = before ++ sep ++ after := by
  induction cs generalizing before with
  | nil =>
    obtain ⟨rest, hrest, heq⟩ := Option.map_eq_some_iff.mp h
    obtain ⟨rfl, rfl⟩ := Prod.mk.inj heq
    exact eq_append_of_after? hrest
  | cons c cs ih =>
    rw [cutLast?] at h
    split at h
    · next front back hcut =>
      obtain ⟨rfl, rfl⟩ := Prod.mk.inj (Option.some.inj h)
      rw [ih hcut, List.cons_append, List.cons_append]
    · obtain ⟨rest, hrest, heq⟩ := Option.map_eq_some_iff.mp h
      obtain ⟨rfl, rfl⟩ := Prod.mk.inj heq
      simpa using eq_append_of_after? hrest

end Chars

end CodeOutline
