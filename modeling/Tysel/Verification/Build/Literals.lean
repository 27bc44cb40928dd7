import Tysel.Algorithm.Build.Bundle

/-! A literal on one line stands in the bundle as it does in the factory text, behind the
re-indented text before it. -/

namespace Tysel.Build

open List

variable {line rest token : Text}

/-- The complete lines of a text as the bundle has them, and the line that is left. -/
def cut (line : Text) : Text → Text × Text
  | [] => ([], line)
  | c :: rest =>
    if c = '\n' then
      (indented (stripReturn line) ++ (cut [] rest).1, (cut [] rest).2)
    else cut (line ++ [c]) rest

/-- The text before a literal, as the bundle has it. -/
def placed (pre : Text) : Text := (cut [] pre).1 ++ ' ' :: ' ' :: (cut [] pre).2

theorem linesFrom_append (line pre rest : Text) : (linesFrom line (pre ++ rest)).flatMap indented =
      (cut line pre).1 ++ (linesFrom (cut line pre).2 rest).flatMap indented := by
  induction pre generalizing line with
  | nil => rfl
  | cons _ _ ih =>
    rw [cons_append, linesFrom, cut]
    split
    · rw [flatMap_cons, ih, append_assoc]
    · exact ih _

theorem linesFrom_token (h : '\n' ∉ token) :
    linesFrom line (token ++ rest) = linesFrom (line ++ token) rest := by
  induction token generalizing line with
  | nil => rw [append_nil, nil_append]
  | cons _ _ ih =>
    rw [mem_cons, not_or] at h
    rw [cons_append, linesFrom, if_neg (Ne.symm h.1), ih h.2, append_assoc]
    rfl

/-- Whatever follows, a line keeps what it begins with, up to a carriage return. -/
theorem stripReturn_append (hline : line.getLast? ≠ some '\r') (more : Text) :
    ∃ kept, stripReturn (line ++ more) = line ++ kept := by
  unfold stripReturn
  cases more with
  | nil => exact ⟨[], by rw [append_nil, if_neg hline]⟩
  | cons c more =>
    split
    · exact ⟨(c :: more).dropLast, dropLast_append_of_ne_nil (by simp)⟩
    · exact ⟨c :: more, rfl⟩

theorem linesFrom_front (hne : line ≠ []) (hline : line.getLast? ≠ some '\r') (rest more : Text) :
    ' ' :: ' ' :: line <+: (linesFrom (line ++ more) rest).flatMap indented := by
  induction rest generalizing more with
  | nil =>
    refine ⟨more ++ ['\n'], ?_⟩
    rw [linesFrom, if_neg (by simp [hne])]
    simp [indented]
  | cons c rest ih =>
    rw [linesFrom]
    split
    · obtain ⟨kept, hkept⟩ := stripReturn_append hline more
      refine ⟨kept ++ '\n' :: (linesFrom [] rest).flatMap indented, ?_⟩
      simp [hkept, indented]
    · rw [append_assoc]
      exact ih (more ++ [c])

/-- The text of a string or template literal: it begins and ends with its quotation mark. -/
def IsLiteral (token : Text) : Prop :=
  ∃ quote ∈ ['\'', '"', '`'], ∃ body, token = quote :: body ++ [quote]

theorem IsLiteral.getLast (h : IsLiteral token) :
    ∃ quote, token.getLast? = some quote ∧ quote ≠ ' ' ∧ quote ≠ '\r' ∧ quote ≠ '\n' := by
  obtain ⟨quote, hquote, _, rfl⟩ := h
  refine ⟨quote, getLast?_concat .., ?_⟩
  simp only [mem_cons, not_mem_nil, or_false] at hquote
  rcases hquote with rfl | rfl | rfl <;> decide

def beforeFactory (jsString : Text → Text) (front : List CompiledModule)
    (module : CompiledModule) : Text :=
  runtime ++ front.flatMap (emitModule jsString) ++ defineHead jsString module

def afterFactory (jsString : Text → Text) (back : List CompiledModule) (entryId : Text) : Text :=
  "  \x7d);\n".toList ++ (back.flatMap (emitModule jsString) ++ emitEntry jsString entryId)

theorem emitBundle_eq (jsString : Text → Text) (front back : List CompiledModule)
    (module : CompiledModule) (entryId : Text) :
    emitBundle jsString (front ++ module :: back) entryId = beforeFactory jsString front module ++
      (emitFactory module.factory ++ afterFactory jsString back entryId) := by
  rw [emitBundle, flatMap_append, flatMap_cons, emitModule, beforeFactory, afterFactory]
  simp only [append_assoc]

theorem emitFactory_eq {factory : Text} (h : linesFrom [] factory ≠ []) :
    emitFactory factory = (linesFrom [] factory).flatMap indented := by
  unfold emitFactory
  split
  · contradiction
  · rfl

/-! ## Literals on several lines -/

theorem not_mem_stripReturn (h : '\n' ∉ line) : '\n' ∉ stripReturn line := by
  unfold stripReturn
  split
  · exact fun hmem => h (dropLast_subset _ hmem)
  · exact h

theorem not_mem_cut (h : '\n' ∉ line) (pre : Text) : '\n' ∉ (cut line pre).2 := by
  induction pre generalizing line with
  | nil => exact h
  | cons c _ ih =>
    rw [cut]
    split
    · exact ih not_mem_nil
    · rename_i hc
      exact ih (by simp [h, Ne.symm hc])

theorem first_line {u v x y : Text} (hu : '\n' ∉ u) (hv : '\n' ∉ v)
    (h : u ++ '\n' :: x <+: v ++ '\n' :: y) : u = v ∧ x <+: y := by
  induction u generalizing v with
  | nil =>
    cases v with
    | nil => exact ⟨rfl, (prefix_cons_inj _).mp h⟩
    | cons =>
      obtain ⟨rfl, -⟩ := cons_prefix_cons.mp h
      simp at hv
  | cons c u ih =>
    rw [mem_cons, not_or] at hu
    cases v with
    | nil => exact absurd (cons_prefix_cons.mp h).1.symm hu.1
    | cons =>
      obtain ⟨rfl, htail⟩ := cons_prefix_cons.mp h
      obtain ⟨rfl, hrest⟩ := ih hu.2 (fun hmem => hv (mem_cons_of_mem _ hmem)) htail
      exact ⟨rfl, hrest⟩

theorem all_spaces {text more : Text} (h : text <+: ' ' :: ' ' :: (text ++ more)) :
    ∀ c ∈ text, c = ' ' := by
  induction text with
  | nil => simp
  | cons c text ih =>
    obtain ⟨rfl, htail⟩ := cons_prefix_cons.mp h
    rw [forall_mem_cons]
    exact ⟨rfl, ih htail⟩

/-- What follows a line feed is indented, and is not what it was. -/
theorem indented_changed {text : Text} (hne : text ≠ []) (hlast : ∀ c ∈ text.getLast?, c ≠ ' ' ∧
    c ≠ '\r') (post tail : Text) :
    ¬ text <+: (linesFrom [] (text ++ post)).flatMap indented ++ tail := by
  intro h
  by_cases hmem : '\n' ∈ text
  · obtain ⟨first, later, rfl, hfirst⟩ := eq_append_cons_of_mem hmem
    rw [append_assoc, cons_append, linesFrom_token hfirst, nil_append, linesFrom, if_pos rfl] at h
    have hline := (first_line (v := ' ' :: ' ' :: stripReturn first) hfirst
      (by simpa using not_mem_stripReturn hfirst) (by simpa [indented] using h)).1
    have hlength := congrArg length hline
    have hstrip : first.length ≤ (stripReturn first).length + 1 := by
      unfold stripReturn
      split <;> simp <;> omega
    simp only [length_cons] at hlength
    omega
  · obtain ⟨last, hget⟩ := Option.isSome_iff_exists.mp (by simpa using hne : text.getLast?.isSome)
    obtain ⟨hspace, hreturn⟩ := hlast last hget
    rw [linesFrom_token hmem, nil_append] at h
    obtain ⟨right, hright⟩ := linesFrom_front hne (by simpa [hget] using hreturn) post []
    rw [append_nil] at hright
    rw [← hright] at h
    exact hspace (all_spaces (by simpa using h) last (mem_of_getLast? hget))

/-- A literal has the same characters in the bundle, behind the text that was before it, exactly if
it is on one line. -/
theorem bundle_preserves_literals (jsString : Text → Text) (front back : List CompiledModule)
    (module : CompiledModule) (entryId pre token post : Text)
    (hfactory : module.factory = pre ++ token ++ post) (hliteral : IsLiteral token) :
    beforeFactory jsString front module ++ (placed pre ++ token) <+:
      emitBundle jsString (front ++ module :: back) entryId ↔ '\n' ∉ token := by
  obtain ⟨quote, hquote, hspace, hreturn, hfeed⟩ := hliteral.getLast
  constructor
  · intro h hmem
    obtain ⟨first, later, rfl, hfirst⟩ := eq_append_cons_of_mem hmem
    rw [emitBundle_eq, prefix_append_right_inj] at h
    have hlines : (linesFrom [] module.factory).flatMap indented = (cut [] pre).1 ++
        (indented (stripReturn ((cut [] pre).2 ++ first)) ++
          (linesFrom [] (later ++ post)).flatMap indented) := by
      rw [hfactory, append_assoc, linesFrom_append, append_assoc, cons_append,
        linesFrom_token hfirst, linesFrom, if_pos rfl, flatMap_cons]
    rw [emitFactory_eq (by intro hnone; simp [hnone, indented] at hlines), hlines, placed,
      append_assoc, append_assoc, prefix_append_right_inj] at h
    have hcut : '\n' ∉ (cut [] pre).2 ++ first := by
      simpa [hfirst] using not_mem_cut not_mem_nil pre
    obtain ⟨-, hlater⟩ := first_line (u := ' ' :: ' ' :: ((cut [] pre).2 ++ first))
      (v := ' ' :: ' ' :: stripReturn ((cut [] pre).2 ++ first)) (by simpa using hcut)
      (by simpa using not_mem_stripReturn hcut) (by simpa [indented] using h)
    cases later with
    | nil =>
      rw [getLast?_concat, Option.some.injEq] at hquote
      exact hfeed hquote.symm
    | cons c later =>
      rw [getLast?_append, getLast?_cons_cons] at hquote
      have hquote : (c :: later).getLast? = some quote := by simpa using hquote
      refine indented_changed (by simp) (fun last hlast => ?_) post _ hlater
      obtain rfl := Option.mem_unique hquote hlast
      exact ⟨hspace, hreturn⟩
  · intro hline
    rw [emitBundle_eq, prefix_append_right_inj, hfactory]
    refine IsPrefix.trans ?_ (prefix_append _ _)
    have hne : token ≠ [] := by
      rintro rfl
      cases hquote
    obtain ⟨right, hright⟩ := @linesFrom_front ((cut [] pre).2 ++ token) (by simp [hne])
      (by simpa [getLast?_append, hquote] using hreturn) post []
    have hlines : (linesFrom [] (pre ++ token ++ post)).flatMap indented =
        placed pre ++ token ++ right := by
      rw [append_assoc, linesFrom_append, linesFrom_token hline]
      rw [append_nil] at hright
      rw [← hright, placed]
      simp
    refine ⟨right, ?_⟩
    rw [← hlines, emitFactory_eq]
    intro hnone
    rw [hnone] at hlines
    exact absurd hlines (by simp [placed])

theorem bundle_preserves_literals_one_line :
    beforeFactory id [] ⟨[], "x = `a`;".toList⟩ ++ (placed "x = ".toList ++ "`a`".toList) <+:
      emitBundle id [⟨[], "x = `a`;".toList⟩] [] :=
  (bundle_preserves_literals id [] [] ⟨[], "x = `a`;".toList⟩ [] "x = ".toList "`a`".toList
    ";".toList rfl ⟨'`', by decide, ['a'], rfl⟩).mpr (by decide)

def twoLines : CompiledModule := ⟨[], "x = `a\nb`;".toList⟩

theorem two_line_literal_changed :
    twoLines.factory = "x = ".toList ++ "`a\nb`".toList ++ ";".toList ∧
      beforeFactory id [] twoLines ++ (placed "x = ".toList ++ "`a\n  b`".toList) <+:
        emitBundle id [twoLines] [] :=
  ⟨by decide, by
    rw [← nil_append [twoLines], emitBundle_eq, prefix_append_right_inj]
    exact IsPrefix.trans (by decide) (prefix_append _ _)⟩

end Tysel.Build
