import Roster.Proofs.ReadingBack

/-!
# Lower case once and for all

Lower case is final: lowering a text a second time changes nothing (`lowercase_lowercase`). And it
leaves blanks where they are, so a text without blanks around it stays without them
(`trimmed_lowercase_trimmed`). Both rest on the table of letters: the lower-case forms of a run lie
outside of all runs (`runs_clear_of_runs`), and neither the letters of a run nor their forms are blank
(`runs_clear_of_blanks`).
-/

namespace Roster.Text

/-! ## The table -/

/-- A run of the table of letters. -/
abbrev CaseRun :=
  Nat × Nat × Nat × Int

namespace CaseRun

def first (r : CaseRun) : Nat :=
  r.1

def last (r : CaseRun) : Nat :=
  r.2.1

def step (r : CaseRun) : Nat :=
  r.2.2.1

/-- Whether a run lowers a character. -/
def lowers (r : CaseRun) (n : Nat) : Bool :=
  r.first ≤ n && n ≤ r.last && (n - r.first) % r.step == 0

/-- What a run lowers a character to. -/
def form (r : CaseRun) (n : Nat) : Nat :=
  (n + r.2.2.2).toNat

/-- Whether the forms of a run lie outside of a range. -/
def clearOf (r : CaseRun) (low high : Nat) : Bool :=
  Nat.blt (r.form r.last) low || Nat.blt high (r.form r.first)

/-- Whether the forms of a run lie outside of another run, or between its characters. -/
def clearOfRun (r s : CaseRun) : Bool :=
  r.clearOf s.first s.last ||
    s.step == 2 && (r.step == 2 || r.first == r.last) && (r.form r.first + s.first) % 2 == 1

end CaseRun

open CaseRun

theorem runs_stepwise : lowercaseRuns.all (fun r =>
    (step r == 1 || step r == 2) && decide (0 ≤ first r + r.2.2.2)) = true := by
  decide

/-- The forms of a run lie outside of all runs. -/
theorem runs_clear_of_runs :
    lowercaseRuns.all (fun r => lowercaseRuns.all (clearOfRun r)) = true := by
  decide +kernel

/-- The forms of a run are characters, and none is the dotted capital I. -/
theorem runs_valid : lowercaseRuns.all (fun r => clearOf r 0x130 0x130 && clearOf r 0xD800 0xDFFF &&
    Nat.blt (form r (last r)) 0x110000) = true := by
  decide

/-- The letters of a run are not blank, nor are their forms. -/
theorem runs_clear_of_blanks : lowercaseRuns.all (fun r => blankRanges.all fun blanks =>
    (Nat.blt (last r) blanks.1 || Nat.blt blanks.2 (first r)) &&
      clearOf r blanks.1 blanks.2) = true := by
  decide

section Table

variable {r s : CaseRun} {n low high : Nat}

theorem le_of_lowers (h : lowers r n = true) : first r ≤ n ∧ n ≤ last r := by
  simp only [lowers, Bool.and_eq_true, decide_eq_true_eq] at h
  exact h.1

/-- The form of a letter lies between those of the first and the last letter of the run. -/
theorem form_outside (hn : lowers r n = true) (h : clearOf r low high = true) :
    form r n < low ∨ high < form r n := by
  have hrange := le_of_lowers hn
  simp only [clearOf, form, Nat.blt_eq, Bool.or_eq_true] at h ⊢
  omega

/-- No run lowers the form of a letter. -/
theorem not_lowers_form (hr : r ∈ lowercaseRuns) (hn : lowers r n = true)
    (hs : s ∈ lowercaseRuns) : lowers s (form r n) = false := by
  have hclear := List.all_eq_true.1 (List.all_eq_true.1 runs_clear_of_runs r hr) s hs
  refine Bool.eq_false_iff.2 fun hform => ?_
  rw [clearOfRun, Bool.or_eq_true] at hclear
  rcases hclear with hclear | hparity
  · have hrange := le_of_lowers hform
    have houtside := form_outside hn hclear
    omega
  · have hstart := List.all_eq_true.1 runs_stepwise r hr
    simp only [Bool.and_eq_true, Bool.or_eq_true, decide_eq_true_eq, beq_iff_eq]
      at hstart hparity
    simp only [lowers, Bool.and_eq_true, decide_eq_true_eq, beq_iff_eq] at hform hn
    obtain ⟨⟨hgap, hone⟩, hodd⟩ := hparity
    rw [hgap] at hform
    unfold form at hform hodd
    rcases hone with htwo | hsingle
    · rw [htwo] at hn
      omega
    · omega

theorem toNat_form (hr : r ∈ lowercaseRuns) (hn : lowers r n = true) :
    (Char.ofNat (form r n)).toNat = form r n := by
  have hvalid : (form r n).isValidChar := by
    have hforms := List.all_eq_true.1 runs_valid r hr
    simp only [Bool.and_eq_true, Nat.blt_eq] at hforms
    obtain ⟨⟨-, hsurrogate⟩, hlimit⟩ := hforms
    have houtside := form_outside hn hsurrogate
    have hrange := le_of_lowers hn
    unfold Nat.isValidChar
    unfold form at hlimit houtside ⊢
    omega
  rw [Char.ofNat, dif_pos hvalid]
  rfl

end Table

/-! ## Characters -/

variable {c : Char}

theorem isBlank_eq_false_iff :
    isBlank c = false ↔ ∀ blanks ∈ blankRanges, c.toNat < blanks.1 ∨ blanks.2 < c.toNat := by
  simp only [isBlank, List.any_eq_false, Bool.and_eq_true, decide_eq_true_eq, not_and_or, Nat.not_le]

/-- A letter outside ASCII is lowered by a run, or it is not lowered. -/
theorem lowerChar_of_not_ascii (h : ¬ c.toNat < 0x80) :
    (∀ r ∈ lowercaseRuns, lowers r c.toNat = false) ∧ lowerChar c = c ∨
      ∃ r ∈ lowercaseRuns, lowers r c.toNat = true ∧ lowerChar c = Char.ofNat (form r c.toNat) := by
  rw [lowerChar, if_neg h]
  split
  · next first last step offset hfind =>
    have hlowers := List.find?_some hfind
    exact .inr ⟨_, List.mem_of_find?_eq_some hfind, hlowers, rfl⟩
  · next hfind =>
    refine .inl ⟨fun r hr => Bool.eq_false_iff.2 ?_, rfl⟩
    exact List.find?_eq_none.1 hfind r hr

/-- Lower case leaves a character as it is if no run lowers it. -/
theorem lowerChar_eq_self (h : ∀ r ∈ lowercaseRuns, lowers r c.toNat = false) :
    lowerChar c = c := by
  by_cases hascii : c.toNat < 0x80
  · rw [lowerChar, if_pos hascii]
    refine toLower_of_not_capital fun hcapital => ?_
    have hletter := h (0x41, 0x5A, 1, 32) List.mem_cons_self
    simp [lowers, first, last, step, Nat.mod_one, hcapital] at hletter
  · rcases lowerChar_of_not_ascii hascii with ⟨-, hsame⟩ | ⟨r, hr, hlowers, -⟩
    · exact hsame
    · rw [h r hr] at hlowers
      cases hlowers

/-- **A letter in lower case** stays as it is. -/
theorem lowerChar_lowerChar (c : Char) : lowerChar (lowerChar c) = lowerChar c := by
  by_cases hascii : c.toNat < 0x80
  · have hlower : lowerChar c = c.toLower := by rw [lowerChar, if_pos hascii]
    rw [hlower, lowerChar_toLower, hlower]
  · rcases lowerChar_of_not_ascii hascii with ⟨-, hsame⟩ | ⟨r, hr, hlowers, hform⟩
    · rw [hsame, hsame]
    · rw [hform]
      refine lowerChar_eq_self fun s hs => ?_
      rw [toNat_form hr hlowers]
      exact not_lowers_form hr hlowers hs

theorem isBlank_lowerChar (c : Char) : isBlank (lowerChar c) = isBlank c := by
  by_cases hascii : c.toNat < 0x80
  · rw [lowerChar, if_pos hascii, isBlank_toLower]
  · rcases lowerChar_of_not_ascii hascii with ⟨-, hsame⟩ | ⟨r, hr, hlowers, hform⟩
    · rw [hsame]
    · have hclear := List.all_eq_true.1 runs_clear_of_blanks r hr
      simp only [List.all_eq_true, Bool.and_eq_true, Bool.or_eq_true, Nat.blt_eq] at hclear
      have hletter : isBlank c = false := by
        refine isBlank_eq_false_iff.2 fun blanks hblanks => ?_
        have hrange := le_of_lowers hlowers
        have houtside := (hclear blanks hblanks).1
        omega
      rw [hform, hletter, isBlank_eq_false_iff]
      intro blanks hblanks
      rw [toNat_form hr hlowers]
      exact form_outside hlowers (hclear blanks hblanks).2

theorem lowerChar_ne_dotted (h : c ≠ 'İ') : lowerChar c ≠ 'İ' := by
  by_cases hascii : c.toNat < 0x80
  · rw [lowerChar, if_pos hascii]
    exact mt (toLower_eq_iff (by decide) c).1 h
  · rcases lowerChar_of_not_ascii hascii with ⟨-, hsame⟩ | ⟨r, hr, hlowers, hform⟩
    · rwa [hsame]
    · have hforms := List.all_eq_true.1 runs_valid r hr
      simp only [Bool.and_eq_true] at hforms
      have houtside := form_outside hlowers hforms.1.1
      rw [hform]
      intro hdotted
      have hnumber := congrArg Char.toNat hdotted
      rw [toNat_form hr hlowers] at hnumber
      have hI : 'İ'.toNat = 0x130 := rfl
      omega

/-! ## Texts -/

variable {before cs : List Char}

/-- A character becomes characters that lower case leaves as they are, blank if it was blank. -/
theorem lowerAfter_cons (before : List Char) (c : Char) (rest : List Char) :
    ∃ lowered, lowerAfter before (c :: rest) = lowered ++ lowerAfter (c :: before) rest ∧
      lowered ≠ [] ∧ ∀ d ∈ lowered, lowerChar d = d ∧ d ≠ 'İ' ∧ isBlank d = isBlank c := by
  have hfinal : lowerChar 'ς' = 'ς' := by decide
  have hplain : lowerChar 'σ' = 'σ' := by decide
  have hdot : lowerChar '\u0307' = '\u0307' := by decide
  refine ⟨_, rfl, ?_, ?_⟩
  · split
    · exact List.cons_ne_nil _ _
    · split <;> exact List.cons_ne_nil _ _
  · intro d hd
    split at hd
    · next hsigma =>
      subst hsigma
      rw [List.mem_singleton.1 hd]
      split
      · exact ⟨hfinal, by decide, by decide⟩
      · exact ⟨hplain, by decide, by decide⟩
    · split at hd
      · next hdotted =>
        subst hdotted
        rcases List.mem_pair.1 hd with rfl | rfl
        · exact ⟨by decide, by decide, by decide⟩
        · exact ⟨hdot, by decide, by decide⟩
      · next hother =>
        rw [List.mem_singleton.1 hd]
        exact ⟨lowerChar_lowerChar c, lowerChar_ne_dotted hother, isBlank_lowerChar c⟩

/-- All characters of a text in lower case are left as they are by lower case. -/
theorem forall_mem_lowerAfter (before cs : List Char) :
    ∀ d ∈ lowerAfter before cs, lowerChar d = d ∧ d ≠ 'İ' := by
  induction cs generalizing before with
  | nil => exact nofun
  | cons c rest ih =>
    obtain ⟨lowered, htext, -, hlowered⟩ := lowerAfter_cons before c rest
    intro d hd
    rw [htext, List.mem_append] at hd
    rcases hd with hd | hd
    · exact ⟨(hlowered d hd).1, (hlowered d hd).2.1⟩
    · exact ih (c :: before) d hd

theorem lower_lower (cs : List Char) : lower (lower cs) = lower cs := by
  have hfinal := forall_mem_lowerAfter [] cs
  have hsigma : 'Σ' ∉ lower cs := fun hmem => absurd (hfinal 'Σ' hmem).1 (by decide)
  have hdotted : 'İ' ∉ lower cs := fun hmem => (hfinal 'İ' hmem).2 rfl
  rw [lower, lowerAfter_eq_map hsigma hdotted]
  exact (List.map_congr_left fun d hd => (hfinal d hd).1).trans (List.map_id _)

/-- A text starts with a blank in lower case if it starts with one. -/
theorem head?_lowerAfter (before cs : List Char) :
    (lowerAfter before cs).head?.any isBlank = cs.head?.any isBlank := by
  cases cs with
  | nil => rfl
  | cons c rest =>
    obtain ⟨lowered, htext, hsome, hlowered⟩ := lowerAfter_cons before c rest
    obtain ⟨d, more, rfl⟩ := List.exists_cons_of_ne_nil hsome
    rw [htext]
    exact (hlowered d List.mem_cons_self).2.2

/-- A text ends with a blank in lower case if it ends with one. -/
theorem getLast?_lowerAfter (before cs : List Char) :
    (lowerAfter before cs).getLast?.any isBlank = cs.getLast?.any isBlank := by
  induction cs generalizing before with
  | nil => rfl
  | cons c rest ih =>
    obtain ⟨lowered, htext, hsome, hlowered⟩ := lowerAfter_cons before c rest
    cases rest with
    | nil =>
      have hlast := List.getLast?_eq_getLast_of_ne_nil hsome
      rw [htext, lowerAfter, List.append_nil, hlast]
      exact (hlowered _ (List.getLast_mem hsome)).2.2
    | cons d rest =>
      obtain ⟨next, hrest, hnext, -⟩ := lowerAfter_cons (c :: before) d rest
      have hbelow : lowerAfter (c :: before) (d :: rest) ≠ [] := by
        rw [hrest]
        exact List.append_ne_nil_of_left_ne_nil hnext _
      rw [htext, List.getLast?_append_of_ne_nil _ hbelow, ih, List.getLast?_cons_cons]

/-- Trimming changes nothing where no blank is at an end. -/
theorem trim_eq_self_iff :
    trim cs = cs ↔ cs.head?.any isBlank = false ∧ cs.getLast?.any isBlank = false := by
  constructor
  · intro htrim
    rw [← htrim]
    refine ⟨?_, ?_⟩
    · rcases starts_trim cs with hnone | ⟨c, rest, hrest, hplain⟩
      · rw [hnone]
        rfl
      · rw [hrest]
        exact hplain
    · refine Bool.eq_false_iff.2 fun hany => ?_
      obtain ⟨c, hlast, hblank⟩ := (Option.any_eq_true _ _).1 hany
      rw [not_blank_of_getLast?_trimEnd hlast] at hblank
      cases hblank
  · rintro ⟨hfirst, hlast⟩
    have hstart : trimStart cs = cs := by
      cases cs with
      | nil => rfl
      | cons c rest => exact trimStart_cons_of_not_blank hfirst
    rw [trim, hstart]
    rcases List.eq_nil_or_concat cs with rfl | ⟨front, c, rfl⟩
    · rfl
    · rw [List.concat_eq_append, List.getLast?_concat] at hlast
      rw [List.concat_eq_append, trimEnd_concat_of_not_blank hlast]

/-- **A text in lower case is final.** -/
theorem lowercase_lowercase (s : String) : lowercase (lowercase s) = lowercase s := by
  rw [lowercase, lowercase, String.toList_ofList, lower_lower]

/-- **Lower case puts no blanks around a text.** -/
theorem trimmed_lowercase_trimmed (s : String) :
    trimmed (lowercase (trimmed s)) = lowercase (trimmed s) := by
  have hends := trim_eq_self_iff.1 (trim_trim s.toList)
  rw [trimmed, trimmed, lowercase, String.toList_ofList, String.toList_ofList]
  refine congrArg String.ofList (trim_eq_self_iff.2 ?_)
  rw [lower, head?_lowerAfter, getLast?_lowerAfter]
  exact hends

end Roster.Text
