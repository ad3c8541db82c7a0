import Roster.Filter

/-!
# Texts of filters

A filter can be read off its text, whatever values stand in it and whatever follows
(`render_append_inj`): the character behind the opening parenthesis tells the kind of a filter, the
first equals sign ends a name, and the first closing parenthesis ends a value, for no value writes one
(`escape_ne_special`). Values are told apart because the texts of two characters never start alike
(`escapeChar_append_inj`). Attribute names must be plain, as a name is written as it stands.
-/

namespace Roster

namespace Filter

/-! ## Values -/

/-- The characters that are spelled out inside a filter, each with its spelling, in the order in
which they are replaced. -/
def spellings : List (Char × List Char) :=
  [('\\', ['\\', '5', 'c']), ('*', ['\\', '2', 'a']), ('(', ['\\', '2', '8']),
   (')', ['\\', '2', '9']), ('\x00', ['\\', '0', '0'])]

/-- The text with a spelling in place of each occurrence of one character. -/
def replaceChar (c : Char) (spelling cs : List Char) : List Char :=
  cs.flatMap fun d => if d = c then spelling else [d]

/-- The text after one replacement for each special character in turn. -/
def escapeInTurn (value : List Char) : List Char :=
  spellings.foldl (fun cs s => replaceChar s.1 s.2 cs) value

/-- A character that is not spelled out stands as it is. -/
theorem escapeChar_of_plain {c : Char} (hc : c ∉ spellings.map Prod.fst) : escapeChar c = [c] := by
  simp only [spellings, List.map_cons, List.map_nil, List.mem_cons, List.not_mem_nil, or_false,
    not_or] at hc
  simp [escapeChar, hc]

/-- A special character stands as its spelling. -/
theorem escapeChar_of_special {c : Char} (hc : c ∈ spellings.map Prod.fst) :
    ∃ d e, escapeChar c = ['\\', d, e] := by
  simp only [spellings, List.map_cons, List.map_nil, List.mem_cons, List.not_mem_nil,
    or_false] at hc
  rcases hc with rfl | rfl | rfl | rfl | rfl <;> exact ⟨_, _, rfl⟩

/-- **The texts of two characters never start alike.** -/
theorem escapeChar_append_inj {c d : Char} {rest rest' : List Char}
    (h : escapeChar c ++ rest = escapeChar d ++ rest') : c = d ∧ rest = rest' := by
  have hbackslash : '\\' ∈ spellings.map Prod.fst := by decide
  by_cases hc : c ∈ spellings.map Prod.fst
  · obtain ⟨c₁, c₂, htext⟩ := escapeChar_of_special hc
    by_cases hd : d ∈ spellings.map Prod.fst
    · obtain ⟨d₁, d₂, htext'⟩ := escapeChar_of_special hd
      obtain ⟨hsame, hrest⟩ := List.append_inj h (by rw [htext, htext']; rfl)
      have hspecials : (spellings.map Prod.fst).all (fun c => (spellings.map Prod.fst).all fun d =>
          escapeChar c = escapeChar d → c = d) = true := by decide
      have hpair := List.all_eq_true.1 (List.all_eq_true.1 hspecials c hc) d hd
      exact ⟨of_decide_eq_true hpair hsame, hrest⟩
    · rw [htext, escapeChar_of_plain hd] at h
      have hhead : '\\' = d := (List.cons.inj h).1
      exact absurd (hhead ▸ hbackslash) hd
  · rw [escapeChar_of_plain hc] at h
    by_cases hd : d ∈ spellings.map Prod.fst
    · obtain ⟨d₁, d₂, htext⟩ := escapeChar_of_special hd
      rw [htext] at h
      have hhead : c = '\\' := (List.cons.inj h).1
      exact absurd (hhead ▸ hbackslash) hc
    · rw [escapeChar_of_plain hd] at h
      exact List.cons.inj h

/-- Every character is written. -/
theorem escapeChar_ne_nil (c : Char) : escapeChar c ≠ [] := by
  by_cases hc : c ∈ spellings.map Prod.fst
  · obtain ⟨d, e, htext⟩ := escapeChar_of_special hc
    simp [htext]
  · simp [escapeChar_of_plain hc]

/-- Different values are written differently. -/
theorem escape_injective : Function.Injective escape := by
  intro value
  induction value with
  | nil =>
    intro other h
    cases other with
    | nil => rfl
    | cons d other => simp [escape, escapeChar_ne_nil] at h
  | cons c value ih =>
    intro other h
    cases other with
    | nil => simp [escape, escapeChar_ne_nil] at h
    | cons d other =>
      obtain ⟨rfl, hrest⟩ := escapeChar_append_inj h
      rw [ih hrest]

/-- Replacing the special characters one after the other, the backslash first, spells each out. -/
theorem escapeInTurn_eq (value : List Char) : escapeInTurn value = escape value := by
  have happend (cs ds : List Char) : escapeInTurn (cs ++ ds) = escapeInTurn cs ++ escapeInTurn ds := by
    simp [escapeInTurn, spellings, replaceChar]
  induction value with
  | nil => rfl
  | cons c value ih =>
    have hchar : escapeInTurn [c] = escapeChar c := by
      by_cases hc : c ∈ spellings.map Prod.fst
      · have hspecials : (spellings.map Prod.fst).all (fun c => escapeInTurn [c] = escapeChar c) =
            true := by decide
        exact of_decide_eq_true (List.all_eq_true.1 hspecials c hc)
      · rw [escapeChar_of_plain hc]
        simp only [spellings, List.map_cons, List.map_nil, List.mem_cons, List.not_mem_nil,
          or_false, not_or] at hc
        simp [escapeInTurn, spellings, replaceChar, hc]
    rw [← List.singleton_append, happend, hchar, ih]
    rfl

/-! ## Names -/

/-- The characters of attribute names. -/
def isNameChar (c : Char) : Bool :=
  c.isAlphanum || c ∈ ['-', '.', ';']

/-- A name that can be told from what stands around it in a filter. -/
def PlainName (name : String) : Prop :=
  name ≠ "" ∧ name.toList.all isNameChar = true

/-- All attribute names in a filter are plain. -/
inductive WellNamed : Filter → Prop
  | equals {name : String} (value : String) : PlainName name → WellNamed (.equals name value)
  | present {name : String} : PlainName name → WellNamed (.present name)
  | all {parts : List Filter} : (∀ part ∈ parts, WellNamed part) → WellNamed (.all parts)
  | any {parts : List Filter} : (∀ part ∈ parts, WellNamed part) → WellNamed (.any parts)
  | not {part : Filter} : WellNamed part → WellNamed (.not part)

/-- What stands in front of a character that is in neither of two texts can be cut off. -/
theorem append_cons_inj {c : Char} {cs ds rest rest' : List Char} (hcs : c ∉ cs) (hds : c ∉ ds)
    (h : cs ++ c :: rest = ds ++ c :: rest') : cs = ds ∧ rest = rest' := by
  induction cs generalizing ds with
  | nil =>
    cases ds with
    | nil => exact ⟨rfl, (List.cons.inj h).2⟩
    | cons d ds => exact absurd ((List.cons.inj h).1 ▸ List.mem_cons_self) hds
  | cons b cs ih =>
    cases ds with
    | nil => exact absurd ((List.cons.inj h).1 ▸ List.mem_cons_self) hcs
    | cons d ds =>
      obtain ⟨rfl, htail⟩ := List.cons.inj h
      obtain ⟨rfl, hrest⟩ := ih (List.not_mem_of_not_mem_cons hcs)
        (List.not_mem_of_not_mem_cons hds) htail
      exact ⟨rfl, hrest⟩

theorem PlainName.not_mem {name : String} (h : PlainName name) {c : Char}
    (hc : isNameChar c = false) : c ∉ name.toList := by
  intro hmem
  rw [List.all_eq_true.1 h.2 c hmem] at hc
  cases hc

/-- A name, an equals sign and a text without closing parentheses can be told apart. -/
theorem PlainName.append_inj {name name' : String} (hname : PlainName name)
    (hname' : PlainName name') (cs ds : List Char) {rest rest' : List Char} (hcs : ')' ∉ cs)
    (hds : ')' ∉ ds) (h : name.toList ++ '=' :: (cs ++ ')' :: rest) =
      name'.toList ++ '=' :: (ds ++ ')' :: rest')) :
    name = name' ∧ cs = ds ∧ rest = rest' := by
  obtain ⟨hnames, htail⟩ :=
    append_cons_inj (hname.not_mem (by decide)) (hname'.not_mem (by decide)) h
  obtain ⟨htexts, hrest⟩ := append_cons_inj hcs hds htail
  exact ⟨String.toList_injective hnames, htexts, hrest⟩

/-! ## Filters -/

/-- The character behind the opening parenthesis, unless a name stands there. -/
def mark? : Filter → Option Char
  | .all _ => some '&'
  | .any _ => some '|'
  | .not _ => some '!'
  | _ => none

/-- The character behind the opening parenthesis tells the mark. -/
theorem WellNamed.starts {f : Filter} (h : f.WellNamed) :
    ∃ c rest, f.render = '(' :: c :: rest ∧ f.mark? = if isNameChar c then none else some c := by
  have hnamed {name : String} (hname : PlainName name) (rest : List Char) :
      ∃ c more, name.toList ++ rest = c :: more ∧ isNameChar c = true := by
    cases hcs : name.toList with
    | nil => exact absurd (String.toList_eq_nil_iff.1 hcs) hname.1
    | cons c cs =>
      refine ⟨c, cs ++ rest, rfl, List.all_eq_true.1 hname.2 c ?_⟩
      rw [hcs]
      exact List.mem_cons_self
  cases h with
  | equals value hname =>
    obtain ⟨c, more, hmore, hc⟩ := hnamed hname ('=' :: escape value.toList ++ [')'])
    exact ⟨c, more, by simp [render, ← hmore], by simp [mark?, hc]⟩
  | present hname =>
    obtain ⟨c, more, hmore, hc⟩ := hnamed hname ['=', '*', ')']
    exact ⟨c, more, by simp [render, ← hmore], by simp [mark?, hc]⟩
  | all => exact ⟨'&', _, rfl, rfl⟩
  | any => exact ⟨'|', _, rfl, rfl⟩
  | not => exact ⟨'!', _, rfl, rfl⟩

/-- Filters with one text are of one kind, up to the two that start with a name. -/
theorem mark?_eq_of_render {f g : Filter} (hf : f.WellNamed) (hg : g.WellNamed)
    {rest rest' : List Char} (h : f.render ++ rest = g.render ++ rest') : f.mark? = g.mark? := by
  obtain ⟨c, more, htext, hmark⟩ := hf.starts
  obtain ⟨d, more', htext', hmark'⟩ := hg.starts
  rw [htext, htext'] at h
  have hcd : c = d := (List.cons.inj (List.cons.inj h).2).1
  rw [hmark, hmark', hcd]

mutual

/-- **The text of a filter tells the filter**, whatever follows. -/
theorem render_append_inj : ∀ {f : Filter}, f.WellNamed → ∀ {g : Filter}, g.WellNamed →
    ∀ {rest rest' : List Char}, f.render ++ rest = g.render ++ rest' → f = g ∧ rest = rest'
  | .equals name value, .equals _ hname, g, hg, rest, rest', h => by
    have hmark := mark?_eq_of_render (.equals value hname) hg h
    have hvalue (value : String) : ')' ∉ escape value.toList := escape_ne_special (by simp) _
    cases hg with
    | equals value' hname' =>
      obtain ⟨rfl, htexts, rfl⟩ := hname.append_inj hname' _ _ (hvalue value) (hvalue value')
        (by simpa [render] using h)
      exact ⟨by rw [String.toList_injective (escape_injective htexts)], rfl⟩
    | present hname' =>
      obtain ⟨-, htexts, -⟩ := hname.append_inj hname' _ ['*'] (hvalue value) (by decide)
        (by simpa [render] using h)
      have hstar : '*' ∉ escape value.toList := escape_ne_special (by simp) _
      exact absurd (htexts ▸ List.mem_cons_self) hstar
    | _ => cases hmark
  | .present name, .present hname, g, hg, rest, rest', h => by
    have hmark := mark?_eq_of_render (.present hname) hg h
    cases hg with
    | equals value' hname' =>
      obtain ⟨-, htexts, -⟩ := hname.append_inj hname' ['*'] _ (by decide)
        (escape_ne_special (by simp) value'.toList) (by simpa [render] using h)
      have hstar : '*' ∉ escape value'.toList := escape_ne_special (by simp) _
      exact absurd (htexts ▸ List.mem_cons_self) hstar
    | present hname' =>
      obtain ⟨rfl, -, rfl⟩ := hname.append_inj hname' ['*'] ['*'] (by decide) (by decide)
        (by simpa [render] using h)
      exact ⟨rfl, rfl⟩
    | _ => cases hmark
  | .all parts, .all hparts, g, hg, rest, rest', h => by
    have hmark := mark?_eq_of_render (.all hparts) hg h
    cases hg with
    | all hparts' =>
      obtain ⟨rfl, rfl⟩ := renderAll_append_inj hparts hparts' (by simpa [render] using h)
      exact ⟨rfl, rfl⟩
    | _ => cases hmark
  | .any parts, .any hparts, g, hg, rest, rest', h => by
    have hmark := mark?_eq_of_render (.any hparts) hg h
    cases hg with
    | any hparts' =>
      obtain ⟨rfl, rfl⟩ := renderAll_append_inj hparts hparts' (by simpa [render] using h)
      exact ⟨rfl, rfl⟩
    | _ => cases hmark
  | .not part, .not hpart, g, hg, rest, rest', h => by
    have hmark := mark?_eq_of_render (.not hpart) hg h
    cases hg with
    | not hpart' =>
      obtain ⟨rfl, hrest⟩ := render_append_inj hpart hpart' (by simpa [render] using h)
      exact ⟨rfl, (List.cons.inj hrest).2⟩
    | _ => cases hmark

/-- The texts of filters in a row tell these filters, up to the closing parenthesis. -/
theorem renderAll_append_inj : ∀ {fs : List Filter}, (∀ f ∈ fs, f.WellNamed) →
    ∀ {gs : List Filter}, (∀ g ∈ gs, g.WellNamed) → ∀ {rest rest' : List Char},
      renderAll fs ++ ')' :: rest = renderAll gs ++ ')' :: rest' → fs = gs ∧ rest = rest'
  | [], _, gs, hgs, rest, rest', h => by
    cases gs with
    | nil => exact ⟨rfl, (List.cons.inj h).2⟩
    | cons g gs =>
      obtain ⟨c, more, htext, -⟩ := (hgs g List.mem_cons_self).starts
      simp [renderAll, htext] at h
  | f :: fs, hfs, gs, hgs, rest, rest', h => by
    rw [List.forall_mem_cons] at hfs
    cases gs with
    | nil =>
      obtain ⟨c, more, htext, -⟩ := hfs.1.starts
      simp [renderAll, htext] at h
    | cons g gs =>
      rw [List.forall_mem_cons] at hgs
      obtain ⟨rfl, hmore⟩ := render_append_inj hfs.1 hgs.1 (by simpa [renderAll] using h)
      obtain ⟨rfl, hrest⟩ := renderAll_append_inj hfs.2 hgs.2 hmore
      exact ⟨rfl, hrest⟩

end

/-! ## Searches for values -/

theorem anyOf_wellNamed {name : String} (hname : PlainName name) (values : List String) :
    (anyOf name values).WellNamed := by
  have hparts : ∀ part ∈ values.map (Filter.equals name), part.WellNamed := by
    intro part hpart
    obtain ⟨value, -, rfl⟩ := List.mem_map.1 hpart
    exact .equals value hname
  unfold anyOf
  split
  · next value => exact .equals value hname
  · exact .any hparts

/-- A search for some values is no search for others. -/
theorem anyOf_injective (name : String) : Function.Injective (anyOf name) := by
  have hequals (v w : String) (h : Filter.equals name v = .equals name w) : v = w :=
    (Filter.equals.inj h).2
  intro values values' h
  unfold anyOf at h
  split at h
  · next value =>
    split at h
    · next value' => rw [hequals value value' h]
    · cases h
  · split at h
    · cases h
    · exact (List.map_inj_right hequals).1 (Filter.any.inj h)

/-- **A filter is determined by its text**: two filters with plain names have the same text only if
they are the same filter, also if more text follows each. So a value can neither close its
parenthesis nor pass for a test of presence or for further terms. It is written with its special
characters replaced in turn, none of which is left but the backslash, and no two values are written
alike. -/
theorem text_determines :
    (∀ f g : Filter, f.WellNamed → g.WellNamed →
      (f.text = g.text ↔ f = g) ∧
        ∀ rest rest', f.render ++ rest = g.render ++ rest' ↔ f = g ∧ rest = rest') ∧
      (∀ name, PlainName name → ∀ values values',
        (anyOf name values).text = (anyOf name values').text ↔ values = values') ∧
      Function.Injective escapeValue ∧
      ∀ value, (escapeValue value).toList = escapeInTurn value.toList ∧
        ∀ c ∈ ['*', '(', ')', '\x00'], c ∉ (escapeValue value).toList := by
  have hrender {f g : Filter} (hf : f.WellNamed) (hg : g.WellNamed) (rest rest' : List Char) :
      f.render ++ rest = g.render ++ rest' ↔ f = g ∧ rest = rest' := by
    refine ⟨render_append_inj hf hg, ?_⟩
    rintro ⟨rfl, rfl⟩
    rfl
  have htext {f g : Filter} (hf : f.WellNamed) (hg : g.WellNamed) : f.text = g.text ↔ f = g := by
    refine ⟨fun h => ?_, fun h => h ▸ rfl⟩
    have hsame := congrArg (· ++ []) (String.ofList_injective h)
    exact ((hrender hf hg [] []).1 hsame).1
  refine ⟨fun f g hf hg => ⟨htext hf hg, hrender hf hg⟩, fun name hname values values' => ?_,
    fun v w h => ?_, fun value => ⟨?_, fun c hc => ?_⟩⟩
  · rw [htext (anyOf_wellNamed hname values) (anyOf_wellNamed hname values')]
    exact (anyOf_injective name).eq_iff
  · exact String.toList_injective (escape_injective (String.ofList_injective h))
  · rw [escapeValue, String.toList_ofList, escapeInTurn_eq]
  · rw [escapeValue, String.toList_ofList]
    exact escape_ne_special (by simpa using hc) _

end Filter

namespace Sample

/-- A value that would close its own term and open another one is told apart from two terms. -/
theorem closingValue_told_apart :
    Filter.PlainName "memberUid" ∧
      (Filter.any [.equals "memberUid" "ann)(memberUid=bob"]).text ≠
        (Filter.any [.equals "memberUid" "ann", .equals "memberUid" "bob"]).text ∧
      (Filter.equals "memberUid" "*").text ≠ (Filter.present "memberUid").text := by
  have hname : Filter.PlainName "memberUid" := ⟨by decide, by decide⟩
  have hone (value : String) : (Filter.any [.equals "memberUid" value]).WellNamed :=
    .any (by simpa using Filter.WellNamed.equals value hname)
  have htwo : (Filter.any [.equals "memberUid" "ann", .equals "memberUid" "bob"]).WellNamed :=
    .any (by simp [Filter.WellNamed.equals, hname])
  refine ⟨hname, fun h => ?_, fun h => ?_⟩
  · have hsame := (Filter.text_determines.1 _ _ (hone _) htwo).1.1 h
    simp at hsame
  · cases (Filter.text_determines.1 _ _ (.equals "*" hname) (.present hname)).1.1 h

end Sample

end Roster
