import Roster.Proofs.OpenEscapes

/-!
# Spaces at the end of a relative name

Spaces at the end of a value's text are dropped twice, before escapes are read: by the reader of the
value, which keeps a space behind a backslash, and by the reader of the name, which trims the whole
text and with it the last relative name. `toOption_parseValue_append_spaces_iff` and
`toOption_parseValue_trimEnd_iff` say what either makes of a value, and a name is read relative name
by relative name from the text trimmed at its end (`parse_eq_ok_iff`). `read_trailing_spaces` puts
this together for a relative name in any position.
-/

namespace Roster

namespace Text

variable {c : Char} {cs ds : List Char}

/-! ## Trimming -/

theorem trimEnd_cons (c : Char) (cs : List Char) :
    trimEnd (c :: cs) = if isBlank c = true ∧ trimEnd cs = [] then [] else c :: trimEnd cs := by
  by_cases hblank : isBlank c = true
  · induction cs using List.reverseRecOn with
    | nil =>
      rw [if_pos ⟨hblank, rfl⟩, ← List.nil_append [c], trimEnd_concat_of_blank hblank]
      rfl
    | append_singleton cs d ih =>
      rw [← List.cons_append]
      by_cases hd : isBlank d = true
      · rw [trimEnd_concat_of_blank hd, trimEnd_concat_of_blank hd, ih]
      · rw [trimEnd_concat_of_not_blank (Bool.eq_false_iff.2 hd),
          trimEnd_concat_of_not_blank (Bool.eq_false_iff.2 hd), if_neg fun h => by simp at h]
        rfl
  · rw [if_neg fun h => hblank h.1, ← List.nil_append (c :: cs),
      trimEnd_append_cons (Bool.eq_false_iff.2 hblank), List.nil_append]

/-- It does not matter which end is trimmed first. -/
theorem trimStart_trimEnd (cs : List Char) : trimStart (trimEnd cs) = trim cs := by
  induction cs with
  | nil => rfl
  | cons c cs ih =>
    rw [trimEnd_cons]
    by_cases hblank : isBlank c = true
    · rw [trim_cons_of_blank hblank, ← ih]
      split
      · next hnone => rw [hnone.2]
      · rw [trimStart_cons_of_blank hblank]
    · have hplain := Bool.eq_false_iff.2 hblank
      rw [if_neg fun h => hblank h.1, trim, trimStart_cons_of_not_blank hplain,
        trimStart_cons_of_not_blank hplain, trimEnd_cons, if_neg fun h => hblank h.1]

theorem trimStart_append (h : trimStart cs ≠ []) (ds : List Char) :
    trimStart (cs ++ ds) = trimStart cs ++ ds := by
  rw [trimStart, List.dropWhile_append, if_neg (by simpa [trimStart] using h), trimStart]

theorem trimStart_append_of_eq_nil (h : trimStart cs = []) (ds : List Char) :
    trimStart (cs ++ ds) = trimStart ds := by
  rw [trimStart, List.dropWhile_append, if_pos (by simpa [trimStart] using h), trimStart]

/-- Trimming at the start leaves the end as it is, but for blanks. -/
theorem getLast?_trimStart_eq_some_iff (h : isBlank c = false) (cs : List Char) :
    (trimStart cs).getLast? = some c ↔ cs.getLast? = some c := by
  induction cs with
  | nil => rfl
  | cons d cs ih =>
    by_cases hblank : isBlank d = true
    · rw [trimStart_cons_of_blank hblank, ih]
      cases cs with
      | nil =>
        have hother : d ≠ c := by
          rintro rfl
          rw [hblank] at h
          cases h
        simp [hother]
      | cons e cs => rw [List.getLast?_cons_cons]
    · rw [trimStart_cons_of_not_blank (Bool.eq_false_iff.2 hblank)]

theorem trimEnd_append_spaces (cs : List Char) (n : Nat) :
    trimEnd (cs ++ List.replicate n ' ') = trimEnd cs := by
  induction n with
  | zero => rw [List.replicate_zero, List.append_nil]
  | succ n ih =>
    rw [List.replicate_succ', ← List.append_assoc, trimEnd_concat_of_blank (by decide), ih]

/-- What is trimmed from the end of a text are blanks. -/
theorem exists_blanks_of_trimEnd (cs : List Char) :
    ∃ blanks, (∀ c ∈ blanks, isBlank c = true) ∧ cs = trimEnd cs ++ blanks := by
  refine ⟨(cs.reverse.takeWhile isBlank).reverse, fun c hc => ?_, ?_⟩
  · exact List.all_eq_true.1 List.all_takeWhile c (List.mem_reverse.1 hc)
  · rw [trimEnd, ← List.reverse_append, List.takeWhile_append_dropWhile, List.reverse_reverse]

end Text

namespace Dn

open Text (isBlank trim trimStart trimEnd)

variable {separator c : Char} {cs ds w : List Char}

/-! ## Dropping spaces -/

theorem openEnd_trimStart (cs : List Char) : openEnd (trimStart cs) = openEnd cs := by
  induction cs with
  | nil => rfl
  | cons c cs ih =>
    by_cases hblank : isBlank c = true
    · have hplain : c ≠ '\\' := by
        rintro rfl
        exact absurd hblank (by decide)
      rw [Text.trimStart_cons_of_blank hblank, ih, openEnd_plain hplain]
    · rw [Text.trimStart_cons_of_not_blank (Bool.eq_false_iff.2 hblank)]

/-- A space at the end is dropped unless a backslash is in front of it. -/
theorem dropTrailingSpaces_concat_space (cs : List Char) :
    dropTrailingSpaces (cs ++ [' ']) =
      if cs.getLast? = some '\\' then cs ++ [' '] else dropTrailingSpaces cs := by
  rw [dropTrailingSpaces, List.reverse_concat, dropSpaces_cons, List.head?_reverse]
  split <;> simp_all [dropTrailingSpaces]

theorem dropTrailingSpaces_append_spaces (h : cs.getLast? ≠ some '\\') (n : Nat) :
    dropTrailingSpaces (cs ++ List.replicate n ' ') = dropTrailingSpaces cs := by
  induction n generalizing cs with
  | zero => rw [List.replicate_zero, List.append_nil]
  | succ n ih =>
    rw [List.replicate_succ, List.append_cons, ih (by simp), dropTrailingSpaces_concat_space,
      if_neg h]

/-- Of the spaces behind a backslash one is kept. -/
theorem dropTrailingSpaces_append_of_backslash (h : cs.getLast? = some '\\') (n : Nat) :
    dropTrailingSpaces (cs ++ List.replicate (n + 1) ' ') = cs ++ [' '] := by
  rw [List.replicate_succ, List.append_cons, dropTrailingSpaces_append_spaces (by simp),
    dropTrailingSpaces_concat_space, if_pos h]

theorem dropTrailingSpaces_trimEnd (cs : List Char) :
    dropTrailingSpaces (trimEnd cs) = trimEnd cs := by
  rcases List.eq_nil_or_concat (trimEnd cs) with hnone | ⟨front, c, hlast⟩
  · rw [hnone]
    rfl
  · rw [List.concat_eq_append] at hlast
    have hplain : isBlank c = false :=
      Text.not_blank_of_getLast?_trimEnd (by rw [hlast, List.getLast?_concat])
    rw [hlast, dropTrailingSpaces_concat]
    rintro rfl
    exact absurd hplain (by decide)

/-- Dropping spaces may leave blanks at the end, but it takes nothing else. -/
theorem exists_blanks_of_dropTrailingSpaces (cs : List Char) :
    ∃ blanks, (∀ c ∈ blanks, isBlank c = true) ∧ dropTrailingSpaces cs = trimEnd cs ++ blanks := by
  induction cs using List.reverseRecOn with
  | nil => exact ⟨[], nofun, rfl⟩
  | append_singleton cs c ih =>
    by_cases hdrop : c = ' ' ∧ cs.getLast? ≠ some '\\'
    · obtain ⟨rfl, hlast⟩ := hdrop
      rwa [dropTrailingSpaces_concat_space, if_neg hlast, Text.trimEnd_concat_of_blank (by decide)]
    · have hkept : dropTrailingSpaces (cs ++ [c]) = cs ++ [c] := by
        by_cases hspace : c = ' '
        · subst hspace
          rw [dropTrailingSpaces_concat_space, if_pos (by simpa using hdrop)]
        · exact dropTrailingSpaces_concat hspace
      rw [hkept]
      exact Text.exists_blanks_of_trimEnd (cs ++ [c])

/-! ## Values -/

/-- At the end of a name a value is read from the text without any blanks around it. -/
theorem toOption_parseValue_trimEnd (w : List Char) :
    (parseValue (trimEnd w)).toOption = readEscaped (trim w) := by
  rw [toOption_parseValue, Text.trimStart_trimEnd, trim, dropTrailingSpaces_trimEnd]

/-- Behind a text that does not end with a backslash no space counts. -/
theorem parseValue_append_spaces (h : w.getLast? ≠ some '\\') (n : Nat) :
    parseValue (w ++ List.replicate n ' ') = parseValue w := by
  have hdropped : dropTrailingSpaces (trimStart (w ++ List.replicate n ' ')) =
      dropTrailingSpaces (trimStart w) := by
    by_cases hnone : trimStart w = []
    · have hspaces : trimStart (List.replicate n ' ') = [] := by
        simp [trimStart, show isBlank ' ' = true by decide]
      rw [Text.trimStart_append_of_eq_nil hnone, hspaces, hnone]
    · rw [Text.trimStart_append hnone, dropTrailingSpaces_append_spaces]
      rwa [ne_eq, Text.getLast?_trimStart_eq_some_iff (by decide)]
  rw [parseValue, parseValue, hdropped]

/-- Behind a text that ends with a backslash one of any number of spaces is part of the value. -/
theorem toOption_parseValue_append_of_backslash (hopen : openEnd w = false)
    (h : w.getLast? = some '\\') (n : Nat) :
    (parseValue (w ++ List.replicate (n + 1) ' ')).toOption =
      (parseValue w).toOption.map (· ++ " ") := by
  -- The backslash may be the second half of an escape: only its being there makes a space stay.
  have hlast : (trimStart w).getLast? = some '\\' :=
    (Text.getLast?_trimStart_eq_some_iff (by decide) w).2 h
  have hsome : trimStart w ≠ [] := fun hnone => by simp [hnone] at hlast
  have hkept : dropTrailingSpaces (trimStart w) = trimStart w := by
    obtain ⟨front, hfront⟩ := List.getLast?_eq_some_iff.1 hlast
    rw [hfront, dropTrailingSpaces_concat (by decide)]
  rw [toOption_parseValue, toOption_parseValue, Text.trimStart_append hsome,
    dropTrailingSpaces_append_of_backslash hlast, hkept]
  refine Option.ext fun value => ?_
  rw [readEscaped_append_blanks ((openEnd_trimStart w).trans hopen) (List.forall_mem_singleton.2 (by decide)),
    Option.map_eq_some_iff]
  exact exists_congr fun front => and_congr_right' eq_comm

/-- Spaces behind a text without an open escape count exactly if it ends with a backslash. -/
theorem toOption_parseValue_append_spaces_iff (hopen : openEnd w = false) (n : Nat) :
    (parseValue (w ++ List.replicate n ' ')).toOption = (parseValue w).toOption ↔
      n = 0 ∨ w.getLast? ≠ some '\\' ∨ (parseValue w).toOption = none := by
  by_cases hlast : w.getLast? = some '\\'
  · cases n with
    | zero => simp
    | succ n =>
      rw [toOption_parseValue_append_of_backslash hopen hlast]
      cases (parseValue w).toOption with
      | none => simp
      | some value => simp [hlast, ← String.toList_inj]
  · rw [parseValue_append_spaces hlast]
    exact iff_of_true rfl (.inr (.inl hlast))

/-- A space behind an open escape is read at the end of the value, unless it is trimmed: then
nothing can be read. -/
theorem toOption_parseValue_concat_space (hopen : openEnd w = true) :
    (∀ value, (parseValue (w ++ [' '])).toOption = some value → ∃ front, value = front ++ " ") ∧
      (parseValue (trimEnd (w ++ [' ']))).toOption = none := by
  have hstart : openEnd (trimStart w) = true := (openEnd_trimStart w).trans hopen
  obtain ⟨front, hfront, -⟩ := exists_of_openEnd hstart
  have hlast : (trimStart w).getLast? = some '\\' := by rw [hfront, List.getLast?_concat]
  have hsome : trimStart w ≠ [] := fun hnone => by simp [hnone] at hlast
  constructor
  · intro value hread
    rw [toOption_parseValue, Text.trimStart_append hsome, dropTrailingSpaces_concat_space,
      if_pos hlast] at hread
    exact readEscaped_concat_space hstart hread
  · rw [toOption_parseValue_trimEnd, trim, Text.trimStart_append hsome,
      Text.trimEnd_concat_of_blank (by decide), hfront,
      Text.trimEnd_concat_of_not_blank (by decide), ← hfront, readEscaped_of_openEnd hstart]

/-- A value that can be read can be read without blanks around its text, unless an escape is open
there, and is the same value if only spaces are trimmed that are dropped anyway. -/
theorem toOption_parseValue_trimEnd_iff {value : String}
    (h : (parseValue w).toOption = some value) :
    ((parseValue (trimEnd w)).toOption.isSome = true ↔ openEnd (trim w) = false) ∧
      ((parseValue (trimEnd w)).toOption = some value ↔
        trim w = dropTrailingSpaces (trimStart w)) := by
  -- The two texts differ in some blanks at the end, which would be read as part of the value.
  obtain ⟨blanks, hblanks, hdropped⟩ := exists_blanks_of_dropTrailingSpaces (trimStart w)
  rw [toOption_parseValue, hdropped, ← trim] at h
  rw [toOption_parseValue_trimEnd, hdropped, ← trim]
  cases hopen : openEnd (trim w) with
  | true =>
    rw [readEscaped_of_openEnd hopen]
    refine ⟨by simp, by simp, fun heq => ?_⟩
    rw [← heq, readEscaped_of_openEnd hopen] at h
    cases h
  | false =>
    obtain ⟨front, hfront, rfl⟩ := (readEscaped_append_blanks hopen hblanks).1 h
    rw [hfront]
    refine ⟨by simp, ?_⟩
    rw [Option.some_inj, ← String.toList_inj, String.toList_append, String.toList_ofList,
      List.self_eq_append_right, List.self_eq_append_right]

/-! ## Reading relative name by relative name -/

/-- A text falls at its commas into the texts of some relative names. -/
def ReadsRdns (cs : List Char) (rdns : List Rdn) : Prop :=
  List.Forall₂ (fun piece r => parseRdn piece = .ok r) (splitUnescaped ',' cs) rdns

variable {rdns : List Rdn} {r : Rdn}

theorem splitUnescaped_cons_of_blank (hblank : isBlank c = true) (hseparator : separator ∈ specials)
    (cs : List Char) :
    splitUnescaped separator (c :: cs) = (splitUnescaped separator cs).modifyHead (c :: ·) := by
  have hspecial {d : Char} (hd : d ∈ specials) : c ≠ d := by
    rintro rfl
    rw [not_blank_of_special hd] at hblank
    cases hblank
  rw [splitUnescaped_plain (hspecial (by decide)), if_neg (hspecial hseparator)]

/-- Blanks in front of a type do not count. -/
theorem parseAva_cons_of_blank (hblank : isBlank c = true) (cs : List Char) :
    parseAva (c :: cs) = parseAva cs := by
  have hother : (c != '=') = true := by
    rw [bne_iff_ne]
    rintro rfl
    exact absurd hblank (by decide)
  rw [parseAva, parseAva, List.dropWhile_cons, if_pos hother, List.takeWhile_cons, if_pos hother,
    Text.trim_cons_of_blank hblank]

theorem parseRdn_eq_ok_iff :
    parseRdn cs = .ok r ↔ (splitUnescaped '+' cs).mapM parseAva = .ok r.avas := by
  obtain ⟨avas⟩ := r
  rw [parseRdn]
  cases (splitUnescaped '+' cs).mapM parseAva <;> simp

theorem parseRdn_cons_of_blank (hblank : isBlank c = true) (cs : List Char) :
    parseRdn (c :: cs) = .ok r ↔ parseRdn cs = .ok r := by
  rw [parseRdn_eq_ok_iff, parseRdn_eq_ok_iff, splitUnescaped_cons_of_blank hblank (by decide)]
  cases hcut : splitUnescaped '+' cs with
  | nil => exact absurd hcut (splitUnescaped_ne_nil '+' cs)
  | cons first rest =>
    rw [List.modifyHead_cons, List.mapM_cons, List.mapM_cons, parseAva_cons_of_blank hblank]

/-- Blanks in front of a text do not count. -/
theorem readsRdns_trimStart (cs : List Char) :
    ReadsRdns (trimStart cs) rdns ↔ ReadsRdns cs rdns := by
  induction cs with
  | nil => rfl
  | cons c cs ih =>
    by_cases hblank : isBlank c = true
    · rw [Text.trimStart_cons_of_blank hblank, ih, ReadsRdns, ReadsRdns,
        splitUnescaped_cons_of_blank hblank (by decide)]
      cases hcut : splitUnescaped ',' cs with
      | nil => exact absurd hcut (splitUnescaped_ne_nil ',' cs)
      | cons first rest =>
        simp only [List.modifyHead_cons, List.forall₂_cons_left_iff, parseRdn_cons_of_blank hblank]
    · rw [Text.trimStart_cons_of_not_blank (Bool.eq_false_iff.2 hblank)]

theorem parseRdn_of_blanks (hblank : cs.all isBlank = true) : parseRdn cs ≠ .ok r := by
  induction cs with
  | nil => exact nofun
  | cons c cs ih =>
    rw [List.all_cons, Bool.and_eq_true] at hblank
    rw [ne_eq, parseRdn_cons_of_blank hblank.1]
    exact ih hblank.2

/-- A name below the root is read relative name by relative name. -/
theorem parse_eq_ok_iff {s : String} {d : Dn} (hd : d.isRoot = false) :
    parse s = .ok d ↔ ReadsRdns (trimEnd s.toList) d.rdns := by
  obtain ⟨rdns⟩ := d
  have hpiece (piece : List Char) (r : Rdn) :
      (if piece.all isBlank = true then throw ⟨s, .emptyRdn⟩ else parseRdn piece) = .ok r ↔
        parseRdn piece = .ok r := by
    split
    · next hblank => exact iff_of_false nofun (parseRdn_of_blanks hblank)
    · rfl
  have hread (read : Except ParseError (List Rdn)) :
      (read >>= fun rdns => pure (⟨rdns⟩ : Dn)) = .ok ⟨rdns⟩ ↔ read = .ok rdns := by
    cases read with
    | error e => exact iff_of_false nofun nofun
    | ok read => simp [bind, Except.bind, pure, Except.pure]
  rw [← readsRdns_trimStart, Text.trimStart_trimEnd, parse]
  dsimp only
  by_cases hnone : trim s.toList = []
  · rw [hnone, if_pos List.isEmpty_nil]
    refine iff_of_false (fun h => ?_) (fun h => ?_)
    · cases h
      cases hd
    · obtain ⟨r, rest, hr, -⟩ := List.forall₂_cons_left_iff.1 h
      exact absurd hr (parseRdn_of_blanks rfl)
  · rw [if_neg (by simpa using hnone), hread, mapM_eq_ok_iff, ReadsRdns]
    simp only [hpiece]

/-- A whole text in front of a comma is read as the first relative name. -/
theorem readsRdns_append (hcs : Whole ',' cs) (ds : List Char) :
    ReadsRdns (cs ++ ',' :: ds) rdns ↔
      ∃ r above, parseRdn cs = .ok r ∧ ReadsRdns ds above ∧ rdns = r :: above := by
  rw [ReadsRdns, hcs, splitUnescaped_plain (by decide), if_pos rfl, List.modifyHead_cons,
    List.append_nil, List.forall₂_cons_left_iff]
  rfl

/-- A text without separators is read as one relative name. -/
theorem readsRdns_of_unsplit (h : Unsplit ',' cs) :
    ReadsRdns cs rdns ↔ ∃ r, parseRdn cs = .ok r ∧ rdns = [r] := by
  rw [ReadsRdns, h.split, List.forall₂_cons_left_iff]
  simp

/-- Texts in front of others are read apart from those. -/
theorem readsRdns_intercalate {lead : List (List Char)} (hlead : ∀ piece ∈ lead, Whole ',' piece)
    (cs : List Char) :
    ReadsRdns (trimEnd ([','].intercalate (lead ++ [cs]))) rdns ↔
      ∃ front above, List.Forall₂ (fun piece r => parseRdn piece = .ok r) lead front ∧
        ReadsRdns (trimEnd cs) above ∧ rdns = front ++ above := by
  induction lead generalizing rdns with
  | nil => simp
  | cons piece lead ih =>
    rw [List.forall_mem_cons] at hlead
    obtain ⟨next, more, hmore⟩ := List.exists_cons_of_ne_nil (l := lead ++ [cs]) (by simp)
    rw [List.cons_append, hmore, List.intercalate_cons_cons, List.append_assoc,
      List.singleton_append, Text.trimEnd_append_cons (by decide), readsRdns_append hlead.1,
      ← hmore]
    simp only [ih hlead.2, List.forall₂_cons_left_iff]
    constructor
    · rintro ⟨r, _, hr, ⟨front, above, hfront, habove, rfl⟩, rfl⟩
      exact ⟨r :: front, above, ⟨r, front, hr, hfront, rfl⟩, habove, rfl⟩
    · rintro ⟨_, above, ⟨r, front, hr, hfront, rfl⟩, habove, rfl⟩
      exact ⟨r, front ++ above, hr, ⟨front, above, hfront, habove, rfl⟩, rfl⟩

/-! ## Positions in a name -/

/-- The text of a value: no separator in it counts, and no escape is open at its end. -/
structure IsValueText (w : String) : Prop where
  comma : Unsplit ',' w.toList
  plus : Unsplit '+' w.toList
  closed : openEnd w.toList = false

/-- A text that is read as a relative name if others follow. -/
structure ReadsInFront (text : String) : Prop where
  whole : Whole ',' text.toList
  read : ∃ r, Rdn.parse text = .ok r

/-- A text with spaces behind it. -/
def spaced (w : String) (n : Nat) : String :=
  w ++ String.ofList (List.replicate n ' ')

/-- The relative name that a text starts with, read behind the texts of others. -/
def readBehind? (lead : List String) (text : String) : Option Rdn :=
  (parse (",".intercalate (lead ++ [text]))).toOption.bind fun d => d.rdns[lead.length]?

/-- What a value's text is read as in the last relative name. -/
def readLast? (lead : List String) (w : String) : Option Rdn :=
  readBehind? lead ("cn=" ++ w)

/-- What a value's text is read as in a relative name that others follow. -/
def readInFront? (lead : List String) (w next : String) : Option Rdn :=
  readBehind? lead ("cn=" ++ w ++ "," ++ next)

theorem toOption_eq_some_iff {α ε : Type} {x : Except ε α} {a : α} :
    x.toOption = some a ↔ x = .ok a := by
  cases x <;> simp [Except.toOption]

section Positions

variable {w next : String} {lead : List String} {above : Dn}

/-- A text is read behind others as it is read alone. -/
theorem readBehind?_eq_some_iff (hlead : ∀ text ∈ lead, ReadsInFront text) (text : String) :
    readBehind? lead text = some r ↔ ∃ rest, ReadsRdns (trimEnd text.toList) (r :: rest) := by
  have hwhole : ∀ piece ∈ lead.map String.toList, Whole ',' piece := by
    simpa using fun text htext => (hlead text htext).whole
  have htext : (",".intercalate (lead ++ [text])).toList =
      [','].intercalate (lead.map String.toList ++ [text.toList]) := by simp
  rw [readBehind?, Option.bind_eq_some_iff]
  constructor
  · rintro ⟨d, hd, hr⟩
    have hbelow : d.isRoot = false := by
      rw [isRoot, List.isEmpty_eq_false_iff]
      rintro hroot
      rw [hroot] at hr
      cases hr
    rw [toOption_eq_some_iff, parse_eq_ok_iff hbelow, htext, readsRdns_intercalate hwhole] at hd
    obtain ⟨front, rest, hfront, hrest, hrdns⟩ := hd
    have hlength : lead.length = front.length := by simpa using hfront.length_eq
    rw [hrdns, hlength, List.getElem?_append_right (Nat.le_refl _), Nat.sub_self] at hr
    obtain ⟨rest, rfl⟩ := List.head?_eq_some_iff.1 (List.head?_eq_getElem?.trans hr)
    exact ⟨rest, hrest⟩
  · -- In front of the text the relative names are the same, whatever the text is read as.
    rintro ⟨rest, hrest⟩
    obtain ⟨front, hfront⟩ : ∃ front, List.Forall₂ (fun piece r => parseRdn piece = .ok r)
        (lead.map String.toList) front := by
      have : Nonempty Rdn := ⟨r⟩
      choose! read hread using fun text htext => (hlead text htext).read
      refine ⟨lead.map read, ?_⟩
      rw [List.forall₂_map_left_iff, List.forall₂_map_right_iff, List.forall₂_same]
      exact hread
    have hlength : lead.length = front.length := by simpa using hfront.length_eq
    refine ⟨⟨front ++ r :: rest⟩, ?_, ?_⟩
    · rw [toOption_eq_some_iff, parse_eq_ok_iff (by simp [isRoot]), htext,
        readsRdns_intercalate hwhole]
      exact ⟨front, r :: rest, hfront, hrest, rfl⟩
    · rw [hlength, List.getElem?_append_right (Nat.le_refl _), Nat.sub_self]
      rfl

theorem Unsplit.cons_cn (h : Unsplit separator cs) (hseparator : separator ∈ [',', '+']) :
    Unsplit separator ('c' :: 'n' :: '=' :: cs) := by
  have hother {c : Char} (hc : c ∉ [',', '+']) : c ≠ separator := fun heq => hc (heq ▸ hseparator)
  exact .plain (by decide) (hother (by decide)) (.plain (by decide) (hother (by decide))
    (.plain (by decide) (hother (by decide)) h))

/-- The text of a value behind its type is read as a relative name of one pair. -/
theorem parseRdn_cn_eq_ok_iff (hplus : Unsplit '+' cs) :
    parseRdn ('c' :: 'n' :: '=' :: cs) = .ok r ↔
      (parseValue cs).toOption.map (Rdn.single "cn") = some r := by
  have hpair : parseAva ('c' :: 'n' :: '=' :: cs) = (parseValue cs).map (⟨"cn", ·⟩) :=
    rfl
  rw [parseRdn_eq_ok_iff, (hplus.cons_cn (by decide)).split, List.mapM_cons, hpair]
  obtain ⟨avas⟩ := r
  cases hvalue : parseValue cs with
  | error e => simp [Except.map, Except.toOption]
  | ok value => simp [Except.map, Except.toOption, Rdn.single]

theorem toList_cn (w : String) : ("cn=" ++ w).toList = 'c' :: 'n' :: '=' :: w.toList := by
  rw [String.toList_append]
  rfl

theorem toList_spaced (w : String) (n : Nat) :
    (spaced w n).toList = w.toList ++ List.replicate n ' ' := by
  rw [spaced, String.toList_append, String.toList_ofList]

/-- Spaces behind the text of a value leave it the text of a value. -/
theorem IsValueText.spaced (hw : IsValueText w) (n : Nat) : IsValueText (spaced w n) := by
  have hspaces {separator : Char} (hseparator : ' ' ≠ separator) :
      Unsplit separator (List.replicate n ' ') := by
    induction n with
    | zero => exact .nil
    | succ n ih => exact .plain (by decide) hseparator ih
  refine ⟨?_, ?_, ?_⟩
  · rw [toList_spaced]
    exact hw.comma.append hw.closed (hspaces (by decide))
  · rw [toList_spaced]
    exact hw.plus.append hw.closed (hspaces (by decide))
  · rw [toList_spaced]
    cases n with
    | zero => rw [List.replicate_zero, List.append_nil, hw.closed]
    | succ n => rw [List.replicate_succ', ← List.append_assoc, openEnd_concat_of_ne (by decide)]

theorem IsValueText.toOption_parse (hw : IsValueText w) :
    (Rdn.parse ("cn=" ++ w)).toOption = (parseValue w.toList).toOption.map (Rdn.single "cn") := by
  refine Option.ext fun r => ?_
  rw [toOption_eq_some_iff, ← parseRdn_cn_eq_ok_iff hw.plus, Rdn.parse, toList_cn]

/-- At the end of a name the text of a value counts without the blanks behind it. -/
theorem IsValueText.readLast?_eq (hw : IsValueText w)
    (hlead : ∀ text ∈ lead, ReadsInFront text) :
    readLast? lead w = (parseValue (trimEnd w.toList)).toOption.map (Rdn.single "cn") := by
  have hprefix := Text.trimEnd_isPrefix w.toList
  have htext : trimEnd ("cn=" ++ w).toList = 'c' :: 'n' :: '=' :: trimEnd w.toList := by
    rw [toList_cn]
    exact Text.trimEnd_append_cons (by decide) ['c', 'n'] w.toList
  refine Option.ext fun r => ?_
  rw [readLast?, readBehind?_eq_some_iff hlead, htext,
    ← parseRdn_cn_eq_ok_iff (hw.plus.of_prefix hprefix)]
  simp [readsRdns_of_unsplit ((hw.comma.of_prefix hprefix).cons_cn (by decide))]

/-- In front of others a relative name is read as it is read alone. -/
theorem IsValueText.readInFront?_eq (hw : IsValueText w)
    (hlead : ∀ text ∈ lead, ReadsInFront text) (hnext : parse next = .ok above)
    (habove : above.isRoot = false) :
    readInFront? lead w next = (Rdn.parse ("cn=" ++ w)).toOption := by
  have hwhole : Whole ',' ("cn=" ++ w).toList := by
    rw [toList_cn]
    refine (hw.comma.cons_cn (by decide)).whole_of_closed ?_
    rw [openEnd_plain (by decide), openEnd_plain (by decide), openEnd_plain (by decide), hw.closed]
  have htext : trimEnd ("cn=" ++ w ++ "," ++ next).toList =
      ("cn=" ++ w).toList ++ ',' :: trimEnd next.toList := by
    rw [String.toList_append, String.toList_append, List.append_assoc]
    exact Text.trimEnd_append_cons (by decide) _ _
  rw [parse_eq_ok_iff habove] at hnext
  refine Option.ext fun r => ?_
  rw [readInFront?, readBehind?_eq_some_iff hlead, htext, toOption_eq_some_iff]
  simp only [readsRdns_append hwhole]
  constructor
  · rintro ⟨rest, s, above, hs, -, heq⟩
    cases heq
    exact hs
  · exact fun hr => ⟨above.rdns, r, above.rdns, hr, hnext, rfl⟩

theorem single_injective (type : String) : Function.Injective (Rdn.single type) := by
  intro v w h
  simpa [Rdn.single] using h

/-- **Spaces at the end of a relative name**, where no separator in the text of its value counts and
no escape is open at its end. In front of others a relative name is read as it is read alone.

* In the last relative name no spaces behind the text count. In front of others they do not count
  either, unless the text ends with a backslash: then one of them is taken for part of the value.
* A space behind an odd number of backslashes ends the value if others follow; in the last relative
  name it is trimmed, and nothing can be read.
* What can be read in front of others can be read in the last relative name unless an escape is open
  once the text is trimmed, and it is the same if the trimming takes only what is dropped anyway. -/
theorem read_trailing_spaces {w next : String} {lead lead' : List String} {above : Dn}
    (hw : IsValueText w) (hlead : ∀ text ∈ lead, ReadsInFront text)
    (hlead' : ∀ text ∈ lead', ReadsInFront text) (hnext : parse next = .ok above)
    (habove : above.isRoot = false) :
    readInFront? lead w next = (Rdn.parse ("cn=" ++ w)).toOption ∧
    (∀ n, readLast? lead' (spaced w n) = readLast? lead' w) ∧
    (∀ n, readInFront? lead (spaced w n) next = readInFront? lead w next ↔
      n = 0 ∨ w.toList.getLast? ≠ some '\\' ∨ readInFront? lead w next = none) ∧
    (∀ front, w.toList = front ++ [' '] → openEnd front = true →
      (∀ r, readInFront? lead w next = some r → ∃ value, r = .single "cn" (value ++ " ")) ∧
      readLast? lead' w = none) ∧
    (∀ r, readInFront? lead w next = some r →
      ((readLast? lead' w).isSome = true ↔ openEnd (trim w.toList) = false) ∧
      (readLast? lead' w = some r ↔
        trim w.toList = dropTrailingSpaces (trimStart w.toList))) := by
  have hfront {v : String} (hv : IsValueText v) :
      readInFront? lead v next = (parseValue v.toList).toOption.map (Rdn.single "cn") :=
    (hv.readInFront?_eq hlead hnext habove).trans hv.toOption_parse
  refine ⟨hw.readInFront?_eq hlead hnext habove, fun n => ?_, fun n => ?_, ?_, ?_⟩
  · rw [(hw.spaced n).readLast?_eq hlead', hw.readLast?_eq hlead', toList_spaced,
      Text.trimEnd_append_spaces]
  · rw [hfront (hw.spaced n), hfront hw, toList_spaced, Option.map_eq_none_iff,
      (Option.map_injective (single_injective "cn")).eq_iff]
    exact toOption_parseValue_append_spaces_iff hw.closed n
  · intro front hspace hopen
    obtain ⟨hends, hlost⟩ := toOption_parseValue_concat_space hopen
    rw [hfront hw, hw.readLast?_eq hlead', hspace, hlost]
    refine ⟨fun r hr => ?_, rfl⟩
    obtain ⟨value, hvalue, rfl⟩ := Option.map_eq_some_iff.1 hr
    obtain ⟨start, rfl⟩ := hends value hvalue
    exact ⟨start, rfl⟩
  · intro r hr
    rw [hfront hw] at hr
    obtain ⟨value, hvalue, rfl⟩ := Option.map_eq_some_iff.1 hr
    obtain ⟨haccepted, hequal⟩ := toOption_parseValue_trimEnd_iff hvalue
    rw [hw.readLast?_eq hlead', Option.isSome_map, ← Option.map_some,
      (Option.map_injective (single_injective "cn")).eq_iff]
    exact ⟨haccepted, hequal⟩

end Positions

end Dn

namespace Sample

/-- An escaped space at the end of a value is lost, and the name with it, where no relative name
follows. A space behind a value that ends with a backslash is taken for part of the value, though no
backslash escapes it. -/
theorem escaped_space_lost_at_end :
    Dn.readInFront? [] "a\\ " "dc=x" = some (.single "cn" "a ") ∧ Dn.readLast? [] "a\\ " = none ∧
    Dn.readInFront? [] "a\\\\" "dc=x" = some (.single "cn" "a\\") ∧
    Dn.readInFront? [] (Dn.spaced "a\\\\" 1) "dc=x" = some (.single "cn" "a\\ ") := by
  decide

/-- A value that ends with the code of a space is read with this space and without others behind it,
in front of another relative name and at the end. -/
theorem coded_space_read_at_end :
    Dn.readInFront? ["sn=b"] (Dn.spaced "a\\20" 2) "dc=x" = some (.single "cn" "a ") ∧
    Dn.readLast? ["sn=b"] (Dn.spaced "a\\20" 2) = some (.single "cn" "a ") := by
  have hchars : "a\\20".toList = ['a', '\\', '2', '0'] := by decide
  have hunsplit {separator : Char} (ha : 'a' ≠ separator) (hzero : '0' ≠ separator) :
      Dn.Unsplit separator "a\\20".toList := by
    rw [hchars]
    exact .plain (by decide) ha (.escaped '2' (.plain (by decide) hzero .nil))
  have htext : Dn.IsValueText "a\\20" :=
    ⟨hunsplit (by decide) (by decide), hunsplit (by decide) (by decide), by decide⟩
  have hlead : ∀ text ∈ ["sn=b"], Dn.ReadsInFront text := by
    simp only [List.mem_singleton, forall_eq]
    exact ⟨Dn.whole_of_not_mem (by simp) (by simp), .single "sn" "b", by decide⟩
  have hnext : Dn.parse "dc=x" = .ok ⟨[.single "dc" "x"]⟩ := by decide
  have hread : Dn.readInFront? ["sn=b"] "a\\20" "dc=x" = some (.single "cn" "a ") := by
    decide
  obtain ⟨-, hlast, hfront, -, hposition⟩ :=
    Dn.read_trailing_spaces htext hlead hlead hnext rfl
  refine ⟨((hfront 2).2 (.inr (.inl (by decide)))).trans hread, (hlast 2).trans ?_⟩
  exact (hposition _ hread).2.2 (by decide)

end Sample

end Roster
