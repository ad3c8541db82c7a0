import Roster.Proofs.ReadingBack

/-!
# Children's names read back

The name of a child is made of a relative name and the name it stands below. Its text reads as such a
name again, one level longer and with the type and the value it was made with
(`parse_child_text`), except for blanks other than the space at the ends of the value: they are
written as they stand (`unguarded`), and the reader drops those at the start of a value and those at
the end of the whole text, which is the end of the value below the root (`dropsBlank`).
-/

namespace Roster

namespace Dn

open Text (isBlank Starts)

/-! ## Blanks at the ends of a value -/

/-- A blank that is written as it stands, wherever it stands in a value. -/
def unguarded (c : Char) : Bool :=
  isBlank c && c != ' '

/-- The text of a value as the reader of a name meets it: at the end of the name without the blanks
that are dropped there. -/
def escapedAt (ending : Bool) (value : List Char) : List Char :=
  if ending then Text.trimEnd (escape value) else escape value

/-- Whether a value of a child's name comes back without a blank at one of its ends. -/
def dropsBlank (base : Dn) (value : String) : Bool :=
  value.toList.head?.any unguarded || base.isRoot && value.toList.getLast?.any unguarded

variable {c : Char} {cs value : List Char}

theorem escapeChar_of_unguarded (h : unguarded c = true) (first last : Bool) :
    escapeChar first last c = [c] := by
  obtain ⟨hblank, hspace⟩ : isBlank c = true ∧ c ≠ ' ' := by simpa [unguarded] using h
  have hspecial : c ∉ specials := fun hmem => by
    rw [not_blank_of_special hmem] at hblank
    cases hblank
  have hnul : c ≠ '\x00' := by
    rintro rfl
    exact absurd hblank (by decide)
  have hhash : c ≠ '#' := by
    rintro rfl
    exact absurd hblank (by decide)
  rw [escapeChar, if_neg hspecial, if_neg hnul, if_neg fun h => hspace h.1,
    if_neg fun h => hhash h.1]

/-- A character at an end of a value is written without a blank there, unless it is unguarded. -/
theorem escapeChar_not_blank (first last : Bool) (hend : first = true ∨ last = true)
    (h : unguarded c = false) :
    escapeChar first last c = [c] ∧ isBlank c = false ∨ ∃ middle final,
      escapeChar first last c = '\\' :: (middle ++ [final]) ∧ isBlank final = false := by
  rcases escapeChar_ends first last c with hplain | hescaped
  · refine .inl ⟨hplain, Bool.eq_false_iff.2 fun hblank => ?_⟩
    have hspace : c = ' ' := by simpa [unguarded, hblank] using h
    subst hspace
    rcases hend with rfl | rfl <;> simp [escapeChar, specials] at hplain
  · exact .inr hescaped

theorem trimStart_escape (h : value.head?.any unguarded = false) :
    Text.trimStart (escape value) = escape value := by
  cases value with
  | nil => rfl
  | cons c rest =>
    refine Starts.trimStart (Starts.append ?_ _)
    rcases escapeChar_not_blank true rest.isEmpty (.inl rfl) h with
      ⟨hplain, hblank⟩ | ⟨middle, final, hescaped, -⟩
    · exact ⟨c, [], hplain, hblank⟩
    · exact ⟨'\\', _, hescaped, by decide⟩

/-- The last character of a value is written as one at the end of it. -/
theorem exists_escape_concat (front : List Char) (c : Char) :
    ∃ written first, escape (front ++ [c]) = written ++ escapeChar first true c := by
  have hfrom (first : Bool) : ∃ written first',
      escapeFrom first (front ++ [c]) = written ++ escapeChar first' true c := by
    induction front generalizing first with
    | nil => exact ⟨[], first, by simp [escapeFrom]⟩
    | cons d front ih =>
      obtain ⟨written, first', hwritten⟩ := ih false
      refine ⟨escapeChar first (front ++ [c]).isEmpty d ++ written, first', ?_⟩
      rw [List.cons_append, escapeFrom, hwritten, List.append_assoc]
  exact hfrom true

theorem dropTrailingSpaces_concat (h : c ≠ ' ') :
    dropTrailingSpaces (cs ++ [c]) = cs ++ [c] := by
  rw [dropTrailingSpaces, List.reverse_concat, dropSpaces_cons, if_neg fun hc => h hc.1,
    List.reverse_cons, List.reverse_reverse]

theorem trimEnd_escape (h : value.getLast?.any unguarded = false) :
    Text.trimEnd (escape value) = escape value := by
  rcases List.eq_nil_or_concat value with rfl | ⟨front, c, rfl⟩
  · rfl
  · rw [List.concat_eq_append, List.getLast?_concat] at h
    obtain ⟨written, first, htext⟩ := exists_escape_concat front c
    rw [List.concat_eq_append, htext]
    rcases escapeChar_not_blank first true (.inr rfl) h with
      ⟨hplain, hblank⟩ | ⟨middle, final, hescaped, hfinal⟩
    · rw [hplain, Text.trimEnd_concat_of_not_blank hblank]
    · rw [hescaped, ← List.cons_append, ← List.append_assoc,
        Text.trimEnd_concat_of_not_blank hfinal]

/-- No space stands at the end of an escaped value, but one that is escaped. -/
theorem dropTrailingSpaces_escape (value : List Char) :
    dropTrailingSpaces (escape value) = escape value := by
  have hspace : isBlank ' ' = true := by decide
  rcases List.eq_nil_or_concat value with rfl | ⟨front, c, rfl⟩
  · rfl
  · obtain ⟨written, first, htext⟩ := exists_escape_concat front c
    rw [List.concat_eq_append, htext]
    rcases escapeChar_ends first true c with hplain | ⟨middle, final, hescaped, hfinal⟩
    · rw [hplain, dropTrailingSpaces_concat]
      rintro rfl
      simp [escapeChar, specials] at hplain
    · rw [hescaped, ← List.cons_append, ← List.append_assoc, dropTrailingSpaces_concat]
      rintro rfl
      rw [hspace] at hfinal
      cases hfinal

/-! ## What is read -/

/-- An unguarded blank at the start of a value is the start of what writes the value. -/
theorem Writes.head?_eq_some (h : Writes cs value) (hvalue : value.head? = some c)
    (hc : unguarded c = true) : cs.head? = some c := by
  cases h with
  | nil => cases hvalue
  | cons first last d hrest =>
    cases hvalue
    rw [escapeChar_of_unguarded hc]
    rfl

/-- An unguarded blank at the end of a value is the end of what writes the value. -/
theorem Writes.getLast?_eq_some (h : Writes cs value) (hvalue : value.getLast? = some c)
    (hc : unguarded c = true) : cs.getLast? = some c := by
  obtain ⟨front, rfl⟩ := List.getLast?_eq_some_iff.1 hvalue
  obtain ⟨written, first, last, rfl, -⟩ := h.of_concat
  rw [escapeChar_of_unguarded hc, List.getLast?_concat]

theorem dropTrailingSpaces_isPrefix (cs : List Char) : dropTrailingSpaces cs <+: cs := by
  have hsuffix (cs : List Char) : dropSpaces cs <:+ cs := by
    induction cs with
    | nil => exact List.suffix_refl []
    | cons c rest ih =>
      rw [dropSpaces_cons]
      split
      · exact ih.trans (List.suffix_cons c rest)
      · exact List.suffix_refl _
  simpa [dropTrailingSpaces] using List.reverse_prefix.2 (hsuffix cs.reverse)

/-- What is read as a value does not start with a blank that is written as it stands. -/
theorem not_blank_of_head? (h : (dropTrailingSpaces (Text.trimStart cs)).head? = some c) :
    isBlank c = false := by
  have hfirst : (Text.trimStart cs).head? = some c := by
    obtain ⟨rest, hrest⟩ := dropTrailingSpaces_isPrefix (Text.trimStart cs)
    rw [← hrest, List.head?_append, h]
    rfl
  have hplain := List.head?_dropWhile_not isBlank cs
  rw [Text.trimStart] at hfirst
  rwa [hfirst] at hplain

/-- At the end of a text, what is read as a value does not end with such a blank either. -/
theorem not_blank_of_getLast?
    (h : (dropTrailingSpaces (Text.trimStart (Text.trimEnd cs))).getLast? = some c) :
    isBlank c = false := by
  have hlast {d : Char} {rest : List Char} (hd : Text.trimStart (Text.trimEnd cs) = rest ++ [d]) :
      isBlank d = false := by
    obtain ⟨front, hfront⟩ := Text.trimStart_isSuffix (Text.trimEnd cs)
    have hend : (Text.trimEnd cs).getLast? = some d := by
      rw [← hfront, hd, ← List.append_assoc, List.getLast?_concat]
    exact Text.not_blank_of_getLast?_trimEnd hend
  rcases List.eq_nil_or_concat (Text.trimStart (Text.trimEnd cs)) with hnone | ⟨rest, d, hd⟩
  · rw [hnone] at h
    cases h
  · rw [List.concat_eq_append] at hd
    have hspace : d ≠ ' ' := by
      rintro rfl
      exact absurd (hlast hd) (by decide)
    rw [hd, dropTrailingSpaces_concat hspace, List.getLast?_concat] at h
    cases h
    exact hlast hd

theorem writesTrimmed_escapedAt (ending : Bool) (value : List Char) :
    WritesTrimmed (escapedAt ending value) value := by
  have hescape : WritesTrimmed (escape value) value := ⟨value, writes_escape value, rfl⟩
  cases ending with
  | false => exact hescape
  | true => exact hescape.trimEnd

/-- **A value is read back but for unguarded blanks**: those at its start, and at the end of a name
those at its end. -/
theorem parseValue_escapedAt (ending : Bool) (value : String) :
    ∃ read, parseValue (escapedAt ending value.toList) = .ok read ∧
      Text.trimmed read = Text.trimmed value ∧
      (read = value ↔ (value.toList.head?.any unguarded ||
        ending && value.toList.getLast?.any unguarded) = false) := by
  obtain ⟨written, hwritten, htrim⟩ :=
    (writesTrimmed_escapedAt ending value.toList).trimStart.dropTrailingSpaces
  refine ⟨String.ofList written, hwritten.parseValue, ?_, fun hread => ?_, fun hnone => ?_⟩
  · rw [Text.trimmed, Text.trimmed, String.toList_ofList, htrim]
  · -- An unguarded blank at an end would stand at that end of what the value is read from.
    have hvalue : written = value.toList := by rw [← hread, String.toList_ofList]
    rw [hvalue] at hwritten
    have hblank {c : Char} (hc : unguarded c = true) : ¬ isBlank c = false := by
      rw [(Bool.and_eq_true_iff.1 hc).1]
      decide
    have hstart : value.toList.head?.any unguarded = false := by
      refine Bool.eq_false_iff.2 fun hany => ?_
      obtain ⟨c, hfirst, hc⟩ := (Option.any_eq_true _ _).1 hany
      exact hblank hc (not_blank_of_head? (hwritten.head?_eq_some hfirst hc))
    rw [hstart, Bool.false_or]
    cases ending with
    | false => rfl
    | true =>
      refine Bool.eq_false_iff.2 fun hany => ?_
      obtain ⟨c, hlast, hc⟩ := (Option.any_eq_true _ _).1 hany
      exact hblank hc (not_blank_of_getLast? (hwritten.getLast?_eq_some hlast hc))
  · rw [Bool.or_eq_false_iff] at hnone
    have htext : escapedAt ending value.toList = escape value.toList := by
      cases ending with
      | false => rfl
      | true => exact trimEnd_escape hnone.2
    have hall : Writes (dropTrailingSpaces (Text.trimStart (escapedAt ending value.toList)))
        value.toList := by
      rw [htext, trimStart_escape hnone.1, dropTrailingSpaces_escape]
      exact writes_escape value.toList
    have hread := hwritten.parseValue.symm.trans hall.parseValue
    rw [Except.ok.inj hread, String.ofList_toList]

/-! ## Names of children -/

/-- A text without backslashes and separators is whole. -/
theorem whole_of_not_mem {separator : Char} (hplain : '\\' ∉ cs) (hother : separator ∉ cs) :
    Whole separator cs := by
  induction cs with
  | nil => exact whole_nil separator
  | cons c rest ih =>
    rw [List.mem_cons, not_or] at hplain hother
    exact (whole_plain (Ne.symm hplain.1) (Ne.symm hother.1)).append (ih hplain.2 hother.2)

end Dn

/-- A type without blanks around it and without characters that mean something in a name. -/
theorem Ava.tidy_of_plain {a : Ava} (hsome : a.type ≠ "") (htrim : Text.trimmed a.type = a.type)
    (hplain : ∀ c ∈ ['=', '+', ',', '\\'], c ∉ a.type.toList) : a.Tidy := by
  have hwhole {separator : Char} (hseparator : separator ∈ ['=', '+', ',', '\\'])
      (hequals : '=' ≠ separator) : Dn.Whole separator (a.type.toList ++ ['=']) :=
    (Dn.whole_of_not_mem (hplain '\\' (by decide)) (hplain separator hseparator)).append
      (Dn.whole_plain (by decide) hequals)
  refine ⟨⟨hplain '=' (by decide), hwhole (by decide) (by decide), hwhole (by decide) (by decide)⟩,
    fun hnone => hsome (String.toList_inj.1 hnone), ?_⟩
  have hchars := congrArg String.toList htrim
  rwa [Text.trimmed, String.toList_ofList] at hchars

theorem Rdn.toList_text_single (type value : String) :
    (Rdn.single type value).text.toList = type.toList ++ '=' :: Dn.escape value.toList := by
  rw [Rdn.toList_text, ← Ava.toList_text ⟨type, value⟩]
  simp [Rdn.single]

namespace Dn

open Text (Starts)

variable {base : Dn} {type value : String}

/-- The text of a child's name consists of the text of its leaf and texts of what is above it. -/
theorem exists_pieces_child (base : Dn) (hleaf : (⟨type, value⟩ : Ava).Tidy) :
    ∃ pieces, List.Forall₂ Rdn.Writes base.rdns pieces ∧
      Text.trim (base.child (.single type value)).text.toList = [','].intercalate
        ((type.toList ++ '=' :: escapedAt base.isRoot value.toList) :: pieces) := by
  have hstarts : Starts (type.toList ++ '=' :: escape value.toList) := by
    have hwrites := Ava.writes_text ⟨type, value⟩
    rw [Ava.toList_text] at hwrites
    exact hwrites.starts hleaf
  rw [toList_text, child, List.map_cons, Rdn.toList_text_single, Text.trim]
  cases hrdns : base.rdns with
  | nil =>
    refine ⟨[], .nil, ?_⟩
    rw [isRoot, hrdns, List.map_nil, List.intercalate_singleton, List.intercalate_singleton,
      hstarts.trimStart, Text.trimEnd_append_cons (by decide)]
    rfl
  | cons r rest =>
    obtain ⟨pieces, hpieces, hend⟩ := (writesName_text base).trimEnd
    rw [toList_text, hrdns] at hend
    rw [hrdns] at hpieces
    refine ⟨pieces, hpieces, ?_⟩
    obtain ⟨next, more, rfl⟩ := List.exists_cons_of_ne_nil
      (pieces_ne_nil hpieces (List.cons_ne_nil r rest))
    have hbelow : escapedAt base.isRoot value.toList = escape value.toList := by
      rw [isRoot, hrdns]
      rfl
    have hstart := (hstarts.append (',' :: [','].intercalate
      ((r :: rest).map fun r => r.text.toList))).trimStart
    rw [List.map_cons] at hend hstart ⊢
    rw [hbelow, List.intercalate_cons_cons, List.intercalate_cons_cons, ← hend,
      List.append_assoc _ [','], List.append_assoc _ [','], List.singleton_append,
      List.singleton_append, hstart, Text.trimEnd_append_cons (by decide)]

/-- **The text of a child's name reads as a name with the leaf it was made with**, one level below
the same name; its value comes back as it was unless it has an unguarded blank at an end. -/
theorem parse_child_text {s : String} (hbase : parse s = .ok base) (hsome : type ≠ "")
    (htrim : Text.trimmed type = type) (hplain : ∀ c ∈ ['=', '+', ',', '\\'], c ∉ type.toList)
    (value : String) :
    ∃ d above read, parse (base.child (.single type value)).text = .ok d ∧
      d.length = base.length + 1 ∧ d.leaf? = some (.single type read) ∧
      d.parent? = some above ∧ above.same base = true ∧
      Text.trimmed read = Text.trimmed value ∧
      (read = value ↔ base.dropsBlank value = false) := by
  have htidy := tidy_of_parse hbase
  have hleaf : (⟨type, value⟩ : Ava).Tidy := Ava.tidy_of_plain hsome htrim hplain
  obtain ⟨pieces, hpieces, htext⟩ := exists_pieces_child base hleaf
  obtain ⟨read, hread, htrimmed, hexact⟩ := parseValue_escapedAt base.isRoot value
  obtain ⟨rdns, hrdns, hbare⟩ := mapM_parseRdn_of_forall₂ hpieces htidy
  have hwrites : (⟨type, value⟩ : Ava).Writes
      (type.toList ++ '=' :: escapedAt base.isRoot value.toList) :=
    ⟨_, rfl, writesTrimmed_escapedAt base.isRoot value.toList⟩
  have hrdn : parseRdn (type.toList ++ '=' :: escapedAt base.isRoot value.toList) =
      .ok (.single type read) := by
    have hava := parseAva_of_type hleaf.type_ne_nil hleaf.trim_type hleaf.equals hread
    rw [String.ofList_toList] at hava
    have hone : [type.toList ++ '=' :: escapedAt base.isRoot value.toList].mapM parseAva =
        .ok [⟨type, read⟩] := by
      rw [List.mapM_cons, hava]
      rfl
    have hsingle := parseRdn_of_pieces (List.cons_ne_nil _ [])
      (by simpa using hwrites.whole hleaf (.inr rfl)) hone
    rwa [List.intercalate_singleton] at hsingle
  have hlength : rdns.length = base.length := by
    simpa [length] using congrArg List.length hbare
  refine ⟨⟨.single type read :: rdns⟩, ⟨rdns⟩, read, ?_, by simp [length, hlength], rfl, rfl,
    same_of_bare (congrArg Dn.mk hbare), htrimmed, hexact⟩
  refine parse_of_pieces htext (List.cons_ne_nil _ _) ?_ ?_ ?_
  · rw [List.forall_mem_cons]
    exact ⟨hwrites.starts hleaf,
      forall_mem_of_forall₂ hpieces fun r hr _ h => h.starts (htidy r hr)⟩
  · rw [List.forall_mem_cons]
    exact ⟨hwrites.whole hleaf (.inl rfl),
      forall_mem_of_forall₂ hpieces fun r hr _ h => h.whole (htidy r hr)⟩
  · rw [List.mapM_cons, hrdn, hrdns]
    rfl

end Dn

namespace Sample

/-- A tab in front of a value is not there any more when the child's name is read, nor is one behind
a value below the root. -/
theorem tabbed_child_loses_tab :
    Dn.parse (Dn.child ⟨[.single "dc" "x"]⟩ (.single "cn" "\tann")).text =
      .ok ⟨[.single "cn" "ann", .single "dc" "x"]⟩ ∧
    Dn.parse (Dn.root.child (.single "cn" "ann\t")).text = .ok ⟨[.single "cn" "ann"]⟩ := by
  decide +kernel

/-- A value between spaces, with a comma in front and a tab in the middle, is read as it was. -/
theorem comma_child_read :
    ∃ d above read,
      Dn.parse (Dn.child ⟨[.single "dc" "x"]⟩ (.single "cn" " ,a\tnn ")).text = .ok d ∧
      d.length = 2 ∧ d.leaf? = some (.single "cn" read) ∧ d.parent? = some above ∧
      above.same ⟨[.single "dc" "x"]⟩ = true ∧ read = " ,a\tnn " := by
  have hbase : Dn.parse "dc=x" = .ok ⟨[.single "dc" "x"]⟩ := by decide +kernel
  have hsome : "cn" ≠ "" := by decide
  have hplain : ∀ c ∈ ['=', '+', ',', '\\'], c ∉ "cn".toList := by simp
  obtain ⟨d, above, read, hread, hlength, hleaf, hparent, habove, -, hexact⟩ :=
    Dn.parse_child_text hbase hsome (by decide) hplain " ,a\tnn "
  exact ⟨d, above, read, hread, hlength, hleaf, hparent, habove, hexact.2 (by decide +kernel)⟩

end Sample

end Roster
