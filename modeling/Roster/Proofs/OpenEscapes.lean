import Roster.Proofs.ChildNames

/-!
# Escapes at the end of a text

An escape is open at the end of a text if an odd number of backslashes stands there (`openEnd`).
Then the text stands for no octets (`unescape_eq_none_iff`): the next character belongs to the escape.
What stands behind a text without an open escape is not touched by it: a separator there counts
(`Unsplit.whole_of_closed`), and blanks there are part of the value, behind what the text alone is
read as (`readEscaped_append_blanks`).
-/

namespace Roster

/-! ## Texts and their octets -/

namespace Text

/-- What stands in front of the octets of a text can be read if the whole can: the text starts at a
boundary between characters. -/
theorem exists_ofOctets?_of_append {bytes : List UInt8} {s t : String}
    (h : ofOctets? (bytes ++ octets t) = some s) : ∃ u, ofOctets? bytes = some u := by
  have hbytes : s.toByteArray = bytes.toByteArray ++ t.toByteArray := by
    rw [← toByteArray_octets, ← toByteArray_octets, octets_of_ofOctets? h,
      List.toByteArray_append]
  have hboundary : String.Pos.Raw.IsValid s ⟨bytes.length⟩ := by
    rw [String.Pos.Raw.isValid_iff_isUTF8FirstByte]
    by_cases hempty : t.toByteArray.size = 0
    · refine .inl (String.Pos.Raw.ext ?_)
      rw [String.byteIdx_rawEndPos, ← String.size_toByteArray, hbytes, ByteArray.size_append,
        hempty]
      simp
    · have hfirst : 0 < t.toByteArray.size := Nat.pos_of_ne_zero hempty
      have hinside : (⟨bytes.length⟩ : String.Pos.Raw) < s.rawEndPos := by
        rw [String.Pos.Raw.lt_iff, String.byteIdx_rawEndPos, ← String.size_toByteArray, hbytes,
          ByteArray.size_append, List.size_toByteArray]
        exact Nat.lt_add_of_pos_right hfirst
      refine .inr ⟨hinside, ?_⟩
      have hoctet : s.getUTF8Byte ⟨bytes.length⟩ hinside = t.toByteArray[0] := by
        simp only [String.getUTF8Byte, hbytes]
        rw [ByteArray.getElem_append_right (by simp)]
        simp
      rw [hoctet]
      exact t.isValidUTF8.isUTF8FirstByte_getElem_zero hfirst
  have hvalid := (String.Pos.Raw.isValid_iff_isValidUTF8_extract_zero.1 hboundary).2
  rw [hbytes, ByteArray.extract_append_eq_left (by simp)] at hvalid
  exact ⟨_, dif_pos hvalid⟩

/-- Octets in front of those of a text make up a text only together with a text of their own. -/
theorem ofOctets?_append_iff {bytes : List UInt8} {s t : String} :
    ofOctets? (bytes ++ octets t) = some s ↔ ∃ u, ofOctets? bytes = some u ∧ s = u ++ t := by
  constructor
  · intro h
    obtain ⟨u, hu⟩ := exists_ofOctets?_of_append h
    refine ⟨u, hu, Option.some.inj ?_⟩
    rw [← h, ← octets_of_ofOctets? hu, ← octets_append, ofOctets?_octets]
  · rintro ⟨u, hu, rfl⟩
    rw [← octets_of_ofOctets? hu, ← octets_append, ofOctets?_octets]

end Text

namespace Dn

/-! ## Open escapes -/

/-- Whether an odd number of backslashes stands at the end of a text. -/
def openEnd (cs : List Char) : Bool :=
  (cs.reverse.takeWhile (· == '\\')).length % 2 == 1

variable {separator c : Char} {cs ds : List Char}

/-- The backslashes at the end of a text reach its first character if all others are backslashes. -/
theorem length_takeWhile_reverse_cons (c : Char) (cs : List Char) :
    ((c :: cs).reverse.takeWhile (· == '\\')).length =
      if (cs.reverse.takeWhile (· == '\\')).length = cs.length then
        cs.length + if c = '\\' then 1 else 0
      else (cs.reverse.takeWhile (· == '\\')).length := by
  rw [List.reverse_cons, List.takeWhile_append, List.length_reverse]
  split
  · rw [List.length_append, List.length_reverse, List.takeWhile_cons]
    simp only [beq_iff_eq]
    split <;> rfl
  · rfl

@[simp] theorem openEnd_nil : openEnd [] = false :=
  rfl

theorem openEnd_plain (h : c ≠ '\\') (cs : List Char) : openEnd (c :: cs) = openEnd cs := by
  rw [openEnd, length_takeWhile_reverse_cons, if_neg h, openEnd, Nat.add_zero]
  split
  · next hall => rw [hall]
  · rfl

theorem openEnd_escaped (c : Char) (cs : List Char) : openEnd ('\\' :: c :: cs) = openEnd cs := by
  rw [openEnd, length_takeWhile_reverse_cons, length_takeWhile_reverse_cons, openEnd,
    List.length_cons, if_pos rfl]
  have hle := (List.takeWhile_prefix (· == '\\') (l := cs.reverse)).length_le
  rw [List.length_reverse] at hle
  generalize (cs.reverse.takeWhile (· == '\\')).length = n at hle ⊢
  grind

theorem openEnd_concat_of_ne (h : c ≠ '\\') (cs : List Char) : openEnd (cs ++ [c]) = false := by
  simp [openEnd, h]

theorem openEnd_concat_backslash (cs : List Char) : openEnd (cs ++ ['\\']) = !openEnd cs := by
  rw [openEnd, openEnd, List.reverse_concat, List.takeWhile_cons, if_pos (by decide),
    List.length_cons]
  grind

/-- The escape that is open at the end of a text is the last backslash. -/
theorem exists_of_openEnd (h : openEnd cs = true) :
    ∃ front, cs = front ++ ['\\'] ∧ openEnd front = false := by
  rcases List.eq_nil_or_concat cs with rfl | ⟨front, c, rfl⟩
  · cases h
  · rw [List.concat_eq_append] at h ⊢
    by_cases hc : c = '\\'
    · subst hc
      rw [openEnd_concat_backslash, Bool.not_eq_true'] at h
      exact ⟨front, rfl, h⟩
    · rw [openEnd_concat_of_ne hc] at h
      cases h

theorem hexDigit?_backslash : hexDigit? '\\' = none := by
  decide

/-- A hexadecimal digit is no backslash. -/
theorem ne_backslash_of_hexPair? {c d : Char} {b : UInt8} (h : hexPair? c d = some b) :
    d ≠ '\\' := by
  rintro rfl
  simp [hexPair?, hexDigit?_backslash] at h

/-- Without separators and an open escape a text is whole. -/
theorem Unsplit.whole_of_closed (h : Unsplit separator cs) (hopen : openEnd cs = false) :
    Whole separator cs := by
  induction h with
  | nil => exact whole_nil separator
  | dangling => cases hopen
  | escaped c _ ih =>
    rw [openEnd_escaped] at hopen
    exact (whole_escaped separator c).append (ih hopen)
  | plain hplain hother _ ih =>
    rw [openEnd_plain hplain] at hopen
    exact (whole_plain hplain hother).append (ih hopen)

theorem Unsplit.append (h : Unsplit separator cs) (hopen : openEnd cs = false)
    (hds : Unsplit separator ds) : Unsplit separator (cs ++ ds) := by
  induction h with
  | nil => exact hds
  | dangling => cases hopen
  | escaped c _ ih =>
    rw [openEnd_escaped] at hopen
    exact .escaped c (ih hopen)
  | plain hplain hother _ ih =>
    rw [openEnd_plain hplain] at hopen
    exact .plain hplain hother (ih hopen)

theorem Unsplit.split (h : Unsplit separator cs) : splitUnescaped separator cs = [cs] := by
  induction h with
  | nil => rfl
  | dangling => rfl
  | escaped c _ ih =>
    rw [splitUnescaped, ih]
    rfl
  | plain hplain hother _ ih =>
    rw [splitUnescaped_plain hplain, if_neg hother, ih]
    rfl

/-- A text stands for octets unless an escape is open at its end. -/
theorem unescape_eq_none_iff (cs : List Char) : unescape cs = none ↔ openEnd cs = true := by
  fun_induction unescape cs with
  | case1 => simp [openEnd]
  | case2 => simp [openEnd]
  | case3 c => simp [openEnd_escaped]
  | case4 c d rest b hpair ih =>
    rw [openEnd_escaped, openEnd_plain (ne_backslash_of_hexPair? hpair), ← ih,
      Option.map_eq_none_iff]
  | case5 c d rest hpair ih => rw [openEnd_escaped, ← ih, Option.map_eq_none_iff]
  | case6 c rest hnil hone hmore ih =>
    rw [openEnd_plain (ne_backslash_of_no_escape hnil hone hmore), ← ih, Option.map_eq_none_iff]

/-- What stands behind a text without an open escape is read apart from it, unless it starts with a
hexadecimal digit, which could belong to the last escape of the text. -/
theorem unescape_append (hopen : openEnd cs = false) (hds : ∀ d ∈ ds.head?, hexDigit? d = none) :
    unescape (cs ++ ds) = (unescape cs).bind fun front => (unescape ds).map (front ++ ·) := by
  have hstep (piece : List UInt8) (rest : List Char) :
      ((unescape rest).bind fun front => (unescape ds).map (front ++ ·)).map (piece ++ ·) =
        ((unescape rest).map (piece ++ ·)).bind fun front => (unescape ds).map (front ++ ·) := by
    cases unescape rest <;> cases unescape ds <;> simp
  fun_induction unescape cs with
  | case1 => simp
  | case2 => simp [openEnd] at hopen
  | case3 c =>
    cases ds with
    | nil => simp [unescape]
    | cons d rest =>
      have hpair : hexPair? c d = none := by simp [hexPair?, hds d rfl]
      simp [unescape, hpair]
  | case4 c d rest b hpair ih =>
    rw [openEnd_escaped, openEnd_plain (ne_backslash_of_hexPair? hpair)] at hopen
    have hread := unescape_octet hpair (rest ++ ds)
    rw [ih hopen] at hread
    exact hread.trans (hstep [b] rest)
  | case5 c d rest hpair ih =>
    rw [openEnd_escaped] at hopen
    have hread : unescape ('\\' :: c :: d :: (rest ++ ds)) =
        (unescape (d :: rest ++ ds)).map (String.utf8EncodeChar c ++ ·) := by
      simp [unescape, hpair]
    rw [ih hopen] at hread
    exact hread.trans (hstep (String.utf8EncodeChar c) (d :: rest))
  | case6 c rest hnil hone hmore ih =>
    have hplain := ne_backslash_of_no_escape hnil hone hmore
    rw [openEnd_plain hplain] at hopen
    rw [List.cons_append, unescape_plain hplain, ih hopen]
    exact hstep (String.utf8EncodeChar c) rest

theorem unescape_of_plain (h : '\\' ∉ cs) :
    unescape cs = some (Text.octets (String.ofList cs)) := by
  rw [Text.octets, String.toList_ofList]
  induction cs with
  | nil => rfl
  | cons c rest ih =>
    rw [List.mem_cons, not_or] at h
    rw [unescape_plain (Ne.symm h.1), ih h.2]
    rfl

/-! ## Values -/

/-- The value that a text stands for, all of whose characters count. -/
def readEscaped (cs : List Char) : Option String :=
  (unescape cs).bind Text.ofOctets?

theorem toOption_parseValue (cs : List Char) :
    (parseValue cs).toOption = readEscaped (dropTrailingSpaces (Text.trimStart cs)) := by
  rw [parseValue, readEscaped]
  cases unescape (dropTrailingSpaces (Text.trimStart cs)) with
  | none => rfl
  | some octets =>
    rw [Option.bind_some]
    dsimp only
    cases Text.ofOctets? octets <;> rfl

theorem readEscaped_of_openEnd (h : openEnd cs = true) : readEscaped cs = none := by
  rw [readEscaped, (unescape_eq_none_iff cs).2 h, Option.bind_none]

/-- What stands behind a text without an open escape is read behind the value of the text. -/
theorem readEscaped_append_eq_some_iff {value read : String} (hopen : openEnd cs = false)
    (hds : ∀ d ∈ ds.head?, hexDigit? d = none) (hread : unescape ds = some (Text.octets read)) :
    readEscaped (cs ++ ds) = some value ↔
      ∃ front, readEscaped cs = some front ∧ value = front ++ read := by
  obtain ⟨octets, hoctets⟩ : ∃ octets, unescape cs = some octets := by
    rw [← Option.ne_none_iff_exists', ne_eq, unescape_eq_none_iff, hopen]
    exact Bool.false_ne_true
  rw [readEscaped, readEscaped, unescape_append hopen hds, hoctets, hread]
  exact Text.ofOctets?_append_iff

/-- A blank is no hexadecimal digit. -/
theorem hexDigit?_of_blank (h : Text.isBlank c = true) : hexDigit? c = none := by
  simp only [Text.isBlank, Text.blankRanges, List.any_cons, List.any_nil, Bool.or_eq_true,
    Bool.and_eq_true, decide_eq_true_eq, Bool.false_eq_true, or_false] at h
  have hle (a b : Char) : a ≤ b ↔ a.toNat ≤ b.toNat := Iff.rfl
  have hdigits : '0'.toNat = 48 ∧ '9'.toNat = 57 ∧ 'a'.toNat = 97 ∧ 'f'.toNat = 102 ∧
      'A'.toNat = 65 ∧ 'F'.toNat = 70 := by decide
  rw [hexDigit?, if_neg, if_neg, if_neg] <;> rw [hle, hle] <;> omega

/-- Blanks behind a text without an open escape are part of the value. -/
theorem readEscaped_append_blanks {value : String} (hopen : openEnd cs = false)
    (hds : ∀ d ∈ ds, Text.isBlank d = true) :
    readEscaped (cs ++ ds) = some value ↔
      ∃ front, readEscaped cs = some front ∧ value = front ++ String.ofList ds := by
  refine readEscaped_append_eq_some_iff hopen (fun d hd => ?_) (unescape_of_plain fun hmem => ?_)
  · exact hexDigit?_of_blank (hds d (List.mem_of_mem_head? hd))
  · exact absurd (hds _ hmem) (by decide)

/-- A space behind an open escape closes it and ends the value. -/
theorem readEscaped_concat_space {value : String} (hopen : openEnd cs = true)
    (h : readEscaped (cs ++ [' ']) = some value) : ∃ front, value = front ++ " " := by
  obtain ⟨front, rfl, hfront⟩ := exists_of_openEnd hopen
  have hspace : unescape (['\\'] ++ [' ']) = some (Text.octets " ") := by decide
  rw [List.append_assoc, readEscaped_append_eq_some_iff hfront (by simp [hexDigit?_backslash])
    hspace] at h
  obtain ⟨read, -, hvalue⟩ := h
  exact ⟨read, hvalue⟩

end Dn

end Roster
