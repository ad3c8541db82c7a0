import Mathlib.Data.List.Forall2
import Mathlib.Data.List.Induction
import Roster.Proofs.NameTexts

/-!
# Reading names back

The text of a name reads as this name again (`parse_text`). It need not do so character by
character: white space at an end of a value is written as it stands, unless it is a space, and is
dropped again by the reader, with what stands at the end of the whole text. So a value comes back up
to blanks around it, which the key of a name does not count. What is read is described by the texts
that write a value, a pair, a relative name or a name; trimming leads from one such text to another.
-/

namespace Roster

namespace Text

/-! ## Trimming -/

variable {c : Char} {cs ds : List Char}

theorem trimStart_cons_of_not_blank (h : isBlank c = false) : trimStart (c :: cs) = c :: cs := by
  rw [trimStart, List.dropWhile_cons, if_neg (Bool.eq_false_iff.1 h)]

theorem trimStart_cons_of_blank (h : isBlank c = true) : trimStart (c :: cs) = trimStart cs := by
  rw [trimStart, List.dropWhile_cons, if_pos h]
  rfl

theorem trimEnd_concat_of_not_blank (h : isBlank c = false) : trimEnd (cs ++ [c]) = cs ++ [c] := by
  rw [trimEnd, List.reverse_concat, List.dropWhile_cons, if_neg (Bool.eq_false_iff.1 h),
    List.reverse_cons, List.reverse_reverse]

theorem trimEnd_concat_of_blank (h : isBlank c = true) : trimEnd (cs ++ [c]) = trimEnd cs := by
  rw [trimEnd, List.reverse_concat, List.dropWhile_cons, if_pos h]
  rfl

/-- What stands in front of a character that is not blank is out of reach from the end. -/
theorem trimEnd_append_cons (h : isBlank c = false) (cs ds : List Char) :
    trimEnd (cs ++ c :: ds) = cs ++ c :: trimEnd ds := by
  induction ds using List.reverseRecOn with
  | nil => exact trimEnd_concat_of_not_blank h
  | append_singleton ds d ih =>
    rw [← List.cons_append, ← List.append_assoc]
    by_cases hd : isBlank d = true
    · rw [trimEnd_concat_of_blank hd, trimEnd_concat_of_blank hd, ih]
    · rw [trimEnd_concat_of_not_blank (Bool.eq_false_iff.2 hd),
        trimEnd_concat_of_not_blank (Bool.eq_false_iff.2 hd), List.append_assoc, List.cons_append]

theorem trimEnd_trimEnd (cs : List Char) : trimEnd (trimEnd cs) = trimEnd cs := by
  induction cs using List.reverseRecOn with
  | nil => rfl
  | append_singleton cs c ih =>
    by_cases hc : isBlank c = true
    · rw [trimEnd_concat_of_blank hc, ih]
    · rw [trimEnd_concat_of_not_blank (Bool.eq_false_iff.2 hc),
        trimEnd_concat_of_not_blank (Bool.eq_false_iff.2 hc)]

theorem trim_cons_of_blank (h : isBlank c = true) : trim (c :: cs) = trim cs := by
  rw [trim, trimStart_cons_of_blank h, trim]

theorem trim_concat_of_blank (h : isBlank c = true) : trim (cs ++ [c]) = trim cs := by
  induction cs with
  | nil => simp [trim, trimStart, trimEnd, h]
  | cons d rest ih =>
    by_cases hd : isBlank d = true
    · rw [List.cons_append, trim_cons_of_blank hd, trim_cons_of_blank hd, ih]
    · have hplain := Bool.eq_false_iff.2 hd
      rw [trim, trim, List.cons_append, trimStart_cons_of_not_blank hplain,
        trimStart_cons_of_not_blank hplain, ← List.cons_append, trimEnd_concat_of_blank h]

/-- A text starts with a character that is not blank. -/
def Starts (cs : List Char) : Prop :=
  ∃ c rest, cs = c :: rest ∧ isBlank c = false

theorem Starts.trimStart (h : Starts cs) : trimStart cs = cs := by
  obtain ⟨c, rest, rfl, hplain⟩ := h
  exact trimStart_cons_of_not_blank hplain

theorem Starts.append (h : Starts cs) (ds : List Char) : Starts (cs ++ ds) := by
  obtain ⟨c, rest, rfl, hplain⟩ := h
  exact ⟨c, rest ++ ds, rfl, hplain⟩

/-- A text without blanks at its start is empty, or starts with another character. -/
theorem starts_trimStart (cs : List Char) :
    Text.trimStart cs = [] ∨ Starts (Text.trimStart cs) := by
  induction cs with
  | nil => exact .inl rfl
  | cons c rest ih =>
    by_cases hc : isBlank c = true
    · rw [trimStart_cons_of_blank hc]
      exact ih
    · rw [trimStart_cons_of_not_blank (Bool.eq_false_iff.2 hc)]
      exact .inr ⟨c, rest, rfl, Bool.eq_false_iff.2 hc⟩

/-- Trimming leaves nothing, or a text that starts with a character that is not blank. -/
theorem starts_trim (cs : List Char) : trim cs = [] ∨ Starts (trim cs) := by
  rcases starts_trimStart cs with hnone | ⟨c, rest, hrest, hplain⟩
  · exact .inl (by rw [trim, hnone]; rfl)
  · refine .inr ⟨c, trimEnd rest, ?_, hplain⟩
    rw [trim, hrest, ← List.nil_append (c :: rest), trimEnd_append_cons hplain, List.nil_append]

theorem trim_trim (cs : List Char) : trim (trim cs) = trim cs := by
  rcases starts_trim cs with hnone | hstarts
  · rw [hnone]
    rfl
  · rw [trim, hstarts.trimStart, trim, trimEnd_trimEnd]

/-- What trimming leaves does not end with a blank. -/
theorem not_blank_of_getLast?_trimEnd (h : (trimEnd cs).getLast? = some c) : isBlank c = false := by
  have hplain := List.head?_dropWhile_not isBlank cs.reverse
  rw [trimEnd, List.getLast?_reverse] at h
  rwa [h] at hplain

end Text

namespace Dn

open Text (isBlank trimEnd Starts)

/-! ## Texts that write values -/

namespace Writes

variable {c : Char} {cs value : List Char}

/-- The last character of a value is written last. -/
theorem of_concat (h : Writes cs (value ++ [c])) :
    ∃ front first last, cs = front ++ escapeChar first last c ∧ Writes front value := by
  induction value generalizing cs with
  | nil =>
    cases h with
    | cons first last _ hrest =>
      cases hrest
      exact ⟨[], first, last, by simp, .nil⟩
  | cons d value ih =>
    cases h with
    | cons first last _ hrest =>
      obtain ⟨front, first', last', rfl, hfront⟩ := ih hrest
      exact ⟨escapeChar first last d ++ front, first', last', by simp, .cons first last d hfront⟩

/-- A value is read from what writes it, once what the reader drops is gone. -/
theorem parseValue (h : Writes (dropTrailingSpaces (Text.trimStart cs)) value) :
    parseValue cs = .ok (String.ofList value) := by
  have hoctets : value.flatMap String.utf8EncodeChar = Text.octets (String.ofList value) := by
    rw [Text.octets, String.toList_ofList]
  rw [Dn.parseValue, h.unescape, hoctets]
  dsimp only
  rw [Text.ofOctets?_octets]

end Writes

theorem not_blank_of_special {c : Char} (h : c ∈ specials) : isBlank c = false := by
  have hspecials : specials.all (fun c => !isBlank c) = true := by decide
  simpa using List.all_eq_true.1 hspecials c h

/-- A character is written as it is, or behind a backslash and with an end that is not blank. -/
theorem escapeChar_ends (first last : Bool) (c : Char) :
    escapeChar first last c = [c] ∨ ∃ middle final,
      escapeChar first last c = '\\' :: (middle ++ [final]) ∧ isBlank final = false := by
  unfold escapeChar
  by_cases hspecial : c ∈ specials
  · rw [if_pos hspecial]
    exact .inr ⟨[], c, rfl, not_blank_of_special hspecial⟩
  by_cases hnul : c = '\x00'
  · rw [if_neg hspecial, if_pos hnul]
    exact .inr ⟨['0'], '0', rfl, by decide⟩
  by_cases hspace : c = ' ' ∧ (first ∨ last)
  · rw [if_neg hspecial, if_neg hnul, if_pos hspace]
    exact .inr ⟨['2'], '0', rfl, by decide⟩
  by_cases hhash : c = '#' ∧ first
  · rw [if_neg hspecial, if_neg hnul, if_neg hspace, if_pos hhash]
    exact .inr ⟨['2'], '3', rfl, by decide⟩
  · rw [if_neg hspecial, if_neg hnul, if_neg hspace, if_neg hhash]
    exact .inl rfl

/-- A text writes a value up to blanks around it. -/
def WritesTrimmed (cs value : List Char) : Prop :=
  ∃ written, Writes cs written ∧ Text.trim written = Text.trim value

namespace WritesTrimmed

variable {cs value : List Char}

/-- Blanks at the start belong to the value. -/
theorem trimStart (h : WritesTrimmed cs value) : WritesTrimmed (Text.trimStart cs) value := by
  obtain ⟨written, hwritten, htrim⟩ := h
  unfold WritesTrimmed
  rw [← htrim]
  clear htrim
  induction hwritten with
  | nil => exact ⟨[], .nil, rfl⟩
  | @cons first last c cs written hrest ih =>
    by_cases hblank : escapeChar first last c = [c] ∧ isBlank c = true
    · rw [hblank.1, List.singleton_append, Text.trimStart_cons_of_blank hblank.2,
        Text.trim_cons_of_blank hblank.2]
      exact ih
    · have hstarts : Starts (escapeChar first last c) := by
        rcases escapeChar_ends first last c with hplain | ⟨middle, final, hescaped, -⟩
        · exact ⟨c, [], hplain, Bool.eq_false_iff.2 fun hc => hblank ⟨hplain, hc⟩⟩
        · exact ⟨'\\', _, hescaped, by decide⟩
      rw [(hstarts.append cs).trimStart]
      exact ⟨c :: written, .cons first last c hrest, rfl⟩

/-- Whatever drops blanks from the end, one by one, leaves a text that writes the value. -/
theorem dropEnd {drop : List Char → List Char} (hnil : drop [] = [])
    (hdrop : ∀ front c, drop (front ++ [c]) = front ++ [c] ∨
      isBlank c = true ∧ drop (front ++ [c]) = drop front)
    (h : WritesTrimmed cs value) : WritesTrimmed (drop cs) value := by
  obtain ⟨written, hwritten, htrim⟩ := h
  unfold WritesTrimmed
  rw [← htrim]
  clear htrim
  induction written using List.reverseRecOn generalizing cs with
  | nil =>
    cases hwritten
    rw [hnil]
    exact ⟨[], .nil, rfl⟩
  | append_singleton written c ih =>
    obtain ⟨front, first, last, rfl, hfront⟩ := hwritten.of_concat
    have hkept : Writes (front ++ escapeChar first last c) (written ++ [c]) := hwritten
    rcases escapeChar_ends first last c with hplain | ⟨middle, final, hescaped, hfinal⟩
    · rw [hplain] at hkept ⊢
      rcases hdrop front c with hstay | ⟨hblank, hgone⟩
      · rw [hstay]
        exact ⟨_, hkept, rfl⟩
      · rw [hgone, Text.trim_concat_of_blank hblank]
        exact ih hfront
    · rw [hescaped, ← List.cons_append, ← List.append_assoc] at hkept ⊢
      rcases hdrop (front ++ '\\' :: middle) final with hstay | ⟨hblank, -⟩
      · rw [hstay]
        exact ⟨_, hkept, rfl⟩
      · rw [hfinal] at hblank
        cases hblank

theorem trimEnd (h : WritesTrimmed cs value) : WritesTrimmed (Text.trimEnd cs) value := by
  refine h.dropEnd rfl fun front c => ?_
  by_cases hc : isBlank c = true
  · exact .inr ⟨hc, Text.trimEnd_concat_of_blank hc⟩
  · exact .inl (Text.trimEnd_concat_of_not_blank (Bool.eq_false_iff.2 hc))

theorem dropTrailingSpaces (h : WritesTrimmed cs value) :
    WritesTrimmed (dropTrailingSpaces cs) value := by
  refine h.dropEnd rfl fun front c => ?_
  rw [Dn.dropTrailingSpaces, List.reverse_concat, dropSpaces_cons]
  split
  · next hspace => exact .inr ⟨hspace.1 ▸ by decide, rfl⟩
  · exact .inl (by simp)

/-- A value that is written can be read, up to blanks around it. -/
theorem parseValue (h : WritesTrimmed cs value) :
    ∃ read, parseValue cs = .ok read ∧ Text.trim read.toList = Text.trim value := by
  obtain ⟨written, hwritten, htrim⟩ := h.trimStart.dropTrailingSpaces
  exact ⟨String.ofList written, hwritten.parseValue, by rw [String.toList_ofList, htrim]⟩

end WritesTrimmed

/-! ## Texts that write lists -/

variable {α β γ δ ε : Type}

theorem mapM_eq_ok_iff {read : α → Except ε β} {xs : List α} {bs : List β} :
    xs.mapM read = .ok bs ↔ List.Forall₂ (fun x b => read x = .ok b) xs bs := by
  constructor
  · intro h
    induction xs generalizing bs with
    | nil =>
      cases h
      exact .nil
    | cons x xs ih =>
      obtain ⟨b, rest, hx, hxs, rfl⟩ := mapM_cons_ok h
      exact .cons hx (ih hxs)
  · intro h
    induction h with
    | nil => rfl
    | cons hx _ ih =>
      rw [List.mapM_cons, hx, ih]
      rfl

/-- Pieces that can each be read, with one key or another, are read one after the other. -/
theorem mapM_ok_of_forall₂ {read : α → Except ε β} {key : β → δ} {bs : List β} {pieces : List α}
    (h : List.Forall₂ (fun b piece => ∃ b', read piece = .ok b' ∧ key b' = key b) bs pieces) :
    ∃ bs', pieces.mapM read = .ok bs' ∧ bs'.map key = bs.map key := by
  induction h with
  | nil => exact ⟨[], rfl, rfl⟩
  | cons hread _ ih =>
    obtain ⟨b', hb', hkey⟩ := hread
    obtain ⟨bs', hbs', hkeys⟩ := ih
    refine ⟨b' :: bs', ?_, by rw [List.map_cons, List.map_cons, hkey, hkeys]⟩
    rw [List.mapM_cons, hb', hbs']
    rfl

/-- Blanks at the end of a list belong to its last item. -/
theorem exists_intercalate_trimEnd {between : Char} (hbetween : isBlank between = false)
    {R : α → List Char → Prop} (htrim : ∀ x cs, R x cs → R x (trimEnd cs)) {xs : List α}
    {pieces : List (List Char)} (h : List.Forall₂ R xs pieces) :
    ∃ pieces', List.Forall₂ R xs pieces' ∧
      [between].intercalate pieces' = trimEnd ([between].intercalate pieces) := by
  induction h with
  | nil => exact ⟨[], .nil, rfl⟩
  | @cons x piece xs pieces hx hxs ih =>
    obtain ⟨pieces', hpieces', htext⟩ := ih
    cases hxs with
    | nil =>
      cases hpieces'
      exact ⟨[trimEnd piece], .cons (htrim x piece hx) .nil, by simp⟩
    | cons hy hrest =>
      cases hpieces' with
      | cons hy' hrest' =>
        refine ⟨_, .cons hx (.cons hy' hrest'), ?_⟩
        rw [List.intercalate_cons_cons, htext, List.intercalate_cons_cons, List.append_assoc,
          List.singleton_append, List.append_assoc, List.singleton_append,
          Text.trimEnd_append_cons hbetween]

/-- A list starts with its first item. -/
theorem starts_intercalate (between : Char) {pieces : List (List Char)} (hsome : pieces ≠ [])
    (hstarts : ∀ piece ∈ pieces, Starts piece) : Starts ([between].intercalate pieces) := by
  obtain ⟨first, rest, rfl⟩ := List.exists_cons_of_ne_nil hsome
  have hfirst := hstarts first List.mem_cons_self
  cases rest with
  | nil => simpa using hfirst
  | cons =>
    rw [List.intercalate_cons_cons, List.append_assoc]
    exact hfirst.append _

/-- Items have texts. -/
theorem pieces_ne_nil {R : α → List Char → Prop} {xs : List α} {pieces : List (List Char)}
    (h : List.Forall₂ R xs pieces) (hsome : xs ≠ []) : pieces ≠ [] := by
  rintro rfl
  cases h
  exact hsome rfl

theorem forall₂_map_right {R : α → List Char → Prop} {f : α → List Char} {xs : List α}
    (h : ∀ x ∈ xs, R x (f x)) : List.Forall₂ R xs (xs.map f) :=
  List.forall₂_map_right_iff.2 (List.forall₂_same.2 h)

/-- A property of each item of a list comes with each of its texts. -/
theorem forall₂_imp {R S : α → List Char → Prop} {xs : List α} {pieces : List (List Char)}
    (h : List.Forall₂ R xs pieces) (hS : ∀ x ∈ xs, ∀ cs, R x cs → S x cs) :
    List.Forall₂ S xs pieces := by
  induction h with
  | nil => exact .nil
  | cons hx _ ih =>
    exact .cons (hS _ List.mem_cons_self _ hx)
      (ih fun y hy => hS y (List.mem_cons_of_mem _ hy))

theorem forall_mem_of_forall₂ {R : α → List Char → Prop} {P : List Char → Prop} {xs : List α}
    {pieces : List (List Char)} (h : List.Forall₂ R xs pieces)
    (hP : ∀ x ∈ xs, ∀ cs, R x cs → P cs) : ∀ piece ∈ pieces, P piece := by
  induction h with
  | nil => exact nofun
  | cons hx _ ih =>
    rw [List.forall_mem_cons]
    exact ⟨hP _ List.mem_cons_self _ hx, ih fun y hy => hP y (List.mem_cons_of_mem _ hy)⟩

/-! ## Reading from pieces -/

section Pieces

variable {pieces : List (List Char)} {s : String}

/-- Pieces are read alike by what reads each of them alike. -/
theorem mapM_eq_of_forall_mem {read read' : α → Except ε β} {xs : List α}
    (h : ∀ x ∈ xs, read x = read' x) : xs.mapM read = xs.mapM read' := by
  induction xs with
  | nil => rfl
  | cons x xs ih =>
    rw [List.mapM_cons, List.mapM_cons, h x List.mem_cons_self,
      ih fun y hy => h y (List.mem_cons_of_mem x hy)]

/-- A pair is read from its type and what writes its value. -/
theorem parseAva_of_type {type rest : List Char} {value : String} (hsome : type ≠ [])
    (htrim : Text.trim type = type) (hequals : '=' ∉ type) (hvalue : parseValue rest = .ok value) :
    parseAva (type ++ '=' :: rest) = .ok ⟨String.ofList type, value⟩ := by
  have htype : ∀ c ∈ type, (c != '=') = true := fun c hc =>
    bne_iff_ne.2 fun heq => hequals (heq ▸ hc)
  have htake : (type ++ '=' :: rest).takeWhile (· != '=') = type := by
    rw [List.takeWhile_append_of_pos htype]
    simp
  have hdrop : (type ++ '=' :: rest).dropWhile (· != '=') = '=' :: rest := by
    rw [List.dropWhile_append_of_pos htype]
    simp
  unfold parseAva
  rw [hdrop, htake, htrim]
  dsimp only
  rw [if_neg (by simpa using hsome), hvalue]
  rfl

/-- A relative name is read from what writes its pairs. -/
theorem parseRdn_of_pieces {avas : List Ava} (hsome : pieces ≠ [])
    (hwhole : ∀ piece ∈ pieces, Whole '+' piece) (hread : pieces.mapM parseAva = .ok avas) :
    parseRdn (['+'].intercalate pieces) = .ok ⟨avas⟩ := by
  rw [parseRdn, splitUnescaped_intercalate (by decide) hsome hwhole, hread]

/-- A name below the root is read from what writes its relative names. -/
theorem parse_of_pieces {rdns : List Rdn}
    (htext : Text.trim s.toList = [','].intercalate pieces) (hsome : pieces ≠ [])
    (hstarts : ∀ piece ∈ pieces, Starts piece) (hwhole : ∀ piece ∈ pieces, Whole ',' piece)
    (hread : pieces.mapM parseRdn = .ok rdns) : parse s = .ok ⟨rdns⟩ := by
  have hcut := splitUnescaped_intercalate (show ',' ≠ '\\' by decide) hsome hwhole
  obtain ⟨c, rest, htail, -⟩ := starts_intercalate ',' hsome hstarts
  have hparts : (pieces.mapM fun part =>
      if part.all isBlank then throw ⟨s, .emptyRdn⟩ else parseRdn part) = .ok rdns := by
    rw [← hread]
    refine mapM_eq_of_forall_mem fun piece hpiece => ?_
    obtain ⟨c, rest, rfl, hplain⟩ := hstarts piece hpiece
    rw [if_neg (by simp [hplain])]
  unfold parse
  rw [htext]
  dsimp only
  rw [hcut, hparts, htail]
  rfl

end Pieces

end Dn

/-! ## Texts that write names -/

open Text (Starts trimEnd)

/-- The type of a pair stands without blanks around it. -/
structure Ava.Tidy (a : Ava) : Prop extends a.Spelled where
  type_ne_nil : a.type.toList ≠ []
  trim_type : Text.trim a.type.toList = a.type.toList

/-- A relative name has pairs, all of them with types that stand without blanks. -/
structure Rdn.Tidy (r : Rdn) : Prop where
  avas_ne_nil : r.avas ≠ []
  avas (a : Ava) : a ∈ r.avas → a.Tidy

/-- All types in a name stand without blanks. -/
def Dn.Tidy (d : Dn) : Prop :=
  ∀ r ∈ d.rdns, r.Tidy

/-- A text writes a pair: its type and its value, up to blanks around it. -/
def Ava.Writes (a : Ava) (cs : List Char) : Prop :=
  ∃ rest, cs = a.type.toList ++ '=' :: rest ∧ Dn.WritesTrimmed rest a.value.toList

/-- A text writes a relative name: its pairs in their order. -/
def Rdn.Writes (r : Rdn) (cs : List Char) : Prop :=
  ∃ pieces, List.Forall₂ Ava.Writes r.avas pieces ∧ cs = ['+'].intercalate pieces

/-- A text writes a name: its relative names in their order. -/
def Dn.WritesName (d : Dn) (cs : List Char) : Prop :=
  ∃ pieces, List.Forall₂ Rdn.Writes d.rdns pieces ∧ cs = [','].intercalate pieces

/-- The pair without blanks around its value. -/
def Ava.bare (a : Ava) : Ava :=
  ⟨a.type, Text.trimmed a.value⟩

/-- The relative name without blanks around its values. -/
def Rdn.bare (r : Rdn) : Rdn :=
  ⟨r.avas.map Ava.bare⟩

/-- The name without blanks around its values. -/
def Dn.bare (d : Dn) : Dn :=
  ⟨d.rdns.map Rdn.bare⟩

section Ava

variable {a b : Ava} {cs : List Char}

/-- Blanks around a value are not part of the key. -/
theorem Ava.key_congr (h : a.bare = b.bare) : a.key = b.key := by
  obtain ⟨htype, hvalue⟩ := Ava.mk.inj h
  rw [Ava.key, Ava.key, htype, hvalue]

theorem Ava.writes_text (a : Ava) : a.Writes a.text.toList :=
  ⟨_, a.toList_text, _, Dn.writes_escape _, rfl⟩

theorem Ava.Writes.trimEnd (h : a.Writes cs) : a.Writes (Text.trimEnd cs) := by
  obtain ⟨rest, rfl, hrest⟩ := h
  exact ⟨_, Text.trimEnd_append_cons (by decide) _ _, hrest.trimEnd⟩

theorem Ava.Writes.starts (h : a.Writes cs) (ha : a.Tidy) : Starts cs := by
  obtain ⟨rest, rfl, -⟩ := h
  rcases Text.starts_trim a.type.toList with hnone | hstarts
  · exact absurd (ha.trim_type ▸ hnone) ha.type_ne_nil
  · exact (ha.trim_type ▸ hstarts).append _

theorem Ava.Writes.whole (h : a.Writes cs) (ha : a.Tidy) {separator : Char}
    (hseparator : separator = ',' ∨ separator = '+') : Dn.Whole separator cs := by
  obtain ⟨rest, rfl, written, hwritten, -⟩ := h
  rw [← List.singleton_append, ← List.append_assoc]
  rcases hseparator with rfl | rfl
  · exact ha.comma.append (hwritten.whole (by decide))
  · exact ha.plus.append (hwritten.whole (by decide))

/-- A pair that is written can be read. -/
theorem Ava.Writes.parse (h : a.Writes cs) (ha : a.Tidy) :
    ∃ b, Dn.parseAva cs = .ok b ∧ b.bare = a.bare := by
  obtain ⟨rest, rfl, hrest⟩ := h
  obtain ⟨value, hvalue, htrim⟩ := hrest.parseValue
  refine ⟨⟨a.type, value⟩, ?_, ?_⟩
  · rw [Dn.parseAva_of_type ha.type_ne_nil ha.trim_type ha.equals hvalue, String.ofList_toList]
  · rw [Ava.bare, Ava.bare, Text.trimmed, Text.trimmed, htrim]

end Ava

section Rdn

variable {r s : Rdn} {cs : List Char}

theorem Rdn.key_congr (h : r.bare = s.bare) : r.key = s.key := by
  have hkeys : r.avas.map Ava.key = s.avas.map Ava.key :=
    map_eq_of_map_eq (fun _ _ _ _ => Ava.key_congr) (congrArg Rdn.avas h)
  rw [Rdn.key, Rdn.key, hkeys]

theorem Rdn.writes_text (r : Rdn) : r.Writes r.text.toList :=
  ⟨_, Dn.forall₂_map_right fun a _ => a.writes_text, r.toList_text⟩

theorem Rdn.Writes.trimEnd (h : r.Writes cs) : r.Writes (Text.trimEnd cs) := by
  obtain ⟨pieces, hpieces, rfl⟩ := h
  obtain ⟨pieces', hpieces', htext⟩ :=
    Dn.exists_intercalate_trimEnd (show Text.isBlank '+' = false by decide)
      (fun _ _ h => Ava.Writes.trimEnd h) hpieces
  exact ⟨pieces', hpieces', htext.symm⟩

theorem Rdn.Writes.starts (h : r.Writes cs) (hr : r.Tidy) : Starts cs := by
  obtain ⟨pieces, hpieces, rfl⟩ := h
  exact Dn.starts_intercalate '+' (Dn.pieces_ne_nil hpieces hr.avas_ne_nil)
    (Dn.forall_mem_of_forall₂ hpieces fun a ha _ h => h.starts (hr.avas a ha))

theorem Rdn.Writes.whole (h : r.Writes cs) (hr : r.Tidy) : Dn.Whole ',' cs := by
  obtain ⟨pieces, hpieces, rfl⟩ := h
  exact Dn.Whole.intercalate
    (Dn.forall_mem_of_forall₂ hpieces fun a ha _ h => h.whole (hr.avas a ha) (.inl rfl))
    (Dn.whole_plain (by decide) (by decide))

/-- A relative name that is written can be read. -/
theorem Rdn.Writes.parse (h : r.Writes cs) (hr : r.Tidy) :
    ∃ s, Dn.parseRdn cs = .ok s ∧ s.bare = r.bare := by
  obtain ⟨pieces, hpieces, rfl⟩ := h
  obtain ⟨avas, havas, hbare⟩ := Dn.mapM_ok_of_forall₂
    (Dn.forall₂_imp hpieces fun a ha _ h => h.parse (hr.avas a ha))
  refine ⟨⟨avas⟩, ?_, congrArg Rdn.mk hbare⟩
  exact Dn.parseRdn_of_pieces (Dn.pieces_ne_nil hpieces hr.avas_ne_nil)
    (Dn.forall_mem_of_forall₂ hpieces fun a ha _ h => h.whole (hr.avas a ha) (.inr rfl)) havas

end Rdn

namespace Dn

variable {d e : Dn} {cs : List Char}

theorem same_of_bare (h : d.bare = e.bare) : d.same e = true := by
  have hkeys : d.rdns.map Rdn.key = e.rdns.map Rdn.key :=
    map_eq_of_map_eq (fun _ _ _ _ => Rdn.key_congr) (congrArg Dn.rdns h)
  rw [same_iff, key, key, hkeys]

theorem writesName_text (d : Dn) : d.WritesName d.text.toList :=
  ⟨_, forall₂_map_right fun r _ => r.writes_text, d.toList_text⟩

theorem WritesName.trimEnd (h : d.WritesName cs) : d.WritesName (Text.trimEnd cs) := by
  obtain ⟨pieces, hpieces, rfl⟩ := h
  obtain ⟨pieces', hpieces', htext⟩ :=
    exists_intercalate_trimEnd (show Text.isBlank ',' = false by decide)
      (fun _ _ h => Rdn.Writes.trimEnd h) hpieces
  exact ⟨pieces', hpieces', htext.symm⟩

theorem WritesName.trim (h : d.WritesName cs) (hd : d.Tidy) : d.WritesName (Text.trim cs) := by
  rw [Text.trim]
  refine WritesName.trimEnd ?_
  by_cases hroot : d.rdns = []
  · obtain ⟨pieces, hpieces, rfl⟩ := h
    rw [hroot] at hpieces
    cases hpieces
    exact ⟨[], hroot ▸ .nil, rfl⟩
  · obtain ⟨pieces, hpieces, rfl⟩ := h
    have hstarts := starts_intercalate ',' (pieces_ne_nil hpieces hroot)
      (forall_mem_of_forall₂ hpieces fun r hr _ h => h.starts (hd r hr))
    rw [hstarts.trimStart]
    exact ⟨pieces, hpieces, rfl⟩

/-- Relative names that are written are read one after the other. -/
theorem mapM_parseRdn_of_forall₂ {rdns : List Rdn} {pieces : List (List Char)}
    (h : List.Forall₂ Rdn.Writes rdns pieces) (htidy : ∀ r ∈ rdns, r.Tidy) :
    ∃ rdns', pieces.mapM parseRdn = .ok rdns' ∧ rdns'.map Rdn.bare = rdns.map Rdn.bare :=
  mapM_ok_of_forall₂ (forall₂_imp h fun r hr _ h => h.parse (htidy r hr))

/-- The text of a name reads as this name, up to blanks around values. -/
theorem parse_text_of_tidy (hd : d.Tidy) : ∃ e, parse d.text = .ok e ∧ e.bare = d.bare := by
  obtain ⟨pieces, hpieces, htext⟩ := d.writesName_text.trim hd
  by_cases hroot : d.rdns = []
  · rw [hroot] at hpieces
    cases hpieces
    refine ⟨root, ?_, by rw [bare, bare, hroot]; rfl⟩
    unfold parse
    rw [htext]
    rfl
  · obtain ⟨rdns, hrdns, hbare⟩ := mapM_parseRdn_of_forall₂ hpieces hd
    refine ⟨⟨rdns⟩, ?_, congrArg Dn.mk hbare⟩
    exact parse_of_pieces htext (pieces_ne_nil hpieces hroot)
      (forall_mem_of_forall₂ hpieces fun r hr _ h => h.starts (hd r hr))
      (forall_mem_of_forall₂ hpieces fun r hr _ h => h.whole (hd r hr)) hrdns

/-! ## Names that have been read -/

/-- What is read as the type of a pair is not empty, and no blanks are around it. -/
theorem type_of_parseAva {a : Ava} (h : parseAva cs = .ok a) :
    a.type.toList ≠ [] ∧ Text.trim a.type.toList = a.type.toList := by
  obtain ⟨sign, value, hdrop, htype, -⟩ := parseAva_ok h
  rw [htype, String.toList_ofList, Text.trim_trim]
  refine ⟨fun hnone => ?_, rfl⟩
  unfold parseAva at h
  rw [hdrop, hnone] at h
  cases h

theorem types_of_parseRdn {r : Rdn} (h : parseRdn cs = .ok r) :
    ∀ a ∈ r.avas, a.type.toList ≠ [] ∧ Text.trim a.type.toList = a.type.toList := by
  unfold parseRdn at h
  split at h
  · cases h
  · next avas havas =>
    cases h
    exact forall_mem_of_mapM (fun _ _ _ => type_of_parseAva) havas

theorem tidy_of_parse {s : String} (h : parse s = .ok d) : d.Tidy := by
  intro r hr
  have hspelled := spelled_of_parse h r hr
  have htypes : ∀ r ∈ d.rdns, ∀ a ∈ r.avas,
      a.type.toList ≠ [] ∧ Text.trim a.type.toList = a.type.toList := by
    unfold parse at h
    dsimp only at h
    split at h
    · cases h
      exact nofun
    · obtain ⟨rdns, hrdns, heq⟩ := bind_ok h
      cases heq
      exact forall_mem_of_mapM (fun _ _ _ hread => types_of_parseRdn (of_unless hread)) hrdns
  refine ⟨hspelled.avas_ne_nil, fun a ha => ?_⟩
  obtain ⟨hsome, htrim⟩ := htypes r hr a ha
  exact ⟨hspelled.avas a ha, hsome, htrim⟩

/-- **The text of a name that has been read reads as this name again.** -/
theorem parse_text {s : String} (h : parse s = .ok d) :
    ∃ e, parse d.text = .ok e ∧ e.same d = true := by
  obtain ⟨e, hread, hbare⟩ := parse_text_of_tidy (tidy_of_parse h)
  exact ⟨e, hread, same_of_bare hbare⟩

end Dn

end Roster
