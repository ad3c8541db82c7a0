import Roster.Proofs.Spelling

/-!
# Texts of names

A name that has been read from a text is `Spelled`: none of its types holds an equals sign, or a
separator that a reader would take for one. The text of such a name falls into the texts of its
relative names and their pairs again (`splitUnescaped_intercalate`), and a pair falls into its type
and its value (`unescape_escape`). So names whose texts differ in ASCII case only consist of the same
relative names (`rdnKeys_eq_of_text_same`).
-/

namespace Roster

namespace Dn

/-! ## Texts that stay whole -/

/-- A text is not cut, and nothing that follows it is taken for a part of an escape in it. -/
def Whole (separator : Char) (cs : List Char) : Prop :=
  ∀ tail, splitUnescaped separator (cs ++ tail) =
    (splitUnescaped separator tail).modifyHead (cs ++ ·)

variable {separator : Char} {cs ds : List Char}

/-- There is at least one piece. -/
theorem splitUnescaped_ne_nil (separator : Char) (cs : List Char) :
    splitUnescaped separator cs ≠ [] := by
  fun_induction splitUnescaped separator cs <;> simp_all

theorem whole_nil (separator : Char) : Whole separator [] := by
  intro tail
  cases h : splitUnescaped separator tail <;> simp [h]

theorem Whole.append (hcs : Whole separator cs) (hds : Whole separator ds) :
    Whole separator (cs ++ ds) := by
  intro tail
  rw [List.append_assoc, hcs, hds]
  cases splitUnescaped separator tail <;> simp

theorem whole_plain {c : Char} (hplain : c ≠ '\\') (hother : c ≠ separator) :
    Whole separator [c] := by
  intro tail
  rw [List.singleton_append, splitUnescaped_plain hplain, if_neg hother]
  rfl

theorem whole_escaped (separator c : Char) : Whole separator ['\\', c] := by
  intro tail
  simp [splitUnescaped]

theorem Whole.intercalate {between : Char} {pieces : List (List Char)}
    (hpieces : ∀ piece ∈ pieces, Whole separator piece) (hbetween : Whole separator [between]) :
    Whole separator ([between].intercalate pieces) := by
  induction pieces with
  | nil => exact whole_nil separator
  | cons piece rest ih =>
    have hpiece := hpieces piece List.mem_cons_self
    have hrest := ih fun p hp => hpieces p (List.mem_cons_of_mem piece hp)
    cases rest with
    | nil => simpa using hpiece
    | cons next more =>
      rw [List.intercalate_cons_cons]
      simpa using (hpiece.append hbetween).append hrest

/-- **Whole pieces with separators between them** are cut into these pieces. -/
theorem splitUnescaped_intercalate (hseparator : separator ≠ '\\') {pieces : List (List Char)}
    (hsome : pieces ≠ []) (hpieces : ∀ piece ∈ pieces, Whole separator piece) :
    splitUnescaped separator ([separator].intercalate pieces) = pieces := by
  induction pieces with
  | nil => exact absurd rfl hsome
  | cons piece rest ih =>
    have hpiece := hpieces piece List.mem_cons_self
    cases rest with
    | nil =>
      have hend := hpiece []
      simpa [splitUnescaped] using hend
    | cons next more =>
      have hrest := ih (List.cons_ne_nil next more)
        fun p hp => hpieces p (List.mem_cons_of_mem piece hp)
      rw [List.intercalate_cons_cons, List.append_assoc, hpiece, List.singleton_append,
        splitUnescaped_plain hseparator, if_pos rfl, hrest]
      simp

/-! ## Values -/

theorem whole_escapeChar (hseparator : separator ∈ specials) (first last : Bool) (c : Char) :
    Whole separator (escapeChar first last c) := by
  have hplain {d : Char} (hd : d ∉ specials) : Whole separator [d] := by
    refine whole_plain ?_ ?_
    · rintro rfl
      exact hd (by decide)
    · rintro rfl
      exact hd hseparator
  have hoctet (d e : Char) (he : e ∉ specials) : Whole separator ['\\', d, e] :=
    (whole_escaped separator d).append (hplain he)
  unfold escapeChar
  by_cases hspecial : c ∈ specials
  · rw [if_pos hspecial]
    exact whole_escaped separator c
  by_cases hnul : c = '\x00'
  · rw [if_neg hspecial, if_pos hnul]
    exact hoctet '0' '0' (by decide)
  by_cases hspace : c = ' ' ∧ (first ∨ last)
  · rw [if_neg hspecial, if_neg hnul, if_pos hspace]
    exact hoctet '2' '0' (by decide)
  by_cases hhash : c = '#' ∧ first
  · rw [if_neg hspecial, if_neg hnul, if_neg hspace, if_pos hhash]
    exact hoctet '2' '3' (by decide)
  · rw [if_neg hspecial, if_neg hnul, if_neg hspace, if_neg hhash]
    exact hplain hspecial

/-- A text writes a value if it writes each character, as one at an end of a value or as another. -/
inductive Writes : List Char → List Char → Prop
  | nil : Writes [] []
  | cons (first last : Bool) (c : Char) {cs value : List Char} : Writes cs value →
      Writes (escapeChar first last c ++ cs) (c :: value)

theorem writes_escape (value : List Char) : Writes (escape value) value := by
  have hfrom (first : Bool) : Writes (escapeFrom first value) value := by
    induction value generalizing first with
    | nil => exact .nil
    | cons c rest ih => exact .cons first rest.isEmpty c (ih false)
  exact hfrom true

theorem Writes.whole {value : List Char} (h : Writes cs value) (hseparator : separator ∈ specials) :
    Whole separator cs := by
  induction h with
  | nil => exact whole_nil separator
  | cons first last c _ ih => exact (whole_escapeChar hseparator first last c).append ih

/-- An escaped value is whole, whatever separates it from what follows. -/
theorem whole_escape (hseparator : separator ∈ specials) (value : List Char) :
    Whole separator (escape value) :=
  (writes_escape value).whole hseparator

theorem unescape_escapeChar (first last : Bool) (c : Char) (rest : List Char) :
    unescape (escapeChar first last c ++ rest) =
      (unescape rest).map (String.utf8EncodeChar c ++ ·) := by
  unfold escapeChar
  by_cases hspecial : c ∈ specials
  · have hdigits : specials.all (fun c => (hexDigit? c).isNone) = true := by decide
    rw [if_pos hspecial]
    exact unescape_escaped (Option.isNone_iff_eq_none.1 (List.all_eq_true.1 hdigits c hspecial)) rest
  by_cases hnul : c = '\x00'
  · rw [if_neg hspecial, if_pos hnul, hnul]
    exact unescape_octet rfl rest
  by_cases hspace : c = ' ' ∧ (first ∨ last)
  · rw [if_neg hspecial, if_neg hnul, if_pos hspace, hspace.1]
    exact unescape_octet rfl rest
  by_cases hhash : c = '#' ∧ first
  · rw [if_neg hspecial, if_neg hnul, if_neg hspace, if_pos hhash, hhash.1]
    exact unescape_octet rfl rest
  · rw [if_neg hspecial, if_neg hnul, if_neg hspace, if_neg hhash]
    refine unescape_plain ?_ rest
    rintro rfl
    exact hspecial (by decide)

/-- Reading a written value gives its octets. -/
theorem Writes.unescape {value : List Char} (h : Writes cs value) :
    unescape cs = some (value.flatMap String.utf8EncodeChar) := by
  induction h with
  | nil => rfl
  | cons first last c _ ih =>
    rw [unescape_escapeChar, ih]
    rfl

/-- **Reading an escaped value back** gives its octets. -/
theorem unescape_escape (value : List Char) :
    unescape (escape value) = some (value.flatMap String.utf8EncodeChar) :=
  (writes_escape value).unescape

end Dn

/-! ## Names that have been read -/

/-- The type of a pair can be told from its value, and the pair from what stands around it. -/
structure Ava.Spelled (a : Ava) : Prop where
  equals : '=' ∉ a.type.toList
  comma : Dn.Whole ',' (a.type.toList ++ ['='])
  plus : Dn.Whole '+' (a.type.toList ++ ['='])

/-- A relative name has pairs, and its text falls into them. -/
structure Rdn.Spelled (r : Rdn) : Prop where
  avas_ne_nil : r.avas ≠ []
  avas (a : Ava) : a ∈ r.avas → a.Spelled

/-- The text of a name falls into its relative names. -/
def Dn.Spelled (d : Dn) : Prop :=
  ∀ r ∈ d.rdns, r.Spelled

theorem Ava.toList_text (a : Ava) :
    a.text.toList = a.type.toList ++ '=' :: Dn.escape a.value.toList := by
  simp [Ava.text, Dn.escapeValue]

theorem Ava.Spelled.whole {a : Ava} (h : a.Spelled) {separator : Char}
    (hseparator : separator = ',' ∨ separator = '+') : Dn.Whole separator a.text.toList := by
  rw [Ava.toList_text, ← List.singleton_append, ← List.append_assoc]
  rcases hseparator with rfl | rfl
  · exact h.comma.append (Dn.whole_escape (by decide) _)
  · exact h.plus.append (Dn.whole_escape (by decide) _)

theorem Rdn.toList_text (r : Rdn) :
    r.text.toList = ['+'].intercalate (r.avas.map fun a => a.text.toList) := by
  simp [Rdn.text, Function.comp_def]

theorem Rdn.Spelled.whole {r : Rdn} (h : r.Spelled) : Dn.Whole ',' r.text.toList := by
  rw [Rdn.toList_text]
  refine Dn.Whole.intercalate (fun piece hpiece => ?_) (Dn.whole_plain (by decide) (by decide))
  obtain ⟨a, ha, rfl⟩ := List.mem_map.1 hpiece
  exact (h.avas a ha).whole (.inl rfl)

theorem Dn.toList_text (d : Dn) :
    d.text.toList = [','].intercalate (d.rdns.map fun r => r.text.toList) := by
  simp [Dn.text, Function.comp_def]

/-! ## Cutting the text of a name -/

/-- The text of a relative name is cut into its pairs. -/
theorem Rdn.Spelled.cut {r : Rdn} (h : r.Spelled) :
    Dn.splitUnescaped '+' r.text.toList = r.avas.map fun a => a.text.toList := by
  rw [Rdn.toList_text]
  refine Dn.splitUnescaped_intercalate (by decide) (by simpa using h.avas_ne_nil) ?_
  intro piece hpiece
  obtain ⟨a, ha, rfl⟩ := List.mem_map.1 hpiece
  exact (h.avas a ha).whole (.inr rfl)

/-- The text of a name below the root is cut into its relative names. -/
theorem Dn.Spelled.cut {d : Dn} (h : d.Spelled) (hroot : d.rdns ≠ []) :
    splitUnescaped ',' d.text.toList = d.rdns.map fun r => r.text.toList := by
  rw [Dn.toList_text]
  refine splitUnescaped_intercalate (by decide) (by simpa using hroot) ?_
  intro piece hpiece
  obtain ⟨r, hr, rfl⟩ := List.mem_map.1 hpiece
  exact (h r hr).whole

/-- Lists that are alike in one respect item by item are alike in another one that follows. -/
theorem map_eq_of_map_eq {α β γ : Type} {f : α → β} {key : α → γ} {xs ys : List α}
    (hkey : ∀ x ∈ xs, ∀ y ∈ ys, f x = f y → key x = key y) (h : xs.map f = ys.map f) :
    xs.map key = ys.map key := by
  induction xs generalizing ys with
  | nil =>
    cases List.map_eq_nil_iff.1 h.symm
    rfl
  | cons x xs ih =>
    cases ys with
    | nil => cases h
    | cons y ys =>
      rw [List.map_cons, List.map_cons, List.cons.injEq] at h
      rw [List.map_cons, List.map_cons, hkey x List.mem_cons_self y List.mem_cons_self h.1]
      congr 1
      exact ih (fun a ha b hb => hkey a (List.mem_cons_of_mem x ha) b (List.mem_cons_of_mem y hb)) h.2

/-- Characters as they compare. -/
def folded (cs : List Char) : List Char :=
  cs.map Char.toLower

theorem folded_eq_of_same {s t : String} (h : Text.same s t = true) :
    folded s.toList = folded t.toList :=
  String.ofList_injective (Text.same_iff.1 h)

/-- Pairs whose texts are equal ignoring case have one key. -/
theorem Ava.key_eq_of_folded {a b : Ava} (ha : a.Spelled) (hb : b.Spelled)
    (h : folded a.text.toList = folded b.text.toList) : a.key = b.key := by
  have hequals : (fun c : Char => c != '=') ∘ Char.toLower = (· != '=') := by
    funext c
    rw [Bool.eq_iff_iff]
    simp [Dn.toLower_eq_equals]
  have htype {a : Ava} (ha : a.Spelled) : ∀ c ∈ a.type.toList, (c != '=') = true := by
    rintro c hc
    rw [bne_iff_ne]
    rintro rfl
    exact ha.equals hc
  have htake {a : Ava} (ha : a.Spelled) :
      (folded a.text.toList).takeWhile (· != '=') = folded a.type.toList := by
    rw [folded, List.takeWhile_map, hequals, Ava.toList_text,
      List.takeWhile_append_of_pos (htype ha)]
    simp [folded]
  have hdrop {a : Ava} (ha : a.Spelled) :
      (folded a.text.toList).dropWhile (· != '=') = '=' :: folded (Dn.escape a.value.toList) := by
    rw [folded, List.dropWhile_map, hequals, Ava.toList_text,
      List.dropWhile_append_of_pos (htype ha)]
    simp [folded]
  have htypes : Text.fold a.type = Text.fold b.type := by
    have hfolded : folded a.type.toList = folded b.type.toList := by rw [← htake ha, h, htake hb]
    exact congrArg String.ofList hfolded
  have hoctets (v : String) : (Dn.unescape (folded (Dn.escape v.toList))).map
      (List.map Password.foldOctet) = some ((Text.octets v).map Password.foldOctet) := by
    rw [folded, Dn.unescape_toLower, Dn.unescape_escape]
    rfl
  have hvalues : Text.fold a.value = Text.fold b.value := by
    have hfolded := (hdrop ha).symm.trans (h ▸ hdrop hb)
    rw [List.cons.injEq] at hfolded
    refine Text.fold_eq_of_octets (Option.some.inj ?_)
    rw [← hoctets, hfolded.2, hoctets]
  rw [Ava.key, Ava.key, htypes, Text.lowercase_trimmed_congr hvalues]

theorem Rdn.key_eq_of_folded {r s : Rdn} (hr : r.Spelled) (hs : s.Spelled)
    (h : folded r.text.toList = folded s.text.toList) : r.key = s.key := by
  have hpieces : (r.avas.map fun a => folded a.text.toList) =
      s.avas.map fun a => folded a.text.toList := by
    have hcut {r : Rdn} (hr : r.Spelled) : (r.avas.map fun a => folded a.text.toList) =
        Dn.splitUnescaped '+' (folded r.text.toList) := by
      rw [folded, Dn.splitUnescaped_toLower (Text.toLower_eq_iff (by decide)), hr.cut,
        List.map_map]
      rfl
    rw [hcut hr, h, hcut hs]
  rw [Rdn.key, Rdn.key, map_eq_of_map_eq (fun a ha b hb =>
    Ava.key_eq_of_folded (hr.avas a ha) (hs.avas b hb)) hpieces]

/-- The text of a relative name is not empty. -/
theorem Rdn.Spelled.text_ne_nil {r : Rdn} (h : r.Spelled) : r.text.toList ≠ [] := by
  intro hempty
  have hcut := h.cut
  rw [hempty] at hcut
  obtain ⟨a, ha⟩ := List.exists_mem_of_ne_nil _ h.avas_ne_nil
  have hmem := List.mem_map_of_mem (f := fun a : Ava => a.text.toList) ha
  rw [← hcut] at hmem
  have hnone : a.text.toList = [] := List.mem_singleton.1 hmem
  rw [Ava.toList_text] at hnone
  simp at hnone

/-- **Names that have been read are told apart by their texts**: if the texts differ in ASCII case
only, then the names consist of the same relative names. -/
theorem Dn.rdnKeys_eq_of_text_same {d e : Dn} (hd : d.Spelled) (he : e.Spelled)
    (h : Text.same d.text e.text = true) : d.rdns.map Rdn.key = e.rdns.map Rdn.key := by
  have hfolded := folded_eq_of_same h
  have hroot {d e : Dn} (he : e.Spelled) (h : folded d.text.toList = folded e.text.toList)
      (hd : d.rdns = []) : e.rdns = [] := by
    refine Classical.byContradiction fun hsome => ?_
    have hcut := he.cut hsome
    have hempty : e.text.toList = [] := by
      rw [Dn.toList_text d, hd] at h
      simpa [folded] using h.symm
    rw [hempty] at hcut
    obtain ⟨r, hr⟩ := List.exists_mem_of_ne_nil _ hsome
    have hmem := List.mem_map_of_mem (f := fun r : Rdn => r.text.toList) hr
    rw [← hcut] at hmem
    exact (he r hr).text_ne_nil (List.mem_singleton.1 hmem)
  by_cases hnone : d.rdns = []
  · rw [hnone, hroot he hfolded hnone]
  · have hsome : e.rdns ≠ [] := fun hempty => hnone (hroot hd hfolded.symm hempty)
    refine map_eq_of_map_eq (f := fun r => folded r.text.toList)
      (fun r hr s hs => Rdn.key_eq_of_folded (hd r hr) (he s hs)) ?_
    have hcut {d : Dn} (hd : d.Spelled) (hsome : d.rdns ≠ []) :
        (d.rdns.map fun r => folded r.text.toList) =
          splitUnescaped ',' (folded d.text.toList) := by
      rw [folded, splitUnescaped_toLower (Text.toLower_eq_iff (by decide)), hd.cut hsome,
        List.map_map]
      rfl
    rw [hcut hd hnone, hfolded, hcut he hsome]

/-! ## Reading names -/

namespace Dn

/-- A text without separators, apart from those behind a backslash. -/
inductive Unsplit (separator : Char) : List Char → Prop
  | nil : Unsplit separator []
  | dangling : Unsplit separator ['\\']
  | escaped (c : Char) {rest : List Char} : Unsplit separator rest →
      Unsplit separator ('\\' :: c :: rest)
  | plain {c : Char} {rest : List Char} : c ≠ '\\' → c ≠ separator → Unsplit separator rest →
      Unsplit separator (c :: rest)

namespace Unsplit

theorem of_cons {c : Char} {rest : List Char} (h : Unsplit separator (c :: rest))
    (hplain : c ≠ '\\') : c ≠ separator ∧ Unsplit separator rest := by
  cases h with
  | dangling => exact absurd rfl hplain
  | escaped => exact absurd rfl hplain
  | plain _ hother hrest => exact ⟨hother, hrest⟩

theorem of_prefix {rest : List Char} (h : Unsplit separator rest) (hfront : cs <+: rest) :
    Unsplit separator cs := by
  induction h generalizing cs with
  | nil =>
    rw [List.prefix_nil.1 hfront]
    exact .nil
  | dangling =>
    rcases List.prefix_cons_iff.1 hfront with rfl | ⟨tail, rfl, htail⟩
    · exact .nil
    · rw [List.prefix_nil.1 htail]
      exact .dangling
  | escaped c _ ih =>
    rcases List.prefix_cons_iff.1 hfront with rfl | ⟨tail, rfl, htail⟩
    · exact .nil
    · rcases List.prefix_cons_iff.1 htail with rfl | ⟨more, rfl, hmore⟩
      · exact .dangling
      · exact .escaped c (ih hmore)
  | plain hplain hother _ ih =>
    rcases List.prefix_cons_iff.1 hfront with rfl | ⟨tail, rfl, htail⟩
    · exact .nil
    · exact .plain hplain hother (ih htail)

theorem trimStart (h : Unsplit separator cs) : Unsplit separator (Text.trimStart cs) := by
  unfold Text.trimStart
  induction cs with
  | nil => exact .nil
  | cons c rest ih =>
    rw [List.dropWhile_cons]
    split
    · next hblank =>
      refine ih (h.of_cons ?_).2
      rintro rfl
      revert hblank
      decide
    · exact h

theorem trim (h : Unsplit separator cs) : Unsplit separator (Text.trim cs) :=
  h.trimStart.of_prefix (Text.trimEnd_isPrefix _)

/-- With an equals sign behind it, which closes an open escape, the text is whole. -/
theorem whole (h : Unsplit separator cs) (hequals : '=' ≠ separator) :
    Whole separator (cs ++ ['=']) := by
  induction h with
  | nil => exact whole_plain (by decide) hequals
  | dangling => exact whole_escaped separator '='
  | escaped c _ ih => exact (whole_escaped separator c).append ih
  | plain hplain hother _ ih => exact (whole_plain hplain hother).append ih

/-- The pieces of a text are without its separators, and without others that the text is without. -/
theorem of_mem_splitUnescaped {other : Char} (hcs : other = separator ∨ Unsplit other cs) :
    ∀ piece ∈ splitUnescaped separator cs, Unsplit other piece := by
  have hhead {f : List Char → List Char} {pieces : List (List Char)}
      (hf : ∀ piece, Unsplit other piece → Unsplit other (f piece))
      (h : ∀ piece ∈ pieces, Unsplit other piece) :
      ∀ piece ∈ pieces.modifyHead f, Unsplit other piece := by
    cases pieces with
    | nil => exact h
    | cons first rest =>
      rw [List.modifyHead_cons, List.forall_mem_cons]
      exact ⟨hf first (h first List.mem_cons_self),
        fun p hp => h p (List.mem_cons_of_mem first hp)⟩
  fun_induction splitUnescaped separator cs with
  | case1 => simpa using Unsplit.nil
  | case2 => simpa using Unsplit.dangling
  | case3 c rest ih =>
    refine hhead (fun piece hpiece => .escaped c hpiece) (ih (hcs.imp_right fun h => ?_))
    cases h with
    | escaped _ hrest => exact hrest
    | plain hplain => exact absurd rfl hplain
  | case4 rest hnil hmore ih =>
    have hplain : separator ≠ '\\' := by
      intro hc
      cases rest with
      | nil => exact hnil hc rfl
      | cons d more => exact hmore d more hc rfl
    rw [List.forall_mem_cons]
    exact ⟨.nil, ih (hcs.imp_right fun h => (h.of_cons hplain).2)⟩
  | case5 c rest hnil hmore hother ih =>
    have hplain : c ≠ '\\' := by
      intro hc
      cases rest with
      | nil => exact hnil hc rfl
      | cons d more => exact hmore d more hc rfl
    have hne : c ≠ other := by
      rcases hcs with rfl | h
      · exact hother
      · exact (h.of_cons hplain).1
    exact hhead (fun piece hpiece => .plain hplain hne hpiece)
      (ih (hcs.imp_right fun h => (h.of_cons hplain).2))

end Unsplit

/-- What is read from the pieces of a text has a property if each reading gives it. -/
theorem forall_mem_of_mapM {α β ε : Type} {read : α → Except ε β} {P : β → Prop} {xs : List α}
    {bs : List β} (hread : ∀ x ∈ xs, ∀ b, read x = .ok b → P b) (h : xs.mapM read = .ok bs) :
    ∀ b ∈ bs, P b := by
  induction xs generalizing bs with
  | nil =>
    cases h
    simp
  | cons x xs ih =>
    obtain ⟨b, rest, hx, hxs, rfl⟩ := mapM_cons_ok h
    rw [List.forall_mem_cons]
    exact ⟨hread x List.mem_cons_self b hx,
      ih (fun y hy => hread y (List.mem_cons_of_mem x hy)) hxs⟩

theorem spelled_of_parseAva {a : Ava} (hcomma : Unsplit ',' cs) (hplus : Unsplit '+' cs)
    (h : parseAva cs = .ok a) : a.Spelled := by
  obtain ⟨_, _, _, htype, -⟩ := parseAva_ok h
  have htake {separator : Char} (h : Unsplit separator cs) :
      Unsplit separator (Text.trim (cs.takeWhile (· != '='))) :=
    (h.of_prefix (List.takeWhile_prefix _)).trim
  refine ⟨?_, ?_, ?_⟩ <;> rw [htype, String.toList_ofList]
  · intro hmem
    have hother := List.all_eq_true.1 List.all_takeWhile _ ((Text.trim_isInfix _).subset hmem)
    simp at hother
  · exact (htake hcomma).whole (by decide)
  · exact (htake hplus).whole (by decide)

theorem spelled_of_parseRdn {r : Rdn} (hcomma : Unsplit ',' cs) (h : parseRdn cs = .ok r) :
    r.Spelled := by
  unfold parseRdn at h
  split at h
  · cases h
  · next avas havas =>
    cases h
    refine ⟨?_, forall_mem_of_mapM (fun piece hpiece a ha => ?_) havas⟩
    · rintro rfl
      have hsome := splitUnescaped_ne_nil '+' cs
      cases hpieces : splitUnescaped '+' cs with
      | nil => exact hsome hpieces
      | cons piece rest =>
        rw [hpieces] at havas
        obtain ⟨_, _, _, _, hnone⟩ := mapM_cons_ok havas
        cases hnone
    · exact spelled_of_parseAva (Unsplit.of_mem_splitUnescaped (.inr hcomma) piece hpiece)
        (Unsplit.of_mem_splitUnescaped (.inl rfl) piece hpiece) ha

/-- **Every name that is read is spelled.** -/
theorem spelled_of_parse {s : String} {d : Dn} (h : parse s = .ok d) : d.Spelled := by
  unfold parse at h
  dsimp only at h
  split at h
  · cases h
    intro r hr
    cases hr
  · obtain ⟨rdns, hrdns, heq⟩ := bind_ok h
    cases heq
    exact forall_mem_of_mapM (fun piece hpiece r hr => spelled_of_parseRdn
      (Unsplit.of_mem_splitUnescaped (.inl rfl) piece hpiece) (of_unless hr)) hrdns

end Dn

end Roster
