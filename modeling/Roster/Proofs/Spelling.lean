import Roster.Dn.Parser
import Roster.Membership.Kind
import Roster.Password.Hash

/-!
# Spellings of names in values

Values of an attribute are compared ignoring ASCII case, names by their keys. This file shows that
the second comparison is the coarser one: of two texts that differ in ASCII case only, both readable
as names, the names have one key (`Dn.key_eq_of_same`). So a group that holds a reference ignoring
case refers to it, whatever references are (`KindDescriptor.refersTo_of_same`).
-/

namespace Roster

namespace Text

/-! ## Characters -/

/-- What is no ASCII capital is its own small form. -/
theorem toLower_of_not_capital {c : Char} (h : ¬ (0x41 ≤ c.toNat ∧ c.toNat ≤ 0x5A)) :
    c.toLower = c := by
  have hrange : ¬ (c.val ≥ 'A'.val ∧ c.val ≤ 'Z'.val) := by
    rw [ge_iff_le, UInt32.le_iff_toNat_le, UInt32.le_iff_toNat_le]
    exact h
  delta Char.toLower
  rw [dif_neg hrange]

/-- What does not tell an ASCII capital from its small form does not notice folding. -/
theorem toLower_congr {α : Type} {f : Char → α}
    (hletters : ∀ n : Fin 26, f (Char.ofNat (0x41 + n)).toLower = f (Char.ofNat (0x41 + n)))
    (c : Char) : f c.toLower = f c := by
  by_cases hc : 0x41 ≤ c.toNat ∧ c.toNat ≤ 0x5A
  · have hofNat : Char.ofNat (0x41 + (c.toNat - 0x41)) = c := by
      rw [Nat.add_sub_cancel' hc.1, Char.ofNat_toNat]
    have hletter := hletters ⟨c.toNat - 0x41, by omega⟩
    rwa [hofNat] at hletter
  · rw [toLower_of_not_capital hc]

/-- A folded text is its own fold. -/
@[simp] theorem fold_fold (s : String) : fold (fold s) = fold s := by
  have hlower : Char.toLower ∘ Char.toLower = Char.toLower :=
    funext fun c => toLower_congr (f := Char.toLower) (by decide) c
  rw [fold, fold, String.toList_ofList, List.map_map, hlower]

theorem isBlank_toLower (c : Char) : isBlank c.toLower = isBlank c :=
  toLower_congr (by decide) c

theorem lowerChar_toLower (c : Char) : lowerChar c.toLower = lowerChar c :=
  toLower_congr (by decide) c

theorem cased_toLower (c : Char) : inRanges casedRanges c.toLower = inRanges casedRanges c :=
  toLower_congr (by decide) c

theorem ignorable_toLower (c : Char) :
    inRanges ignorableRanges c.toLower = inRanges ignorableRanges c :=
  toLower_congr (by decide +kernel) c

/-- Folding neither makes nor takes away a character that is no letter of ASCII. -/
theorem toLower_eq_iff {d : Char} (hd : ∀ n : Fin 26,
      Char.ofNat (0x41 + n) ≠ d ∧ (Char.ofNat (0x41 + n)).toLower ≠ d) (c : Char) :
    c.toLower = d ↔ c = d := by
  have hsame : (c.toLower == d) = (c == d) := by
    refine toLower_congr (f := fun c => c == d) (fun n => ?_) c
    rw [beq_false_of_ne (hd n).1, beq_false_of_ne (hd n).2]
  rw [← beq_iff_eq, hsame, beq_iff_eq]

/-! ## Trimming and lower case -/

theorem trimStart_toLower (cs : List Char) :
    trimStart (cs.map Char.toLower) = (trimStart cs).map Char.toLower := by
  have hblank : isBlank ∘ Char.toLower = isBlank := funext isBlank_toLower
  rw [trimStart, trimStart, List.dropWhile_map, hblank]

theorem trim_toLower (cs : List Char) :
    trim (cs.map Char.toLower) = (trim cs).map Char.toLower := by
  have hblank : isBlank ∘ Char.toLower = isBlank := funext isBlank_toLower
  rw [trim, trimStart_toLower, trimEnd, ← List.map_reverse, List.dropWhile_map, hblank,
    ← List.map_reverse]
  rfl

theorem meetsCased_toLower (cs : List Char) :
    meetsCased (cs.map Char.toLower) = meetsCased cs := by
  have hignorable : inRanges ignorableRanges ∘ Char.toLower = inRanges ignorableRanges :=
    funext ignorable_toLower
  rw [meetsCased, meetsCased, List.dropWhile_map, hignorable]
  cases cs.dropWhile (inRanges ignorableRanges) with
  | nil => rfl
  | cons c rest => exact cased_toLower c

theorem lowerAfter_toLower (before cs : List Char) :
    lowerAfter (before.map Char.toLower) (cs.map Char.toLower) = lowerAfter before cs := by
  induction cs generalizing before with
  | nil => rfl
  | cons c rest ih =>
    have hsigma : c.toLower = 'Σ' ↔ c = 'Σ' := toLower_eq_iff (by decide) c
    have hdotted : c.toLower = 'İ' ↔ c = 'İ' := toLower_eq_iff (by decide) c
    have hrest := ih (c :: before)
    rw [List.map_cons] at hrest
    simp only [List.map_cons, lowerAfter, hsigma, hdotted, hrest, endsWord, meetsCased_toLower,
      lowerChar_toLower]
    rfl

/-- Lower case does not notice folding. -/
theorem lower_toLower (cs : List Char) : lower (cs.map Char.toLower) = lower cs :=
  lowerAfter_toLower [] cs

/-- Texts that are equal ignoring ASCII case are equal in lower case, without blanks around them. -/
theorem lowercase_trimmed_congr {a b : String} (h : fold a = fold b) :
    lowercase (trimmed a) = lowercase (trimmed b) := by
  have hfolded (s : String) : lower (trim s.toList) = lower (trim (fold s).toList) := by
    rw [fold, String.toList_ofList, trim_toLower, lower_toLower]
  simp only [lowercase, trimmed, String.toList_ofList]
  rw [hfolded a, hfolded b, h]

/-! ## Octets -/

/-- An octet outside ASCII is no letter. -/
theorem foldOctet_ofNat {n : Nat} (hlow : 0x80 ≤ n) (hhigh : n < 0x100) :
    Password.foldOctet (UInt8.ofNat n) = UInt8.ofNat n := by
  have hletter : ¬ (0x41 ≤ UInt8.ofNat n ∧ UInt8.ofNat n ≤ 0x5A) := by
    simp [UInt8.le_iff_toNat_le]
    omega
  rw [Password.foldOctet, if_neg hletter]

theorem utf8EncodeChar_toLower (c : Char) :
    String.utf8EncodeChar c.toLower = (String.utf8EncodeChar c).map Password.foldOctet := by
  by_cases hc : c.toNat < 0x80
  · have hall : ∀ n : Fin 0x80, String.utf8EncodeChar (Char.ofNat n).toLower =
        (String.utf8EncodeChar (Char.ofNat n)).map Password.foldOctet := by decide
    simpa using hall ⟨c.toNat, hc⟩
  · have hcapital : ¬ (0x41 ≤ c.toNat ∧ c.toNat ≤ 0x5A) := by omega
    have hval : c.val.toNat = c.toNat := rfl
    rw [toLower_of_not_capital hcapital, String.utf8EncodeChar]
    simp only [hval]
    rw [if_neg (by omega)]
    have hcont (x : Nat) : Password.foldOctet (UInt8.ofNat (x % 0x40 + 0x80)) =
        UInt8.ofNat (x % 0x40 + 0x80) := foldOctet_ofNat (by omega) (by omega)
    split
    · simp only [List.map_cons, List.map_nil, hcont]
      rw [foldOctet_ofNat (by omega) (by omega)]
    · split
      · simp only [List.map_cons, List.map_nil, hcont]
        rw [foldOctet_ofNat (by omega) (by omega)]
      · simp only [List.map_cons, List.map_nil, hcont]
        rw [foldOctet_ofNat (by omega) (by omega)]

theorem octets_fold (s : String) : octets (fold s) = (octets s).map Password.foldOctet := by
  simp only [octets, fold, String.toList_ofList, List.flatMap_map, List.map_flatMap,
    utf8EncodeChar_toLower]

/-- Texts whose octets are equal ignoring ASCII case are equal ignoring it. -/
theorem fold_eq_of_octets {a b : String}
    (h : (octets a).map Password.foldOctet = (octets b).map Password.foldOctet) :
    fold a = fold b := by
  have hoctets : octets (fold a) = octets (fold b) := by rw [octets_fold, octets_fold, h]
  have hread := congrArg ofOctets? hoctets
  simpa using hread

end Text

namespace Dn

/-! ## Values in names -/

theorem hexDigit?_toLower (c : Char) : hexDigit? c.toLower = hexDigit? c :=
  Text.toLower_congr (by decide) c

theorem hexPair?_toLower (c d : Char) : hexPair? c.toLower d.toLower = hexPair? c d := by
  rw [hexPair?, hexPair?, hexDigit?_toLower, hexDigit?_toLower]

theorem toLower_eq_backslash (c : Char) : c.toLower = '\\' ↔ c = '\\' :=
  Text.toLower_eq_iff (by decide) c

theorem toLower_eq_space (c : Char) : c.toLower = ' ' ↔ c = ' ' :=
  Text.toLower_eq_iff (by decide) c

theorem toLower_eq_equals (c : Char) : c.toLower = '=' ↔ c = '=' :=
  Text.toLower_eq_iff (by decide) c

/-- How spaces are dropped, character by character. -/
theorem dropSpaces_cons (c : Char) (rest : List Char) :
    dropSpaces (c :: rest) =
      if c = ' ' ∧ rest.head? ≠ some '\\' then dropSpaces rest else c :: rest := by
  by_cases hc : c = ' '
  · subst hc
    cases rest with
    | nil => simp [dropSpaces]
    | cons d rest =>
      by_cases hd : d = '\\'
      · subst hd
        simp [dropSpaces]
      · rw [dropSpaces.eq_2]
        · simp [hd]
        · grind
  · rw [if_neg fun h => hc h.1, dropSpaces.eq_3] <;> grind

theorem dropTrailingSpaces_toLower (cs : List Char) :
    dropTrailingSpaces (cs.map Char.toLower) = (dropTrailingSpaces cs).map Char.toLower := by
  have hdrop (cs : List Char) :
      dropSpaces (cs.map Char.toLower) = (dropSpaces cs).map Char.toLower := by
    induction cs with
    | nil => rfl
    | cons c rest ih =>
      have hhead : (rest.map Char.toLower).head? = some '\\' ↔ rest.head? = some '\\' := by
        cases rest with
        | nil => simp
        | cons d rest => simpa using toLower_eq_backslash d
      rw [List.map_cons, dropSpaces_cons, dropSpaces_cons, ih]
      simp only [toLower_eq_space, ne_eq, hhead]
      split <;> rfl
  rw [dropTrailingSpaces, dropTrailingSpaces, ← List.map_reverse, hdrop, List.map_reverse]

/-- A character that `unescape` takes for the start of no escape is no backslash. -/
theorem ne_backslash_of_no_escape {c : Char} {rest : List Char}
    (hnil : c = '\\' → rest = [] → False) (hone : ∀ d, c = '\\' → rest = [d] → False)
    (hmore : ∀ d e more, c = '\\' → rest = d :: e :: more → False) : c ≠ '\\' := by
  intro hc
  match rest with
  | [] => exact hnil hc rfl
  | [d] => exact hone d hc rfl
  | d :: e :: more => exact hmore d e more hc rfl

/-- What octets stand for a value does not depend on the case of its ASCII letters. -/
theorem unescape_toLower (cs : List Char) :
    (unescape (cs.map Char.toLower)).map (List.map Password.foldOctet) =
      (unescape cs).map (List.map Password.foldOctet) := by
  have hchar (c : Char) : (String.utf8EncodeChar c.toLower).map Password.foldOctet =
      (String.utf8EncodeChar c).map Password.foldOctet := 
    Text.toLower_congr (f := fun c => (String.utf8EncodeChar c).map Password.foldOctet)
      (by decide) c
  fun_induction unescape cs with
  | case1 => rfl
  | case2 => rfl
  | case3 c => simp [unescape, hchar]
  | case4 c d rest b hpair ih =>
    have hlowered : hexPair? c.toLower d.toLower = some b := hexPair?_toLower c d ▸ hpair
    have hrest := congrArg (Option.map (Password.foldOctet b :: ·)) ih
    simpa [unescape, hlowered, Function.comp_def] using hrest
  | case5 c d rest hpair ih =>
    have hlowered : hexPair? c.toLower d.toLower = none := hexPair?_toLower c d ▸ hpair
    have hrest := congrArg (Option.map ((String.utf8EncodeChar c).map Password.foldOctet ++ ·)) ih
    simpa [unescape, hlowered, hchar, Function.comp_def] using hrest
  | case6 c rest hnil hone hmore ih =>
    have hplain := ne_backslash_of_no_escape hnil hone hmore
    have hlowered : c.toLower ≠ '\\' := mt (toLower_eq_backslash c).1 hplain
    have hrest := congrArg (Option.map ((String.utf8EncodeChar c).map Password.foldOctet ++ ·)) ih
    rw [List.map_cons, unescape_plain hlowered]
    simpa [hchar, Function.comp_def] using hrest

theorem splitUnescaped_plain {separator c : Char} (h : c ≠ '\\') (rest : List Char) :
    splitUnescaped separator (c :: rest) =
      if c = separator then [] :: splitUnescaped separator rest
      else (splitUnescaped separator rest).modifyHead (c :: ·) := by
  rw [splitUnescaped.eq_def]
  split <;> simp_all

theorem modifyHead_map_toLower {f g : List Char → List Char}
    (hfg : ∀ piece, g (piece.map Char.toLower) = (f piece).map Char.toLower)
    (pieces : List (List Char)) :
    (pieces.map (List.map Char.toLower)).modifyHead g =
      (pieces.modifyHead f).map (List.map Char.toLower) := by
  cases pieces with
  | nil => rfl
  | cons piece more => simp [hfg]

/-- A text is cut at the same places whatever the case of its ASCII letters is. -/
theorem splitUnescaped_toLower {separator : Char}
    (hseparator : ∀ c : Char, c.toLower = separator ↔ c = separator) (cs : List Char) :
    splitUnescaped separator (cs.map Char.toLower) =
      (splitUnescaped separator cs).map (List.map Char.toLower) := by
  fun_induction splitUnescaped separator cs with
  | case1 => rfl
  | case2 => rfl
  | case3 c rest ih =>
    have hbackslash : ('\\' : Char).toLower = '\\' := rfl
    rw [List.map_cons, List.map_cons, hbackslash, splitUnescaped, ih]
    refine modifyHead_map_toLower (fun piece => ?_) _
    rw [List.map_cons, List.map_cons, hbackslash]
  | case4 rest hnil hmore ih =>
    have hplain : separator ≠ '\\' := by
      intro hc
      cases rest with
      | nil => exact hnil hc rfl
      | cons d more => exact hmore d more hc rfl
    have hself : separator.toLower = separator := (hseparator separator).2 rfl
    rw [List.map_cons, hself, splitUnescaped_plain hplain, if_pos rfl, ih]
    rfl
  | case5 c rest hnil hmore hother ih =>
    have hplain : c ≠ '\\' := by
      intro hc
      cases rest with
      | nil => exact hnil hc rfl
      | cons d more => exact hmore d more hc rfl
    have hlowered : c.toLower ≠ '\\' := mt (toLower_eq_backslash c).1 hplain
    rw [List.map_cons, splitUnescaped_plain hlowered, if_neg (mt (hseparator c).1 hother), ih]
    refine modifyHead_map_toLower (fun piece => ?_) _
    rw [List.map_cons]

/-! ## Names -/

theorem bind_ok {α β ε : Type} {x : Except ε α} {f : α → Except ε β} {b : β}
    (h : x >>= f = .ok b) : ∃ a, x = .ok a ∧ f a = .ok b := by
  cases x with
  | error e => cases h
  | ok a => exact ⟨a, rfl, h⟩

theorem of_unless {α ε : Type} {refused : Bool} {e : ε} {x : Except ε α} {a : α}
    (h : (if refused = true then throw e else x) = .ok a) : x = .ok a := by
  cases refused with
  | true => cases h
  | false => exact h

theorem mapM_cons_ok {α β ε : Type} {read : α → Except ε β} {x : α} {xs : List α} {bs : List β}
    (h : (x :: xs).mapM read = .ok bs) :
    ∃ b rest, read x = .ok b ∧ xs.mapM read = .ok rest ∧ bs = b :: rest := by
  rw [List.mapM_cons] at h
  obtain ⟨b, hx, h⟩ := bind_ok h
  obtain ⟨rest, hxs, h⟩ := bind_ok h
  cases h
  exact ⟨b, rest, hx, hxs, rfl⟩

/-- What is read from pieces that fold alike is alike. -/
theorem mapM_congr {α β γ δ ε : Type} {read read' : α → Except ε β} {fold : α → γ} {key : β → δ}
    (hread : ∀ {x y : α} {a b : β}, fold x = fold y → read x = .ok a → read' y = .ok b →
      key a = key b) {xs ys : List α} {as bs : List β} (hfold : xs.map fold = ys.map fold)
    (hxs : xs.mapM read = .ok as) (hys : ys.mapM read' = .ok bs) : as.map key = bs.map key := by
  induction xs generalizing ys as bs with
  | nil =>
    cases List.map_eq_nil_iff.1 hfold.symm
    cases hxs
    cases hys
    rfl
  | cons x xs ih =>
    cases ys with
    | nil => cases hfold
    | cons y ys =>
      rw [List.map_cons, List.map_cons, List.cons.injEq] at hfold
      obtain ⟨a, as', hx, hxs', rfl⟩ := mapM_cons_ok hxs
      obtain ⟨b, bs', hy, hys', rfl⟩ := mapM_cons_ok hys
      rw [List.map_cons, List.map_cons, hread hfold.1 hx hy, ih hfold.2 hxs' hys']

theorem parseValue_congr {cs ds : List Char} {v w : String}
    (h : cs.map Char.toLower = ds.map Char.toLower) (hv : parseValue cs = .ok v)
    (hw : parseValue ds = .ok w) : Text.fold v = Text.fold w := by
  have hoctets {cs : List Char} {v : String} (hv : parseValue cs = .ok v) :
      (unescape (dropTrailingSpaces (Text.trimStart (cs.map Char.toLower)))).map
        (List.map Password.foldOctet) = some ((Text.octets v).map Password.foldOctet) := by
    unfold parseValue at hv
    split at hv
    · cases hv
    · next octets hunescape =>
      split at hv
      · cases hv
      · next value hread =>
        cases hv
        rw [Text.trimStart_toLower, dropTrailingSpaces_toLower, unescape_toLower, hunescape,
          Text.octets_of_ofOctets? hread]
        rfl
  have hsame := hoctets hv
  rw [h, hoctets hw] at hsame
  exact Text.fold_eq_of_octets (Option.some.inj hsame).symm

theorem parseAva_ok {cs : List Char} {a : Ava} (h : parseAva cs = .ok a) :
    ∃ sign value, cs.dropWhile (· != '=') = sign :: value ∧
      a.type = String.ofList (Text.trim (cs.takeWhile (· != '='))) ∧
      parseValue value = .ok a.value := by
  unfold parseAva at h
  split at h
  · cases h
  · next sign value hdrop =>
    dsimp only at h
    split at h
    · cases h
    · obtain ⟨v, hvalue, h⟩ := bind_ok h
      cases h
      exact ⟨sign, value, hdrop, rfl, hvalue⟩

theorem parseAva_congr {cs ds : List Char} {a b : Ava}
    (h : cs.map Char.toLower = ds.map Char.toLower) (ha : parseAva cs = .ok a)
    (hb : parseAva ds = .ok b) : a.key = b.key := by
  obtain ⟨sign, v, hcs, hatype, hv⟩ := parseAva_ok ha
  obtain ⟨sign', w, hds, hbtype, hw⟩ := parseAva_ok hb
  have hequals : (fun c : Char => c != '=') ∘ Char.toLower = (· != '=') := by
    funext c
    rw [Bool.eq_iff_iff]
    simp [toLower_eq_equals]
  have hvalues : v.map Char.toLower = w.map Char.toLower := by
    have hdropped := congrArg (List.dropWhile (· != '=')) h
    rw [List.dropWhile_map, List.dropWhile_map, hequals, hcs, hds, List.map_cons, List.map_cons,
      List.cons.injEq] at hdropped
    exact hdropped.2
  have htypes : Text.fold a.type = Text.fold b.type := by
    have htaken := congrArg (fun cs => Text.trim (List.takeWhile (· != '=') cs)) h
    simp only [List.takeWhile_map, hequals, Text.trim_toLower] at htaken
    rw [hatype, hbtype, Text.fold, Text.fold, String.toList_ofList, String.toList_ofList, htaken]
  rw [Ava.key, Ava.key, htypes, Text.lowercase_trimmed_congr (parseValue_congr hvalues hv hw)]

theorem parseRdn_congr {cs ds : List Char} {r s : Rdn}
    (h : cs.map Char.toLower = ds.map Char.toLower) (hr : parseRdn cs = .ok r)
    (hs : parseRdn ds = .ok s) : r.key = s.key := by
  have hpieces : (splitUnescaped '+' cs).map (List.map Char.toLower) =
      (splitUnescaped '+' ds).map (List.map Char.toLower) := by
    rw [← splitUnescaped_toLower (Text.toLower_eq_iff (by decide)), h,
      splitUnescaped_toLower (Text.toLower_eq_iff (by decide))]
  unfold parseRdn at hr hs
  split at hr
  · cases hr
  · next as has =>
    cases hr
    split at hs
    · cases hs
    · next bs hbs =>
      cases hs
      rw [Rdn.key, Rdn.key, mapM_congr parseAva_congr hpieces has hbs]

/-- **Names whose texts differ in ASCII case only have one key.** -/
theorem key_eq_of_same {s t : String} {d e : Dn} (h : Text.same s t = true) (hd : parse s = .ok d)
    (he : parse t = .ok e) : d.key = e.key := by
  have htrim : (Text.trim s.toList).map Char.toLower = (Text.trim t.toList).map Char.toLower := by
    have hfold : s.toList.map Char.toLower = t.toList.map Char.toLower :=
      String.ofList_injective (Text.same_iff.1 h)
    rw [← Text.trim_toLower, hfold, Text.trim_toLower]
  have hparts : (splitUnescaped ',' (Text.trim s.toList)).map (List.map Char.toLower) =
      (splitUnescaped ',' (Text.trim t.toList)).map (List.map Char.toLower) := by
    rw [← splitUnescaped_toLower (Text.toLower_eq_iff (by decide)), htrim,
      splitUnescaped_toLower (Text.toLower_eq_iff (by decide))]
  have hempty : (Text.trim s.toList).isEmpty = (Text.trim t.toList).isEmpty := by
    rw [← List.isEmpty_map (f := Char.toLower), htrim, List.isEmpty_map]
  unfold parse at hd he
  dsimp only at hd he
  split at hd
  · next hnone =>
    rw [if_pos (hempty ▸ hnone)] at he
    cases hd
    cases he
    rfl
  · next hsome =>
    rw [if_neg (hempty ▸ hsome)] at he
    obtain ⟨rdns, hrdns, hdeq⟩ := bind_ok hd
    obtain ⟨rdns', hrdns', heeq⟩ := bind_ok he
    cases hdeq
    cases heeq
    have hkeys := mapM_congr (fun hpart hr hs =>
      parseRdn_congr hpart (of_unless hr) (of_unless hs)) hparts hrdns hrdns'
    rw [key, key, hkeys]

end Dn

namespace KindDescriptor

/-- **A value refers to every reference that it equals ignoring ASCII case.** -/
theorem refersTo_of_same (d : KindDescriptor) {stored reference : String}
    (h : Text.same stored reference = true) : d.refersTo stored reference = true := by
  unfold refersTo
  split
  · split
    · next a b ha hb => exact Dn.same_iff.2 (Dn.key_eq_of_same h ha hb)
    · exact h
  · exact h

end KindDescriptor

end Roster
