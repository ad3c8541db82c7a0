import Mathlib.Data.Multiset.Basic
import Roster.Directory.Entries
import Roster.Proofs.LowerCase

/-!
# What the key of a name says

The key of a name is the text of a name in normal form (`text_normal`): types and values are in
lower case, no blanks are around values, and the pairs of a relative name are in order. Normal forms
are read back as they are, so the key of a name that has been read determines its normal form
(`normal_eq_of_key_eq`), and with it what a reader would compare: the relative names one by one, each
as the pairs it holds, in any order (`Rdn.pairs`). What is decided by keys alone, such as the scope of
a single name or the place in a table, agrees with what is decided relative name by relative name.
-/

namespace Roster

/-! ## Normal forms -/

/-- The pair with its type and its value in lower case and without blanks around the value. -/
def Ava.normal (a : Ava) : Ava :=
  ⟨Text.fold a.type, Text.lowercase (Text.trimmed a.value)⟩

/-- The relative name with its pairs in normal form, in the order of their texts. -/
def Rdn.normal (r : Rdn) : Rdn :=
  ⟨(r.avas.map Ava.normal).mergeSort fun a b => a.text ≤ b.text⟩

/-- The name with its relative names in normal form. -/
def Dn.normal (d : Dn) : Dn :=
  ⟨d.rdns.map Rdn.normal⟩

/-- The pairs of a relative name, in normal form and in no order. -/
def Rdn.pairs (r : Rdn) : Multiset Ava :=
  r.avas.map Ava.normal

namespace Dn

variable {separator : Char} {cs : List Char}

/-! ## Types in lower case -/

theorem Whole.unsplit (h : Whole separator cs) : Unsplit separator cs := by
  have hcut : splitUnescaped separator cs = [cs] := by
    simpa [splitUnescaped] using h []
  exact Unsplit.of_mem_splitUnescaped (.inl rfl) cs (hcut ▸ List.mem_cons_self)

theorem Unsplit.toLower (hseparator : ∀ c : Char, c.toLower = separator ↔ c = separator)
    (h : Unsplit separator cs) : Unsplit separator (cs.map Char.toLower) := by
  induction h with
  | nil => exact .nil
  | dangling => exact .dangling
  | escaped c _ ih => exact .escaped c.toLower ih
  | plain hplain hother _ ih =>
    exact .plain (mt (toLower_eq_backslash _).1 hplain) (mt (hseparator _).1 hother) ih

end Dn

namespace Ava

variable {a : Ava}

@[simp] theorem text_normal (a : Ava) : a.normal.text = a.key :=
  rfl

theorem Tidy.toNormal (h : a.Tidy) : a.normal.Tidy := by
  have hwhole {separator : Char} (hseparator : ∀ c : Char, c.toLower = separator ↔ c = separator)
      (hequals : '=' ≠ separator) (h : Dn.Whole separator (a.type.toList ++ ['='])) :
      Dn.Whole separator ((Text.fold a.type).toList ++ ['=']) := by
    have htype := h.unsplit.of_prefix (List.prefix_append a.type.toList ['='])
    rw [Text.fold, String.toList_ofList]
    exact (htype.toLower hseparator).whole hequals
  refine ⟨⟨?_, ?_, ?_⟩, ?_, ?_⟩
  · rw [normal, Text.fold, String.toList_ofList, List.mem_map]
    rintro ⟨c, hc, hequals⟩
    exact h.equals ((Dn.toLower_eq_equals c).1 hequals ▸ hc)
  · exact hwhole (Text.toLower_eq_iff (by decide)) (by decide) h.comma
  · exact hwhole (Text.toLower_eq_iff (by decide)) (by decide) h.plus
  · rw [normal, Text.fold, String.toList_ofList]
    exact mt List.map_eq_nil_iff.1 h.type_ne_nil
  · rw [normal, Text.fold, String.toList_ofList, Text.trim_toLower, h.trim_type]

/-- No blanks are around the value of a normal form. -/
@[simp] theorem bare_normal (a : Ava) : a.normal.bare = a.normal := by
  rw [bare, normal, Text.trimmed_lowercase_trimmed]

@[simp] theorem normal_normal (a : Ava) : a.normal.normal = a.normal := by
  rw [normal, normal, Text.trimmed_lowercase_trimmed, Text.lowercase_lowercase, Text.fold_fold]

@[simp] theorem key_normal (a : Ava) : a.normal.key = a.key := by
  rw [← text_normal, normal_normal, text_normal]

end Ava

namespace Rdn

variable {r s : Rdn}

theorem perm_normal (r : Rdn) : r.normal.avas.Perm (r.avas.map Ava.normal) :=
  List.mergeSort_perm _ _

/-- The pairs of a normal form are in the order of their texts. -/
theorem ordered_normal (r : Rdn) : r.normal.avas.Pairwise fun a b => a.text ≤ b.text := by
  have h := @List.pairwise_mergeSort Ava (fun a b => decide (a.text ≤ b.text))
    (fun a b c hab hbc => by simpa using String.le_trans (by simpa using hab) (by simpa using hbc))
    (fun a b => by simpa using String.le_total a.text b.text) (r.avas.map Ava.normal)
  exact h.imp fun hle => by simpa using hle

/-- The key of a relative name is the text of its normal form. -/
@[simp] theorem text_normal (r : Rdn) : r.normal.text = r.key := by
  have hperm : (r.normal.avas.map Ava.text).Perm (r.avas.map Ava.key) := by
    simpa [Function.comp_def] using r.perm_normal.map Ava.text
  rw [text, key, Text.eq_sorted_of_perm (List.pairwise_map.2 r.ordered_normal) hperm]

@[simp] theorem key_normal (r : Rdn) : r.normal.key = r.key := by
  have hperm : (r.normal.avas.map Ava.key).Perm (r.avas.map Ava.key) := by
    simpa [Function.comp_def] using r.perm_normal.map Ava.key
  rw [key, key, Text.sorted_congr hperm]

theorem exists_of_mem_normal {a : Ava} (h : a ∈ r.normal.avas) : ∃ b ∈ r.avas, b.normal = a :=
  List.mem_map.1 (r.perm_normal.mem_iff.1 h)

theorem Tidy.toNormal (h : r.Tidy) : r.normal.Tidy := by
  refine ⟨fun hnone => h.avas_ne_nil ?_, fun a ha => ?_⟩
  · have hperm := r.perm_normal
    rw [hnone] at hperm
    exact List.map_eq_nil_iff.1 hperm.nil_eq.symm
  · obtain ⟨b, hb, rfl⟩ := exists_of_mem_normal ha
    exact (h.avas b hb).toNormal

@[simp] theorem bare_normal (r : Rdn) : r.normal.bare = r.normal := by
  have hbare : r.normal.avas.map Ava.bare = r.normal.avas := by
    refine (List.map_congr_left fun a ha => ?_).trans (List.map_id _)
    obtain ⟨b, -, rfl⟩ := exists_of_mem_normal ha
    exact b.bare_normal
  rw [bare, hbare]

/-- Relative names with one normal form hold the same pairs. -/
theorem pairs_congr (h : r.normal = s.normal) : r.pairs = s.pairs :=
  Multiset.coe_eq_coe.2 (r.perm_normal.symm.trans (h ▸ s.perm_normal))

/-- Relative names that hold the same pairs have one key. -/
theorem key_eq_of_pairs (h : r.pairs = s.pairs) : r.key = s.key := by
  have hperm : (r.avas.map Ava.key).Perm (s.avas.map Ava.key) := by
    simpa [Function.comp_def] using (Multiset.coe_eq_coe.1 h).map Ava.text
  rw [key, key, Text.sorted_congr hperm]

end Rdn

namespace Dn

variable {d e : Dn}

/-- The key of a name is the text of its normal form. -/
@[simp] theorem text_normal (d : Dn) : d.normal.text = d.key := by
  simp [text, normal, key, Function.comp_def]

@[simp] theorem key_normal (d : Dn) : d.normal.key = d.key := by
  simp [normal, key, Function.comp_def]

theorem Tidy.toNormal (h : d.Tidy) : d.normal.Tidy := by
  intro r hr
  obtain ⟨s, hs, rfl⟩ := List.mem_map.1 hr
  exact (h s hs).toNormal

@[simp] theorem bare_normal (d : Dn) : d.normal.bare = d.normal := by
  simp [normal, bare, Function.comp_def]

/-- The key of a name reads as its normal form, up to blanks around values. -/
theorem parse_key (hd : d.Tidy) : ∃ k, parse d.key = .ok k ∧ k.bare = d.normal := by
  have hread := parse_text_of_tidy hd.toNormal
  rwa [text_normal, bare_normal] at hread

/-- Names with one key have one normal form. -/
theorem normal_eq_of_key_eq (hd : d.Tidy) (he : e.Tidy) (h : d.key = e.key) :
    d.normal = e.normal := by
  obtain ⟨k, hk, hbare⟩ := parse_key hd
  obtain ⟨l, hl, hbare'⟩ := parse_key he
  rw [h, hl] at hk
  rw [← hbare, ← hbare', Except.ok.inj hk]

/-- **Names have one key if they agree relative name by relative name.** -/
theorem key_eq_iff_pairs (hd : d.Tidy) (he : e.Tidy) :
    d.key = e.key ↔ d.rdns.map Rdn.pairs = e.rdns.map Rdn.pairs := by
  constructor
  · intro h
    have hnormal := congrArg Dn.rdns (normal_eq_of_key_eq hd he h)
    exact map_eq_of_map_eq (fun _ _ _ _ => Rdn.pairs_congr) hnormal
  · intro h
    rw [key, key, map_eq_of_map_eq (fun _ _ _ _ => Rdn.key_eq_of_pairs) h]

/-- The key of a name tells the keys of its relative names. -/
theorem key_eq_iff_rdnKeys (hd : d.Tidy) (he : e.Tidy) :
    d.key = e.key ↔ d.rdns.map Rdn.key = e.rdns.map Rdn.key := by
  refine ⟨fun h => ?_, fun h => by rw [key, key, h]⟩
  exact map_eq_of_map_eq (fun _ _ _ _ => Rdn.key_eq_of_pairs) ((key_eq_iff_pairs hd he).1 h)

/-- Names are spellings of one if they are as long and one is within the other. -/
theorem same_iff_isWithin (hd : d.Tidy) (he : e.Tidy) :
    d.same e = true ↔ d.length = e.length ∧ d.isWithin e = true := by
  rw [same_iff, key_eq_iff_rdnKeys hd he, isWithin_iff]
  constructor
  · intro h
    exact ⟨by simpa [length] using congrArg List.length h, h ▸ List.suffix_refl _⟩
  · rintro ⟨hlength, hsuffix⟩
    exact (hsuffix.eq_of_length (by simpa [length] using hlength.symm)).symm

/-! ## Scopes -/

/-- A name is within a base if the base is a spelling of it or of a name above it. -/
theorem isWithin_iff_same (hd : d.Tidy) (he : e.Tidy) :
    d.isWithin e = true ↔ ∃ above : Dn, above.rdns <:+ d.rdns ∧ above.same e = true := by
  constructor
  · intro h
    have hdrop := List.suffix_iff_eq_drop.1 (isWithin_iff.1 h)
    rw [← List.map_drop] at hdrop
    exact ⟨_, List.drop_suffix _ _, same_iff.2 (by rw [key, key, hdrop])⟩
  · rintro ⟨above, hsuffix, hsame⟩
    have habove : above.Tidy := fun r hr => hd r (hsuffix.subset hr)
    have hkeys := (key_eq_iff_rdnKeys habove he).1 (same_iff.1 hsame)
    rw [isWithin_iff, ← hkeys]
    exact hsuffix.map Rdn.key

/-- A name is a child of a base if the base is a spelling of the name one level up. -/
theorem isChildOf_iff_same (hd : d.Tidy) (he : e.Tidy) :
    d.isChildOf e = true ↔ ∃ above, d.parent? = some above ∧ above.same e = true := by
  obtain ⟨rdns⟩ := d
  cases rdns with
  | nil => simp [isChildOf, length, parent?]
  | cons r rest =>
    have habove : (⟨rest⟩ : Dn).Tidy := fun s hs => hd s (List.mem_cons_of_mem r hs)
    have hstep (hlength : rest.length = e.rdns.length) :
        isWithin ⟨r :: rest⟩ e = true ↔ isWithin ⟨rest⟩ e = true := by
      rw [isWithin_iff, isWithin_iff, List.map_cons, List.suffix_cons_iff]
      refine or_iff_right fun heq => ?_
      have hcount := congrArg List.length heq
      simp [hlength] at hcount
    have hchild : isChildOf ⟨r :: rest⟩ e = true ↔
        rest.length = e.rdns.length ∧ isWithin ⟨rest⟩ e = true := by
      simp only [isChildOf, length, List.length_cons, Bool.and_eq_true, beq_iff_eq,
        Nat.add_right_cancel_iff]
      exact and_congr_right hstep
    rw [hchild]
    constructor
    · exact fun h => ⟨⟨rest⟩, rfl, (same_iff_isWithin habove he).2 h⟩
    · rintro ⟨above, hparent, hsame⟩
      cases hparent
      exact (same_iff_isWithin habove he).1 hsame

/-- **Names that have been read are one name if they are alike relative name by relative name**,
each up to the order of its pairs, the case of types and values and blanks around values: so they
are if they are as long and one is within the other. The key of a name reads as this name and is
its own key; it is the place of an entry in a table, so an entry stored under one name is found
under the other exactly if they are alike. And a scope that compares relative names agrees with the
scope of a single name, which compares keys. -/
theorem same_iff_alike {s t : String} (hs : parse s = .ok d) (ht : parse t = .ok e) :
    (d.same e = true ↔ d.rdns.map Rdn.pairs = e.rdns.map Rdn.pairs) ∧
    (d.same e = true ↔ d.length = e.length ∧ d.isWithin e = true) ∧
    (∃ k, parse d.key = .ok k ∧ k.same d = true ∧ k.key = d.key) ∧
    (∀ (entries : Entries) (x : Entry), x.dn = e → (entries.insert x).get? d =
      if d.rdns.map Rdn.pairs = e.rdns.map Rdn.pairs then some x else entries.get? d) ∧
    (Scope.base.covers e d = true ↔ d.length = e.length ∧ Scope.subtree.covers e d = true) ∧
    (Scope.oneLevel.covers e d = true ↔
      ∃ above, d.parent? = some above ∧ Scope.base.covers e above = true) ∧
    (Scope.subtree.covers e d = true ↔
      ∃ above : Dn, above.rdns <:+ d.rdns ∧ Scope.base.covers e above = true) := by
  have hd := tidy_of_parse hs
  have he := tidy_of_parse ht
  have halike := same_iff.trans (key_eq_iff_pairs hd he)
  refine ⟨halike, same_iff_isWithin hd he, ?_, ?_, same_iff_isWithin hd he,
    isChildOf_iff_same hd he, isWithin_iff_same hd he⟩
  · obtain ⟨k, hk, hbare⟩ := parse_key hd
    have hkey : k.key = d.key := by
      rw [← key_normal d]
      exact same_iff.1 (same_of_bare (hbare.trans d.bare_normal.symm))
    exact ⟨k, hk, same_iff.2 hkey, hkey⟩
  · rintro entries x rfl
    have hsym : x.dn.key = d.key ↔ d.rdns.map Rdn.pairs = x.dn.rdns.map Rdn.pairs :=
      eq_comm.trans (key_eq_iff_pairs hd he)
    rw [Entries.get?, Entries.find?_insert]
    simp only [hsym]
    rfl

end Dn

namespace Sample

/-- Two spellings of one name: with the pairs of the leaf in another order, in other case and with
blanks around a value. A shorter name is another one. -/
theorem twoSpellings_alike :
    ∃ d e f, Dn.parse "CN=Ann + sn=\\20Lee ,DC=X" = .ok d ∧ Dn.parse "sn=lee+cn=ANN,dc=x" = .ok e ∧
      Dn.parse "dc=x" = .ok f ∧ d.same e = true ∧ d.same f = false ∧
      Scope.oneLevel.covers f d = true := by
  have hd : Dn.parse "CN=Ann + sn=\\20Lee ,DC=X" =
      .ok ⟨[⟨[⟨"CN", "Ann"⟩, ⟨"sn", " Lee"⟩]⟩, .single "DC" "X"]⟩ := by decide +kernel
  have he : Dn.parse "sn=lee+cn=ANN,dc=x" =
      .ok ⟨[⟨[⟨"sn", "lee"⟩, ⟨"cn", "ANN"⟩]⟩, .single "dc" "x"]⟩ := by decide +kernel
  have hf : Dn.parse "dc=x" = .ok ⟨[.single "dc" "x"]⟩ := by decide +kernel
  obtain ⟨halike, -⟩ := Dn.same_iff_alike hd he
  obtain ⟨-, hlength, -, -, -, hlevel, -⟩ := Dn.same_iff_alike hd hf
  refine ⟨_, _, _, hd, he, hf, halike.2 (by decide +kernel), Bool.eq_false_iff.2 ?_,
    hlevel.2 ⟨_, rfl, by decide +kernel⟩⟩
  exact fun hsame => absurd (hlength.1 hsame).1 (by decide)

end Sample

end Roster
