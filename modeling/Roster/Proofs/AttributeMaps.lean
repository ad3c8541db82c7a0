import Mathlib.Data.List.Basic
import Mathlib.Data.List.Induction
import Mathlib.Logic.Function.Basic
import Roster.Proofs.LazyDiffs
import Roster.Proofs.Spelling
import Roster.Proofs.Values

/-!
# Attributes as an ordered map

The attributes of an entry are a list, and every look-up takes the first name that matches. This is an
ordered map (`OrderedMap`) on names in lower case as long as no two names match each other: after any
edits, whatever is read from the list is what the same edits on names in lower case leave in the map
(`edited_refines`). Two things have no counterpart there, the spelling of a name and the place where it
stands. `keptFrom?` tells both from the history alone: a name is spelled as in the edit that brought it
in, and names stand in the order of these edits, the ones that were taken out since left aside.

`Mirrors` relates the list to the map and is kept by each edit (`Mirrors.apply`); `names_apply` is the
same step for the names.
-/

namespace Roster

namespace Text

/-- No other text becomes a star in lower case. -/
theorem fold_eq_star {s : String} : fold s = "*" ↔ s = "*" := by
  refine ⟨fun h => ?_, fun h => by rw [h]; decide⟩
  have hlist : s.toList.map Char.toLower = ['*'] := by
    rw [← String.toList_ofList (l := s.toList.map Char.toLower)]
    exact congrArg String.toList h
  obtain ⟨c, hs, hc⟩ := List.map_eq_singleton_iff.1 hlist
  rw [← String.ofList_toList (s := s), hs, (toLower_eq_iff (by decide) c).1 hc]

end Text

/-! ## Look-ups after a write -/

namespace AttributePairs

theorem isSome_get? (pairs : AttributePairs) (name : String) :
    (get? pairs name).isSome = decide (Text.fold name ∈ keys pairs) := by
  rw [Bool.eq_iff_iff, decide_eq_true_iff]
  constructor
  · intro h
    obtain ⟨values, hvalues⟩ := Option.isSome_iff_exists.1 h
    obtain ⟨key, hmem, hkey⟩ := mem_of_get? hvalues
    exact List.mem_map.2 ⟨_, hmem, Text.same_iff.1 hkey⟩
  · intro h
    by_contra hnone
    obtain ⟨pair, hmem, hfold⟩ := List.mem_map.1 h
    rw [Bool.not_eq_true, Option.isSome_eq_false_iff, Option.isNone_iff_eq_none, get?,
      Option.map_eq_none_iff] at hnone
    exact List.find?_eq_none.1 hnone pair hmem (Text.same_iff.2 hfold)

theorem get?_adjust (f : List String → List String) (name other : String)
    (pairs : AttributePairs) :
    get? (adjust f name pairs) other =
      if Text.same name other then (get? pairs name).map f else get? pairs other := by
  induction pairs with
  | nil => split <;> rfl
  | cons pair rest ih =>
    rw [adjust, List.map_cons, ← adjust, get?_cons, get?_cons, get?_cons, ih]
    by_cases hpair : Text.same pair.1 name = true
    · rw [if_pos hpair, Text.same_left hpair]
      by_cases hother : Text.same name other = true
      · rw [if_pos hother, if_pos hother, if_pos hpair, Option.map_some]
      · simp only [if_neg hother]
    · simp only [if_neg hpair]
      by_cases hother : Text.same pair.1 other = true
      · have hname : ¬ Text.same name other = true := fun h =>
          hpair (Text.same_trans hother (Text.same_symm h))
        rw [if_pos hother, if_neg hname, if_pos hother]
      · rw [if_neg hother, if_neg hother]

theorem keys_filter (p : String → Bool) (pairs : AttributePairs) :
    keys (pairs.filter fun pair => p (Text.fold pair.1)) = (keys pairs).filter p := by
  rw [keys, keys, List.filter_map]
  rfl

end AttributePairs

/-! ## Edits -/

/-- A change of a list of attributes. -/
inductive Attributes.Edit where
  | put (name : String) (values : List String)
  | extend (name : String) (values : List String)
  | remove (name : String)
  | project (wanted : List String)
  /-- Appends a value in place, if the attribute is there. -/
  | push (name value : String)

namespace Attributes

namespace Edit

def apply (attrs : Attributes) : Edit → Attributes
  | put name values => attrs.put name values
  | extend name values => attrs.extend name values
  | remove name => attrs.erase name
  | project wanted => attrs.project wanted
  | push name value => attrs.adjust name (· ++ [value])

/-- The same edit with its names in lower case. -/
def folded : Edit → Edit
  | put name values => put (Text.fold name) values
  | extend name values => extend (Text.fold name) values
  | remove name => remove (Text.fold name)
  | project wanted => project (wanted.map Text.fold)
  | push name value => push (Text.fold name) value

/-- The name that an edit is about, if it is about one. -/
def name? : Edit → Option String
  | put name _ | extend name _ | remove name | push name _ => some name
  | project _ => none

/-- The name that an edit brings in, if it is not there yet. -/
def brings? : Edit → Option String
  | put name _ | extend name _ => some name
  | remove _ | project _ | push _ _ => none

/-- Whether an edit takes a name out. -/
def drops : Edit → String → Bool
  | remove name, other => Text.same other name
  | project wanted, other => !(wanted.isEmpty || wanted.contains "*" || Text.holds wanted other)
  | put _ _, _ | extend _ _, _ | push _ _, _ => false

end Edit

/-- What edits make of no attributes. -/
def edited (edits : List Edit) : Attributes :=
  edits.foldl Edit.apply empty

theorem edited_append_singleton (edits : List Edit) (edit : Edit) :
    edited (edits ++ [edit]) = edit.apply (edited edits) := by
  rw [edited, List.foldl_append]
  rfl

/-! ## The map -/

/-- A map whose keys stand in an order and are equal only if they are the same text. -/
structure OrderedMap where
  keys : List String
  table : String → Option (List String)

namespace OrderedMap

def empty : OrderedMap :=
  ⟨[], fun _ => none⟩

/-- Gives a key its values; a new key comes last. -/
def bind (m : OrderedMap) (key : String) (values : List String) : OrderedMap :=
  ⟨if key ∈ m.keys then m.keys else m.keys ++ [key], Function.update m.table key (some values)⟩

theorem bind_table (m : OrderedMap) (key : String) (values : List String) (other : String) :
    (m.bind key values).table other = if other = key then some values else m.table other :=
  Function.update_apply ..

/-- Keeps the keys of a set. -/
def restrict (m : OrderedMap) (kept : String → Bool) : OrderedMap :=
  ⟨m.keys.filter kept, fun key => if kept key then m.table key else none⟩

def apply (m : OrderedMap) : Edit → OrderedMap
  | .put key values => m.bind key values
  | .extend key values =>
    let old := (m.table key).getD []
    m.bind key (old ++ (values.filter fun v => !old.contains v).eraseDups)
  | .remove key => m.restrict (· ≠ key)
  | .project wanted => if wanted = [] ∨ "*" ∈ wanted then m else m.restrict (· ∈ wanted)
  | .push key value =>
    ⟨m.keys, Function.update m.table key ((m.table key).map (· ++ [value]))⟩

/-- What edits make of an empty map. -/
def edited (edits : List Edit) : OrderedMap :=
  edits.foldl apply empty

/-- The keys with their values, in order. -/
def entries (m : OrderedMap) : List (String × List String) :=
  m.keys.filterMap fun key => (m.table key).map fun values => (key, values)

end OrderedMap

/-- A map has the names of the attributes in lower case, and their values. -/
structure Mirrors (attrs : Attributes) (m : OrderedMap) : Prop where
  keys : attrs.pairs.keys = m.keys
  table : ∀ name, attrs.get? name = m.table (Text.fold name)

namespace Mirrors

variable {attrs : Attributes} {m : OrderedMap}

theorem upsert (h : attrs.Mirrors m) (name : String) (f : List String → List String) :
    (attrs.upsert name f).Mirrors
      (m.bind (Text.fold name) (f ((m.table (Text.fold name)).getD []))) where
  keys := (AttributePairs.keys_upsert f name attrs.pairs).trans (by rw [h.keys]; rfl)
  table other := by
    rw [get?_upsert, OrderedMap.bind_table, h.table other, values, h.table name]
    simp only [Text.same_iff, eq_comm (a := Text.fold other)]

theorem restrict (h : attrs.Mirrors m) {attrs' : Attributes} (kept : String → Bool)
    (hpairs : attrs'.pairs = attrs.pairs.filter fun pair => kept (Text.fold pair.1)) :
    attrs'.Mirrors (m.restrict kept) where
  keys := by rw [hpairs, AttributePairs.keys_filter, h.keys, OrderedMap.restrict]
  table name := by
    rw [Attributes.get?, hpairs, AttributePairs.get?_filter_fold, ← Attributes.get?, h.table]
    rfl

/-- An edit does to the attributes what it does to the map, with its names in lower case. -/
theorem apply (h : attrs.Mirrors m) (edit : Edit) :
    (edit.apply attrs).Mirrors (m.apply edit.folded) := by
  cases edit with
  | put name values => exact h.upsert name fun _ => values
  | extend name values =>
    have hextend := h.upsert name fun old => OrderedSet.insertAll old values
    rwa [OrderedSet.insertAll_eq_append] at hextend
  | remove name =>
    refine h.restrict _ (List.filter_congr fun pair _ => ?_)
    rw [Bool.eq_iff_iff, Bool.not_eq_true', ← Bool.not_eq_true, Text.same_iff, decide_eq_true_iff]
  | project wanted =>
    have hall : (wanted.map Text.fold = [] ∨ "*" ∈ wanted.map Text.fold) ↔
        (wanted.isEmpty || wanted.contains "*") = true := by
      simp [Text.fold_eq_star]
    simp only [Edit.apply, Edit.folded, OrderedMap.apply, Attributes.project, hall]
    split
    · exact h
    · refine h.restrict _ (List.filter_congr fun pair _ => ?_)
      rw [Bool.eq_iff_iff, Text.holds_iff, decide_eq_true_iff, List.mem_map]
  | push name value =>
    have hkeys := AttributePairs.keys_adjust (· ++ [value]) name attrs.pairs
    refine ⟨hkeys.trans h.keys, fun other => ?_⟩
    have hadjust := AttributePairs.get?_adjust (· ++ [value]) name other attrs.pairs
    rw [← Attributes.get?, ← Attributes.get?, h.table, h.table] at hadjust
    refine hadjust.trans (Eq.trans ?_ (Function.update_apply ..).symm)
    simp only [Text.same_iff, eq_comm (a := Text.fold other)]

theorem edited (edits : List Edit) :
    (edited edits).Mirrors (OrderedMap.edited (edits.map Edit.folded)) := by
  induction edits using List.reverseRecOn with
  | nil => exact ⟨rfl, fun _ => rfl⟩
  | append_singleton edits edit ih =>
    rw [edited_append_singleton, List.map_append, OrderedMap.edited, List.foldl_append]
    exact ih.apply edit

end Mirrors

/-- Whatever is read from the attributes is what the map has. -/
structure ReadsAs (attrs : Attributes) (m : OrderedMap) : Prop where
  get : ∀ name, attrs.get? name = m.table (Text.fold name)
  first : ∀ name, attrs.first? name = (m.table (Text.fold name)).bind List.head?
  contains : ∀ name, attrs.contains name = decide (Text.fold name ∈ m.keys)
  size : attrs.size = m.keys.length
  pairs : (attrs.pairs.map fun pair => (Text.fold pair.1, pair.2)) = m.entries

theorem Mirrors.readsAs {attrs : Attributes} {m : OrderedMap} (h : attrs.Mirrors m) :
    attrs.ReadsAs m where
  get := h.table
  first name := by
    rw [first?, values, h.table]
    cases m.table (Text.fold name) <;> rfl
  contains name := by
    rw [Attributes.contains, Attributes.get?, AttributePairs.isSome_get?, h.keys]
  size := by rw [← h.keys, AttributePairs.keys, List.length_map, Attributes.size]
  pairs := by
    rw [OrderedMap.entries, ← h.keys, AttributePairs.keys, List.filterMap_map,
      ← List.filterMap_eq_map]
    refine List.filterMap_congr fun pair hpair => ?_
    have hget : attrs.get? pair.1 = some pair.2 :=
      AttributePairs.get?_of_mem attrs.distinct hpair (Text.same_refl _)
    simp only [Function.comp, ← h.table, hget, Option.map_some]

/-! ## Spellings and places -/

/-- Written values leave the names as they are; a new name comes last. -/
theorem names_upsert (attrs : Attributes) (name : String) (f : List String → List String) :
    (attrs.upsert name f).names =
      attrs.names ++ ((some name).filter fun name => !attrs.contains name).toList := by
  have hpairs (pairs : AttributePairs) : (pairs.upsert f name).map (·.1) =
      pairs.map (·.1) ++ if (pairs.get? name).isSome then [] else [name] := by
    induction pairs with
    | nil => rfl
    | cons pair rest ih =>
      rw [AttributePairs.upsert, AttributePairs.get?_cons]
      by_cases hpair : Text.same pair.1 name = true
      · rw [if_pos hpair, if_pos hpair, Option.isSome_some, if_pos rfl, List.append_nil]
        rfl
      · simp only [if_neg hpair, List.map_cons, ih, List.cons_append]
  refine (hpairs attrs.pairs).trans ?_
  rw [Option.filter_some, Attributes.contains, Attributes.get?]
  cases (attrs.pairs.get? name).isSome <;> rfl

/-- An edit leaves the names that it does not take out as and where they are, and puts the one that it
brings in behind them. -/
theorem names_apply (edit : Edit) (attrs : Attributes) :
    (edit.apply attrs).names = (attrs.names.filter fun name => !edit.drops name) ++
      (edit.brings?.filter fun name => !attrs.contains name).toList := by
  have hkept : attrs.names.filter (fun _ => !false) = attrs.names := List.filter_true _
  cases edit with
  | put name values | extend name values =>
    exact (attrs.names_upsert name _).trans (congrArg (· ++ _) hkept.symm)
  | remove name =>
    refine Eq.trans ?_ (List.append_nil _).symm
    simp only [Edit.apply, erase, names, Edit.drops, List.filter_map]
    rfl
  | project wanted =>
    refine Eq.trans ?_ (List.append_nil _).symm
    simp only [Edit.apply, project, Edit.drops, Bool.not_not]
    split
    · next hall => simp only [hall, Bool.true_or, List.filter_true]
    · next hsome =>
      simp only [Bool.not_eq_true] at hsome
      simp only [hsome, Bool.false_or, names, List.filter_map]
      rfl
  | push name value =>
    refine Eq.trans ?_ (congrArg (· ++ []) hkept.symm)
    refine Eq.trans ?_ (List.append_nil _).symm
    simp only [names, Edit.apply, adjust, AttributePairs.adjust, List.map_map]
    refine List.map_congr_left fun pair _ => ?_
    simp only [Function.comp]
    split <;> rfl

/-- The name that the edit at a position brought in and that none of the later edits has taken out, in
the spelling of that edit. -/
def keptFrom? (edits : List Edit) (i : Nat) : Option String :=
  (edits[i]?.bind Edit.brings?).filter fun name =>
    !(edited (edits.take i)).contains name && (edits.drop (i + 1)).all fun edit => !edit.drops name

/-- One more edit takes out what it takes out. -/
theorem keptFrom?_append_of_lt {edits : List Edit} {i : Nat} (h : i < edits.length) (edit : Edit) :
    keptFrom? (edits ++ [edit]) i = (keptFrom? edits i).filter fun name => !edit.drops name := by
  rw [keptFrom?, keptFrom?, Option.filter_filter, List.getElem?_append_left h,
    List.take_append_of_le_length (Nat.le_of_lt h), List.drop_append_of_le_length h]
  simp only [List.all_append, List.all_cons, List.all_nil, Bool.and_true, Bool.and_assoc]

theorem keptFrom?_append_length (edits : List Edit) (edit : Edit) :
    keptFrom? (edits ++ [edit]) edits.length =
      edit.brings?.filter fun name => !(edited edits).contains name := by
  simp [keptFrom?]

theorem names_edited (edits : List Edit) :
    (edited edits).names = (List.range edits.length).filterMap (keptFrom? edits) := by
  induction edits using List.reverseRecOn with
  | nil => rfl
  | append_singleton edits edit ih =>
    have hbefore : (List.range edits.length).filterMap (keptFrom? (edits ++ [edit])) =
        ((List.range edits.length).filterMap (keptFrom? edits)).filter
          fun name => !edit.drops name := by
      rw [List.filter_filterMap]
      exact List.filterMap_congr fun i hi => keptFrom?_append_of_lt (List.mem_range.1 hi) edit
    have hlast : [edits.length].filterMap (keptFrom? (edits ++ [edit])) =
        (edit.brings?.filter fun name => !(edited edits).contains name).toList := by
      rw [List.filterMap_cons, keptFrom?_append_length]
      cases edit.brings?.filter fun name => !(edited edits).contains name <;> rfl
    rw [edited_append_singleton, names_apply, ih, List.length_append, List.length_singleton,
      List.range_succ, List.filterMap_append, hbefore, hlast]

/-! ## Frame and projection -/

/-- An edit that is about one name changes what is under no other. -/
theorem Edit.get?_apply_of_ne {edit : Edit} {name other : String} (hname : edit.name? = some name)
    (hne : ¬ Text.same name other = true) (attrs : Attributes) :
    (edit.apply attrs).get? other = attrs.get? other := by
  cases edit with
  | put name' values | extend name' values =>
    cases hname
    exact (attrs.get?_upsert name other _).trans (if_neg hne)
  | remove name' =>
    cases hname
    exact (attrs.get?_erase name other).trans (if_neg hne)
  | project wanted => cases hname
  | push name' value =>
    cases hname
    have hadjust := AttributePairs.get?_adjust (· ++ [value]) name other attrs.pairs
    rwa [if_neg hne] at hadjust

theorem pairs_project (attrs : Attributes) (wanted : List String) :
    (attrs.project wanted).pairs = attrs.pairs.filter fun pair =>
      wanted.isEmpty || wanted.contains "*" || Text.holds wanted pair.1 := by
  unfold project
  split
  · next hall => simp only [hall, Bool.true_or, List.filter_true]
  · next hsome =>
    rw [Bool.not_eq_true] at hsome
    simp only [hsome, Bool.false_or]

/-- Whatever edits were made, the attributes are an ordered map on names in lower case: no two names
match, what is read is what the same edits on names in lower case leave in such a map, and names are
spelled and stand as the edits that brought them in. From there on an edit about one name changes what
is under no other, and a projection keeps exactly what it is asked for. -/
theorem edited_refines (edits : List Edit) :
    (edited edits).pairs.keys.Nodup ∧
    (edited edits).ReadsAs (OrderedMap.edited (edits.map Edit.folded)) ∧
    (edited edits).names = (List.range edits.length).filterMap (keptFrom? edits) ∧
    (∀ (edit : Edit) (name other : String), edit.name? = some name →
      ¬ Text.same name other = true →
      (edit.apply (edited edits)).get? other = (edited edits).get? other) ∧
    ∀ wanted : List String, ((edited edits).project wanted).pairs =
      (edited edits).pairs.filter fun pair =>
        wanted.isEmpty || wanted.contains "*" || Text.holds wanted pair.1 :=
  ⟨(edited edits).distinct, (Mirrors.edited edits).readsAs, names_edited edits,
    fun _ _ _ hname hne => Edit.get?_apply_of_ne hname hne _, pairs_project _⟩

end Attributes

namespace Sample

/-- A name comes back behind the others, in its new spelling. -/
def edits : List Attributes.Edit :=
  [.put "Mail" ["a"], .extend "uid" ["x", "x"], .remove "MAIL", .extend "mail" ["b", "b"]]

theorem edited_edits :
    (Attributes.edited edits).names = ["uid", "mail"] ∧
    ((Attributes.Edit.push "UID" "y").apply (Attributes.edited edits)).get? "Mail" = some ["b"] := by
  have h := Attributes.edited_refines edits
  refine ⟨h.2.2.1.trans (by decide +kernel), ?_⟩
  exact (h.2.2.2.1 (.push "UID" "y") "UID" "Mail" rfl (by decide +kernel)).trans (by decide +kernel)

end Sample

end Roster
