import Mathlib.Data.Finset.Basic
import Mathlib.Data.Finset.Dedup
import Mathlib.Logic.Function.Basic
import Roster.Proofs.Extras

/-!
# Modifications as operations on sets

Without regard to case and order an entry assigns a finite set of values to each attribute name
(`Attributes.valueSets`). A modification has a plain meaning there (`ValueSets.executeAll`): its items
put values in, take values out or set them anew, one after the other, and the first value that is there
already, or is not there, refuses the rest. `run_modify_refines` says that this is what becomes of a
stored entry, as long as none of its attributes is empty or holds a value in two spellings: the
directory accepts what the sets accept, and it names the attribute and the value that they refuse.

`Attributes.Refines` relates what came of the attributes to what came of the sets, and `Refines.foldlM`
carries it from single values to the values of an item, and from items to whole modifications.
-/

namespace Roster

namespace Text

/-- The texts of a list without regard to their order and to ASCII case. -/
def foldedSet (values : List String) : Finset String :=
  (values.map fold).toFinset

theorem mem_foldedSet {values : List String} {value : String} :
    fold value ∈ foldedSet values ↔ holds values value = true := by
  rw [foldedSet, List.mem_toFinset, holds_iff_mem]

theorem foldedSet_eq_empty {values : List String} : foldedSet values = ∅ ↔ values = [] := by
  rw [foldedSet, List.toFinset_eq_empty_iff, List.map_eq_nil_iff]

theorem foldedSet_append_singleton (values : List String) (value : String) :
    foldedSet (values ++ [value]) = insert (fold value) (foldedSet values) := by
  ext x
  rw [Finset.mem_insert, foldedSet, List.mem_toFinset, List.map_append, List.mem_append,
    List.map_singleton, List.mem_singleton, foldedSet, List.mem_toFinset, or_comm]

/-- Without its first spelling a value is gone from the set, if it has only one. -/
theorem Distinct.foldedSet_eraseP {values : List String} (h : Distinct values) (value : String) :
    foldedSet (values.eraseP fun v => same v value) = (foldedSet values).erase (fold value) := by
  ext x
  rw [foldedSet, map_fold_eraseP, List.mem_toFinset, h.mem_erase_iff, Finset.mem_erase, foldedSet,
    List.mem_toFinset]

end Text

/-! ## Sets of values -/

/-- The values under each name, both in lower case; an attribute without values is not there. -/
abbrev ValueSets :=
  String → Finset String

/-- Why an item is not carried out, with the attribute and the value as the item spells them. -/
inductive Refusal where
  | present (name value : String)
  /-- The value is absent if the whole attribute is meant. -/
  | missing (name : String) (value : Option String)
  deriving DecidableEq, Repr

/-- The error by which the directory reports a refusal. -/
def Refusal.error (dn : String) : Refusal → DirectoryError
  | .present name value => .valueExists dn name (some value)
  | .missing name value => .noSuchAttribute dn name value

namespace ValueSets

open Text (fold foldedSet)

/-- Puts a value in, which must not be there. -/
def putIn (name : String) (sets : ValueSets) (value : String) : Except Refusal ValueSets :=
  if fold value ∈ sets (fold name) then .error (.present name value)
  else .ok (Function.update sets (fold name) (insert (fold value) (sets (fold name))))

/-- Takes a value out, which must be there. -/
def takeOut (name : String) (sets : ValueSets) (value : String) : Except Refusal ValueSets :=
  if fold value ∈ sets (fold name) then
    .ok (Function.update sets (fold name) ((sets (fold name)).erase (fold value)))
  else .error (.missing name (some value))

/-- Carries out one item. -/
def execute (sets : ValueSets) (item : Modification) : Except Refusal ValueSets :=
  match item.op with
  | .add => item.values.foldlM (putIn item.name) sets
  | .delete =>
    if item.values.isEmpty then
      if sets (fold item.name) = ∅ then .error (.missing item.name none)
      else .ok (Function.update sets (fold item.name) ∅)
    else item.values.foldlM (takeOut item.name) sets
  | .replace => .ok (Function.update sets (fold item.name) (foldedSet item.values))

/-- Carries out items in order, up to the first that is refused. -/
def executeAll (sets : ValueSets) (items : List Modification) : Except Refusal ValueSets :=
  items.foldlM execute sets

end ValueSets

namespace Attributes

open Text (fold foldedSet same)

/-- The attributes without regard to case and order. -/
def valueSets (attrs : Attributes) : ValueSets := fun key =>
  if fold key = key then foldedSet (attrs.values key) else ∅

/-- What came of the attributes is what came of the sets: the same sets, if the attributes are not
empty and hold no value in two spellings, or the error that reports the refusal. -/
def Refines (dn : String) : Except DirectoryError Attributes → Except Refusal ValueSets → Prop
  | .ok attrs, .ok sets => attrs.Filled ∧ attrs.ValuesDistinct ∧ attrs.valueSets = sets
  | .error e, .error r => e = r.error dn
  | _, _ => False

variable {attrs after : Attributes} {dn name : String}

theorem valueSets_fold (attrs : Attributes) (name : String) :
    attrs.valueSets (fold name) = foldedSet (attrs.values name) := by
  have hsame : same (fold name) name = true := Text.same_iff.2 (Text.fold_fold name)
  rw [valueSets, if_pos (Text.fold_fold name), attrs.values_congr hsame]

/-- A write under one name is seen in one set. -/
theorem valueSets_of_values {vs : List String}
    (h : ∀ other, after.values other = if same name other then vs else attrs.values other) :
    after.valueSets = Function.update attrs.valueSets (fold name) (foldedSet vs) := by
  funext key
  rw [Function.update_apply]
  split
  · next hkey => rw [hkey, valueSets_fold, h, if_pos (Text.same_refl name)]
  · next hkey =>
    unfold valueSets
    split
    · next hfold =>
      rw [h, if_neg fun hname => hkey (hfold.symm.trans (Text.same_iff.1 hname).symm)]
    · rfl

theorem Filled.contains_iff (h : attrs.Filled) :
    attrs.contains name = true ↔ attrs.valueSets (fold name) ≠ ∅ := by
  have hname := filled_iff.1 h name
  rw [valueSets_fold, ne_eq, Text.foldedSet_eq_empty, contains, values]
  cases hget : attrs.get? name with
  | none => simp
  | some values =>
    rw [hget] at hname
    simpa using hname

/-! ## Steps and runs -/

/-- What holds of each write holds of writes one after the other. -/
theorem Refines.foldlM {α : Type} {write : Attributes → α → Except DirectoryError Attributes}
    {execute : ValueSets → α → Except Refusal ValueSets} {xs : List α}
    (hstep : ∀ x ∈ xs, ∀ now : Attributes, now.Filled → now.ValuesDistinct →
      Refines dn (write now x) (execute now.valueSets x))
    (hfilled : attrs.Filled) (hdistinct : attrs.ValuesDistinct) :
    Refines dn (xs.foldlM write attrs) (xs.foldlM execute attrs.valueSets) := by
  induction xs generalizing attrs with
  | nil => exact ⟨hfilled, hdistinct, rfl⟩
  | cons x xs ih =>
    rw [List.forall_mem_cons] at hstep
    have hfirst := hstep.1 attrs hfilled hdistinct
    rw [List.foldlM_cons, List.foldlM_cons]
    cases hwrite : write attrs x with
    | error e =>
      cases hexecute : execute attrs.valueSets x with
      | error r =>
        rw [hwrite, hexecute] at hfirst
        exact hfirst
      | ok sets =>
        rw [hwrite, hexecute] at hfirst
        exact hfirst.elim
    | ok mid =>
      cases hexecute : execute attrs.valueSets x with
      | error r =>
        rw [hwrite, hexecute] at hfirst
        exact hfirst.elim
      | ok sets =>
        rw [hwrite, hexecute] at hfirst
        obtain ⟨hmid, hdistinct', rfl⟩ := hfirst
        exact ih hstep.2 hmid hdistinct'

section Values

variable (hfilled : attrs.Filled) (hdistinct : attrs.ValuesDistinct)

include hfilled hdistinct

theorem refines_addValue (value : String) :
    Refines dn (addValue dn name attrs value) (attrs.valueSets.putIn name value) := by
  rw [ValueSets.putIn, valueSets_fold]
  cases hadd : addValue dn name attrs value with
  | error e =>
    unfold addValue at hadd
    split at hadd
    · next hheld =>
      cases hadd
      rw [if_pos (Text.mem_foldedSet.2 hheld)]
      rfl
    · cases hadd
  | ok after =>
    obtain ⟨hnew, hvalues⟩ := addValue_ok hadd
    have hfree : ¬ fold value ∈ foldedSet (attrs.values name) := by
      rw [Text.mem_foldedSet, hnew]
      exact Bool.false_ne_true
    rw [← applyAll_add_one] at hadd
    rw [if_neg hfree]
    refine ⟨hfilled.applyAll hadd, hdistinct.applyAll hadd (by simp), ?_⟩
    rw [valueSets_of_values hvalues, Text.foldedSet_append_singleton]

theorem refines_deleteValue (value : String) :
    Refines dn (deleteValue dn name attrs value) (attrs.valueSets.takeOut name value) := by
  rw [ValueSets.takeOut, valueSets_fold]
  cases hdelete : deleteValue dn name attrs value with
  | error e =>
    unfold deleteValue at hdelete
    split at hdelete
    · cases hdelete
    · next hfree =>
      cases hdelete
      rw [if_neg (mt Text.mem_foldedSet.1 hfree)]
      rfl
  | ok after =>
    obtain ⟨hheld, hvalues⟩ := deleteValue_ok hdelete
    rw [← applyAll_delete_one] at hdelete
    rw [if_pos (Text.mem_foldedSet.2 hheld)]
    refine ⟨hfilled.applyAll hdelete, hdistinct.applyAll hdelete (by simp), ?_⟩
    rw [valueSets_of_values hvalues, (valuesDistinct_iff.1 hdistinct name).foldedSet_eraseP]

/-- An item does to the attributes what it does to the sets. -/
theorem refines_apply {item : Modification}
    (hitem : item.op = .replace → Text.Distinct item.values) :
    Refines dn (attrs.apply dn item) (attrs.valueSets.execute item) := by
  obtain ⟨op, name, values⟩ := item
  cases op with
  | add =>
    exact .foldlM (fun value _ _ hnow hnow' => refines_addValue hnow hnow' value) hfilled hdistinct
  | delete =>
    unfold apply ValueSets.execute
    dsimp only
    by_cases hnone : values.isEmpty = true
    · rw [if_pos hnone, if_pos hnone]
      by_cases hthere : attrs.contains name = true
      · rw [if_pos hthere, if_neg (hfilled.contains_iff.1 hthere)]
        have hvalues (other : String) :
            (attrs.erase name).values other = if same name other then [] else attrs.values other :=
          attrs.values_erase name other
        refine ⟨hfilled.erase name, valuesDistinct_iff.2 fun other => ?_,
          valueSets_of_values hvalues⟩
        rw [hvalues]
        split
        · exact List.nodup_nil
        · exact valuesDistinct_iff.1 hdistinct other
      · rw [if_neg hthere, if_pos (Classical.not_not.1 (mt hfilled.contains_iff.2 hthere))]
        rfl
    · rw [if_neg hnone, if_neg hnone]
      exact .foldlM (fun value _ _ hnow hnow' => refines_deleteValue hnow hnow' value)
        hfilled hdistinct
  | replace =>
    have hvalues (other : String) := attrs.values_settle name other values
    refine ⟨hfilled.settle name values, valuesDistinct_iff.2 fun other => ?_,
      valueSets_of_values hvalues⟩
    rw [hvalues]
    split
    · exact hitem rfl
    · exact valuesDistinct_iff.1 hdistinct other

/-- Items one after the other do to the attributes what they do to the sets. -/
theorem refines_applyAll {items : List Modification}
    (hitems : ∀ item ∈ items, item.op = .replace → Text.Distinct item.values) :
    Refines dn (attrs.applyAll dn items) (attrs.valueSets.executeAll items) :=
  .foldlM (fun item hitem _ hnow hnow' => refines_apply hnow hnow' (hitems item hitem))
    hfilled hdistinct

end Values

end Attributes

/-! ## Requests -/

/-- **A modification of a stored entry is what it is on sets.** The entry is left with the sets that
the items leave, beside the time stamp of the server, and no other entry changes; or the items are
refused, and no entry changes at all. -/
theorem Directory.run_modify_refines (supply : Supply) {dir : Directory} {dn : Dn} {e : Entry}
    {items : List Modification} (hwritable : dn.isIn dir.denied = false)
    (hentry : dir.entry? dn = some e) (hfilled : e.attributes.Filled)
    (hdistinct : e.attributes.ValuesDistinct)
    (hitems : ∀ item ∈ items, item.op = .replace → Text.Distinct item.values) :
    (∀ sets, e.attributes.valueSets.executeAll items = .ok sets →
      ∃ after attrs, dir.run (modify supply dn items) = (.ok (), after) ∧
        after.entry? dn = some ⟨e.dn, attrs⟩ ∧ attrs.Filled ∧ attrs.ValuesDistinct ∧
        attrs.valueSets = Function.update sets (Text.fold "modifyTimestamp")
          {Text.fold (supply.time dir.handled)} ∧
        ∀ other : Dn, dn.key ≠ other.key → after.entry? other = dir.entry? other) ∧
    (∀ refusal, e.attributes.valueSets.executeAll items = .error refusal →
      ∃ after, dir.run (modify supply dn items) = (.error (refusal.error dn.text), after) ∧
        after.entries = dir.entries) := by
  have hrefines : Attributes.Refines dn.text (e.attributes.applyAll dn.text items)
      (e.attributes.valueSets.executeAll items) :=
    Attributes.refines_applyAll hfilled hdistinct hitems
  constructor
  · intro sets hexecute
    rw [hexecute] at hrefines
    cases happly : e.attributes.applyAll dn.text items with
    | error err =>
      rw [happly] at hrefines
      exact hrefines.elim
    | ok attrs =>
      rw [happly] at hrefines
      obtain ⟨hfilled', hdistinct', rfl⟩ := hrefines
      have hfound := Entries.get?_insert_stamped hentry
        (attrs.put "modifyTimestamp" [supply.time dir.handled])
      refine ⟨_, _, run_modify_of_applyAll hwritable hentry happly,
        (hfound dn).trans (if_pos rfl), hfilled'.put (List.cons_ne_nil _ _),
        hdistinct'.put _ _, ?_, fun other hother => (hfound other).trans (if_neg hother)⟩
      exact Attributes.valueSets_of_values fun other => attrs.values_put _ other _
  · intro refusal hexecute
    rw [hexecute] at hrefines
    cases happly : e.attributes.applyAll dn.text items with
    | error err =>
      rw [happly] at hrefines
      cases hrefines
      exact ⟨_, run_modify_of_error supply hwritable hentry happly, rfl⟩
    | ok attrs =>
      rw [happly] at hrefines
      exact hrefines.elim

namespace Sample

/-- A group with two members. -/
def smallTeam : Entry :=
  ⟨name "cn" "team", .ofList [("cn", ["team"]), ("memberUid", ["Ann", "bea"])]⟩

/-- Two members join a group and one leaves it. -/
theorem smallTeam_refines :
    let items : List Modification :=
      [⟨.add, "MEMBERUID", ["carl", "dora"]⟩, ⟨.delete, "memberUid", ["ann"]⟩]
    ∃ after attrs, (Directory.empty.seed smallTeam).run
        (Directory.modify provisioner.supply smallTeam.dn items) = (.ok (), after) ∧
      after.entry? smallTeam.dn = some ⟨smallTeam.dn, attrs⟩ ∧
      attrs.valueSets "memberuid" = {"bea", "carl", "dora"} := by
  intro items
  have hmembers : (smallTeam.attributes.valueSets.executeAll items).toOption.map (· "memberuid") =
      some {"bea", "carl", "dora"} := by decide +kernel
  have hentry : Directory.entry? (Directory.empty.seed smallTeam) smallTeam.dn = some smallTeam := by
    decide
  have hitems : ∀ item ∈ items, item.op = .replace → Text.Distinct item.values := by decide
  have hrefines := Directory.run_modify_refines provisioner.supply (by decide) hentry (by decide)
    (by decide) hitems
  cases hexecute : smallTeam.attributes.valueSets.executeAll items with
  | error refusal =>
    rw [hexecute] at hmembers
    cases hmembers
  | ok sets =>
    rw [hexecute] at hmembers
    obtain ⟨after, attrs, hrun, hstored, -, -, hsets, -⟩ := hrefines.1 sets hexecute
    refine ⟨after, attrs, hrun, hstored, ?_⟩
    rw [hsets, Function.update_of_ne (by decide)]
    exact Option.some.inj hmembers

/-- A value that the same item puts in counts at once. -/
example : (match smallTeam.attributes.valueSets.executeAll
      [⟨.add, "memberUid", ["carl", "CARL"]⟩] with
    | .ok _ => none
    | .error refusal => some refusal) = some (.present "memberUid" "CARL") := by decide +kernel

end Sample

end Roster
