import Roster.Proofs.Spelling
import Roster.Proofs.Values
import Roster.Provision.Create

/-!
# What the input of a creation supplies

The ordinary attributes of an input come together name by name: the values of the first attribute of
a name are taken as they are, and those of later ones join them unless they are there already. A new
entry gets these values, or the configured object classes if it is given none, and a first member if
it is a group that must have one. `partition_supplied` and `values_newAttributes` say so for each name
on its own.
-/

namespace Roster

namespace InputAttribute

/-- A value that is read as a name is the text of one. -/
theorem dnOf_ok (a : InputAttribute) {v : InputValue} {dn : Dn} (h : a.dnOf v = .ok dn) :
    ∃ raw, v = .text raw ∧ Dn.parse raw = .ok dn ∧ dn.isRoot = false := by
  unfold dnOf at h
  cases v with
  | integer | boolean | binary | secret => cases h
  | text raw =>
    simp only [InputValue.text?] at h
    cases hparse : Dn.parse raw with
    | error e =>
      rw [hparse] at h
      cases h
    | ok parsed =>
      rw [hparse] at h
      dsimp only at h
      split at h
      · cases h
      · next hroot =>
        cases h
        exact ⟨raw, rfl, hparse, Bool.eq_false_iff.2 hroot⟩

end InputAttribute

namespace Input

/-! ## One attribute after the other -/

/-- What becomes of an input when an attribute is taken in whose name has some meaning. -/
def Takes (mode : InputMode) (input : Input) (a : InputAttribute) (input' : Input) :
    InputRole → Prop
  | .uid => False
  | .name => mode ≠ .values ∧
      ∃ dn, a.singleDn = .ok dn ∧ input' = { input with name := some dn }
  | .groups kind => ∃ groups, a.values.mapM a.dnOf = .ok groups ∧
      input' = { input with requests := input.requests.set kind (.ofGroups groups) }
  | .password => ∃ password, a.password = .ok password ∧ input' = { input with password }
  | .enable => ∃ enable, a.boolean = .ok enable ∧ input' = { input with enable }
  | .resetPassword => ∃ asked, a.boolean = .ok asked ∧
      input' = { input with resetPassword := asked.getD false }
  | .ordinary => ∃ values, a.encoded = .ok values ∧ input' = input.addOrdinary mode a.name values

theorem take_ok {mode : InputMode} {input input' : Input} {a : InputAttribute}
    (h : input.take mode a = .ok input') : Takes mode input a input' (InputRole.ofName a.name) := by
  unfold take at h
  cases hrole : InputRole.ofName a.name with
  | uid =>
    rw [hrole] at h
    cases h
  | name =>
    rw [hrole] at h
    dsimp only at h
    split at h
    · cases h
    · next hmode =>
      obtain ⟨dn, hdn, heq⟩ := Dn.bind_ok h
      cases heq
      exact ⟨hmode, dn, hdn, rfl⟩
  | groups | password | enable | resetPassword | ordinary =>
    rw [hrole] at h
    obtain ⟨read, hread, heq⟩ := Dn.bind_ok h
    cases heq
    exact ⟨read, hread, rfl⟩

/-- What each attribute of an input preserves, the whole input preserves. -/
theorem foldlM_take {mode : InputMode} {P : Input → List InputAttribute → Prop}
    (hstep : ∀ {a : InputAttribute} {rest : List InputAttribute} {input input' : Input},
      Takes mode input a input' (InputRole.ofName a.name) → P input (a :: rest) → P input' rest)
    {attributes : List InputAttribute} {start input : Input}
    (h : attributes.foldlM (take mode) start = .ok input) (hstart : P start attributes) :
    P input [] := by
  induction attributes generalizing start with
  | nil =>
    cases h
    exact hstart
  | cons a rest ih =>
    rw [List.foldlM_cons] at h
    obtain ⟨next, htake, hrest⟩ := Dn.bind_ok h
    exact ih hrest (hstep (take_ok htake) hstart)

/-- Ordinary attributes leave the rest of the input alone. -/
theorem addOrdinary_eq (mode : InputMode) (input : Input) (name : String) (values : List String) :
    input.addOrdinary mode name values =
      { input with ordinary := (input.addOrdinary mode name values).ordinary } := by
  unfold addOrdinary
  split
  · rfl
  · split <;> rfl

/-- An input without the attribute for it does not say whether the entry is enabled. -/
theorem enable_of_partition {mode : InputMode} {attributes : List InputAttribute} {input : Input}
    (h : partition mode attributes = .ok input)
    (hnone : ∀ a ∈ attributes, InputRole.ofName a.name ≠ .enable) : input.enable = none := by
  refine (foldlM_take (P := fun input rest => input.enable = none ∧
    ∀ a ∈ rest, InputRole.ofName a.name ≠ .enable) ?_ h ⟨rfl, hnone⟩).1
  rintro a rest input input' htakes ⟨hstart, hrest⟩
  rw [List.forall_mem_cons] at hrest
  refine ⟨?_, hrest.2⟩
  have hrole := hrest.1
  cases hmeaning : InputRole.ofName a.name with
  | uid =>
    rw [hmeaning] at htakes
    cases htakes
  | enable => exact absurd hmeaning hrole
  | name =>
    rw [hmeaning] at htakes
    obtain ⟨-, _, -, rfl⟩ := htakes
    exact hstart
  | groups | password | resetPassword =>
    rw [hmeaning] at htakes
    obtain ⟨_, -, rfl⟩ := htakes
    exact hstart
  | ordinary =>
    rw [hmeaning] at htakes
    obtain ⟨_, -, rfl⟩ := htakes
    rw [addOrdinary_eq]
    exact hstart

/-! ## Ordinary attributes -/

/-- Values that come for a name behind others, if there are others. -/
def join (earlier : Option (List String)) (values : List String) : Option (List String) :=
  match earlier with
  | none => some values
  | some old => some (OrderedSet.insertAll old values)

/-- What an attribute of the input supplies for a name: its values, if it is an ordinary attribute of
this name and has some. -/
def suppliedBy (name : String) (a : InputAttribute) : Option (List String) :=
  if InputRole.ofName a.name = .ordinary ∧ Text.same a.name name = true then
    match a.encoded with
    | .ok (value :: rest) => some (value :: rest)
    | _ => none
  else none

/-- What an input supplies for a name, none if no ordinary attribute of the name has values. -/
def supplied? (attributes : List InputAttribute) (name : String) : Option (List String) :=
  (attributes.filterMap (suppliedBy name)).foldl join none

/-- The values of an ordinary attribute join those that came before under its name. -/
theorem get?_addOrdinary (input : Input) (name other : String) {values : List String}
    (hvalues : values ≠ []) :
    (input.addOrdinary .create name values).ordinary.get? other =
      if Text.same name other then join (input.ordinary.get? other) values
      else input.ordinary.get? other := by
  have hsent : ¬ (values.isEmpty = true ∧ InputMode.create = .create) := fun h =>
    hvalues (List.isEmpty_iff.1 h.1)
  rw [addOrdinary, if_neg hsent]
  by_cases hname : Text.same name other = true
  · have hold : input.ordinary.get? name = input.ordinary.get? other :=
      AttributePairs.get?_congr (Text.same_iff.1 hname) _
    rw [if_pos hname, ← hold]
    cases hget : input.ordinary.get? name with
    | none => simp [Attributes.contains, hget, Attributes.get?_put, hname, join]
    | some old =>
      simp [Attributes.contains, hget, Attributes.get?_extend, hname, join, Attributes.values]
  · rw [if_neg hname]
    split
    · rw [Attributes.get?_extend, if_neg hname]
    · rw [Attributes.get?_put, if_neg hname]

/-- An attribute of the input changes the ordinary attributes by what it supplies. -/
theorem Takes.ordinary {input input' : Input} {a : InputAttribute}
    (h : Takes .create input a input' (InputRole.ofName a.name)) (name : String) :
    input'.ordinary.get? name =
      (suppliedBy name a).elim (input.ordinary.get? name) (join (input.ordinary.get? name)) := by
  have hother {role : InputRole} (hrole : InputRole.ofName a.name = role)
      (hne : role ≠ .ordinary) : suppliedBy name a = none := by
    rw [suppliedBy, if_neg]
    rintro ⟨hordinary, -⟩
    exact hne (hrole.symm.trans hordinary)
  cases hrole : InputRole.ofName a.name with
  | uid =>
    rw [hrole] at h
    cases h
  | name =>
    rw [hrole] at h
    obtain ⟨-, _, -, rfl⟩ := h
    rw [hother hrole nofun]
    rfl
  | groups | password | enable | resetPassword =>
    rw [hrole] at h
    obtain ⟨_, -, rfl⟩ := h
    rw [hother hrole nofun]
    rfl
  | ordinary =>
    rw [hrole] at h
    obtain ⟨values, hvalues, rfl⟩ := h
    unfold suppliedBy
    rw [hrole, hvalues]
    cases values with
    | nil =>
      simp only [ite_self]
      rfl
    | cons value rest =>
      rw [get?_addOrdinary input a.name name (List.cons_ne_nil value rest)]
      by_cases hname : Text.same a.name name = true
      · rw [if_pos hname, if_pos ⟨rfl, hname⟩]
        rfl
      · rw [if_neg hname, if_neg fun both => hname both.2]
        rfl

/-- **The ordinary attributes of a new entry** are those that its input supplies. -/
theorem partition_supplied {attributes : List InputAttribute} {input : Input}
    (h : partition .create attributes = .ok input) (name : String) :
    input.ordinary.get? name = supplied? attributes name := by
  have hfold := foldlM_take (P := fun input rest =>
    (rest.filterMap (suppliedBy name)).foldl join (input.ordinary.get? name) =
      supplied? attributes name) ?_ h rfl
  · exact hfold
  · intro a rest input input' htakes hstart
    rw [htakes.ordinary name, ← hstart, List.filterMap_cons]
    cases suppliedBy name a with
    | none => rfl
    | some values => rfl

end Input

namespace Provisioner

/-! ## What a new entry gets -/

/-- The values of an attribute of a new entry before a first member is found for it: those of the
ordinary attributes, or the configured object classes if these hold none. -/
def defaulted (p : Provisioner) (entryClass : EntryClass) (ordinary : Attributes) (name : String) :
    List String :=
  match ordinary.get? name with
  | some values => values
  | none => if Text.same "objectClass" name then p.objectClasses entryClass else []

/-- A first member is found for a new group: a class requires members, and there are none. -/
def Seeds (p : Provisioner) (entryClass : EntryClass) (ordinary : Attributes) : Prop :=
  entryClass = .group ∧
    (∃ c ∈ p.defaulted entryClass ordinary "objectClass", c ∈ memberRequiringClasses) ∧
    p.defaulted entryClass ordinary p.configuration.groupMemberAttribute = []

instance (p : Provisioner) (entryClass : EntryClass) (ordinary : Attributes) :
    Decidable (p.Seeds entryClass ordinary) :=
  inferInstanceAs (Decidable (_ ∧ _ ∧ _))

/-- The values of a new entry before its password. -/
theorem values_newAttributes_of_ordinary (p : Provisioner) (entryClass : EntryClass)
    (ordinary : Attributes) (name : String) :
    (p.newAttributes entryClass ordinary).values name =
      if p.Seeds entryClass ordinary ∧
          Text.same p.configuration.groupMemberAttribute name = true then
        [p.configuration.principal]
      else p.defaulted entryClass ordinary name := by
  have hclasses (name : String) : (if ordinary.contains "objectClass" = true then ordinary else
      ordinary.put "objectClass" (p.objectClasses entryClass)).values name =
        p.defaulted entryClass ordinary name := by
    unfold defaulted
    by_cases hclass : Text.same "objectClass" name = true
    · have hget : ordinary.get? "objectClass" = ordinary.get? name :=
        AttributePairs.get?_congr (Text.same_iff.1 hclass) _
      rw [Attributes.contains, hget]
      cases hthere : ordinary.get? name with
      | none => simp [Attributes.values_put, hclass]
      | some values => simp [Attributes.values, hthere]
    · have hvalues : (if ordinary.contains "objectClass" = true then ordinary else
          ordinary.put "objectClass" (p.objectClasses entryClass)).values name =
            ordinary.values name := by
        split
        · rfl
        · rw [Attributes.values_put, if_neg hclass]
      rw [hvalues, Attributes.values]
      cases ordinary.get? name with
      | none => simp [hclass]
      | some values => rfl
  unfold newAttributes
  dsimp only
  generalize (if ordinary.contains "objectClass" = true then ordinary else
    ordinary.put "objectClass" (p.objectClasses entryClass)) = attrs at hclasses ⊢
  have hneeds : (entryClass = .group ∧ needsMemberSeed p.configuration attrs
      (attrs.values "objectClass") = true) ↔ p.Seeds entryClass ordinary := by
    simp [needsMemberSeed, Seeds, hclasses]
  by_cases hgroup : entryClass = .group
  · rw [if_pos hgroup, seedMember]
    by_cases hseeds : p.Seeds entryClass ordinary
    · rw [if_pos (hneeds.2 hseeds).2, Attributes.values_put, hclasses]
      simp only [hseeds, true_and]
    · rw [if_neg fun hneeded => hseeds (hneeds.1 ⟨hgroup, hneeded⟩), hclasses]
      simp only [hseeds, false_and, if_false]
  · have hseeds : ¬ p.Seeds entryClass ordinary := fun h => hgroup h.1
    rw [if_neg hgroup, hclasses]
    simp only [hseeds, false_and, if_false]

/-- The values of an attribute of a new entry before a first member is found for it: the supplied
ones, or the configured object classes if none of them are supplied. -/
def suppliedValues (p : Provisioner) (entryClass : EntryClass) (attributes : List InputAttribute)
    (name : String) : List String :=
  match Input.supplied? attributes name with
  | some values => values
  | none => if Text.same "objectClass" name then p.objectClasses entryClass else []

/-- A new group of a class that requires members is given none. -/
def LacksMember (p : Provisioner) (entryClass : EntryClass) (attributes : List InputAttribute) :
    Prop :=
  entryClass = .group ∧
    (∃ c ∈ p.suppliedValues entryClass attributes "objectClass", c ∈ memberRequiringClasses) ∧
    p.suppliedValues entryClass attributes p.configuration.groupMemberAttribute = []

instance (p : Provisioner) (entryClass : EntryClass) (attributes : List InputAttribute) :
    Decidable (p.LacksMember entryClass attributes) :=
  inferInstanceAs (Decidable (_ ∧ _ ∧ _))

/-- The values that a new entry is given for an attribute, apart from those of its name and its
password. -/
def givenValues (p : Provisioner) (entryClass : EntryClass) (attributes : List InputAttribute)
    (name : String) : List String :=
  if p.LacksMember entryClass attributes ∧
      Text.same p.configuration.groupMemberAttribute name = true then
    [p.configuration.principal]
  else p.suppliedValues entryClass attributes name

/-- **What is sent for an attribute of a new entry** is what the input and the configuration give. -/
theorem values_newAttributes {p : Provisioner} {entryClass : EntryClass}
    {attributes : List InputAttribute} {input : Input}
    (h : Input.partition .create attributes = .ok input) (name : String) :
    (p.newAttributes entryClass input.ordinary).values name =
      p.givenValues entryClass attributes name := by
  have hsupplied (name : String) :
      p.defaulted entryClass input.ordinary name = p.suppliedValues entryClass attributes name := by
    rw [defaulted, suppliedValues, Input.partition_supplied h]
  have hseeds : p.Seeds entryClass input.ordinary ↔ p.LacksMember entryClass attributes := by
    simp only [Seeds, LacksMember, hsupplied]
  rw [values_newAttributes_of_ordinary]
  exact ite_congr (propext (and_congr_left' hseeds)) (fun _ => rfl) fun _ => hsupplied name

end Provisioner

end Roster
