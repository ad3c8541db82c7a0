import Roster.Proofs.Following
import Roster.Proofs.InputValues
import Roster.Proofs.Reconciliation
import Roster.Proofs.RequestOrder

/-!
# What a creation leaves

A creation that succeeds has added an entry at a free name and then put a reference to it into the
groups that its input lists. `create_creates` says what every attribute of the new entry and of every
other entry is afterwards: the new entry holds what it was given, the values of its name and what the
server maintains; a listed group holds one reference more for each kind that lists it, unless it had
it; nothing else has changed. Only the time stamp that the server writes into a group is left out, and
with it groups that hold their members under that name (`stamped_team_loses_ann`).
-/

namespace Roster

open Directory (Unwritten unwritten_frame)

variable {dir mid after : Directory}

/-! ## Requests -/

/-- An entry is added only where there is none. -/
theorem Directory.free_of_add {supply : Supply} {dn : Dn} {attrs : Attributes}
    (h : dir.run (add supply dn attrs) = (.ok (), after)) : dir.entry? dn = none := by
  unfold add at h
  rw [run_perform] at h
  split at h
  · next houtcome =>
    cases hentry : dir.entry? dn with
    | none => rfl
    | some e =>
      unfold afterAdd at houtcome
      simp only [hentry, Option.isSome_some, if_true] at houtcome
      split at houtcome
      · obtain ⟨_, -, htaken⟩ := Dn.bind_ok houtcome
        cases htaken
      · cases houtcome
  · cases h

/-- The new entry at its name, and the other entries as they were. -/
theorem Directory.get?_of_add {supply : Supply} {dn : Dn} {attrs : Attributes}
    (h : dir.run (add supply dn attrs) = (.ok (), after)) (x : Dn) :
    after.entries.get? x =
      if dn.key = x.key then some ⟨dn, stamped supply dir.handled dn attrs⟩
      else dir.entries.get? x := by
  rw [run_add_ok h, Entries.get?, Entries.find?_insert]
  rfl

/-- The entry at a name is left alone. -/
def Untouched (x : Dn) (dir after : Directory) : Prop :=
  after.entries.get? x = dir.entries.get? x

theorem untouched_frame (x : Dn) : Frame (Untouched x) where
  refl _ := rfl
  trans hab hbc := hbc.trans hab

theorem keeps_untouched_modify {supply : Supply} {x group : Dn} {items : List Modification}
    (hne : group.key ≠ x.key) : Keeps (Untouched x) (Directory.modify supply group items) := by
  intro dir
  cases hrun : dir.run (Directory.modify supply group items) with
  | mk result after =>
    cases result with
    | error err =>
      rw [Directory.run_perform_error hrun]
      rfl
    | ok _ =>
      obtain ⟨-, e, attrs, hentry, -, rfl⟩ := Directory.run_modify_ok hrun
      exact (Entries.get?_insert_stamped hentry _ x).trans (if_neg hne)

/-- What is stored at a name that was not given an entry was stored there before. -/
theorem Vacant.exists {x : Dn} (h : Vacant x dir after) {e : Entry}
    (hstored : after.entries.get? x = some e) : ∃ e', dir.entries.get? x = some e' := by
  cases hentry : dir.entries.get? x with
  | none =>
    rw [h hentry] at hstored
    cases hstored
  | some e' => exact ⟨e', rfl⟩

/-- Computations without requests leave the directory as it is. -/
theorem eq_frame : Frame fun dir after : Directory => after = dir where
  refl _ := rfl
  trans hab hbc := hbc.trans hab

/-- A membership can only be added to a group that is there. -/
theorem KindDescriptor.stored_of_addMembership {d : KindDescriptor} {supply : Supply}
    {m : GroupMembership} (hrun : dir.run (d.addMembership supply m) = (.ok (), after)) :
    ∃ e, dir.entries.get? m.group = some e := by
  unfold addMembership at hrun
  rw [Directory.run_tryCatch] at hrun
  split at hrun
  · next mid hmodify =>
    obtain ⟨-, e, -, hentry, -⟩ := Directory.run_modify_ok hmodify
    exact ⟨e, hentry⟩
  · next err mid hmodify =>
    split at hrun
    · next hexists =>
      obtain ⟨e, hentry, -⟩ :=
        Directory.exists_entry_of_holdsAt (holdsAt_of_isValueExists hexists hmodify)
      exact ⟨e, hentry⟩
    · cases hrun

namespace Provisioner

variable {p : Provisioner} {dn : Dn} {attrs : Attributes} {requests : GroupRequests}
  {kind : MembershipKind} {reference : String} {diff : Diff GroupMembership}

/-! ## The stages -/

/-- The password that a run chooses that has come to some number of requests. -/
def chosenPassword (p : Provisioner) (input : Input) (tick : Nat) : Option Secret :=
  if input.resetPassword then some (.random (p.supply.die tick) Password.randomLength)
  else input.password

/-- A text stores the chosen password, or nothing is stored because none is chosen. -/
def Stores (p : Provisioner) (input : Input) (tick : Nat) (stored : Option String) : Prop :=
  match p.chosenPassword input tick with
  | none => stored = none
  | some secret => ∃ text, Password.hash? p.algorithm secret.octets (p.supply.salt tick) = some text ∧
      stored = some text

theorem run_ofInput_ok {α : Type} {checked : Except ValidationError α} {a : α}
    (hrun : dir.run (ofInput checked) = (.ok a, after)) : checked = .ok a ∧ dir = after := by
  cases checked with
  | error err => cases hrun
  | ok b =>
    cases hrun
    exact ⟨rfl, rfl⟩

/-- Malformed input ends an operation. -/
theorem run_ofInput_error {α β : Type} (dir : Directory) (e : ValidationError)
    (next : α → Action β) :
    dir.run (ofInput (.error e : Except ValidationError α) >>= next) =
      (.error (.validation e), dir) :=
  rfl

theorem run_ofInput_sorted {α β : Type} (dir : Directory) (a : α) (next : α → Action β) :
    dir.run (ofInput (.ok a : Except ValidationError α) >>= next) = dir.run (next a) :=
  rfl

/-- A password is stored with the salt of the moment, if it can be stored. -/
theorem run_hashPassword (p : Provisioner) (secret : Secret) (dir : Directory) :
    dir.run (p.hashPassword (some secret)) =
      ((Password.hash? p.algorithm secret.octets (p.supply.salt dir.handled)).elim
        (.error (.validation .nonUtf8Password)) fun text => .ok (some text), dir) := by
  have hget : dir.run (get : Action Directory) = (.ok dir, dir) := rfl
  unfold hashPassword
  dsimp only
  rw [Directory.run_bind, hget]
  dsimp only
  cases Password.hash? p.algorithm secret.octets (p.supply.salt dir.handled) <;> rfl

theorem run_choosePassword (p : Provisioner) (input : Input) (dir : Directory) :
    dir.run (p.choosePassword input) = (.ok (p.chosenPassword input dir.handled), dir) := by
  unfold choosePassword chosenPassword
  split <;> rfl

theorem stores_of_run {input : Input} {stored : Option String}
    (hrun : dir.run (p.choosePassword input >>= p.hashPassword) = (.ok stored, after)) :
    after = dir ∧ p.Stores input dir.handled stored := by
  rw [Directory.run_bind, run_choosePassword] at hrun
  unfold Stores
  dsimp only at hrun
  cases hchosen : p.chosenPassword input dir.handled with
  | none =>
    rw [hchosen] at hrun
    cases hrun
    exact ⟨rfl, rfl⟩
  | some secret =>
    rw [hchosen, run_hashPassword] at hrun
    cases htext : Password.hash? p.algorithm secret.octets (p.supply.salt dir.handled) with
    | none =>
      rw [htext] at hrun
      cases hrun
    | some text =>
      rw [htext] at hrun
      cases hrun
      exact ⟨rfl, text, htext, rfl⟩

theorem keeps_eq_joining (p : Provisioner) (dn : Dn) (attrs : Attributes) (requests : GroupRequests)
    (kind : MembershipKind) : Keeps (fun dir after => after = dir)
      (p.joining dn attrs requests kind) := by
  unfold joining
  dsimp only
  split
  · exact eq_frame.keeps_pure _
  · refine eq_frame.keeps_bind ?_ fun _ => eq_frame.keeps_pure _
    unfold requireCanonical
    split
    · exact eq_frame.keeps_pure _
    · exact eq_frame.keeps_throw _

theorem keeps_eq_joinings (p : Provisioner) (dn : Dn) (attrs : Attributes)
    (requests : GroupRequests) : Keeps (fun dir after => after = dir)
      (MembershipKind.all.mapM fun kind => do
        return (kind, ← p.joining dn attrs requests kind) :
          Action (List (MembershipKind × Diff GroupMembership))) :=
  eq_frame.keeps_mapM fun kind _ => eq_frame.keeps_bind (p.keeps_eq_joining dn attrs requests kind)
    fun _ => eq_frame.keeps_pure _

/-- A creation has gone through these stages: its input was sorted, references and a password were
worked out, the entry was added, and it joined its groups. -/
structure CreationStages (p : Provisioner) (entryClass : EntryClass)
    (attributes : List InputAttribute) (dir : Directory) (input : Input) (dn : Dn)
    (reference : MembershipKind → String) (joins : MembershipKind → Diff GroupMembership)
    (stored : Option String) (added joined : Directory) : Prop where
  sorted : Input.partition .create attributes = .ok input
  named : input.name = some dn
  joining (kind : MembershipKind) : p.Joins dn (p.newAttributes entryClass (p.applyStatus input).1)
    (p.applyStatus input).2 kind (reference kind) (joins kind)
  stores : p.Stores input dir.handled stored
  add : dir.run (Directory.add p.supply dn
    (p.withPassword (p.newAttributes entryClass (p.applyStatus input).1) stored)) = (.ok (), added)
  join : added.run ((MembershipKind.all.map fun kind => (kind, joins kind)).forM
    fun (kind, diff) => liftM ((p.descriptor kind).applyDiff p.supply diff) : Action Unit) =
      (.ok (), joined)

theorem create_ok {entryClass : EntryClass} {attributes : List InputAttribute} {uid : String}
    (hrun : dir.run (p.create entryClass attributes) = (.ok uid, after)) :
    ∃ input dn reference joins stored added joined,
      p.CreationStages entryClass attributes dir input dn reference joins stored added joined ∧
        joined.run (p.identify entryClass dn) = (.ok uid, after) := by
  unfold create at hrun
  obtain ⟨input, _, hpartition, hrest⟩ := Directory.run_bind_ok.1 hrun
  obtain ⟨hinput, rfl⟩ := run_ofInput_ok hpartition
  obtain ⟨dn, _, hnamed, hrest⟩ := Directory.run_bind_ok.1 hrest
  obtain ⟨hname, rfl⟩ := run_ofInput_ok hnamed
  replace hname : input.name = some dn := by
    cases hasked : input.name with
    | none =>
      rw [hasked] at hname
      cases hname
    | some asked =>
      rw [hasked] at hname
      cases hname
      rfl
  dsimp only at hrest
  obtain ⟨diffs, planned, hdiffs, hrest⟩ := Directory.run_bind_ok.1 hrest
  rw [← bind_assoc] at hrest
  obtain ⟨stored, hashed, hstored, hrest⟩ := Directory.run_bind_ok.1 hrest
  obtain ⟨_, added, hadd, hrest⟩ := Directory.run_bind_ok.1 hrest
  obtain ⟨_, joined, hjoin, hidentify⟩ := Directory.run_bind_ok.1 hrest
  -- Nothing is asked of the directory before the entry is added.
  have hplanned : planned = dir := (p.keeps_eq_joinings dn _ _).of_run hdiffs
  obtain ⟨rfl, hstores⟩ := stores_of_run hstored
  subst hplanned
  obtain ⟨joins, rfl, hjoins⟩ := (p.ends_joinAll (p.ends_joining_joins dn _ _)).of_run_ok hdiffs
  choose reference hreference using hjoins
  exact ⟨input, dn, reference, joins, stored, added, joined,
    ⟨hinput, hname, hreference, hstores, Directory.run_lift_ok hadd, hjoin⟩, hidentify⟩

/-! ## Joining groups -/

namespace Joins

theorem effectiveAdded (h : p.Joins dn attrs requests kind reference diff) :
    diff.effectiveAdded = diff.added := by
  rw [Diff.effectiveAdded, h.removed, OrderedSet.difference]
  simp

theorem effectiveRemoved (h : p.Joins dn attrs requests kind reference diff) :
    diff.effectiveRemoved = [] := by
  rw [Diff.effectiveRemoved, h.removed]
  rfl

/-- The new memberships are in the listed groups, all of them under one reference. -/
theorem of_mem (h : p.Joins dn attrs requests kind reference diff) {m : GroupMembership}
    (hm : m ∈ diff.added) : m.reference = reference ∧ m.group ∈ (requests.get kind).groups := by
  rw [h.added] at hm
  obtain ⟨group, hgroup, rfl⟩ := List.mem_map.1 (OrderedSet.mem_of_mem_insertAll_nil hm)
  exact ⟨rfl, hgroup⟩

/-- There is one new membership for a name that is listed, however often it is. -/
theorem exists_iff (h : p.Joins dn attrs requests kind reference diff) {x : Dn} :
    (∃ m ∈ diff.added, m.group.key = x.key) ↔ x.isIn (requests.get kind).groups = true := by
  rw [Dn.isIn, List.any_eq_true]
  constructor
  · rintro ⟨m, hm, hkey⟩
    exact ⟨m.group, (h.of_mem hm).2, Dn.same_iff.2 hkey.symm⟩
  · rintro ⟨group, hgroup, hsame⟩
    obtain ⟨m, hm, heq⟩ := OrderedSet.exists_mem_insertAll (α := GroupMembership) []
      (List.mem_map_of_mem (f := fun group => (⟨reference, group⟩ : GroupMembership)) hgroup)
    refine ⟨m, h.added ▸ hm, (GroupMembership.beq_iff.1 heq).2.trans ?_⟩
    exact (Dn.same_iff.1 hsame).symm

theorem referencesIn (h : p.Joins dn attrs requests kind reference diff) (x : Dn) :
    referencesIn diff.effectiveAdded x =
      if x.isIn (requests.get kind).groups then [reference] else [] := by
  rw [h.effectiveAdded]
  by_cases hin : x.isIn (requests.get kind).groups = true
  · rw [if_pos hin]
    refine referencesIn_of_exists (fun m hm => (h.of_mem hm).1) ?_ (h.exists_iff.2 hin)
    rw [h.added]
    exact OrderedSet.pairwise_insertAll List.Pairwise.nil _
  · rw [if_neg hin]
    exact referencesIn_of_not_exists (mt h.exists_iff.1 hin)

end Joins

/-- The references that an attribute of the entry at a name gains for one kind. -/
def gains (p : Provisioner) (requests : GroupRequests) (reference : MembershipKind → String)
    (name : String) (x : Dn) (kind : MembershipKind) : List String :=
  if Text.same (p.descriptor kind).memberAttribute name = true ∧
      x.isIn (requests.get kind).groups = true then [reference kind]
  else []

/-- Joining the groups of one kind alters the values of one attribute only. -/
theorem Joins.alters {references : MembershipKind → String} {x : Dn} {name : String}
    (h : p.Joins dn attrs requests kind (references kind) diff)
    (hstamp : ¬ Text.same "modifyTimestamp" name = true)
    (hrun : dir.run ((p.descriptor kind).applyDiff p.supply diff) = (.ok (), after)) :
    Alters x name (fun vs => (p.gains requests references name x kind).foldl Text.addNew vs) dir
      after := by
  by_cases hname : Text.same (p.descriptor kind).memberAttribute name = true
  · have hmember : ¬ Text.same "modifyTimestamp" (p.descriptor kind).memberAttribute = true :=
      fun hsame => hstamp (Text.same_trans hsame hname)
    have halters : Alters x (p.descriptor kind).memberAttribute _ dir after :=
      KindDescriptor.alters_applyDiff hmember hrun
    rw [h.effectiveRemoved, h.referencesIn] at halters
    have hvalues (e : Entry) : e.attributes.values (p.descriptor kind).memberAttribute =
        e.attributes.values name := e.attributes.values_congr hname
    unfold Alters at halters ⊢
    simp only [hvalues] at halters
    simp only [gains, hname, true_and]
    exact halters
  · have hnone : p.gains requests references name x kind = [] := if_neg fun both => hname both.1
    have hspares : Spares x name dir after := by
      refine ((spares_frame x name).keeps_applyDiff (fun m hm => ?_) fun m _ => ?_).of_run hrun
      · rw [h.removed] at hm
        cases hm
      · refine (spares_frame x name).keeps_addMembership
          (keeps_spares_modify hstamp fun _ item hitem => ?_)
        rw [List.mem_singleton.1 hitem]
        exact hname
    rw [hnone]
    exact hspares.alters

/-- Groups that are not listed are not touched. -/
theorem Joins.untouched {x : Dn} (h : p.Joins dn attrs requests kind reference diff)
    (hx : x.isIn (requests.get kind).groups = false)
    (hrun : dir.run ((p.descriptor kind).applyDiff p.supply diff) = (.ok (), after)) :
    Untouched x dir after := by
  refine ((untouched_frame x).keeps_applyDiff (fun m hm => ?_) fun m hm => ?_).of_run hrun
  · rw [h.removed] at hm
    cases hm
  · refine (untouched_frame x).keeps_addMembership (keeps_untouched_modify fun hkey => ?_)
    have hin := h.exists_iff.1 ⟨m, hm, hkey⟩
    rw [hx] at hin
    cases hin

/-- Memberships are added only to groups that are there from the start. -/
theorem stored_of_forM {memberships : List GroupMembership}
    (hrun : dir.run (memberships.forM ((p.descriptor kind).addMembership p.supply)) =
      (.ok (), after)) : ∀ m ∈ memberships, ∃ e, dir.entries.get? m.group = some e := by
  induction memberships generalizing dir with
  | nil => exact nofun
  | cons m rest ih =>
    obtain ⟨_, mid, hfirst, hrest⟩ := Directory.run_bind_ok.1 hrun
    rw [List.forall_mem_cons]
    refine ⟨KindDescriptor.stored_of_addMembership hfirst, fun m' hm' => ?_⟩
    obtain ⟨e, he⟩ := ih hrest m' hm'
    have hvacant : Vacant m'.group dir mid :=
      ((vacant_membershipFrame p m'.group).add kind m).of_run hfirst
    exact hvacant.exists he

/-- Groups are joined only if they are there. -/
theorem Joins.stored (h : p.Joins dn attrs requests kind reference diff)
    (hrun : dir.run ((p.descriptor kind).applyDiff p.supply diff) = (.ok (), after)) {group : Dn}
    (hgroup : group ∈ (requests.get kind).groups) : ∃ e, dir.entries.get? group = some e := by
  rw [KindDescriptor.applyDiff, h.effectiveRemoved, h.effectiveAdded] at hrun
  obtain ⟨_, _, hnone, hadd⟩ := Directory.run_bind_ok.1 hrun
  cases hnone
  obtain ⟨m, hm, hkey⟩ := h.exists_iff.2
    (List.any_eq_true.2 ⟨group, hgroup, Dn.same_iff.2 (Eq.refl group.key)⟩)
  obtain ⟨e, he⟩ := stored_of_forM hadd m hm
  exact ⟨e, (congrArg dir.entries.find? hkey).symm.trans he⟩

section Kinds

variable {references : MembershipKind → String} {joins : MembershipKind → Diff GroupMembership}
  {kinds : List MembershipKind} {x : Dn} {name : String}
  (hjoins : ∀ kind, p.Joins dn attrs requests kind (references kind) (joins kind))
  (hrun : dir.run ((kinds.map fun kind => (kind, joins kind)).forM fun (kind, diff) =>
    liftM ((p.descriptor kind).applyDiff p.supply diff) : Action Unit) = (.ok (), after))

include hjoins hrun

/-- Joining the groups of one kind after the other alters an attribute for each of them in turn. -/
theorem alters_joins (hstamp : ¬ Text.same "modifyTimestamp" name = true) :
    Alters x name
      (fun vs => (kinds.flatMap (p.gains requests references name x)).foldl Text.addNew vs) dir
      after := by
  induction kinds generalizing dir with
  | nil =>
    cases hrun
    rfl
  | cons kind rest ih =>
    obtain ⟨_, mid, hfirst, hrest⟩ := Directory.run_bind_ok.1 hrun
    simp only [List.flatMap_cons, List.foldl_append]
    exact ((hjoins kind).alters hstamp (Directory.run_lift_ok hfirst)).trans (ih hrest)

theorem untouched_joins (hx : ∀ kind, x.isIn (requests.get kind).groups = false) :
    Untouched x dir after := by
  induction kinds generalizing dir with
  | nil =>
    cases hrun
    rfl
  | cons kind rest ih =>
    obtain ⟨_, mid, hfirst, hrest⟩ := Directory.run_bind_ok.1 hrun
    exact (untouched_frame x).trans
      ((hjoins kind).untouched (hx kind) (Directory.run_lift_ok hfirst)) (ih hrest)

theorem stored_joins {kind : MembershipKind} (hkind : kind ∈ kinds) {group : Dn}
    (hgroup : group ∈ (requests.get kind).groups) : ∃ e, dir.entries.get? group = some e := by
  induction kinds generalizing dir with
  | nil => cases hkind
  | cons first rest ih =>
    obtain ⟨_, mid, hfirst, hrest⟩ := Directory.run_bind_ok.1 hrun
    replace hfirst := Directory.run_lift_ok hfirst
    rcases List.mem_cons.1 hkind with rfl | hlater
    · exact (hjoins kind).stored hfirst hgroup
    · obtain ⟨e, he⟩ := ih hrest hlater
      have hvacant : Vacant group dir mid :=
        ((vacant_membershipFrame p group).keeps_applyDiff first (joins first)).of_run hfirst
      exact hvacant.exists he

end Kinds

/-! ## What is there afterwards -/

/-- What the server maintains of a new entry: its time stamps, its name and its identifier. -/
def serverValues? (supply : Supply) (tick : Nat) (dn : Dn) (name : String) :
    Option (List String) :=
  if Text.same "modifyTimestamp" name || Text.same "createTimestamp" name then
    some [supply.time tick]
  else if Text.same "entryDN" name then some [dn.text]
  else if Text.same "entryUUID" name then some [supply.uuid tick]
  else none

/-- What a new entry holds of an attribute: what the server maintains, or else what it was given with
its password, extended by the values of its name. -/
def createdValues (p : Provisioner) (tick : Nat) (dn : Dn) (given : String → List String)
    (stored : Option String) (name : String) : List String :=
  match serverValues? p.supply tick dn name, stored with
  | some values, _ => values
  | none, some text =>
    if Text.same p.configuration.passwordAttribute name then
      OrderedSet.insertAll [text] (dn.leafValues name)
    else OrderedSet.insertAll (given name) (dn.leafValues name)
  | none, none => OrderedSet.insertAll (given name) (dn.leafValues name)

theorem values_stamped (supply : Supply) (tick : Nat) (dn : Dn) (attrs : Attributes)
    (name : String) : (Directory.stamped supply tick dn attrs).values name =
      (serverValues? supply tick dn name).getD
        (OrderedSet.insertAll (attrs.values name) (dn.leafValues name)) := by
  unfold Directory.stamped serverValues?
  simp only [Attributes.values_put, Bool.or_eq_true]
  by_cases hmodified : Text.same "modifyTimestamp" name = true
  · simp [hmodified]
  by_cases hcreated : Text.same "createTimestamp" name = true
  · simp [hcreated]
  by_cases hdn : Text.same "entryDN" name = true
  · simp [hmodified, hcreated, hdn]
  by_cases huuid : Text.same "entryUUID" name = true
  · simp [hmodified, hcreated, hdn, huuid]
  · simp only [hmodified, hcreated, hdn, huuid, or_self]
    unfold Dn.leafValues
    cases dn.leaf? with
    | none => rfl
    | some rdn => exact attrs.values_extendByRdn rdn name

theorem values_created {tick : Nat} {given : String → List String} {stored : Option String}
    (hgiven : ∀ name, attrs.values name = given name) (name : String) :
    (Directory.stamped p.supply tick dn (p.withPassword attrs stored)).values name =
      p.createdValues tick dn given stored name := by
  rw [values_stamped]
  unfold createdValues withPassword
  cases serverValues? p.supply tick dn name with
  | some values => rfl
  | none =>
    cases stored with
    | none => rw [Option.getD_none, hgiven]
    | some text =>
      rw [Option.getD_none, Attributes.values_put, hgiven]
      split <;> rfl

/-- What a new entry is known by in groups of a kind: its name, or the least of the values of its name
and those that it was given. -/
def IsKnownBy (p : Provisioner) (kind : MembershipKind) (dn : Dn) (given : String → List String)
    (reference : String) : Prop :=
  match (p.descriptor kind).reference with
  | .name => reference = dn.text
  | .valueOf name => Text.Least reference (dn.leafValues name ++ given name)

/-- The references that an attribute of the entry at a name gains: one for each kind that lists the
name and whose groups hold their members in this attribute. -/
def gained (p : Provisioner) (requests : GroupRequests) (reference : MembershipKind → String)
    (name : String) (x : Dn) : List String :=
  MembershipKind.all.flatMap (p.gains requests reference name x)

/-- A creation has done all that it was asked for, and nothing else. -/
structure Creates (p : Provisioner) (entryClass : EntryClass) (attributes : List InputAttribute)
    (input : Input) (dn : Dn) (stored : Option String) (reference : MembershipKind → String)
    (dir after : Directory) : Prop where
  sorted : Input.partition .create attributes = .ok input
  named : input.name = some dn
  /-- The password is stored as it was asked for. -/
  stores : p.Stores input dir.handled stored
  /-- There was no entry at the name. -/
  free : dir.entry? dn = none
  /-- The references are those of the entry. -/
  known (kind : MembershipKind) : (input.requests.get kind).groups ≠ [] →
    p.IsKnownBy kind dn (p.givenValues entryClass attributes) (reference kind)
  /-- There is an entry at the name, and it holds what was given. If it is a group that its own input
  lists, it has gained references to itself, and the server may have written a new time stamp. -/
  entry : ∃ e, after.entry? dn = some e ∧ ∀ name,
    (¬ Text.same "modifyTimestamp" name = true ∨
      ∀ kind, dn.isIn (input.requests.get kind).groups = false) →
    e.attributes.values name = (p.gained input.requests reference name dn).foldl Text.addNew
      (p.createdValues dir.handled dn (p.givenValues entryClass attributes) stored name)
  /-- The groups that are listed for a kind hold the reference. -/
  held (kind : MembershipKind) :
    ¬ Text.same "modifyTimestamp" (p.descriptor kind).memberAttribute = true →
    ∀ group ∈ (input.requests.get kind).groups,
      after.HoldsAt (p.descriptor kind).memberAttribute group (reference kind)
  /-- Another entry keeps its values in their order and gains one reference for each kind that lists
  it. -/
  members (x : Dn) (name : String) : x.key ≠ dn.key → ¬ Text.same "modifyTimestamp" name = true →
    Alters x name (fun vs => (p.gained input.requests reference name x).foldl Text.addNew vs) dir
      after
  /-- An entry that is not listed is as it was. -/
  others (x : Dn) : x.key ≠ dn.key → (∀ kind, x.isIn (input.requests.get kind).groups = false) →
    after.entries.get? x = dir.entries.get? x

/-- A value that is added is held, and it stays when others are added. -/
theorem holds_foldl_addNew {vs added : List String} {v : String}
    (h : Text.holds vs v = true ∨ v ∈ added) :
    Text.holds (added.foldl Text.addNew vs) v = true := by
  induction added generalizing vs with
  | nil => exact h.resolve_right List.not_mem_nil
  | cons r rest ih =>
    rw [List.foldl_cons]
    refine ih ?_
    rcases h with hheld | hadded
    · exact .inl ((Text.holds_addNew _ _ _).2 (.inl hheld))
    · rcases List.mem_cons.1 hadded with rfl | hlater
      · exact .inl ((Text.holds_addNew _ _ _).2 (.inr (Text.same_refl v)))
      · exact .inr hlater

/-- **A creation that succeeds does all that it was asked for, and nothing else.** -/
theorem create_creates {entryClass : EntryClass} {attributes : List InputAttribute} {uid : String}
    (henable : ∀ a ∈ attributes, InputRole.ofName a.name ≠ .enable)
    (hrun : dir.run (p.create entryClass attributes) = (.ok uid, after)) :
    ∃ input dn stored reference,
      p.Creates entryClass attributes input dn stored reference dir after := by
  obtain ⟨input, dn, reference, joins, stored, added, joined, hstages, hidentify⟩ := create_ok hrun
  have hstatus : p.applyStatus input = (input.ordinary, input.requests) := by
    rw [applyStatus, Input.enable_of_partition hstages.sorted henable]
  have hgiven (name : String) : (p.newAttributes entryClass input.ordinary).values name =
      p.givenValues entryClass attributes name := values_newAttributes hstages.sorted name
  obtain ⟨hsorted, hnamed, hjoins, hstores, hadd, hjoin⟩ := hstages
  rw [hstatus] at hjoins hadd
  have hend : after.entries = joined.entries :=
    ((p.keeps_unwritten_identify entryClass dn).of_run hidentify).1
  have hadded (x : Dn) := Directory.get?_of_add hadd x
  have hnew := (hadded dn).trans (if_pos rfl)
  have halters (x : Dn) (name : String) (hstamp : ¬ Text.same "modifyTimestamp" name = true) :
      Alters x name (fun vs => (p.gained input.requests reference name x).foldl Text.addNew vs) added
        after := by
    have hjoined := alters_joins (x := x) hjoins hjoin hstamp
    rw [Alters, hend]
    exact hjoined
  have huntouched (x : Dn) (hx : ∀ kind, x.isIn (input.requests.get kind).groups = false) :
      after.entries.get? x = added.entries.get? x := by
    rw [hend]
    exact untouched_joins hjoins hjoin hx
  refine ⟨input, dn, stored, reference, hsorted, hnamed, hstores, Directory.free_of_add hadd,
    fun kind hsome => ?_, ?_, fun kind hstamp group hgroup => ?_, fun x name hx hstamp => ?_,
    fun x hx hlisted => ?_⟩
  · have hcanonical := (hjoins kind).canonical hsome
    have hleast := least_of_canonicalReference? hcanonical
    unfold IsKnownBy
    cases hreference : (p.descriptor kind).reference with
    | name =>
      simp only [KindDescriptor.referenceValues, hreference, Option.map_some] at hleast
      exact List.mem_singleton.1 hleast.1
    | valueOf name =>
      refine hleast.congr fun r => ?_
      rw [KindDescriptor.mem_referenceValues_some hreference, List.mem_append, hgiven]
  · by_cases hlisted : ∀ kind, dn.isIn (input.requests.get kind).groups = false
    · refine ⟨_, (huntouched dn hlisted).trans hnew, fun name _ => ?_⟩
      have hnone : p.gained input.requests reference name dn = [] := by
        refine List.flatMap_eq_nil_iff.2 fun kind _ => if_neg fun both => ?_
        rw [hlisted kind] at both
        cases both.2
      rw [hnone]
      exact values_created hgiven name
    · obtain ⟨e, hstored, -⟩ := (halters dn "objectClass" (by decide)).stored hnew
      refine ⟨e, hstored, fun name hname => ?_⟩
      obtain ⟨e', hstored', hvalues⟩ := (halters dn name (hname.resolve_right hlisted)).stored hnew
      cases hstored.symm.trans hstored'
      rw [hvalues, values_created hgiven]
  · obtain ⟨e, hstored⟩ := stored_joins hjoins hjoin kind.mem_all hgroup
    obtain ⟨e', hstored', hvalues⟩ := (halters group _ hstamp).stored hstored
    have hlisted : group.isIn (input.requests.get kind).groups = true :=
      List.any_eq_true.2 ⟨group, hgroup, Dn.same_iff.2 (Eq.refl group.key)⟩
    rw [Directory.holdsAt_iff hstored', hvalues]
    refine holds_foldl_addNew (.inr (List.mem_flatMap.2 ⟨kind, kind.mem_all, ?_⟩))
    rw [gains, if_pos ⟨Text.same_refl _, hlisted⟩]
    exact List.mem_singleton_self _
  · have hother : added.entries.get? x = dir.entries.get? x :=
      (hadded x).trans (if_neg fun hkey => hx hkey.symm)
    have hafter := halters x name hstamp
    rw [Alters, hother] at hafter
    exact hafter
  · rw [huntouched x hlisted, hadded x, if_neg fun hkey => hx hkey.symm]

end Provisioner

namespace Sample

/-- A directory with a group that has a member. -/
def bobInTeam : Directory :=
  directory [(name "cn" "team", [("cn", ["team"]), ("memberUid", ["bob"])])]

/-- The input for an account that joins the group in two ways, and twice in one of them. -/
def annJoins : List InputAttribute :=
  [⟨"__NAME__", [.text "uid=ann,dc=x"]⟩, ⟨"sn", [.text "Lee"]⟩, ⟨"SN", [.text "Lee", .text "Ray"]⟩,
    ⟨"posixGroups", [.text "cn=team,dc=x", .text "CN=Team,dc=x"]⟩,
    ⟨"ldapGroups", [.text "cn=team,dc=x"]⟩]

/-- The directory after the account has been created. -/
def annAndBobInTeam : Directory :=
  (bobInTeam.run (provisioner.create .account annJoins)).2

/-- The account is there, and the group has it as a second member, once in either way. -/
theorem ann_created :
    (∃ input dn stored reference,
      provisioner.Creates .account annJoins input dn stored reference bobInTeam annAndBobInTeam) ∧
      annAndBobInTeam.valuesAt (name "uid" "ann") "sn" = ["Lee", "Ray"] ∧
      annAndBobInTeam.valuesAt (name "cn" "team") "memberUid" = ["bob", "ann"] ∧
      annAndBobInTeam.valuesAt (name "cn" "team") "uniqueMember" = ["uid=ann,dc=x"] := by
  obtain ⟨hresult, hvalues⟩ :
      (bobInTeam.run (provisioner.create .account annJoins)).1 = .ok "uid=ann,dc=x" ∧
        annAndBobInTeam.valuesAt (name "uid" "ann") "sn" = ["Lee", "Ray"] ∧
        annAndBobInTeam.valuesAt (name "cn" "team") "memberUid" = ["bob", "ann"] ∧
        annAndBobInTeam.valuesAt (name "cn" "team") "uniqueMember" = ["uid=ann,dc=x"] := by
    decide +kernel
  refine ⟨?_, hvalues⟩
  exact Provisioner.create_creates (by decide +kernel) (Directory.run_of_result hresult)

/-- The input for an account that joins a static group. -/
def annJoinsStatic : List InputAttribute :=
  [⟨"__NAME__", [.text "cn=ann,dc=x"]⟩, ⟨"ldapGroups", [.text "cn=team,dc=x"]⟩]

/-- A group that holds its members under the name of the time stamp is left without the new one. -/
theorem stamped_team_loses_ann :
    (bobInTeam.run (stamped.create .account annJoinsStatic)).1 = .ok "cn=ann,dc=x" ∧
      ¬ (bobInTeam.run (stamped.create .account annJoinsStatic)).2.HoldsAt
        (stamped.descriptor .static).memberAttribute (name "cn" "team") "cn=ann,dc=x" := by
  unfold Directory.HoldsAt
  decide +kernel

end Sample

end Roster
