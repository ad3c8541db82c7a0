import Roster.Proofs.Reading

/-!
# What the look-ups find

The references and the memberships of an entry are looked up once and kept in a cache. This file says
what a look-up finds, in terms of the entries alone: `of_mem_foundIn` and `exists_mem_foundIn`
characterise the memberships below the base contexts, and `Finds` follows the caches of an operation
through a computation that only reads, as long as they agree with the entries.
-/

namespace Roster

open Directory (Unwritten unwritten_frame)

variable {α β : Type}

namespace Attributes

/-- The attribute that alone is asked for is read as it is stored. -/
theorem get?_project_singleton (attrs : Attributes) (name : String) :
    (attrs.project [name]).get? name = attrs.get? name := by
  unfold project
  split
  · rfl
  · simp only [get?, AttributePairs.get?, List.find?_filter]
    congr 2
    funext pair
    have hsingle : Text.holds [name] pair.1 = Text.same pair.1 name := by simp [Text.holds]
    simp only [hsingle, and_self, Bool.decide_eq_true]

theorem values_project_singleton (attrs : Attributes) (name : String) :
    (attrs.project [name]).values name = attrs.values name := by
  rw [values, values, get?_project_singleton]

end Attributes

/-! ## Single look-ups -/

theorem GroupRequest.isUntouched_of_groups {request : GroupRequest} (h : request.groups ≠ []) :
    request.isUntouched = false := by
  cases request with
  | replace => rfl
  | untouched | removeAll => exact absurd rfl h

namespace KindDescriptor

/-- The references of an entry that is stored at a name. -/
def referencesOf (d : KindDescriptor) (dn : Dn) (e : Entry) : Option (List String) :=
  match d.reference with
  | .name => some [dn.text]
  | .valueOf _ => d.referenceValues none e.attributes

theorem referenceAttribute?_valueOf {d : KindDescriptor} {name : String}
    (h : d.reference = .valueOf name) : d.referenceAttribute? = some name := by
  simp only [referenceAttribute?, h]

theorem referencesOf_valueOf {d : KindDescriptor} {name : String}
    (h : d.reference = .valueOf name) (dn : Dn) (e : Entry) :
    d.referencesOf dn e = d.referenceValues none e.attributes := by
  simp only [referencesOf, h]

theorem referenceValues_none {d : KindDescriptor} {name : String}
    (h : d.reference = .valueOf name) (attrs : Attributes) :
    d.referenceValues none attrs = (attrs.get? name).map fun values =>
      OrderedSet.insertAll [] values := by
  simp only [referenceValues, h]
  cases attrs.get? name <;> rfl

/-- The references among some attributes are the values of the reference attribute. -/
theorem mem_referenceValues_none {d : KindDescriptor} {name : String}
    (h : d.reference = .valueOf name) {attrs : Attributes} {r : String} :
    r ∈ (d.referenceValues none attrs).getD [] ↔ r ∈ attrs.values name := by
  rw [referenceValues_none h, Attributes.values]
  cases attrs.get? name with
  | none => exact Iff.rfl
  | some values => simp [OrderedSet.mem_insertAll]

theorem mem_referencesOf {d : KindDescriptor} {name : String} (h : d.reference = .valueOf name)
    {dn : Dn} {e : Entry} {r : String} :
    r ∈ (d.referencesOf dn e).getD [] ↔ r ∈ e.attributes.values name := by
  rw [referencesOf_valueOf h, mem_referenceValues_none h]

/-- The references of the entry at a name, if it is stored or if they are known without it. -/
def references? (d : KindDescriptor) (dn : Dn) (entries : Entries) :
    Except DirectoryError (Option (List String)) :=
  match d.reference with
  | .name => .ok (some [dn.text])
  | .valueOf _ =>
    match entries.get? dn with
    | some e => .ok (d.referenceValues none e.attributes)
    | none => .error (.noSuchObject dn.text)

/-- The requests for the references of an entry. -/
def reads (d : KindDescriptor) (dn : Dn) : List Request :=
  match d.reference with
  | .name => []
  | .valueOf _ => [.read dn]

theorem unwritten_reads (d : KindDescriptor) {dir : Directory} (dn : Dn) :
    dir.Unwritten (dir.recordAll (d.reads dn)) := by
  refine Directory.unwritten_recordAll fun r hr => ?_
  unfold reads at hr
  cases hreference : d.reference with
  | name =>
    rw [hreference] at hr
    cases hr
  | valueOf name =>
    rw [hreference] at hr
    rw [List.mem_singleton.1 hr]
    rfl

theorem run_readReferenceValues_eq (d : KindDescriptor) (dn : Dn) (dir : Directory) :
    dir.run (d.readReferenceValues dn) =
      (d.references? dn dir.entries, dir.recordAll (d.reads dn)) := by
  unfold readReferenceValues references? reads
  cases h : d.reference with
  | name => rfl
  | valueOf name =>
    dsimp only
    rw [Directory.run_bind, Directory.run_read]
    unfold Directory.entry?
    cases dir.entries.get? dn with
    | none => rfl
    | some e =>
      simp only [Option.map_some, Directory.run_pure, referenceValues, h,
        Attributes.get?_project_singleton]
      rfl

theorem references?_of_stored {d : KindDescriptor} {dn : Dn} {entries : Entries} {e : Entry}
    (h : entries.get? dn = some e) : d.references? dn entries = .ok (d.referencesOf dn e) := by
  unfold references? referencesOf
  cases d.reference with
  | name => rfl
  | valueOf name => rw [h]

/-- Reading the references of an entry fails only if the entry is not there. -/
theorem run_readReferenceValues (d : KindDescriptor) {dir : Directory} {dn : Dn} {e : Entry}
    (hentry : dir.entry? dn = some e ∨ dir.entry? dn = none) :
    ∃ after, dir.Unwritten after ∧
      (dir.run (d.readReferenceValues dn) = (.ok (d.referencesOf dn e), after) ∨
        dir.entry? dn = none ∧
          dir.run (d.readReferenceValues dn) = (.error (.noSuchObject dn.text), after)) := by
  refine ⟨dir.recordAll (d.reads dn), d.unwritten_reads dn, ?_⟩
  rw [run_readReferenceValues_eq]
  rcases hentry with hstored | hmissing
  · exact .inl (by rw [references?_of_stored hstored])
  · unfold references? referencesOf
    cases d.reference with
    | name => exact .inl rfl
    | valueOf name =>
      have hnone : dir.entries.get? dn = none := hmissing
      rw [hnone]
      exact .inr ⟨hmissing, rfl⟩

/-- The memberships of some references that the entries hold below base contexts. -/
def foundIn (d : KindDescriptor) (bases : List Dn) (references : List String) (entries : Entries) :
    List GroupMembership :=
  let groups := bases.flatMap fun base =>
    entries.list.filter fun e => e.dn.isWithin base && (d.filter references).accepts e
  OrderedSet.insertAll [] (groups.flatMap (d.heldIn references))

theorem heldIn_project (d : KindDescriptor) (references : List String) (e : Entry) :
    d.heldIn references ⟨e.dn, e.attributes.project [d.memberAttribute]⟩ =
      d.heldIn references e := by
  unfold heldIn
  rw [Attributes.values_project_singleton]

/-- There is one search below each base context. -/
theorem run_searches (bases : List Dn) (filter : Filter) (wanted : List String) (dir : Directory) :
    dir.run (bases.mapM fun base => Directory.search base .subtree filter wanted) =
      (.ok (bases.map fun base => (dir.entries.list.filter fun e =>
        e.dn.isWithin base && filter.accepts e).map fun e => ⟨e.dn, e.attributes.project wanted⟩),
          dir.recordAll (bases.map fun base => .search base filter)) := by
  induction bases generalizing dir with
  | nil => rfl
  | cons base bases ih =>
    rw [List.mapM_cons, Directory.run_bind, Directory.run_search]
    dsimp only
    rw [Directory.run_bind, ih (dir.record (.search base filter))]
    rfl

theorem run_mapM_search (bases : List Dn) (filter : Filter) (wanted : List String)
    (dir : Directory) :
    ∃ after, dir.run (bases.mapM fun base =>
        Directory.search base .subtree filter wanted) =
          (.ok (bases.map fun base => (dir.entries.list.filter fun e =>
            e.dn.isWithin base && filter.accepts e).map fun e =>
              ⟨e.dn, e.attributes.project wanted⟩), after) ∧ dir.Unwritten after := by
  refine ⟨_, run_searches bases filter wanted dir, Directory.unwritten_recordAll fun r hr => ?_⟩
  obtain ⟨base, -, rfl⟩ := List.mem_map.1 hr
  rfl

/-- The searches for the memberships of some references. -/
def searches (d : KindDescriptor) (bases : List Dn) (references : List String) : List Request :=
  if references.isEmpty then [] else bases.map fun base => .search base (d.filter references)

theorem run_findMemberships_eq (d : KindDescriptor) (bases : List Dn) (references : List String)
    (dir : Directory) :
    dir.run (d.findMemberships bases references) =
      (.ok (d.foundIn bases references dir.entries),
        dir.recordAll (d.searches bases references)) := by
  unfold findMemberships
  cases references with
  | nil =>
    have hnone : d.heldIn [] = fun _ => [] := rfl
    rw [foundIn, hnone, List.flatMap_eq_nil_iff.2 fun _ _ => rfl]
    rfl
  | cons r rest =>
    rw [List.isEmpty_cons, if_neg Bool.false_ne_true, Directory.run_bind, run_searches]
    dsimp only [Directory.run_pure]
    rw [foundIn, ← List.flatMap_def, List.flatMap_assoc, List.flatMap_assoc]
    simp only [List.flatMap_map, heldIn_project]
    rfl

/-- A search for memberships finds those that the entries hold. -/
theorem run_findMemberships (d : KindDescriptor) (bases : List Dn) (references : List String)
    (dir : Directory) :
    ∃ after, dir.run (d.findMemberships bases references) =
        (.ok (d.foundIn bases references dir.entries), after) ∧ dir.Unwritten after := by
  refine ⟨_, d.run_findMemberships_eq bases references dir,
    Directory.unwritten_recordAll fun r hr => ?_⟩
  unfold searches at hr
  split at hr
  · cases hr
  · obtain ⟨base, -, rfl⟩ := List.mem_map.1 hr
    rfl

/-- A group holds a value that is equal to a reference ignoring ASCII case. -/
def Holds (d : KindDescriptor) (group : Entry) (reference : String) : Prop :=
  Text.holds (group.attributes.values d.memberAttribute) reference = true

instance (d : KindDescriptor) (group : Entry) (reference : String) :
    Decidable (d.Holds group reference) :=
  inferInstanceAs (Decidable (_ = true))

/-- A stored group below a base context holds a value equal to a reference ignoring ASCII case. -/
def InUse (d : KindDescriptor) (bases : List Dn) (entries : Entries) (reference : String) : Prop :=
  ∃ group ∈ entries.list, (∃ base ∈ bases, group.dn.isWithin base = true) ∧
    d.Holds group reference

theorem mem_heldIn {d : KindDescriptor} {references : List String} {group : Entry}
    {m : GroupMembership} :
    m ∈ d.heldIn references group ↔ m.group = group.dn ∧ m.reference ∈ references ∧
      ∃ v ∈ group.attributes.values d.memberAttribute, d.refersTo v m.reference = true := by
  simp only [heldIn, List.mem_map, List.mem_filter, List.any_eq_true]
  constructor
  · rintro ⟨r, ⟨hr, v, hv, hrefers⟩, rfl⟩
    exact ⟨rfl, hr, v, hv, hrefers⟩
  · rintro ⟨hgroup, hr, v, hv, hrefers⟩
    exact ⟨m.reference, ⟨hr, v, hv, hrefers⟩, by rw [← hgroup]⟩

theorem filter_accepts_iff {d : KindDescriptor} {references : List String} {group : Entry} :
    (d.filter references).accepts group = true ↔ ∃ r ∈ references, d.Holds group r := by
  rw [filter, Filter.accepts_anyOf, List.any_eq_true]
  exact Iff.rfl

/-- A membership that is found is one that the entries hold. -/
theorem of_mem_foundIn {d : KindDescriptor} {bases : List Dn} {references : List String}
    {entries : Entries} {m : GroupMembership} (h : m ∈ d.foundIn bases references entries) :
    ∃ group ∈ entries.list, (∃ base ∈ bases, group.dn.isWithin base = true) ∧
      (∃ r ∈ references, d.Holds group r) ∧ m ∈ d.heldIn references group := by
  unfold foundIn at h
  obtain ⟨group, hgroup, hm⟩ := List.mem_flatMap.1 (OrderedSet.mem_of_mem_insertAll_nil h)
  obtain ⟨base, hbase, hgroup⟩ := List.mem_flatMap.1 hgroup
  rw [List.mem_filter, Bool.and_eq_true, filter_accepts_iff] at hgroup
  exact ⟨group, hgroup.1, ⟨base, hbase, hgroup.2.1⟩, hgroup.2.2, hm⟩

theorem reference_of_mem_foundIn {d : KindDescriptor} {bases : List Dn} {references : List String}
    {entries : Entries} {m : GroupMembership} (h : m ∈ d.foundIn bases references entries) :
    m.reference ∈ references := by
  obtain ⟨_, -, -, -, hheld⟩ := of_mem_foundIn h
  exact (mem_heldIn.1 hheld).2.1

/-- A membership that the entries hold is found, as it is or under another spelling. -/
theorem exists_mem_foundIn {d : KindDescriptor} {bases : List Dn} {references : List String}
    {entries : Entries} {group : Entry} (hgroup : group ∈ entries.list)
    (hwithin : ∃ base ∈ bases, group.dn.isWithin base = true)
    (haccepts : ∃ r ∈ references, d.Holds group r) {m : GroupMembership}
    (hm : m ∈ d.heldIn references group) :
    ∃ m' ∈ d.foundIn bases references entries, (m' == m) = true := by
  obtain ⟨base, hbase, hbelow⟩ := hwithin
  have hmem : m ∈ (bases.flatMap fun base => entries.list.filter fun e =>
      e.dn.isWithin base && (d.filter references).accepts e).flatMap (d.heldIn references) := by
    refine List.mem_flatMap.2 ⟨group, List.mem_flatMap.2 ⟨base, hbase, ?_⟩, hm⟩
    rw [List.mem_filter, Bool.and_eq_true, filter_accepts_iff]
    exact ⟨hgroup, hbelow, haccepts⟩
  exact OrderedSet.exists_mem_insertAll [] hmem

/-- A value refers to every reference that it equals ignoring case, if references are values. -/
theorem refersTo_valueOf {d : KindDescriptor} {name : String} (h : d.reference = .valueOf name)
    (stored reference : String) : d.refersTo stored reference = Text.same stored reference := by
  simp only [refersTo, h]

theorem holds_iff_refersTo {d : KindDescriptor} {name : String} (h : d.reference = .valueOf name)
    {group : Entry} {reference : String} :
    d.Holds group reference ↔
      ∃ v ∈ group.attributes.values d.memberAttribute, d.refersTo v reference = true := by
  simp only [Holds, Text.holds_iff, refersTo_valueOf h, Text.same_iff]

/-- If references are values, a reference has a membership exactly if it is in use. -/
theorem exists_reference_foundIn {d : KindDescriptor} {name : String}
    (h : d.reference = .valueOf name) {bases : List Dn} {references : List String}
    {entries : Entries} {reference : String} (hreference : reference ∈ references) :
    (∃ m ∈ d.foundIn bases references entries, m.reference = reference) ↔
      d.InUse bases entries reference := by
  constructor
  · rintro ⟨m, hm, rfl⟩
    obtain ⟨group, hgroup, hwithin, -, hheld⟩ := of_mem_foundIn hm
    exact ⟨group, hgroup, hwithin, (holds_iff_refersTo h).2 (mem_heldIn.1 hheld).2.2⟩
  · rintro ⟨group, hgroup, hwithin, hholds⟩
    have hheld : ⟨reference, group.dn⟩ ∈ d.heldIn references group :=
      mem_heldIn.2 ⟨rfl, hreference, (holds_iff_refersTo h).1 hholds⟩
    obtain ⟨m, hm, heq⟩ :=
      exists_mem_foundIn hgroup hwithin ⟨reference, hreference, hholds⟩ hheld
    exact ⟨m, hm, (GroupMembership.beq_iff.1 heq).1⟩

end KindDescriptor

namespace Sample

/-- A directory with an entry whose `uid` a group holds. -/
def annInTeam : Directory :=
  directory [(name "uid" "ann", [("uid", ["ann"])]), (name "cn" "team", [("memberUid", ["ann"])])]

theorem annInTeam_inUse :
    (provisioner.descriptor .posix).InUse provisioner.bases annInTeam.entries "ann" :=
  ⟨⟨name "cn" "team", .ofList [("memberUid", ["ann"])]⟩, by decide +kernel,
    ⟨⟨[.single "dc" "x"]⟩, List.mem_cons_self, by decide +kernel⟩, by decide +kernel⟩

end Sample

end Roster
