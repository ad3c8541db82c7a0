import Mathlib.Data.List.Nodup
import Roster.Proofs.Planning
import Roster.Proofs.Regrouping
import Roster.Proofs.Spelling

/-!
# What a plan does to the memberships of its entry

The memberships that an update finds are those that groups below the base contexts hold
(`exists_covers_iff`), so a diff that only removes such memberships can be carried out
(`Feasible.admissible`). An explicit list of groups asks for a diff that removes all of them and
adds the least reference to the listed groups (`Replaces.leaves_iff`); `serves_references` and
`serves_static` say that this is what an update without a new name plans. The attributes of the entry
itself are replaced apart from this (`run_modifyValues_touched`).
-/

namespace Roster

/-! ## References and base contexts -/

/-- The references that an entry has: its name, or the values of the reference attribute. -/
def KindDescriptor.ownReferences (d : KindDescriptor) (dn : Dn) (e : Entry) : List String :=
  match d.reference with
  | .name => [dn.text]
  | .valueOf name => e.attributes.values name

/-- The references that an update supplies for an entry, together with those in the leaf of its
name; the ones that it has if none are supplied. -/
def KindDescriptor.suppliedReferences (d : KindDescriptor) (dn : Dn) (e : Entry)
    (ordinary : Attributes) : List String :=
  match d.reference with
  | .name => [dn.text]
  | .valueOf name =>
    match ordinary.get? name with
    | some values => dn.leafValues name ++ values
    | none => e.attributes.values name

/-- A name lies below a base context. -/
def Provisioner.InScope (p : Provisioner) (dn : Dn) : Prop :=
  ∃ base ∈ p.bases, dn.isWithin base = true

instance (p : Provisioner) (dn : Dn) : Decidable (p.InScope dn) :=
  inferInstanceAs (Decidable (∃ base ∈ p.bases, _))

theorem KindDescriptor.mem_ownReferences {d : KindDescriptor} {dn : Dn} {e : Entry} {r : String} :
    r ∈ d.ownReferences dn e ↔ r ∈ (d.referencesOf dn e).getD [] := by
  cases h : d.reference with
  | name => simp [ownReferences, referencesOf, h]
  | valueOf name => rw [mem_referencesOf h, ownReferences, h]

/-- No two references of an entry are equal ignoring case, if no two of its values are. -/
theorem KindDescriptor.eq_of_same_references {d : KindDescriptor} {dn : Dn} {e : Entry}
    (hdistinct : ∀ name, Text.Distinct (e.attributes.values name)) {r s : String}
    (hr : r ∈ (d.referencesOf dn e).getD []) (hs : s ∈ (d.referencesOf dn e).getD [])
    (hsame : Text.same r s = true) : r = s := by
  rw [← mem_ownReferences, ownReferences] at hr hs
  cases h : d.reference with
  | name =>
    rw [h] at hr hs
    rw [List.mem_singleton.1 hr, List.mem_singleton.1 hs]
  | valueOf name =>
    rw [h] at hr hs
    exact List.inj_on_of_nodup_map (hdistinct name) hr hs (Text.same_iff.1 hsame)

/-- The items that are sent for some attributes name these attributes. -/
theorem Attributes.get?_ne_none_of_item {attrs : Attributes} {op : ModifyOp} {name : String}
    (h : ∃ item ∈ attrs.pairs.map fun (name, values) => (⟨op, name, values⟩ : Modification),
      Text.same item.name name = true) : attrs.get? name ≠ none := by
  obtain ⟨item, hitem, hname⟩ := h
  obtain ⟨pair, hpair, rfl⟩ := List.mem_map.1 hitem
  rw [get?, AttributePairs.get?_of_mem attrs.distinct hpair hname]
  exact Option.some_ne_none _

/-! ## The memberships of an entry -/

namespace Provisioner

variable {p : Provisioner} {dn : Dn} {e : Entry} {dir : Directory} {kind : MembershipKind}

/-- The groups hold the memberships that are found. -/
theorem holdsAt_of_mem_membershipsOf {m : GroupMembership}
    (hm : m ∈ p.membershipsOf kind dn e dir.entries) :
    dir.HoldsAt (p.descriptor kind).memberAttribute m.group m.reference := by
  obtain ⟨group, hgroup, -, ⟨r, hr, hholds⟩, hheld⟩ := KindDescriptor.of_mem_foundIn hm
  obtain ⟨hname, hmem, hrefers⟩ := KindDescriptor.mem_heldIn.1 hheld
  have hentry : dir.entry? m.group = some group :=
    (dir.entries.get?_eq_some_iff).2 ⟨hgroup, by rw [hname]⟩
  have hholds' : (p.descriptor kind).Holds group m.reference := by
    cases h : (p.descriptor kind).reference with
    | name =>
      -- The name of the entry is its only reference, and so what the search went for.
      rw [referencesOf, ← KindDescriptor.mem_ownReferences, KindDescriptor.ownReferences, h]
        at hr hmem
      rw [List.mem_singleton.1 hmem, ← List.mem_singleton.1 hr]
      exact hholds
    | valueOf name => exact (KindDescriptor.holds_iff_refersTo h).2 hrefers
  exact (Directory.holdsAt_iff hentry _ _).2 hholds'

/-- A value that a group holds has a membership if it is a reference of the entry and the group lies
below a base context. -/
theorem exists_covers_iff {x : Dn} {value : String}
    (hheld : dir.HoldsAt (p.descriptor kind).memberAttribute x value) :
    (∃ m ∈ p.membershipsOf kind dn e dir.entries, m.Covers x value) ↔
      (∃ group, dir.entry? x = some group ∧ p.InScope group.dn) ∧
        ∃ o ∈ (p.descriptor kind).ownReferences dn e, Text.same o value = true := by
  constructor
  · rintro ⟨m, hm, hkey, hsame⟩
    obtain ⟨group, hgroup, hwithin, -, hheld'⟩ := KindDescriptor.of_mem_foundIn hm
    obtain ⟨hname, hmem, -⟩ := KindDescriptor.mem_heldIn.1 hheld'
    have hentry : dir.entry? x = some group :=
      (dir.entries.get?_eq_some_iff).2 ⟨hgroup, by rw [← hname, hkey]⟩
    exact ⟨⟨group, hentry, hwithin⟩, m.reference, KindDescriptor.mem_ownReferences.2 hmem, hsame⟩
  · rintro ⟨⟨group, hentry, hwithin⟩, o, ho, hsame⟩
    obtain ⟨hgroup, hkey⟩ := (dir.entries.get?_eq_some_iff).1 hentry
    rw [Directory.holdsAt_iff hentry, ← Text.holds_congr hsame] at hheld
    have hmem := KindDescriptor.mem_ownReferences.1 ho
    obtain ⟨v, hv, hfold⟩ := Text.holds_iff.1 hheld
    have hheld' : ⟨o, group.dn⟩ ∈ (p.descriptor kind).heldIn
        (((p.descriptor kind).referencesOf dn e).getD []) group :=
      KindDescriptor.mem_heldIn.2 ⟨rfl, hmem, v, hv,
        KindDescriptor.refersTo_of_same _ (Text.same_iff.2 hfold)⟩
    obtain ⟨m, hm, heq⟩ := KindDescriptor.exists_mem_foundIn hgroup hwithin ⟨o, hmem, hheld⟩ hheld'
    exact ⟨m, hm, GroupMembership.Covers.congr heq ⟨hkey, hsame⟩⟩

/-! ## Diffs that can be carried out -/

/-- The diff only removes memberships of an entry that are there, and only adds to stored groups. -/
structure Feasible (p : Provisioner) (kind : MembershipKind) (dn : Dn) (e : Entry)
    (dir : Directory) (diff : Diff GroupMembership) : Prop where
  removed (m : GroupMembership) : m ∈ diff.removed → m ∈ p.membershipsOf kind dn e dir.entries
  once : diff.removed.Pairwise fun a b => (a == b) = false
  stored (m : GroupMembership) : m ∈ diff.added → dir.Stored m.group

/-- The diff ends all memberships of an entry, and starts those of a reference in some groups. -/
structure Replaces (p : Provisioner) (kind : MembershipKind) (dn : Dn) (e : Entry)
    (dir : Directory) (reference : String) (groups : List Dn) (diff : Diff GroupMembership) :
    Prop extends p.Feasible kind dn e dir diff where
  complete (m : GroupMembership) : m ∈ p.membershipsOf kind dn e dir.entries →
    ∃ r ∈ diff.removed, (r == m) = true
  added (m : GroupMembership) : m ∈ diff.added → ∃ group ∈ groups, m = ⟨reference, group⟩
  whole (group : Dn) : group ∈ groups → ∃ a ∈ diff.added, (a == ⟨reference, group⟩) = true

theorem Feasible.admissible {diff : Diff GroupMembership}
    (h : p.Feasible kind dn e dir diff)
    (hdistinct : ∀ name, Text.Distinct (e.attributes.values name)) :
    diff.Admissible (p.descriptor kind).memberAttribute dir where
  held m hm := holdsAt_of_mem_membershipsOf (h.removed m hm)
  once := h.once
  stored := h.stored
  apart a b ha hb hcovers := by
    exact GroupMembership.beq_iff.2 ⟨KindDescriptor.eq_of_same_references hdistinct
      (reference_of_mem_membershipsOf (h.removed a ha))
      (reference_of_mem_membershipsOf (h.removed b hb)) hcovers.2, hcovers.1⟩

/-- What the groups hold after all memberships of an entry have been replaced. -/
theorem Replaces.leaves_iff {reference : String} {groups : List Dn} {diff : Diff GroupMembership}
    (h : p.Replaces kind dn e dir reference groups diff) (x : Dn) (value : String) :
    diff.Leaves (p.descriptor kind).memberAttribute dir x value ↔
      (dir.HoldsAt (p.descriptor kind).memberAttribute x value ∧
        ¬ ((∃ group, dir.entry? x = some group ∧ p.InScope group.dn) ∧
          ∃ o ∈ (p.descriptor kind).ownReferences dn e, Text.same o value = true)) ∨
      (x.isIn groups = true ∧ Text.same reference value = true) := by
  have hremoved : (∃ m ∈ diff.removed, m.Covers x value) ↔
      ∃ m ∈ p.membershipsOf kind dn e dir.entries, m.Covers x value := by
    constructor
    · rintro ⟨m, hm, hcovers⟩
      exact ⟨m, h.removed m hm, hcovers⟩
    · rintro ⟨m, hm, hcovers⟩
      obtain ⟨r, hr, heq⟩ := h.complete m hm
      exact ⟨r, hr, hcovers.congr heq⟩
  have hadded : (∃ m ∈ diff.added, m.Covers x value) ↔
      x.isIn groups = true ∧ Text.same reference value = true := by
    rw [Dn.isIn, List.any_eq_true]
    constructor
    · rintro ⟨m, hm, hkey, hsame⟩
      obtain ⟨group, hgroup, rfl⟩ := h.added m hm
      exact ⟨⟨group, hgroup, Dn.same_iff.2 hkey.symm⟩, hsame⟩
    · rintro ⟨⟨group, hgroup, hsame⟩, hvalue⟩
      obtain ⟨a, ha, heq⟩ := h.whole group hgroup
      refine ⟨a, ha, GroupMembership.Covers.congr heq ⟨?_, hvalue⟩⟩
      exact (Dn.same_iff.1 hsame).symm
  rw [Diff.Leaves, hremoved, hadded]
  refine or_congr_left (and_congr_right fun hheld => not_congr ?_)
  exact exists_covers_iff hheld

/-! ## What the plan asks for -/

variable {input : Input}

/-- Without a new name the reference that goes into the groups is the least of those supplied. -/
theorem least_supplied (hname : input.name = none) {name reference : String}
    (hvalue : (p.descriptor kind).reference = .valueOf name)
    (h : (p.plannedReferences dn input kind <|> p.referencesOf kind dn e).bind
      canonicalReference? = some reference) :
    Text.Least reference ((p.descriptor kind).suppliedReferences dn e input.ordinary) := by
  cases hget : input.ordinary.get? name with
  | none =>
    simp only [KindDescriptor.suppliedReferences, hvalue, hget]
    rw [plannedReferences_of_absent hvalue hget, hname] at h
    have hown : (p.referencesOf kind dn e).bind canonicalReference? = some reference := h
    rw [referencesOf, KindDescriptor.referencesOf_valueOf hvalue,
      KindDescriptor.referenceValues_none hvalue] at hown
    obtain ⟨references, hreferences, hleast⟩ := Option.bind_eq_some_iff.1 hown
    obtain ⟨values, hvalues, rfl⟩ := Option.map_eq_some_iff.1 hreferences
    refine (Text.least_of_least? hleast).congr fun y => ?_
    rw [OrderedSet.mem_insertAll, Attributes.values, hvalues]
    simp
  | some values =>
    simp only [KindDescriptor.suppliedReferences, hvalue, hget]
    rw [plannedReferences_of_listed hvalue hget, hname] at h
    refine (Text.least_of_least? h).congr fun y => ?_
    rw [OrderedSet.mem_insertAll, List.mem_append]
    rfl

/-- A diff serves the request for a kind: it can be carried out and, if groups are listed, leads to
the memberships of the least reference in them. -/
structure Serves (p : Provisioner) (kind : MembershipKind) (dn : Dn) (e : Entry) (dir : Directory)
    (input : Input) (diff : Diff GroupMembership) : Prop where
  feasible : p.Feasible kind dn e dir diff
  replaces : (input.requests.get kind).isUntouched = false →
    ∃ reference, ((input.requests.get kind).groups ≠ [] →
        Text.Least reference ((p.descriptor kind).suppliedReferences dn e input.ordinary)) ∧
      p.Replaces kind dn e dir reference (input.requests.get kind).groups diff

/-- Memberships of an entry lie in stored groups. -/
theorem stored_of_mem_membershipsOf {m : GroupMembership}
    (hm : m ∈ p.membershipsOf kind dn e dir.entries) : dir.Stored m.group := by
  obtain ⟨group, hentry, -⟩ :=
    Directory.exists_entry_of_holdsAt (holdsAt_of_mem_membershipsOf hm)
  exact Directory.stored_iff.2 ⟨group, hentry⟩

theorem feasible_moveTo (reference : String) {stale : List GroupMembership}
    (hstale : ∀ m ∈ stale, m ∈ p.membershipsOf kind dn e dir.entries) :
    p.Feasible kind dn e dir (moveTo reference stale) where
  removed m hm := hstale m (OrderedSet.mem_of_mem_insertAll_nil hm)
  once := OrderedSet.pairwise_insertAll List.Pairwise.nil stale
  stored m hm := by
    obtain ⟨old, hold, rfl⟩ := List.mem_map.1 (OrderedSet.mem_of_mem_insertAll_nil hm)
    have hstored := stored_of_mem_membershipsOf (hstale old hold)
    exact hstored

/-- All memberships of an entry may be removed besides those that follow a reference. -/
theorem replaces_moveTo (reference old : String) {groups : List Dn}
    (hstored : ∀ group ∈ groups, dir.Stored group)
    {stale : List GroupMembership}
    (hstale : ∀ m ∈ stale, m ∈ p.membershipsOf kind dn e dir.entries) :
    p.Replaces kind dn e dir reference groups
      (((moveTo old stale).removeAll (p.membershipsOf kind dn e dir.entries)).clearAdded.addAll
        (groups.map fun group => ⟨reference, group⟩)) where
  removed m hm := by
    rcases OrderedSet.mem_of_mem_insertAll hm with hm | hm
    · exact hstale m (OrderedSet.mem_of_mem_insertAll_nil hm)
    · exact hm
  once := OrderedSet.pairwise_insertAll
    (OrderedSet.pairwise_insertAll List.Pairwise.nil stale) _
  stored m hm := by
    obtain ⟨group, hgroup, rfl⟩ := List.mem_map.1 (OrderedSet.mem_of_mem_insertAll_nil hm)
    exact hstored group hgroup
  complete m hm := OrderedSet.exists_mem_insertAll _ hm
  added m hm := by
    obtain ⟨group, hgroup, rfl⟩ := List.mem_map.1 (OrderedSet.mem_of_mem_insertAll_nil hm)
    exact ⟨group, hgroup, rfl⟩
  whole group hgroup := OrderedSet.exists_mem_insertAll _ (List.mem_map.2 ⟨group, hgroup, rfl⟩)

theorem serves_references {name : String} (hname : input.name = none)
    (hvalue : (p.descriptor kind).reference = .valueOf name)
    (hstored : ∀ group ∈ (input.requests.get kind).groups, dir.Stored group)
    {plan : ReferencePlan}
    (h : PlansReferences p kind dn e dir.entries false (p.plannedReferences dn input kind)
      (input.requests.get kind) plan) :
    ∃ diff, plan = ⟨kind, diff, []⟩ ∧ p.Serves kind dn e dir input diff := by
  cases h with
  | follow old stale huntouched hfollows =>
    refine ⟨_, rfl, feasible_moveTo old fun m hm => hfollows.mem hm, fun htouched => ?_⟩
    rw [huntouched] at htouched
    cases htouched
  | replace old stale plan htouched hfollows hlisted =>
    have hstale : ∀ m ∈ stale, m ∈ p.membershipsOf kind dn e dir.entries :=
      fun m hm => hfollows.mem hm
    cases hlisted with
    | nothing hnone =>
      have hreplaces := replaces_moveTo "" old hstored hstale
      rw [hnone] at hreplaces
      refine ⟨_, rfl, hreplaces.toFeasible, fun _ => ⟨"", fun hsome => absurd hnone hsome, ?_⟩⟩
      rw [hnone]
      exact hreplaces
    | later hsome hunknown hrenamed => cases hrenamed
    | now reference hsome hreference =>
      have hreplaces := replaces_moveTo reference old hstored hstale
      exact ⟨_, rfl, hreplaces.toFeasible, fun _ =>
        ⟨reference, fun _ => least_supplied hname hvalue hreference, hreplaces⟩⟩

theorem serves_static {plan : UpdatePlan} (hfollow : plan.followRename = false)
    (hstatic : plan.static = input.requests.static)
    (hexisting : plan.static.isUntouched = false →
      plan.existing = p.membershipsOf .static dn e dir.entries)
    (hstored : ∀ group ∈ input.requests.static.groups, dir.Stored group) :
    p.Serves .static dn e dir input (staticDiff plan dn) := by
  have hnone : ∀ m ∈ ([] : List GroupMembership),
      m ∈ p.membershipsOf .static dn e dir.entries := fun m hm => by cases hm
  have hreplaces := replaces_moveTo dn.text "" hstored hnone
  rw [moveTo_nil] at hreplaces
  unfold staticDiff
  rw [hfollow, if_neg Bool.false_ne_true]
  split
  · next huntouched =>
    rw [hstatic] at huntouched
    refine ⟨?_, fun htouched => ?_⟩
    · exact feasible_moveTo "" hnone
    · have htouched' : input.requests.static.isUntouched = false := htouched
      rw [huntouched] at htouched'
      cases htouched'
  · next htouched =>
    rw [hexisting (Bool.not_eq_true _ ▸ htouched), hstatic]
    refine ⟨hreplaces.toFeasible, fun _ => ⟨dn.text, fun _ => ?_, hreplaces⟩⟩
    exact ⟨List.mem_singleton_self _, fun y hy =>
      List.mem_singleton.1 hy ▸ String.le_refl _⟩

/-! ## The attributes of the entry itself -/

/-- Attributes of a stored entry can be replaced, and nothing else changes. -/
theorem run_modifyValues_touched (hdenied : dir.denied = []) (hstored : dir.Stored dn)
    (new : Attributes) :
    ∃ after, dir.run (p.modifyValues dn .replace new) = (.ok (), after) ∧
      Directory.Touched (fun name => new.get? name ≠ none) dir after := by
  unfold modifyValues sendItems
  split
  · exact ⟨dir, rfl, (Directory.touched_frame _).refl dir⟩
  · have hitems : ∀ item ∈ new.replacements, item.op = .replace := by
      intro item hitem
      obtain ⟨pair, -, rfl⟩ := List.mem_map.1 hitem
      rfl
    obtain ⟨after, hrun, htouched⟩ :=
      Directory.run_modify_replace p.supply hdenied hstored hitems
    refine ⟨after, ?_, htouched.mono ?_⟩
    · exact Directory.run_lift_of_ok hrun
    · exact fun name hitem => Attributes.get?_ne_none_of_item hitem

end Provisioner

end Roster
