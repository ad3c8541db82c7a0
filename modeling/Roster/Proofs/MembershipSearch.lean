import Roster.Proofs.Memberships
import Roster.Proofs.Moves

/-!
# What a search for memberships reports

A search for memberships asks the directory for the groups that hold one of the references, and then
compares the values of each group with each reference. The directory compares texts ignoring ASCII
case; the comparison afterwards reads both texts as names, if names are the references. So a group
is reported for what it holds (`Belongs`) unless the first comparison misses all of its values
(`Hides`), and no membership is reported twice: `findMemberships_reports`.
-/

namespace Roster

open Directory (Unwritten)

namespace KindDescriptor

/-- A stored group below a base context holds a spelling of the reference of a membership, and the
membership names this group. -/
structure Belongs (d : KindDescriptor) (bases : List Dn) (entries : Entries)
    (m : GroupMembership) (group : Entry) : Prop where
  stored : group ∈ entries.list
  named : group.dn.same m.group = true
  within : ∃ base ∈ bases, group.dn.isWithin base = true
  refers : ∃ v ∈ group.attributes.values d.memberAttribute, d.refersTo v m.reference = true

/-- No value of a group is equal to one of some references ignoring ASCII case. -/
def Hides (d : KindDescriptor) (references : List String) (group : Entry) : Prop :=
  ∀ r ∈ references, ¬ d.Holds group r

theorem not_hides_iff {d : KindDescriptor} {references : List String} {group : Entry} :
    ¬ d.Hides references group ↔ ∃ r ∈ references, d.Holds group r := by
  simp only [Hides, Classical.not_forall, Classical.not_not, exists_prop]

/-- If references are values, no group is hidden that holds one of them. -/
theorem not_hides_of_belongs {d : KindDescriptor} {name : String}
    (hname : d.reference = .valueOf name) {bases : List Dn} {references : List String}
    {entries : Entries} {m : GroupMembership} {group : Entry} (hm : m.reference ∈ references)
    (h : d.Belongs bases entries m group) : ¬ d.Hides references group :=
  not_hides_iff.2 ⟨m.reference, hm, (holds_iff_refersTo hname).2 h.refers⟩

/-- The group of a membership is one entry. -/
theorem Belongs.unique {d : KindDescriptor} {bases : List Dn} {entries : Entries}
    {m : GroupMembership} {group other : Entry} (h : d.Belongs bases entries m group)
    (h' : d.Belongs bases entries m other) : group = other := by
  refine entries.eq_of_key_eq h.stored h'.stored ?_
  exact (Dn.same_iff.1 h.named).trans (Dn.same_iff.1 h'.named).symm

/-- What is found are the memberships of the groups that are not hidden. -/
theorem contains_foundIn_iff {d : KindDescriptor} {bases : List Dn} {references : List String}
    {entries : Entries} {m : GroupMembership} :
    (d.foundIn bases references entries).contains m = true ↔
      m.reference ∈ references ∧
        ∃ group, d.Belongs bases entries m group ∧ ¬ d.Hides references group := by
  rw [List.contains_iff_exists_mem_beq]
  constructor
  · rintro ⟨found, hfound, heq⟩
    obtain ⟨hreference, hkey⟩ := GroupMembership.beq_iff.1 heq
    obtain ⟨group, hstored, hwithin, hshown, hheld⟩ := of_mem_foundIn hfound
    obtain ⟨hgroup, hmem, hrefers⟩ := mem_heldIn.1 hheld
    rw [hreference]
    refine ⟨hmem, group, ⟨hstored, ?_, hwithin, hreference ▸ hrefers⟩, not_hides_iff.2 hshown⟩
    exact Dn.same_iff.2 (hgroup ▸ hkey.symm)
  · rintro ⟨hmem, group, h, hshown⟩
    have hheld : ⟨m.reference, group.dn⟩ ∈ d.heldIn references group :=
      mem_heldIn.2 ⟨rfl, hmem, h.refers⟩
    obtain ⟨found, hfound, heq⟩ :=
      exists_mem_foundIn h.stored h.within (not_hides_iff.1 hshown) hheld
    refine ⟨found, hfound, BEq.symm (BEq.trans heq (GroupMembership.beq_iff.2 ⟨rfl, ?_⟩))⟩
    exact Dn.same_iff.1 h.named

/-- **A search reports each membership once, and it reports those of all groups that are not
hidden.** It changes nothing. So it reports every membership exactly if no group is hidden that has
one, and this is always so where references are values. -/
theorem findMemberships_reports (d : KindDescriptor) (bases : List Dn) (references : List String)
    (dir : Directory) :
    ∃ found after,
      dir.run (d.findMemberships bases references) = (.ok found, after) ∧ dir.Unwritten after ∧
        (found.Pairwise fun a b => (a == b) = false) ∧
        (∀ m, found.contains m = true ↔ m.reference ∈ references ∧
          ∃ group, d.Belongs bases dir.entries m group ∧ ¬ d.Hides references group) ∧
        ((∀ m, found.contains m = true ↔
            m.reference ∈ references ∧ ∃ group, d.Belongs bases dir.entries m group) ↔
          ∀ m group, m.reference ∈ references → d.Belongs bases dir.entries m group →
            ¬ d.Hides references group) ∧
        ((∃ name, d.reference = .valueOf name) → ∀ m, found.contains m = true ↔
          m.reference ∈ references ∧ ∃ group, d.Belongs bases dir.entries m group) := by
  obtain ⟨after, hrun, hquiet⟩ := run_findMemberships d bases references dir
  have hfound := @contains_foundIn_iff d bases references dir.entries
  have hcomplete : (∀ m, (d.foundIn bases references dir.entries).contains m = true ↔
      m.reference ∈ references ∧ ∃ group, d.Belongs bases dir.entries m group) ↔
      ∀ m group, m.reference ∈ references → d.Belongs bases dir.entries m group →
        ¬ d.Hides references group := by
    constructor
    · intro h m group hm hbelongs
      obtain ⟨-, other, hother, hshown⟩ := hfound.1 ((h m).2 ⟨hm, group, hbelongs⟩)
      exact hbelongs.unique hother ▸ hshown
    · intro h m
      refine hfound.trans ⟨?_, ?_⟩
      · rintro ⟨hm, group, hbelongs, -⟩
        exact ⟨hm, group, hbelongs⟩
      · rintro ⟨hm, group, hbelongs⟩
        exact ⟨hm, group, hbelongs, h m group hm hbelongs⟩
  refine ⟨_, after, hrun, hquiet, ?_, fun m => hfound, hcomplete, ?_⟩
  · exact OrderedSet.pairwise_insertAll List.Pairwise.nil _
  · rintro ⟨name, hname⟩
    exact hcomplete.2 fun m group hm hbelongs => not_hides_of_belongs hname hm hbelongs

end KindDescriptor

namespace Sample

/-- A directory with a group that holds the name of its member with a space behind the comma. -/
def spacedTeam : Directory :=
  directory [(name "cn" "team", [("uniqueMember", ["cn=ann, dc=x"])])]

/-- The membership of `cn=ann,dc=x` in the group. -/
def annInSpacedTeam : GroupMembership :=
  ⟨"cn=ann,dc=x", name "cn" "team"⟩

/-- The membership that the group holds is not reported. -/
theorem annInSpacedTeam_hidden :
    (∃ group, (provisioner.descriptor .static).Belongs provisioner.bases spacedTeam.entries
        annInSpacedTeam group) ∧
      (spacedTeam.run ((provisioner.descriptor .static).findMemberships provisioner.bases
        [annInSpacedTeam.reference])).1 = .ok ([] : List GroupMembership) := by
  refine ⟨⟨⟨name "cn" "team", .ofList [("uniqueMember", ["cn=ann, dc=x"])]⟩, ?_⟩, ?_⟩
  · exact ⟨by decide +kernel, by decide +kernel,
      ⟨⟨[.single "dc" "x"]⟩, List.mem_cons_self, by decide +kernel⟩,
      ⟨"cn=ann, dc=x", by decide +kernel, by decide +kernel⟩⟩
  · rfl

end Sample

end Roster
