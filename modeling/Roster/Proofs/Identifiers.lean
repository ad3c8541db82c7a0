import Roster.Proofs.Lookups
import Roster.Proofs.Moves
import Roster.Proofs.ReadingBack

/-!
# Identifiers lead back to names

An operation reports the identifier of the entry that it was about (`identify`), and a later one
finds the entry by it (`resolve`). Where names are identifiers this is a matter of their texts.
Where an attribute identifies entries, the first entry that a search below the base contexts gives
is taken, so the entry must lie below a base context, be of the sort, and be the only one with this
identifier.
-/

namespace Roster.Provisioner

/-- An entry is among those that are searched for an identifier: it lies below a base context and
has the last of the object classes of the sort, if the sort has any. -/
structure Searches (p : Provisioner) (entryClass : EntryClass) (e : Entry) : Prop where
  within : ∃ base ∈ p.bases, e.dn.isWithin base = true
  ofClass : ∀ name, (p.objectClasses entryClass).getLast? = some name →
    Text.holds (e.attributes.values "objectClass") name = true

variable {p : Provisioner} {entryClass : EntryClass} {dir : Directory} {dn : Dn} {e : Entry}
  {uid : String}

/-- The entries with an identifier are those that hold it ignoring case and are of the sort. -/
theorem uidFilter_accepts_iff : (p.uidFilter entryClass uid).accepts e = true ↔
    Text.holds (e.attributes.values (p.uidAttribute entryClass)) uid = true ∧
      ∀ name, (p.objectClasses entryClass).getLast? = some name →
        Text.holds (e.attributes.values "objectClass") name = true := by
  unfold uidFilter
  cases (p.objectClasses entryClass).getLast? with
  | none => simp [Filter.accepts, Filter.acceptsAll]
  | some name => simp [Filter.accepts, Filter.acceptsAll]

/-- The identifier of an entry is the first value of the attribute that identifies it. -/
theorem identify_ok_iff (hnot : p.identifiesByName entryClass = false) :
    (dir.run (p.identify entryClass dn)).1 = .ok uid ↔
      ∃ e, dir.entry? dn = some e ∧
        (e.attributes.values (p.uidAttribute entryClass)).head? = some uid := by
  unfold identify
  rw [hnot, if_neg Bool.false_ne_true, Directory.run_bind, Directory.run_lift, Directory.run_read]
  cases dir.entry? dn with
  | none =>
    refine iff_of_false (fun hfails => ?_) nofun
    cases hfails
  | some e =>
    dsimp only [Option.map_some, Except.mapError]
    rw [Attributes.first?, Attributes.values_project_singleton]
    simp only [Option.some.injEq, exists_eq_left']
    cases (e.attributes.values (p.uidAttribute entryClass)).head? with
    | none =>
      refine iff_of_false (fun hfails => ?_) nofun
      cases hfails
    | some value =>
      rw [Directory.run_pure, Except.ok.injEq, Option.some.injEq]

theorem holds_of_identify (hnot : p.identifiesByName entryClass = false)
    (hentry : dir.entry? dn = some e)
    (h : (dir.run (p.identify entryClass dn)).1 = .ok uid) :
    Text.holds (e.attributes.values (p.uidAttribute entryClass)) uid = true := by
  obtain ⟨e', hentry', hfirst⟩ := (identify_ok_iff hnot).1 h
  cases hentry.symm.trans hentry'
  exact Text.holds_iff.2 ⟨uid, List.mem_of_head? hfirst, rfl⟩

/-- **The only entry with an identifier is found by it**, in whatever order the base contexts are
searched, and however they overlap. -/
theorem resolve_of_only (hnot : p.identifiesByName entryClass = false) (he : e ∈ dir.entries.list)
    (hsearches : p.Searches entryClass e)
    (hholds : Text.holds (e.attributes.values (p.uidAttribute entryClass)) uid = true)
    (honly : ∀ other ∈ dir.entries.list, p.Searches entryClass other →
      Text.holds (other.attributes.values (p.uidAttribute entryClass)) uid = true → other = e) :
    (dir.run (p.resolve entryClass uid)).1 = .ok e.dn := by
  obtain ⟨after, hsearch, -⟩ := KindDescriptor.run_mapM_search p.bases
    (p.uidFilter entryClass uid) [p.uidAttribute entryClass] dir
  have hfound (x : Entry) : x ∈ (p.bases.map fun base => (dir.entries.list.filter fun e =>
      e.dn.isWithin base && (p.uidFilter entryClass uid).accepts e).map fun e =>
        ⟨e.dn, e.attributes.project [p.uidAttribute entryClass]⟩).flatten ↔
      x = ⟨e.dn, e.attributes.project [p.uidAttribute entryClass]⟩ := by
    refine mem_searched.trans ⟨?_, ?_⟩
    · rintro ⟨other, hother, hwithin, haccepts, rfl⟩
      obtain ⟨hvalue, hclass⟩ := uidFilter_accepts_iff.1 haccepts
      rw [honly other hother ⟨hwithin, hclass⟩ hvalue]
    · rintro rfl
      exact ⟨e, he, hsearches.within, uidFilter_accepts_iff.2 ⟨hholds, hsearches.ofClass⟩, rfl⟩
  unfold resolve
  rw [hnot, if_neg Bool.false_ne_true, Directory.run_bind, Directory.run_mapM_lift,
    Directory.run_lift, hsearch]
  dsimp only [Except.mapError]
  split
  · next first rest hlist =>
    have hfirst := (hfound first).1 (hlist ▸ List.mem_cons_self)
    rw [hfirst]
    rfl
  · next hlist =>
    have hmem := (hfound _).2 rfl
    rw [hlist] at hmem
    cases hmem

/-- **The identifier of an entry leads back to its name.** Where names are identifiers, this holds
for every name that has been read, whatever is stored. Where an attribute identifies the entries,
it holds for a stored entry that is searched for and whose identifier no other such entry holds
ignoring case. -/
theorem resolve_identify (p : Provisioner) (entryClass : EntryClass) (dir : Directory) (dn : Dn) :
    (p.identifiesByName entryClass = true → (∃ s, Dn.parse s = .ok dn) →
      ∃ uid found, (dir.run (p.identify entryClass dn)).1 = .ok uid ∧
        (∀ later : Directory, (later.run (p.resolve entryClass uid)).1 = .ok found) ∧
        found.same dn = true) ∧
    (p.identifiesByName entryClass = false → ∀ e uid, dir.entry? dn = some e →
      p.Searches entryClass e → (dir.run (p.identify entryClass dn)).1 = .ok uid →
      (∀ other ∈ dir.entries.list, other.dn.same dn = false → p.Searches entryClass other →
        ¬ Text.holds (other.attributes.values (p.uidAttribute entryClass)) uid = true) →
      ∃ found, (∀ later : Directory, later.entries = dir.entries →
          (later.run (p.resolve entryClass uid)).1 = .ok found) ∧
        found.same dn = true) := by
  constructor
  · rintro hnamed ⟨s, hparse⟩
    obtain ⟨found, hfound, hsame⟩ := Dn.parse_text hparse
    refine ⟨dn.text, found, ?_, fun later => ?_, hsame⟩
    · rw [identify, if_pos hnamed]
      rfl
    · rw [resolve, if_pos hnamed, hfound]
      rfl
  · intro hnot e uid hentry hsearches hidentify hothers
    obtain ⟨he, hkey⟩ := dir.entries.get?_eq_some_iff.1 hentry
    refine ⟨e.dn, fun later hentries => ?_, Dn.same_iff.2 hkey⟩
    refine resolve_of_only hnot (hentries ▸ he) hsearches
      (holds_of_identify hnot hentry hidentify) fun other hother hamong hholds => ?_
    rw [hentries] at hother
    cases hsame : other.dn.same dn with
    | false => exact absurd hholds (hothers other hother hsame hamong)
    | true => exact dir.entries.eq_of_key_eq hother he ((Dn.same_iff.1 hsame).trans hkey.symm)

end Roster.Provisioner

namespace Roster.Sample

/-- A provisioner that searches for the attribute `mail` below `dc=x`, twice. -/
def mailProvisioner : Provisioner :=
  { provisioner with
    configuration := { provisioner.configuration with
      uidAttribute := "mail", accountObjectClasses := ["person"] }
    bases := provisioner.bases ++ provisioner.bases }

/-- A directory with an entry and a group of one mail address. -/
def annWithMail : Directory :=
  directory [(name "cn" "ann", [("objectClass", ["person"]), ("mail", ["ann@x"])]),
    (name "cn" "team", [("mail", ["ANN@X"])])]

/-- A name with a comma and a tab in it leads back to itself, and a mail address to its account. -/
theorem identifiers_lead_back :
    (∃ uid found,
      (annWithMail.run (provisioner.identify .account (name "cn" "a,b\t"))).1 = .ok uid ∧
      (annWithMail.run (provisioner.resolve .account uid)).1 = .ok found ∧
      found.same (name "cn" "a,b\t") = true) ∧
    ∃ found, (annWithMail.run (mailProvisioner.resolve .account "ann@x")).1 = .ok found ∧
      found.same (name "cn" "ann") = true := by
  have hothers : ∀ other ∈ annWithMail.entries.list, other.dn.same (name "cn" "ann") = false →
      Text.holds (other.attributes.values "objectClass") "person" = false := by decide +kernel
  constructor
  · obtain ⟨uid, found, hidentify, hresolve, hsame⟩ :=
      (provisioner.resolve_identify .account annWithMail (name "cn" "a,b\t")).1 (by decide +kernel)
        ⟨"cn=a\\,b\\09,dc=x", by decide +kernel⟩
    exact ⟨uid, found, hidentify, hresolve annWithMail, hsame⟩
  · obtain ⟨found, hresolve, hsame⟩ :=
      (mailProvisioner.resolve_identify .account annWithMail (name "cn" "ann")).2
        (by decide +kernel)
        ⟨name "cn" "ann", .ofList [("objectClass", ["person"]), ("mail", ["ann@x"])]⟩ "ann@x"
        (by decide +kernel)
        ⟨⟨⟨[.single "dc" "x"]⟩, by decide +kernel, by decide +kernel⟩, by decide +kernel⟩
        (by decide +kernel) fun other hother hne hsearches =>
          absurd (hsearches.ofClass "person" rfl) (by simp [hothers other hother hne])
    exact ⟨found, hresolve annWithMail rfl, hsame⟩

end Roster.Sample
