import Roster.Proofs.Maintenance
import Roster.Proofs.Reachable

/-!
# What survives an update

An update modifies entries and renames at most one, and so it can lose an entry only when this one
takes those below it along (`amended_or_moved`). `update_keeps_entries` says what a directory holds
after an update, however it has come about. The number of entries is the same as before unless an
entry that moves along takes the place of another one. If none does, then the renamed entry is
stored under the name that was asked for, unless that lies below the old one; those that were below
it are stored at the corresponding places; and all others are where they were. They have all their
attributes, but for those that requests modify and for what the server maintains.
-/

namespace Roster

open Directory (Unwritten Collides NestsItself)

/-! ## Modifications -/

/-- Between two moments entries were at most modified: each keeps its name and, but for the time
stamp, the attributes that no request modifies. -/
structure Amended (dir after : Directory) : Prop where
  named : Provisioner.Named dir after
  spares : ∃ requests, after.journal = dir.journal ++ requests ∧
    ∀ (x : Dn) (name : String), ¬ Text.same "modifyTimestamp" name = true →
      (∀ request ∈ requests, ¬ request.Modifies x name) → Spares x name dir after

theorem amended_frame : Frame Amended where
  refl dir := ⟨Provisioner.named_frame.refl dir, [], by simp, fun _ _ _ _ => rfl⟩
  trans := by
    rintro a b c ⟨nab, rs, hrs, hab⟩ ⟨nbc, ts, hts, hbc⟩
    refine ⟨Provisioner.named_frame.trans nab nbc, rs ++ ts, ?_, fun x name hstamp hnone => ?_⟩
    · rw [hts, hrs, List.append_assoc]
    · exact (spares_frame x name).trans
        (hab x name hstamp fun r hr => hnone r (List.mem_append_left ts hr))
        (hbc x name hstamp fun r hr => hnone r (List.mem_append_right rs hr))

theorem amended_of_entries {dir after : Directory} {requests : List Request}
    (hentries : after.entries = dir.entries) (hjournal : after.journal = dir.journal ++ requests) :
    Amended dir after where
  named x := by rw [Directory.storedName, hentries, Directory.storedName]
  spares := ⟨requests, hjournal, fun x name _ _ => by rw [Spares, hentries]⟩

theorem Directory.Unwritten.amended {dir after : Directory} (h : dir.Unwritten after) :
    Amended dir after := by
  obtain ⟨hentries, -, requests, hjournal, -⟩ := h
  exact amended_of_entries hentries hjournal

theorem keeps_amended_modify {supply : Supply} {target : Dn} {items : List Modification} :
    Keeps Amended (Directory.modify supply target items) := by
  intro dir
  refine ⟨Provisioner.keeps_named_modify dir, _, dir.journal_modify supply target items, ?_⟩
  intro x name hstamp hnone
  refine keeps_spares_modify hstamp (fun hkey item hitem hname => ?_) dir
  exact hnone _ (List.mem_singleton_self _) ⟨target, items, rfl, hkey, item, hitem, hname⟩

theorem Errand.IsModify.keeps_amended {errand : Errand} (h : errand.IsModify) (supply : Supply) :
    Keeps Amended (errand.mutation.send supply) := by
  obtain ⟨target, items, hmutation⟩ := h
  rw [hmutation]
  exact keeps_amended_modify

theorem Course.amended {ε α : Type} {supply : Supply} {raise : DirectoryError → ε}
    {dir after : Directory} {sent : List Errand} {result : Except ε α}
    (h : Course supply raise dir sent result after) (hsent : ∀ errand ∈ sent, errand.IsModify) :
    Amended dir after :=
  h.keeps amended_frame (fun hquiet => hquiet.amended)
    fun errand herrand => (hsent errand herrand).keeps_amended supply

/-! ## One rename among modifications -/

namespace Provisioner

variable {p : Provisioner} {dn : Dn} {rename : Option Rename} {dir after : Directory}

/-- A move between two directories, with nothing but modifications before and after it. -/
def Moved (p : Provisioner) (dn : Dn) (r : Rename) (dir after : Directory) : Prop :=
  ∃ before landed moved, Amended dir before ∧
    before.run (Directory.rename p.supply dn r.rdn r.superior) = (.ok landed, moved) ∧
    Amended moved after

/-- Requests that ask for one move, if for any, among modifications. If none is made, then none was
asked for or the requests have not all been done. -/
theorem amended_or_moved {α : Type} {sent first later : List Errand}
    {result : Except ProvisioningError α}
    (h : Course p.supply .directory dir sent result after)
    (hbegins : sent <+: first ++ (moveErrands dn rename ++ later))
    (hfirst : ∀ errand ∈ first, errand.IsModify) (hlater : ∀ errand ∈ later, errand.IsModify) :
    (Amended dir after ∧ (rename = none ∨ (∃ err, result = .error err) ∨
        sent ≠ first ++ (moveErrands dn rename ++ later))) ∨
      ∃ r, rename = some r ∧ p.Moved dn r dir after := by
  cases rename with
  | none =>
    refine .inl ⟨h.amended fun errand herrand => ?_, .inl rfl⟩
    exact (List.mem_append.1 (hbegins.subset herrand)).elim (hfirst errand) (hlater errand)
  | some r =>
    -- Either all that was sent comes before the move, or the move is part of it.
    have hshort (hsent : sent <+: first) : Amended dir after ∧
        sent ≠ first ++ (moveErrands dn (some r) ++ later) := by
      refine ⟨h.amended fun errand herrand => hfirst errand (hsent.subset herrand), fun heq => ?_⟩
      have hlength := hsent.length_le
      rw [heq, List.length_append, List.length_append] at hlength
      have hone : (moveErrands dn (some r)).length = 1 := rfl
      omega
    obtain ⟨rest, hrest⟩ := hbegins
    rcases List.append_eq_append_iff.1 hrest with ⟨_, hsent, -⟩ | ⟨tail, hsent, htail⟩
    · obtain ⟨hamended, hpart⟩ := hshort ⟨_, hsent.symm⟩
      exact .inl ⟨hamended, .inr (.inr hpart)⟩
    cases tail with
    | nil =>
      rw [List.append_nil] at hsent
      obtain ⟨hamended, hpart⟩ := hshort ⟨[], (List.append_nil sent).trans hsent⟩
      exact .inl ⟨hamended, .inr (.inr hpart)⟩
    | cons errand tail =>
      obtain ⟨rfl, hlast⟩ := List.cons.inj htail
      replace hlast : later = tail ++ rest := hlast
      rw [hsent] at h
      obtain ⟨mid, hbefore, hcourse⟩ := h.split.resolve_right fun hnone => by cases hnone.1
      have hamended := hbefore.amended hfirst
      cases hcourse with
      | @goesOn _ before moved _ _ _ outcome _ hquiet hrun hdone hcourse =>
        cases outcome with
        | error e => cases hdone.1
        | ok _ =>
          obtain ⟨landed, _, hmove, hpure⟩ := Directory.run_bind_ok.1 hrun
          cases hpure
          refine .inr ⟨r, rfl, before, landed, moved,
            amended_frame.trans hamended hquiet.amended, hmove, ?_⟩
          refine hcourse.amended fun errand herrand => ?_
          exact hlater errand (hlast ▸ List.mem_append_left _ herrand)
      | @stops _ before _ _ e hquiet hrun =>
        refine .inl ⟨?_, .inr (.inl ⟨_, rfl⟩)⟩
        have hfails := (Directory.run_bind_error.1 hrun).resolve_right fun ⟨_, _, _, hpure⟩ => by
          cases hpure
        rw [Directory.run_perform_error hfails]
        exact amended_frame.trans hamended (amended_frame.trans hquiet.amended
          (amended_of_entries rfl rfl))

/-- An update only modifies, or it makes one move among modifications. If it moves nothing then
nothing is asked for, or it fails. -/
theorem update_amended_or_moved (p : Provisioner) (entryClass : EntryClass) (uid : String)
    (attributes : List InputAttribute) (dir : Directory) :
    Amended dir (dir.run (p.update entryClass uid attributes)).2 ∧
        (∀ dn input r, (Operation.update entryClass uid attributes).Concerns p dir dn input →
          renameFor? dn input.name = some r →
            ∃ err, (dir.run (p.update entryClass uid attributes)).1 = .error err) ∨
      ∃ dn input r, (Operation.update entryClass uid attributes).Concerns p dir dn input ∧
        renameFor? dn input.name = some r ∧
        p.Moved dn r dir (dir.run (p.update entryClass uid attributes)).2 := by
  obtain ⟨sent, hcourse, ⟨rfl, herror, -⟩ | ⟨dn, input, full, hconcerns, horder, hbegins, hall⟩⟩ :=
    (Operation.update entryClass uid attributes).orderly p dir
  · exact .inl ⟨hcourse.amended nofun, fun _ _ _ _ _ => herror⟩
  obtain ⟨ended, begun, stored, -, rfl⟩ := horder
  rcases amended_or_moved hcourse hbegins isModify_itemErrands isModify_settledErrands with
    ⟨hamended, hnone⟩ | ⟨r, hrename, hmoved⟩
  · refine .inl ⟨hamended, fun dn' input' r hconcerns' hrename => ?_⟩
    obtain ⟨hdn, hinput⟩ := hconcerns
    obtain ⟨hdn', hinput'⟩ := hconcerns'
    cases hdn.symm.trans hdn'
    cases hinput.symm.trans hinput'
    rcases hnone with hnone | herror | hpart
    · cases hnone.symm.trans hrename
    · exact herror
    · cases hresult : (dir.run (p.update entryClass uid attributes)).1 with
      | error err => exact ⟨err, rfl⟩
      | ok uid' => exact absurd (hall uid' hresult) hpart
  · exact .inr ⟨dn, input, r, hconcerns, hrename, hmoved⟩

end Provisioner

/-! ## Entries that stay or move along -/

namespace Amended

variable {dir after : Directory} (h : Amended dir after)

include h

theorem mem_names {d : Dn} : d ∈ after.entries.names ↔ d ∈ dir.entries.names := by
  have hstored (dir : Directory) : d ∈ dir.entries.names ↔ dir.storedName d = some d := by
    rw [Entries.mem_names, Directory.storedName, Option.map_eq_some_iff]
    constructor
    · rintro ⟨e, he, rfl⟩
      exact ⟨e, dir.entries.get?_eq_some_iff.2 ⟨he, rfl⟩, rfl⟩
    · rintro ⟨e, he, rfl⟩
      exact ⟨e, (dir.entries.get?_eq_some_iff.1 he).1, rfl⟩
  rw [hstored, hstored, h.named]

theorem size_eq : after.entries.size = dir.entries.size := by
  have hnodup (entries : Entries) : entries.names.Nodup := by
    refine List.pairwise_map.2 (entries.ordered.imp ?_)
    intro a b hlt heq
    exact String.lt_irrefl _ (heq ▸ hlt)
  have hperm := (List.perm_ext_iff_of_nodup (hnodup after.entries) (hnodup dir.entries)).2
    fun d => h.mem_names
  have hlength := hperm.length_eq
  rw [Entries.names, Entries.names, List.length_map, List.length_map] at hlength
  exact hlength

theorem collides {dn renamed : Dn} :
    Collides dn renamed after.entries.names ↔ Collides dn renamed dir.entries.names := by
  refine Directory.Clashes.congr fun d => ?_
  simp only [Directory.retitled, List.mem_cons, List.mem_filter, h.mem_names]

/-- A stored entry is still there, under the name that it has. -/
theorem exists_entry {x : Dn} {e : Entry} (hentry : dir.entry? x = some e) :
    ∃ e', after.entry? x = some e' ∧ e'.dn = e.dn := by
  have hname := h.named x
  rw [Directory.storedName, Directory.storedName] at hname
  rw [show dir.entries.get? x = some e from hentry] at hname
  exact Option.map_eq_some_iff.1 hname

theorem entry?_eq_none {x : Dn} (hnone : dir.entry? x = none) : after.entry? x = none := by
  have hname := h.named x
  rw [Directory.storedName, Directory.storedName] at hname
  rw [show dir.entries.get? x = none from hnone] at hname
  exact Option.map_eq_none_iff.1 hname

end Amended

/-- The entry at `x` before is the one at `x'` afterwards: it has the attributes that it had, but
for some that are `changed`, for the time stamp, and for those that requests modify. -/
def Survives (requests : List Request) (changed : String → Prop) (x x' : Dn)
    (dir after : Directory) : Prop :=
  ∃ e e', dir.entry? x = some e ∧ after.entry? x' = some e' ∧ e'.dn = x' ∧
    ∀ name, ¬ changed name → ¬ Text.same "modifyTimestamp" name = true →
      (∀ request ∈ requests, ¬ request.Modifies x name ∧ ¬ request.Modifies x' name) →
      e'.attributes.values name = e.attributes.values name

/-- What is stored when the entry at a name has been renamed. -/
structure Relocated (dn landed : Dn) (requests : List Request) (dir after : Directory) : Prop where
  /-- The renamed entry is stored under its new name, unless this lies below the old one. -/
  own : ¬ NestsItself dn landed → Survives requests
    (fun name => Text.same "entryDN" name = true ∨ dn.leafValues name ≠ [] ∨
      landed.leafValues name ≠ []) dn landed dir after
  /-- Those below it are stored at the corresponding places, and all others where they were. -/
  others (x : Dn) : x ∈ dir.entries.names → x.key ≠ dn.key → Survives requests
    (fun name => x.IsBelow dn ∧ Text.same "entryDN" name = true) x (x.follow dn landed) dir after

section Moving

variable {p : Provisioner} {dn landed x x' : Dn} {r : Provisioner.Rename}
  {dir before moved after : Directory} {requests : List Request} {changed : String → Prop} {e : Entry}

/-- What survives the move survives the modifications around it. -/
theorem survives_of_moved (hbefore : Amended dir before) (hafter : Amended moved after)
    (hjournal : after.journal = dir.journal ++ requests) {request : Request}
    (hmoved : moved.journal = before.journal ++ [request]) (hentry : dir.entry? x = some e)
    (hmove : ∀ e₁, before.entry? x = some e₁ → e₁.dn = e.dn →
      ∃ e₂, moved.entry? x' = some e₂ ∧ e₂.dn = x' ∧ ∀ name, ¬ changed name →
        ¬ Text.same "modifyTimestamp" name = true →
          e₂.attributes.values name = e₁.attributes.values name) :
    Survives requests changed x x' dir after := by
  obtain ⟨-, early, hearly, hspared⟩ := id hbefore
  obtain ⟨-, late, hlate, hspared'⟩ := id hafter
  have hrequests : requests = early ++ ([request] ++ late) := by
    rw [hlate, hmoved, hearly, List.append_assoc, List.append_assoc] at hjournal
    exact (List.append_cancel_left hjournal).symm
  obtain ⟨e₁, he₁, hdn⟩ := hbefore.exists_entry hentry
  obtain ⟨e₂, he₂, hdn', hvalues⟩ := hmove e₁ he₁ hdn
  obtain ⟨e₃, he₃, hdn''⟩ := hafter.exists_entry he₂
  refine ⟨e, e₃, hentry, he₃, hdn''.trans hdn', fun name hkept hstamp hnone => ?_⟩
  rw [hrequests] at hnone
  have hfirst := hspared x name hstamp fun request hrequest =>
    (hnone request (List.mem_append_left _ hrequest)).1
  have hlast := hspared' x' name hstamp fun request hrequest =>
    (hnone request (List.mem_append_right _ (List.mem_append_right _ hrequest))).2
  obtain ⟨_, hthere, heq⟩ := hfirst.stored hentry
  cases hthere.symm.trans he₁
  obtain ⟨_, hthere, heq'⟩ := hlast.stored he₂
  cases hthere.symm.trans he₃
  rw [heq', hvalues name hkept hstamp, heq]

/-- **A move without a collision** leaves every entry in its place. -/
theorem relocated_of_moved (hbefore : Amended dir before) (hafter : Amended moved after)
    (hrun : before.run (Directory.rename p.supply dn r.rdn r.superior) = (.ok landed, moved))
    (hjournal : after.journal = dir.journal ++ requests)
    (hfree : ¬ Collides dn landed dir.entries.names) :
    Relocated dn landed requests dir after := by
  obtain ⟨rfl, hmoved, source, hsource, hown, -⟩ := Directory.run_rename_ok hrun
  constructor
  · intro hnests
    have hthere : ∃ e, dir.entry? dn = some e := by
      refine Option.ne_none_iff_exists'.1 fun hnone => ?_
      cases hsource.symm.trans (hbefore.entry?_eq_none hnone)
    obtain ⟨e, hentry⟩ := hthere
    refine survives_of_moved hbefore hafter hjournal hmoved hentry fun e₁ he₁ _ => ?_
    cases hsource.symm.trans he₁
    refine ⟨_, hown hnests, rfl, fun name hkept hstamp => ?_⟩
    obtain ⟨hdn, hleaf⟩ := not_or.1 hkept
    obtain ⟨hold, hnew⟩ := not_or.1 hleaf
    have hrdn : r.rdn.valuesOf name = [] := Classical.not_not.1 hnew
    have hkeeps : (source.attributes.values name).filter
        (fun v => !Text.holds (dn.leafValues name) v) = source.attributes.values name := by
      rw [Classical.not_not.1 hold]
      exact List.filter_eq_self.2 fun _ _ => rfl
    dsimp only
    rw [Directory.values_renamedAttributes _ _ _ _ _ _ hdn hstamp, hkeeps, hrdn,
      OrderedSet.insertAll_nil]
  · intro x hx hother
    obtain ⟨e, he, rfl⟩ := Entries.mem_names.1 hx
    have hentry : dir.entry? e.dn = some e := dir.entries.get?_eq_some_iff.2 ⟨he, rfl⟩
    refine survives_of_moved hbefore hafter hjournal hmoved hentry fun e₁ he₁ hdn => ?_
    have hmem := (before.entries.get?_eq_some_iff.1 he₁).1
    have hplace := Directory.get?_rename hrun (fun h => hfree (hbefore.collides.1 h)) hmem
      (by rw [hdn]; exact hother)
    rw [hdn] at hplace
    refine ⟨_, hplace, ?_, fun name hkept _ => ?_⟩
    · split
      · rw [Directory.carried, hdn]
      · next hbelow =>
        rw [hdn, Dn.follow_of_not_isWithin fun hwithin =>
          hbelow ⟨hwithin, fun hsame => hother (Dn.same_iff.1 hsame)⟩]
    · split
      · next hbelow =>
        rw [Directory.carried, Attributes.values_put, if_neg fun hname => hkept ⟨hbelow, hname⟩]
      · rfl

end Moving

namespace Provisioner

variable {p : Provisioner} {dir : Directory} {entryClass : EntryClass} {uid : String}
  {attributes : List InputAttribute}

/-- **No update loses an entry**, unless an entry that moves along with the renamed one takes the
place of another one. The renamed entry is stored under the name that is asked for, unless this lies
below the old one, those below it are stored at the corresponding places, and all others where they
were. -/
theorem update_keeps_entries {result : Except ProvisioningError String} {after : Directory}
    (hreach : dir.Reachable)
    (hrun : dir.run (p.update entryClass uid attributes) = (result, after)) :
    after.entries.size ≤ dir.entries.size ∧
      (after.entries.size ≠ dir.entries.size →
        ∃ dn input r, (Operation.update entryClass uid attributes).Concerns p dir dn input ∧
          renameFor? dn input.name = some r ∧
          Collides dn (landing dn (some r)) dir.entries.names) ∧
      ∀ dn input r uid', (Operation.update entryClass uid attributes).Concerns p dir dn input →
        renameFor? dn input.name = some r → result = .ok uid' →
          (landing dn (some r)).same r.target = true ∧
          (after.entries.size = dir.entries.size ↔
            ¬ Collides dn (landing dn (some r)) dir.entries.names) ∧
          (NestsItself dn (landing dn (some r)) → after.entry? r.target = none) ∧
          (¬ Collides dn (landing dn (some r)) dir.entries.names →
            ∃ requests, after.journal = dir.journal ++ requests ∧
              Relocated dn (landing dn (some r)) requests dir after) := by
  have hlogged := p.keeps_logged_update entryClass uid attributes dir
  have hcases := p.update_amended_or_moved entryClass uid attributes dir
  rw [hrun] at hlogged hcases
  rcases hcases with ⟨hamended, hfails⟩ | ⟨dn, input, r, hconcerns, hrename, hmoved⟩
  · refine ⟨Nat.le_of_eq hamended.size_eq, fun hne => absurd hamended.size_eq hne, ?_⟩
    intro dn input r uid' hconcerns hrename hok
    obtain ⟨err, herror⟩ := hfails dn input r hconcerns hrename
    cases herror.symm.trans hok
  · obtain ⟨before, landed, moved, hbefore, hmove, hafter⟩ := hmoved
    obtain ⟨hle, hiff⟩ := Directory.size_rename hmove
    rw [← hafter.size_eq, hbefore.size_eq, hbefore.collides] at hiff
    rw [← hafter.size_eq, hbefore.size_eq] at hle
    obtain ⟨rfl, -, source, -, -, hnests⟩ := Directory.run_rename_ok hmove
    refine ⟨hle, fun hne => ⟨dn, input, r, hconcerns, hrename, ?_⟩, ?_⟩
    · exact Classical.not_not.1 fun hfree => hne (hiff.2 hfree)
    intro dn' input' r' uid' hconcerns' hrename' _
    obtain ⟨hdn, hinput⟩ := hconcerns
    obtain ⟨hdn', hinput'⟩ := hconcerns'
    cases hdn.symm.trans hdn'
    cases hinput.symm.trans hinput'
    cases hrename.symm.trans hrename'
    have hkey := landing_same (formed_of_resolve hreach.formed hdn) (Input.name_spelled hinput) hrename
    refine ⟨Dn.same_iff.2 hkey, hiff, fun hnested => ?_, fun hfree => ?_⟩
    · have hgone := hafter.entry?_eq_none (hnests hnested)
      rw [Directory.entry?, Entries.get?] at hgone ⊢
      rw [← hkey]
      exact hgone
    · obtain ⟨-, requests, hjournal, -⟩ := hlogged
      exact ⟨requests, hjournal, relocated_of_moved hbefore hafter hmove hjournal hfree⟩

end Provisioner

namespace Sample

/-- An update that asks for another name. -/
def askName (asked : String) : List InputAttribute :=
  [⟨"__NAME__", [.text asked]⟩]

/-- A directory with an entry, one below it and one beside it. -/
def family : Directory :=
  grown [name "cn" "a", (name "cn" "a").child (.single "cn" "c"), name "cn" "d"]

/-- The directory after the first of them has been renamed. -/
def movedFamily : Directory :=
  (family.run (provisioner.update .account "cn=a,dc=x" (askName "cn=b,dc=x"))).2

/-- The entries are all there, each in its place. -/
theorem family_relocated : movedFamily.entries.size = 3 ∧
    ∃ requests, movedFamily.journal = family.journal ++ requests ∧
      Relocated (name "cn" "a") (name "cn" "b") requests family movedFamily := by
  have hfamily : family.Reachable := reachable_grown (by decide)
  have hresolve : (family.run (provisioner.resolve .account "cn=a,dc=x")).1 =
      .ok (name "cn" "a") := by decide +kernel
  have hinput : Input.partition .update (askName "cn=b,dc=x") =
      .ok { name := some (name "cn" "b") } := by decide +kernel
  have hrename : Provisioner.renameFor? (name "cn" "a") (some (name "cn" "b")) =
      some ⟨name "cn" "b", .single "cn" "b", none⟩ := by decide +kernel
  have hrun : (family.run (provisioner.update .account "cn=a,dc=x" (askName "cn=b,dc=x"))).1 =
      .ok "cn=b,dc=x" := by decide +kernel
  have hmoved : family.run (provisioner.update .account "cn=a,dc=x" (askName "cn=b,dc=x")) =
      (.ok "cn=b,dc=x", movedFamily) := Directory.run_of_result hrun
  have hlanding : Provisioner.landing (name "cn" "a")
      (some ⟨name "cn" "b", .single "cn" "b", none⟩) = name "cn" "b" := by decide +kernel
  have hfree : ¬ Directory.Collides (name "cn" "a") (name "cn" "b") family.entries.names := by
    decide +kernel
  obtain ⟨-, -, hmoves⟩ :=
    Provisioner.update_keeps_entries hfamily hmoved
  have hplaces := hmoves _ _ _ _ ⟨hresolve, hinput⟩ hrename rfl
  rw [hlanding] at hplaces
  obtain ⟨-, hsize, -, hplaces⟩ := hplaces
  exact ⟨(hsize.2 hfree).trans (by decide +kernel), hplaces hfree⟩

/-! ## Entries that get lost -/

/-- A directory with an entry, one below it, and one where this one arrives when the former becomes
`cn=b,dc=x`. -/
def crowded : Directory :=
  grown [name "cn" "a", (name "cn" "a").child (.single "cn" "c"),
    (name "cn" "b").child (.single "cn" "c")]

/-- A directory with a single entry. -/
def lone : Directory :=
  grown [name "cn" "a"]

/-- A rename that succeeds loses the entry in whose place another one arrives, and leaves nothing at
the name that is asked for if this lies below the old one. -/
theorem renames_lose_entries :
    crowded.Reachable ∧ crowded.entries.size = 3 ∧
      (crowded.run (provisioner.update .account "cn=a,dc=x" (askName "cn=b,dc=x"))).1 =
        .ok "cn=b,dc=x" ∧
      (crowded.run (provisioner.update .account "cn=a,dc=x"
        (askName "cn=b,dc=x"))).2.entries.size = 2 ∧
      lone.Reachable ∧
      (lone.run (provisioner.update .account "cn=a,dc=x" (askName "cn=b,cn=a,dc=x"))).1 =
        .ok "cn=b,cn=a,dc=x" ∧
      Directory.entry? (lone.run (provisioner.update .account "cn=a,dc=x"
        (askName "cn=b,cn=a,dc=x"))).2 ((name "cn" "a").child (.single "cn" "b")) = none :=
  ⟨reachable_grown (by decide), by decide +kernel, by decide +kernel, by decide +kernel,
    reachable_grown (by decide), by decide +kernel, by decide +kernel⟩

end Sample

end Roster
