import Roster.Proofs.GroupViews
import Roster.Proofs.Identifiers
import Roster.Proofs.Operations
import Roster.Proofs.PairedRuns

/-!
# Lists of groups are sets

Each operation treats the groups that it is given in its own way: a creation makes a diff of them, an
update a diff against the memberships that were found, added groups are joined one by one whether or not
the entry is in them, and groups to leave select memberships among those found, except for static ones,
which are left one by one. In every case only the set of groups counts, however they are ordered, repeated
and spelled, but that static groups are left as often as they are listed (`SameRemovals`).

`Operation.run_relists` compares the runs of two operations that list the same groups. Up to the first
request for a membership they are the same; from then on their directories look the same, that is, they
differ in their histories and time stamps only (`Directory.SameView`). So the comparison fails where a
time stamp counts as a member or as a reference, or where a status policy tells lists of the same groups
apart (`lists_told_apart`).
-/

namespace Roster

open Provisioner (Action)

/-! ## Requests for the same groups -/

/-- Two requests say as much about the groups of a kind, and name groups that are related. -/
def GroupRequest.Alike (alike : List Dn → List Dn → Prop) (request other : GroupRequest) : Prop :=
  request.isUntouched = other.isUntouched ∧ alike request.groups other.groups

/-- Requests that are alike for each kind of groups. -/
def GroupRequests.Alike (alike : MembershipKind → List Dn → List Dn → Prop)
    (requests other : GroupRequests) : Prop :=
  ∀ kind, (requests.get kind).Alike (alike kind) (other.get kind)

/-- Two attributes are the same, or list groups that are related. -/
def InputAttribute.Relists (alike : MembershipKind → List Dn → List Dn → Prop)
    (a b : InputAttribute) : Prop :=
  a = b ∨ ∃ kind gs hs, b.name = a.name ∧ InputRole.ofName a.name = .groups kind ∧
    a.values.mapM a.dnOf = .ok gs ∧ b.values.mapM b.dnOf = .ok hs ∧ alike kind gs hs

/-- Two inputs that are the same but for the groups that they ask for. -/
structure Input.Alike (alike : MembershipKind → List Dn → List Dn → Prop) (input other : Input) :
    Prop where
  name : input.name = other.name
  enable : input.enable = other.enable
  requests : input.requests.Alike alike other.requests
  password : input.password = other.password
  resetPassword : input.resetPassword = other.resetPassword
  ordinary : input.ordinary = other.ordinary

variable {alike : MembershipKind → List Dn → List Dn → Prop}

theorem GroupRequest.alike_ofGroups {related : List Dn → List Dn → Prop} {gs hs : List Dn}
    (h : related gs hs) : (GroupRequest.ofGroups gs).Alike related (.ofGroups hs) := by
  have hgroups (groups : List Dn) : (GroupRequest.ofGroups groups).isUntouched = false ∧
      (GroupRequest.ofGroups groups).groups = groups := by
    cases groups <;> exact ⟨rfl, rfl⟩
  rw [Alike, (hgroups gs).1, (hgroups hs).1, (hgroups gs).2, (hgroups hs).2]
  exact ⟨rfl, h⟩

theorem GroupRequests.Alike.set {requests other : GroupRequests} (h : requests.Alike alike other)
    {kind : MembershipKind} {request request' : GroupRequest}
    (hrequest : request.Alike (alike kind) request') :
    (requests.set kind request).Alike alike (other.set kind request') := by
  intro kind'
  rw [get_set, get_set]
  split
  · next hkind => exact hkind ▸ hrequest
  · exact h kind'

namespace Input

theorem Alike.addOrdinary {input other : Input} (h : input.Alike alike other) (mode : InputMode)
    (name : String) (values : List String) :
    (input.addOrdinary mode name values).Alike alike (other.addOrdinary mode name values) := by
  unfold Input.addOrdinary
  rw [h.ordinary]
  split
  · exact h
  · split <;> exact { h with ordinary := rfl }

/-- One attribute leaves alike what was alike before. -/
theorem Alike.take (hrefl : ∀ kind gs, alike kind gs gs) {input other : Input}
    (h : input.Alike alike other) (mode : InputMode) {a b : InputAttribute}
    (hab : a.Relists alike b) :
    Agree (Alike alike) (input.take mode a) (other.take mode b) := by
  rcases hab with rfl | ⟨kind, gs, hs, hname, hrole, hgs, hhs, halike⟩
  · unfold Input.take
    cases InputRole.ofName a.name with
    | uid => exact .error _ _
    | name =>
      dsimp only
      split
      · exact .error _ _
      · cases a.singleDn with
        | error e => exact .error e e
        | ok dn => exact .ok { h with name := rfl }
    | groups kind =>
      cases a.values.mapM a.dnOf with
      | error e => exact .error e e
      | ok groups =>
        have hsame := GroupRequest.alike_ofGroups (hrefl kind groups)
        exact .ok { h with requests := h.requests.set hsame }
    | password =>
      cases a.password with
      | error e => exact .error e e
      | ok password => exact .ok { h with password := rfl }
    | enable =>
      cases a.boolean with
      | error e => exact .error e e
      | ok enable => exact .ok { h with enable := rfl }
    | resetPassword =>
      cases a.boolean with
      | error e => exact .error e e
      | ok asked => exact .ok { h with resetPassword := rfl }
    | ordinary =>
      cases a.encoded with
      | error e => exact .error e e
      | ok values => exact .ok (h.addOrdinary mode a.name values)
  · unfold Input.take
    rw [hname, hrole]
    dsimp only
    rw [hgs, hhs]
    exact .ok { h with requests := h.requests.set (GroupRequest.alike_ofGroups halike) }

/-- Attributes that list related groups make inputs that are alike, or are at fault alike. -/
theorem partition_relists (hrefl : ∀ kind gs, alike kind gs gs) (mode : InputMode)
    {as bs : List InputAttribute} (h : List.Forall₂ (InputAttribute.Relists alike) as bs) :
    Agree (Alike alike) (partition mode as) (partition mode bs) := by
  have hfold {input other : Input} (hinput : input.Alike alike other) :
      Agree (Alike alike) (as.foldlM (take mode) input) (bs.foldlM (take mode) other) := by
    induction h generalizing input other with
    | nil => exact .ok hinput
    | cons hhead _ ih =>
      rw [List.foldlM_cons, List.foldlM_cons]
      exact (hinput.take hrefl mode hhead).bind fun _ _ h => ih h
  exact hfold ⟨rfl, rfl, fun kind => ⟨rfl, hrefl kind _⟩, rfl, rfl, rfl⟩

end Input

/-- A status policy that takes lists of groups as sets: it sends the same attributes and asks for the
same groups, whatever the order and the spelling of the groups that it is given. -/
def StatusPolicy.ReadsSets (policy : StatusPolicy) : Prop :=
  ∀ (enabled : Bool) (attrs : Attributes) (requests other : GroupRequests),
    requests.Alike (fun _ => SameGroups) other →
    (policy enabled (attrs, requests)).1 = (policy enabled (attrs, other)).1 ∧
      (policy enabled (attrs, requests)).2.Alike (fun _ => SameGroups)
        (policy enabled (attrs, other)).2

/-! ## Directories that look the same to requests -/

/-- Two directories are the same but for their histories and time stamps. -/
def Directory.SameView (dir dir' : Directory) : Prop :=
  dir.view = dir'.view

open Directory (SameView)

variable {ε ε' : Type}

/-- What acts in the same way on views leaves directories that look the same. -/
theorem tracks_of_actsBy {x : ExceptT ε (StateM Directory) Unit}
    {x' : ExceptT ε' (StateM Directory) Unit} {f f' : DirectoryView → Option DirectoryView} (hx : ActsBy x f) (hx' : ActsBy x' f')
    (h : ∀ v, f v = f' v) : Tracks SameView SameView Eq x x' := by
  intro dir dir' hview
  have hviewed : viewed (dir.run x) = viewed (dir'.run x') := by
    rw [hx, hx', h, show dir.view = dir'.view from hview]
  cases hrun : dir.run x with
  | mk result after =>
    cases hrun' : dir'.run x' with
    | mk result' after' =>
      rw [hrun, hrun'] at hviewed
      cases result with
      | error e =>
        cases result' with
        | error e' => exact .error e e'
        | ok _ => cases hviewed
      | ok _ =>
        cases result' with
        | error e' => cases hviewed
        | ok _ => exact .ok ⟨rfl, Option.some.inj hviewed⟩

theorem Directory.Unwritten.view_eq {dir after : Directory} (h : dir.Unwritten after) :
    after.view = dir.view := by
  unfold Directory.view
  rw [h.1, h.2.1]

/-- What only reads leaves directories that look the same. -/
theorem tracks_of_unwritten {α β : Type} {R : α → β → Prop} {x : ExceptT ε (StateM Directory) α}
    {x' : ExceptT ε' (StateM Directory) β} (hx : Keeps Directory.Unwritten x)
    (hx' : Keeps Directory.Unwritten x')
    (h : ∀ {dir dir' : Directory}, dir.SameView dir' → Agree R (dir.run x).1 (dir'.run x').1) :
    Tracks SameView SameView R x x' := by
  intro dir dir' hview
  have hafter : (dir.run x).2.SameView (dir'.run x').2 :=
    (hx dir).view_eq.trans (Eq.trans hview (hx' dir').view_eq.symm)
  exact (h hview).mono fun _ _ hresults => ⟨hresults, hafter⟩

namespace Directory.SameView

variable {dir dir' : Directory}

theorem entry?_eq (h : dir.SameView dir') (dn : Dn) :
    (dir.entry? dn).map Entry.view = (Directory.entry? dir' dn).map Entry.view := by
  rw [← dir.view_entry, ← dir'.view_entry, show dir.view = dir'.view from h]

/-- The references of an entry are the same, unless its time stamp is one. -/
theorem references?_eq (h : dir.SameView dir') {d : KindDescriptor}
    (hstamp : ∀ name, d.referenceAttribute? = some name → ¬ Text.same "modifyTimestamp" name = true)
    (dn : Dn) : d.references? dn dir.entries = d.references? dn dir'.entries := by
  have hentry := h.entry?_eq dn
  unfold entry? at hentry
  unfold KindDescriptor.references?
  cases hreference : d.reference with
  | name => rfl
  | valueOf name =>
    have hname := hstamp name (KindDescriptor.referenceAttribute?_valueOf hreference)
    have hget (e : Entry) : e.view.get name = e.attributes.get? name := if_neg hname
    dsimp only
    cases hfirst : dir.entries.get? dn with
    | none =>
      rw [hfirst] at hentry
      rw [Option.map_eq_none_iff.1 hentry.symm]
    | some e =>
      rw [hfirst] at hentry
      obtain ⟨e', hsecond, hview⟩ := Option.map_eq_some_iff.1 hentry.symm
      rw [hsecond]
      dsimp only
      rw [KindDescriptor.referenceValues_none hreference,
        KindDescriptor.referenceValues_none hreference, ← hget, ← hget, hview]

end Directory.SameView

/-! ## Steps of an operation -/

namespace Provisioner

/-- The time stamp of an entry is neither where groups hold members nor what refers to them. -/
structure KeepsTimeApart (p : Provisioner) : Prop where
  member (kind : MembershipKind) :
    ¬ Text.same "modifyTimestamp" (p.descriptor kind).memberAttribute = true
  reference (kind : MembershipKind) (name : String) :
    (p.descriptor kind).referenceAttribute? = some name → ¬ Text.same "modifyTimestamp" name = true

variable {p : Provisioner}

theorem KeepsTimeApart.tracks_readReferenceValues (hp : p.KeepsTimeApart) (kind : MembershipKind)
    (dn : Dn) : Tracks SameView SameView Eq ((p.descriptor kind).readReferenceValues dn)
      ((p.descriptor kind).readReferenceValues dn) := by
  refine tracks_of_unwritten ((p.descriptor kind).keeps_unwritten_readReferenceValues dn)
    ((p.descriptor kind).keeps_unwritten_readReferenceValues dn) fun {dir dir'} hview => ?_
  rw [KindDescriptor.run_readReferenceValues_eq, KindDescriptor.run_readReferenceValues_eq,
    hview.references?_eq (hp.reference kind)]
  cases (p.descriptor kind).references? dn dir'.entries with
  | ok references => exact .ok rfl
  | error e => exact .error e e

/-- Whether an entry can be identified can be seen. -/
theorem tracks_identify (p : Provisioner) (entryClass : EntryClass) (dn : Dn) :
    Tracks SameView SameView (fun _ _ => True) (p.identify entryClass dn)
      (p.identify entryClass dn) := by
  refine tracks_of_unwritten (p.keeps_unwritten_identify entryClass dn)
    (p.keeps_unwritten_identify entryClass dn) fun {dir dir'} hview => ?_
  cases hname : p.identifiesByName entryClass with
  | true =>
    rw [identify, if_pos hname]
    exact .ok trivial
  | false =>
    have hidentified (dir : Directory) : (∃ uid, (dir.run (p.identify entryClass dn)).1 = .ok uid) ↔
        ((dir.entry? dn).map Entry.view).any (·.isSet (p.uidAttribute entryClass)) = true := by
      simp only [identify_ok_iff hname]
      cases dir.entry? dn with
      | none => simp
      | some e =>
        simp only [Option.some.injEq, exists_eq_left', Option.map_some, Option.any_some,
          Entry.isSet_view]
        cases e.attributes.values (p.uidAttribute entryClass) <;> simp
    exact .of_exists_iff ((hidentified dir).trans (hview.entry?_eq dn ▸ (hidentified dir').symm))

theorem tracks_requireCanonical {D : Directory → Directory → Prop} (kind : MembershipKind) (dn : Dn)
    (references : Option (List String)) :
    Tracks D D Eq (p.requireCanonical kind dn references) (p.requireCanonical kind dn references) := by
  unfold requireCanonical
  cases references.bind canonicalReference? with
  | none => exact Tracks.throw _ _
  | some reference => exact Tracks.pure rfl

/-- What looks the same at first may be the same. -/
theorem tracks_of_same {α β : Type} {D : Directory → Directory → Prop} {R : α → β → Prop}
    {x : Action α} {x' : Action β} (h : Tracks SameView D R x x') : Tracks Eq D R x x' :=
  h.mono (fun hdir => congrArg Directory.view hdir) id id

theorem choosePassword_alike {input other : Input} (h : input.Alike alike other) :
    p.choosePassword input = p.choosePassword other := by
  unfold choosePassword
  rw [h.resetPassword, h.password]

variable (hp : p.KeepsTimeApart)

include hp

theorem KeepsTimeApart.tracks_applyDiff (kind : MembershipKind) {diff diff' : Diff GroupMembership}
    (h : diff.Regroups diff') :
    Tracks SameView SameView Eq ((p.descriptor kind).applyDiff p.supply diff)
      ((p.descriptor kind).applyDiff p.supply diff') := by
  have hmember := hp.member kind
  refine tracks_of_actsBy (KindDescriptor.actsBy_applyDiff hmember p.supply diff)
    (KindDescriptor.actsBy_applyDiff hmember p.supply diff') fun v => ?_
  rw [h.effectiveRemoved_eq]
  exact congrArg (Option.bind _) (funext (h.joinAll_eq _))

/-! ## Adding values -/

theorem KeepsTimeApart.tracks_joinGroups (dn : Dn) {requests other : GroupRequests}
    (h : requests.Alike (fun _ => SameGroups) other) (kind : MembershipKind) :
    Tracks SameView SameView Eq (p.joinGroups dn requests kind) (p.joinGroups dn other kind) := by
  obtain ⟨-, hgroups⟩ := h kind
  unfold joinGroups
  dsimp only
  rw [hgroups.isEmpty_eq]
  split
  · exact Tracks.pure rfl
  · refine (hp.tracks_readReferenceValues kind dn).lift.bind ?_
    rintro references _ rfl
    refine (tracks_requireCanonical kind dn references).bind ?_
    rintro reference _ rfl
    have hmember := hp.member kind
    exact (tracks_of_actsBy (KindDescriptor.actsBy_addMemberships hmember p.supply reference _)
      (KindDescriptor.actsBy_addMemberships hmember p.supply reference _)
      (DirectoryView.joinAll_inEach hgroups _ reference)).lift

theorem KeepsTimeApart.tracks_addValues (entryClass : EntryClass) (uid : String)
    {as bs : List InputAttribute}
    (h : List.Forall₂ (InputAttribute.Relists fun _ => SameGroups) as bs) :
    Tracks Eq SameView (fun _ _ => True) (p.addValues entryClass uid as)
      (p.addValues entryClass uid bs) := by
  unfold addValues
  refine Tracks.after _ fun dn => ?_
  refine (Tracks.ofInput (Input.partition_relists (fun _ => SameGroups.refl) .values h)).bind ?_
  intro input other hinput
  rw [choosePassword_alike hinput, hinput.ordinary]
  refine Tracks.after _ fun password => Tracks.after _ fun stored => Tracks.after _ fun _ =>
    Tracks.after _ fun _ => ?_
  refine (tracks_of_same (Tracks.forM (List.forall₂_same.2 fun _ _ => rfl) ?_)).bind fun _ _ _ =>
    Tracks.pure trivial
  rintro kind _ rfl
  exact hp.tracks_joinGroups dn hinput.requests kind

/-! ## Removing values -/

end Provisioner

/-- Two lists by which an entry leaves the same groups. Static groups are left as often as they are
listed. -/
def SameRemovals : MembershipKind → List Dn → List Dn → Prop
  | .static, gs, hs => (gs.map Dn.key).Perm (hs.map Dn.key)
  | _, gs, hs => SameGroups gs hs

theorem SameRemovals.refl (kind : MembershipKind) (gs : List Dn) : SameRemovals kind gs gs := by
  cases kind with
  | static => exact List.Perm.refl _
  | posix | mailAlias => exact SameGroups.refl gs

theorem SameRemovals.sameGroups {kind : MembershipKind} {gs hs : List Dn}
    (h : SameRemovals kind gs hs) : SameGroups gs hs := by
  cases kind with
  | static => exact sameGroups_of_perm h
  | posix | mailAlias => exact h

namespace Provisioner

variable {p : Provisioner}

/-- The memberships to end are found alike. -/
theorem leaving_alike {requests other : GroupRequests} (h : requests.Alike SameRemovals other) :
    leaving requests = leaving other := by
  funext kind
  obtain ⟨-, hkind⟩ := h kind
  have hgroups := hkind.sameGroups
  have hquery : (MembershipCache.membershipsByGroups · (requests.get kind).groups) =
      (MembershipCache.membershipsByGroups · (other.get kind).groups) := by
    funext cache
    unfold MembershipCache.membershipsByGroups
    simp only [hgroups _]
  unfold leaving
  dsimp only
  rw [hgroups.isEmpty_eq, hquery]

theorem KeepsTimeApart.tracks_removeValues (hp : p.KeepsTimeApart) (entryClass : EntryClass)
    (uid : String) {as bs : List InputAttribute}
    (h : List.Forall₂ (InputAttribute.Relists SameRemovals) as bs) :
    Tracks Eq SameView (fun _ _ => True) (p.removeValues entryClass uid as)
      (p.removeValues entryClass uid bs) := by
  have hremove (kind : MembershipKind) (ms : List GroupMembership) :=
    KindDescriptor.actsBy_removeMemberships (hp.member kind) p.supply ms
  unfold removeValues planLeaving
  refine Tracks.after _ fun dn => ?_
  refine (Tracks.ofInput (Input.partition_relists SameRemovals.refl .values h)).bind ?_
  intro input other hinput
  rw [leaving_alike hinput.requests, hinput.password, hinput.ordinary]
  refine Tracks.after _ fun stored => Tracks.after _ fun ending => Tracks.after _ fun _ =>
    Tracks.after _ fun _ => tracks_of_same ?_
  refine (tracks_of_actsBy (hremove .static _) (hremove .static _) fun v => ?_).lift.bind
    fun _ _ _ => ?_
  · exact v.leaveAll_of_perm (hinput.requests .static).2 _ dn.text
  refine (Tracks.forM (List.forall₂_same.2 fun _ _ => rfl) ?_).bind fun _ _ _ => Tracks.pure trivial
  rintro ⟨kind, memberships⟩ _ rfl
  exact (tracks_of_actsBy (hremove kind _) (hremove kind _) fun _ => rfl).lift

/-! ## Creations -/

theorem applyStatus_alike (hpolicy : p.status.ReadsSets) {input other : Input}
    (h : input.Alike (fun _ => SameGroups) other) :
    (p.applyStatus input).1 = (p.applyStatus other).1 ∧
      (p.applyStatus input).2.Alike (fun _ => SameGroups) (p.applyStatus other).2 := by
  unfold applyStatus
  rw [h.enable, h.ordinary]
  cases other.enable with
  | none => exact ⟨rfl, h.requests⟩
  | some enabled => exact hpolicy enabled other.ordinary _ _ h.requests

theorem tracks_joining (dn : Dn) (attrs : Attributes) {requests other : GroupRequests}
    (h : requests.Alike (fun _ => SameGroups) other) (kind : MembershipKind) :
    Tracks Eq Eq Diff.Regroups (p.joining dn attrs requests kind) (p.joining dn attrs other kind) := by
  obtain ⟨-, hgroups⟩ := h kind
  unfold joining
  dsimp only
  rw [hgroups.isEmpty_eq]
  split
  · exact Tracks.pure (.same {})
  · exact Tracks.after _ fun reference => Tracks.pure (.joining {} reference hgroups)

theorem tracks_joinings (dn : Dn) (attrs : Attributes) {requests other : GroupRequests}
    (h : requests.Alike (fun _ => SameGroups) other) :
    Tracks Eq Eq (List.Forall₂ fun a b => a.1 = b.1 ∧ a.2.Regroups b.2)
      (MembershipKind.all.mapM fun kind => do return (kind, ← p.joining dn attrs requests kind))
      (MembershipKind.all.mapM fun kind => do return (kind, ← p.joining dn attrs other kind)) := by
  refine Tracks.mapM (List.forall₂_same.2 fun _ _ => rfl) ?_
  rintro kind _ rfl
  exact (tracks_joining dn attrs h kind).bind fun _ _ hdiff => Tracks.pure ⟨rfl, hdiff⟩

/-- Two creations that list the same groups. -/
theorem KeepsTimeApart.tracks_create (hp : p.KeepsTimeApart) (hpolicy : p.status.ReadsSets)
    (entryClass : EntryClass) {as bs : List InputAttribute}
    (h : List.Forall₂ (InputAttribute.Relists fun _ => SameGroups) as bs) :
    Tracks Eq SameView (fun _ _ => True) (p.create entryClass as) (p.create entryClass bs) := by
  unfold create
  refine (Tracks.ofInput (Input.partition_relists (fun _ => SameGroups.refl) .create h)).bind ?_
  intro input other hinput
  obtain ⟨hordinary, hrequests⟩ := applyStatus_alike hpolicy hinput
  rw [choosePassword_alike hinput, hinput.name]
  refine Tracks.after _ fun dn => ?_
  generalize p.applyStatus input = sent, p.applyStatus other = sent' at hordinary hrequests ⊢
  obtain ⟨ordinary, requests⟩ := sent
  obtain ⟨_, requests'⟩ := sent'
  cases hordinary
  dsimp only
  refine (tracks_joinings dn _ hrequests).bind fun diffs diffs' hdiffs => ?_
  refine Tracks.after _ fun password => Tracks.after _ fun stored => Tracks.after _ fun _ =>
    tracks_of_same ?_
  refine (Tracks.forM hdiffs ?_).bind fun _ _ _ => tracks_identify p entryClass dn
  rintro ⟨kind, diff⟩ ⟨_, diff'⟩ ⟨rfl, hdiff⟩
  exact (hp.tracks_applyDiff kind hdiff).lift

/-! ## Updates -/

end Provisioner

namespace Provisioner

/-- Two plans for the memberships of one kind that differ in the groups to join, at most in their order
and spelling. -/
inductive ReferencePlan.Regroups : ReferencePlan → ReferencePlan → Prop
  | planned (kind : MembershipKind) {diff diff' : Diff GroupMembership} : diff.Regroups diff' →
      Regroups ⟨kind, diff, []⟩ ⟨kind, diff', []⟩
  | deferred (kind : MembershipKind) (diff : Diff GroupMembership) {gs hs : List Dn} :
      SameGroups gs hs → Regroups ⟨kind, diff.clearAdded, gs⟩ ⟨kind, diff.clearAdded, hs⟩

/-- Two plans that differ in the groups to join, at most in their order and spelling. -/
structure UpdatePlan.Regroups (plan plan' : UpdatePlan) : Prop where
  sends : plan' = { plan with static := plan'.static, references := plan'.references }
  static : plan.static.Alike SameGroups plan'.static
  references : List.Forall₂ ReferencePlan.Regroups plan.references plan'.references

variable {p : Provisioner} {dn : Dn}

theorem tracks_planListed (kind : MembershipKind) (target : Dn) (renamed : Bool)
    (references : Option (List String)) {gs hs : List Dn} (h : SameGroups gs hs)
    (diff : Diff GroupMembership) :
    TracksCached ReferencePlan.Regroups
      (p.planListed kind target renamed references gs diff.clearAdded)
      (p.planListed kind target renamed references hs diff.clearAdded) := by
  unfold planListed
  rw [h.isEmpty_eq]
  split
  · exact TracksCached.pure (.planned kind (.same _))
  · split
    · exact TracksCached.pure (.deferred kind diff h)
    · exact TracksCached.after _ fun coming => TracksCached.after _ fun reference =>
        TracksCached.pure (.planned kind (.joining diff reference h))

theorem tracks_planReferences (target : Dn) (renamed : Bool) {request other : GroupRequest}
    (h : request.Alike SameGroups other) (kind : MembershipKind) (references : Option (List String)) :
    TracksCached ReferencePlan.Regroups (p.planReferences target renamed request kind references)
      (p.planReferences target renamed other kind references) := by
  unfold planReferences
  rw [h.1]
  refine TracksCached.after _ fun diff => ?_
  split
  · exact TracksCached.pure (.planned kind (.same diff))
  · exact TracksCached.after _ fun existing =>
      tracks_planListed kind target renamed references h.2 (diff.removeAll existing)

theorem tracks_planUpdate (hpolicy : p.status.ReadsSets) (dn : Dn) {input other : Input}
    (h : input.Alike (fun _ => SameGroups) other) :
    TracksCached UpdatePlan.Regroups (p.planUpdate dn input) (p.planUpdate dn other) := by
  obtain ⟨hordinary, hrequests⟩ := applyStatus_alike hpolicy h
  unfold planUpdate
  rw [choosePassword_alike h, h.name, h.ordinary]
  generalize p.applyStatus input = sent, p.applyStatus other = sent' at hordinary hrequests ⊢
  obtain ⟨ordinary, requests⟩ := sent
  obtain ⟨_, requests'⟩ := sent'
  cases hordinary
  dsimp only
  have huntouched : requests.static.isUntouched = requests'.static.isUntouched :=
    (hrequests .static).1
  rw [huntouched]
  refine TracksCached.after _ fun _ => TracksCached.after _ fun _ =>
    TracksCached.after _ fun password => TracksCached.after _ fun stored =>
    TracksCached.after _ fun existing => ?_
  refine (TracksCached.mapM (S := ReferencePlan.Regroups) (List.forall₂_same.2 fun _ _ => rfl) ?_).bind
    fun plans plans' hplans => TracksCached.pure ⟨rfl, hrequests .static, hplans⟩
  rintro kind _ rfl
  exact tracks_planReferences _ _ (hrequests kind) kind _

theorem staticDiff_regroups {plan plan' : UpdatePlan} (h : plan.Regroups plan') (dn : Dn) :
    (staticDiff plan dn).Regroups (staticDiff plan' dn) := by
  obtain ⟨hsends, ⟨huntouched, hgroups⟩, -⟩ := h
  rw [hsends]
  unfold staticDiff
  dsimp only
  rw [huntouched]
  split
  · split <;> exact .same _
  · split <;> exact .joining _ dn.text hgroups

variable (hp : p.KeepsTimeApart)

include hp

theorem KeepsTimeApart.tracks_applyReferences (dn : Dn) {plan plan' : ReferencePlan}
    (h : plan.Regroups plan') :
    Tracks SameView SameView Eq (p.applyReferences dn plan) (p.applyReferences dn plan') := by
  cases h with
  | planned kind hdiff => exact (hp.tracks_applyDiff kind hdiff).lift
  | @deferred kind diff gs hs hgroups =>
    unfold applyReferences
    dsimp only
    rw [hgroups.isEmpty_eq]
    split
    · exact (hp.tracks_applyDiff kind (.same _)).lift
    · refine (hp.tracks_readReferenceValues kind dn).lift.bind ?_
      rintro references _ rfl
      refine (tracks_requireCanonical kind dn references).bind ?_
      rintro reference _ rfl
      exact (hp.tracks_applyDiff kind (.joining diff reference hgroups)).lift

omit hp in
theorem tracks_writePassword (dn : Dn) (stored : Option String) :
    Tracks SameView SameView Eq (p.writePassword dn .replace stored)
      (p.writePassword dn .replace stored) := by
  cases stored with
  | none => exact Tracks.pure rfl
  | some value =>
    have hreplace := actsBy_replace p.supply dn p.configuration.passwordAttribute value
    exact (tracks_of_actsBy hreplace hreplace fun _ => rfl).lift

theorem KeepsTimeApart.tracks_settle {plan plan' : UpdatePlan} (h : plan.Regroups plan') (dn : Dn) :
    Tracks Eq SameView Eq (p.settle plan dn) (p.settle plan' dn) := by
  have hstatic := staticDiff_regroups h dn
  obtain ⟨hsends, -, hreferences⟩ := h
  rw [hsends] at hstatic ⊢
  unfold settle
  refine Tracks.after _ fun _ => tracks_of_same ?_
  refine (hp.tracks_applyDiff .static hstatic).lift.bind fun _ _ _ => ?_
  refine (Tracks.forM hreferences fun _ _ => hp.tracks_applyReferences dn).bind fun _ _ _ => ?_
  exact tracks_writePassword dn plan.password

theorem KeepsTimeApart.tracks_carryOut {plan plan' : UpdatePlan} (h : plan.Regroups plan') :
    Tracks Eq SameView Eq (p.carryOut plan) (p.carryOut plan') := by
  have hsettle := hp.tracks_settle h
  rw [h.sends] at hsettle ⊢
  unfold carryOut
  exact Tracks.after _ fun _ => Tracks.after _ fun dn => (hsettle dn).bind fun _ _ _ => Tracks.pure rfl

/-- Two updates that list the same groups. -/
theorem KeepsTimeApart.tracks_update (hpolicy : p.status.ReadsSets) (entryClass : EntryClass)
    (uid : String) {as bs : List InputAttribute}
    (h : List.Forall₂ (InputAttribute.Relists fun _ => SameGroups) as bs) :
    Tracks Eq SameView (fun _ _ => True) (p.update entryClass uid as) (p.update entryClass uid bs) := by
  unfold update
  refine Tracks.after _ fun dn => ?_
  refine (Tracks.ofInput (Input.partition_relists (fun _ => SameGroups.refl) .update h)).bind ?_
  intro input other hinput
  refine (tracks_planUpdate hpolicy dn hinput (p.caches dn)).bind ?_
  rintro ⟨plan, _⟩ ⟨plan', _⟩ ⟨hplan, -⟩
  refine (hp.tracks_carryOut hplan).bind ?_
  rintro updated _ rfl
  exact tracks_identify p entryClass updated

end Provisioner

/-! ## Operations -/

namespace Operation

/-- Two operations that are the same but for lists of groups that are related. -/
def Relists (alike : MembershipKind → List Dn → List Dn → Prop) : Operation → Operation → Prop
  | .create entryClass as, .create entryClass' bs =>
    entryClass = entryClass' ∧ List.Forall₂ (InputAttribute.Relists alike) as bs
  | .update entryClass uid as, .update entryClass' uid' bs
  | .addValues entryClass uid as, .addValues entryClass' uid' bs
  | .removeValues entryClass uid as, .removeValues entryClass' uid' bs =>
    entryClass = entryClass' ∧ uid = uid' ∧ List.Forall₂ (InputAttribute.Relists alike) as bs
  | _, _ => False

/-- The lists that an operation does not tell from each other: those that name the same groups, and for
static groups to leave name each of them as often. -/
def SameLists : Operation → MembershipKind → List Dn → List Dn → Prop
  | .removeValues .. => SameRemovals
  | _ => fun _ => SameGroups

/-- Whether the status policy has a say in an operation. -/
def AsksStatus : Operation → Prop
  | .create .. | .update .. => True
  | _ => False

/-- Operations that list the same groups leave directories that look the same, or both fail. -/
theorem tracks_run {p : Provisioner} (hp : p.KeepsTimeApart) {op op' : Operation}
    (hpolicy : op.AsksStatus → p.status.ReadsSets) (h : op.Relists op.SameLists op') :
    Tracks Eq SameView (fun _ _ => True) (op.run p) (op'.run p) := by
  cases op with
  | create entryClass as =>
    cases op' with
    | create entryClass' bs =>
      obtain ⟨rfl, hinputs⟩ := h
      exact hp.tracks_create (hpolicy trivial) entryClass hinputs
    | _ => exact h.elim
  | update entryClass uid as =>
    cases op' with
    | update entryClass' uid' bs =>
      obtain ⟨rfl, rfl, hinputs⟩ := h
      exact hp.tracks_update (hpolicy trivial) entryClass uid hinputs
    | _ => exact h.elim
  | addValues entryClass uid as =>
    cases op' with
    | addValues entryClass' uid' bs =>
      obtain ⟨rfl, rfl, hinputs⟩ := h
      exact hp.tracks_addValues entryClass uid hinputs
    | _ => exact h.elim
  | removeValues entryClass uid as =>
    cases op' with
    | removeValues entryClass' uid' bs =>
      obtain ⟨rfl, rfl, hinputs⟩ := h
      exact hp.tracks_removeValues entryClass uid hinputs
    | _ => exact h.elim

end Operation

theorem Directory.SameView.valuesAt_eq {dir dir' : Directory} (h : dir.SameView dir') (dn : Dn)
    {name : String} (hname : ¬ Text.same "modifyTimestamp" name = true) :
    dir.valuesAt dn name = dir'.valuesAt dn name := by
  have hentry := h.entry?_eq dn
  unfold Directory.valuesAt
  cases hfirst : dir.entry? dn with
  | none =>
    rw [hfirst] at hentry
    rw [Option.map_eq_none_iff.1 hentry.symm]
  | some e =>
    rw [hfirst] at hentry
    obtain ⟨e', hsecond, hview⟩ := Option.map_eq_some_iff.1 hentry.symm
    rw [hsecond]
    dsimp only
    rw [← Entry.view_get hname, ← Entry.view_get hname, hview]

/-- **Lists of groups are sets.** Whether an operation succeeds, and which members each group has then,
depends only on which groups are listed; so do all other values, except for time stamps. -/
theorem Operation.run_relists {p : Provisioner} (hp : p.KeepsTimeApart) {op op' : Operation}
    (hpolicy : op.AsksStatus → p.status.ReadsSets) (h : op.Relists op.SameLists op')
    (dir : Directory) :
    (dir.run (op.run p)).1.isOk = (dir.run (op'.run p)).1.isOk ∧
      ((dir.run (op.run p)).1.isOk = true →
        (∀ kind group value,
          (dir.run (op.run p)).2.HoldsAt (p.descriptor kind).memberAttribute group value ↔
            (dir.run (op'.run p)).2.HoldsAt (p.descriptor kind).memberAttribute group value) ∧
        ∀ dn name, ¬ Text.same "modifyTimestamp" name = true →
          (dir.run (op.run p)).2.valuesAt dn name = (dir.run (op'.run p)).2.valuesAt dn name) := by
  have htracks := op.tracks_run hp hpolicy h (rfl : dir = dir)
  generalize dir.run (op.run p) = first, dir.run (op'.run p) = second at htracks ⊢
  obtain ⟨result, after⟩ := first
  obtain ⟨result', after'⟩ := second
  cases htracks with
  | error e e' => exact ⟨rfl, nofun⟩
  | ok h =>
    refine ⟨rfl, fun _ => ⟨fun kind group value => ?_, fun dn name => h.2.valuesAt_eq dn⟩⟩
    rw [Directory.HoldsAt, Directory.HoldsAt, h.2.valuesAt_eq group (hp.member kind)]

namespace Sample

/-- A directory with an entry, a group that it is in, and a group that it is not in. -/
def annInCrew : Directory :=
  directory [(name "cn" "ann", [("cn", ["ann"]), ("uid", ["ann"])]),
    (name "cn" "crew", [("cn", ["crew"]), ("uniqueMember", ["cn=ann,dc=x"])]),
    (name "cn" "team", [("cn", ["team"])])]

/-- An attribute that lists groups of a kind. -/
def groupList (kind : MembershipKind) (groups : List String) : InputAttribute :=
  ⟨kind.listAttribute, groups.map .text⟩

/-- Whether two lists can be read and name the same groups. -/
def namesSame (kind : MembershipKind) (as bs : List String) : Bool :=
  match (groupList kind as).values.mapM (groupList kind as).dnOf,
    (groupList kind bs).values.mapM (groupList kind bs).dnOf with
  | .ok gs, .ok hs => decide (SameGroups gs hs)
  | _, _ => false

theorem relists_of_namesSame {kind : MembershipKind} {as bs : List String}
    (h : namesSame kind as bs = true) :
    (groupList kind as).Relists (fun _ => SameGroups) (groupList kind bs) := by
  have hrole : InputRole.ofName kind.listAttribute = .groups kind := by
    cases kind <;> decide +kernel
  unfold namesSame at h
  split at h
  · next gs hs hgs hhs => exact .inr ⟨kind, gs, hs, rfl, hrole, hgs, hhs, of_decide_eq_true h⟩
  · cases h

/-- An update that lists a static group beside the one that is there, and a group of another kind. -/
def joiningOnce : Operation :=
  .update .account "cn=ann,dc=x"
    [groupList .static ["cn=team,dc=x", "cn=crew,dc=x"], groupList .posix ["cn=team,dc=x"]]

/-- The same groups in another order and in several spellings. -/
def joiningAgain : Operation :=
  .update .account "cn=ann,dc=x"
    [groupList .static ["CN=crew, DC=x", "cn=team,dc=x", "cn=crew,dc=x"],
      groupList .posix ["cn=TEAM,dc=x", "cn=team,dc=x"]]

theorem provisioner_keepsTimeApart : provisioner.KeepsTimeApart where
  member kind := by cases kind <;> decide +kernel
  reference kind name h := by cases kind <;> cases h <;> decide +kernel

/-- An entry joins the same groups, however they are listed. -/
theorem joiningOnce_relists :
    joiningOnce.Relists joiningOnce.SameLists joiningAgain ∧
      (annInCrew.run (joiningAgain.run provisioner)).1.isOk = true ∧
      (annInCrew.run (joiningAgain.run provisioner)).2.HoldsAt "uniqueMember" (name "cn" "team")
        "cn=ann,dc=x" ∧
      (annInCrew.run (joiningAgain.run provisioner)).2.valuesAt (name "cn" "team") "memberUid" =
        ["ann"] := by
  have hrelists : joiningOnce.Relists joiningOnce.SameLists joiningAgain :=
    show joiningOnce.Relists (fun _ => SameGroups) joiningAgain from
      ⟨rfl, rfl, .cons (relists_of_namesSame (by decide +kernel))
        (.cons (relists_of_namesSame (by decide +kernel)) .nil)⟩
  have hpolicy : provisioner.status.ReadsSets := fun _ _ _ _ h => ⟨rfl, h⟩
  have hok : (annInCrew.run (joiningOnce.run provisioner)).1.isOk = true := by decide +kernel
  obtain ⟨hsame, halike⟩ :=
    Operation.run_relists provisioner_keepsTimeApart (fun _ => hpolicy) hrelists annInCrew
  obtain ⟨hholds, hvalues⟩ := halike hok
  refine ⟨hrelists, hsame ▸ hok,
    (hholds .static (name "cn" "team") "cn=ann,dc=x").1 (by decide +kernel), ?_⟩
  rw [← hvalues (name "cn" "team") "memberUid" (by decide +kernel)]
  decide +kernel

/-- The provisioner whose status policy drops lists of two groups. -/
def counting : Provisioner :=
  { provisioner with
    status := fun _ sent => if sent.2.static.groups.length = 2 then (sent.1, {}) else sent }

/-- The provisioner with a clock that goes on, for groups whose members are in the time stamp. -/
def ticking : Provisioner :=
  { provisioner with
    configuration := { provisioner.configuration with groupMemberAttribute := "modifyTimestamp" }
    supply := { provisioner.supply with time := fun n => toString n } }

/-- The provisioner with this clock, for which the address of an entry is its time stamp. -/
def dated : Provisioner :=
  { ticking with
    configuration :=
      { provisioner.configuration with aliasGroupMemberRefAttribute := "modifyTimestamp" } }

/-- Leaves the static groups that are listed. -/
def leaves (groups : List String) : Operation :=
  .removeValues .account "cn=ann,dc=x" [groupList .static groups]

/-- Enables the entry, which is to be in the static groups that are listed. -/
def enables (groups : List String) : Operation :=
  .update .account "cn=ann,dc=x" [⟨"__ENABLE__", [.boolean true]⟩, groupList .static groups]

/-- Joins the groups that are listed, static ones and such as know the entry by its address. -/
def joins (groups addressed : List String) : Operation :=
  .addValues .account "cn=ann,dc=x" [groupList .static groups, groupList .mailAlias addressed]

/-- The members that a group has after an operation that succeeds. -/
def membersAfter (p : Provisioner) (op : Operation) (kind : MembershipKind) (group : String) :
    Option (List String) :=
  match annInCrew.run (op.run p) with
  | (.ok _, after) => some (after.valuesAt (name "cn" group) (p.descriptor kind).memberAttribute)
  | (.error _, _) => none

/-- What tells lists of the same groups apart: a static group that is to be left twice; a status policy
that counts groups; and time stamps that are members, or references to members. -/
theorem lists_told_apart :
    (leaves ["cn=crew,dc=x"]).Relists (fun _ => SameGroups)
        (leaves ["cn=crew,dc=x", "cn=crew,dc=x"]) ∧
      membersAfter provisioner (leaves ["cn=crew,dc=x"]) .static "crew" = some [] ∧
      membersAfter provisioner (leaves ["cn=crew,dc=x", "cn=crew,dc=x"]) .static "crew" = none ∧
    (enables ["cn=team,dc=x"]).Relists (fun _ => SameGroups)
        (enables ["cn=team,dc=x", "cn=team,dc=x"]) ∧
      membersAfter counting (enables ["cn=team,dc=x"]) .static "team" = some ["cn=ann,dc=x"] ∧
      membersAfter counting (enables ["cn=team,dc=x", "cn=team,dc=x"]) .static "team" = some [] ∧
    (joins ["cn=team,dc=x", "cn=crew,dc=x"] []).Relists (fun _ => SameGroups)
        (joins ["cn=crew,dc=x", "cn=team,dc=x"] []) ∧
      ticking.configuration.check = .ok () ∧
      membersAfter ticking (joins ["cn=team,dc=x", "cn=crew,dc=x"] []) .static "team" = some ["0"] ∧
      membersAfter ticking (joins ["cn=crew,dc=x", "cn=team,dc=x"] []) .static "team" = some ["1"] ∧
    (joins ["cn=ann,dc=x", "cn=team,dc=x"] ["cn=crew,dc=x"]).Relists (fun _ => SameGroups)
        (joins ["cn=team,dc=x", "cn=ann,dc=x"] ["cn=crew,dc=x"]) ∧
      dated.configuration.check = .ok () ∧
      membersAfter dated (joins ["cn=ann,dc=x", "cn=team,dc=x"] ["cn=crew,dc=x"]) .mailAlias "crew" =
        some ["0"] ∧
      membersAfter dated (joins ["cn=team,dc=x", "cn=ann,dc=x"] ["cn=crew,dc=x"]) .mailAlias "crew" =
        some ["1"] := by
  refine ⟨⟨rfl, rfl, .cons (relists_of_namesSame (by decide +kernel)) .nil⟩, by decide +kernel,
    by decide +kernel,
    ⟨rfl, rfl, .cons (.inl rfl) (.cons (relists_of_namesSame (by decide +kernel)) .nil)⟩,
    by decide +kernel, by decide +kernel,
    ⟨rfl, rfl, .cons (relists_of_namesSame (by decide +kernel)) (.cons (.inl rfl) .nil)⟩,
    by decide +kernel, by decide +kernel, by decide +kernel,
    ⟨rfl, rfl, .cons (relists_of_namesSame (by decide +kernel)) (.cons (.inl rfl) .nil)⟩,
    by decide +kernel, by decide +kernel, by decide +kernel⟩

end Sample

end Roster
