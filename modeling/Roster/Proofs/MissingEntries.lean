import Roster.Proofs.OwnReferences
import Roster.Proofs.Spreading

/-!
# Operations on entries that do not exist

No operation asks whether its entry exists: it notices that there is none when it first looks up the
references of the entry or sends a request for it. What it sends for static groups is neither, since
the references of these groups are names. `missing_entry_rejected` says which operations notice in
time that their entry does not exist (`Operation.Notices`): they fail, and every stored entry stays
as it is.
-/

namespace Roster

open Directory (Unwritten unwritten_frame)

variable {ε α β : Type}

/-! ## Failures that change nothing -/

namespace Directory

/-- The computation fails here, and leaves the entries as they are. -/
def Rejects (dir : Directory) (x : ExceptT ε (StateM Directory) α) : Prop :=
  (∃ err, (dir.run x).1 = .error err) ∧ (dir.run x).2.entries = dir.entries

variable {dir : Directory} {x : ExceptT ε (StateM Directory) α}
  {f : α → ExceptT ε (StateM Directory) β}

theorem rejects_throw (err : ε) : dir.Rejects (throw err : ExceptT ε (StateM Directory) α) :=
  ⟨⟨err, rfl⟩, rfl⟩

theorem Rejects.bind (h : dir.Rejects x) : dir.Rejects (x >>= f) := by
  obtain ⟨⟨err, herr⟩, hentries⟩ := h
  unfold Rejects
  rw [run_bind, run_of_result herr]
  exact ⟨⟨err, rfl⟩, hentries⟩

/-- What only reads may come first. -/
theorem Rejects.after (hx : Keeps Unwritten x)
    (hf : ∀ a mid, dir.run x = (.ok a, mid) → mid.entries = dir.entries → mid.Rejects (f a)) :
    dir.Rejects (x >>= f) := by
  have hquiet := hx dir
  unfold Rejects
  rw [run_bind]
  cases hrun : dir.run x with
  | mk result mid =>
    rw [hrun] at hquiet
    cases result with
    | error err => exact ⟨⟨err, rfl⟩, hquiet.1⟩
    | ok a =>
      obtain ⟨herr, hentries⟩ := hf a mid hrun hquiet.1
      exact ⟨herr, hentries.trans hquiet.1⟩

theorem Rejects.lift {x : Directory.Action α} (h : dir.Rejects x) :
    dir.Rejects (liftM x : Provisioner.Action α) := by
  obtain ⟨⟨err, herr⟩, hentries⟩ := h
  unfold Rejects
  rw [run_lift, herr]
  exact ⟨⟨_, rfl⟩, hentries⟩

theorem rejects_perform {request : Request}
    {outcome : Directory → Except DirectoryError (α × Entries)} {err : DirectoryError}
    (h : outcome dir = .error err) : dir.Rejects (perform request outcome) := by
  unfold Rejects
  rw [run_perform, h]
  exact ⟨⟨err, rfl⟩, rfl⟩

/-- An entry that is not stored cannot be modified. -/
theorem rejects_modify {dn : Dn} (hmissing : dir.entry? dn = none) (supply : Supply)
    (items : List Modification) : dir.Rejects (modify supply dn items) := by
  have houtcome : ∃ err, afterModify supply dn items dir = .error err := by
    unfold afterModify checkWritable
    rw [hmissing]
    split
    · exact ⟨_, rfl⟩
    · exact ⟨_, rfl⟩
  exact rejects_perform houtcome.choose_spec

/-- An entry that is not stored cannot be renamed. -/
theorem rejects_rename {dn : Dn} (hmissing : dir.entry? dn = none) (supply : Supply) (rdn : Rdn)
    (superior : Option Dn) : dir.Rejects (rename supply dn rdn superior) := by
  have houtcome :
      ∃ err, afterRename supply dn (renamedDn dn rdn superior) rdn dir = .error err := by
    unfold afterRename checkWritable
    rw [hmissing]
    split
    · exact ⟨_, rfl⟩
    · exact ⟨_, rfl⟩
  exact rejects_perform houtcome.choose_spec

end Directory

open Directory (Rejects)

/-- If references are values, there are none to read without the entry. -/
theorem KindDescriptor.rejects_readReferenceValues {d : KindDescriptor} {name : String}
    (hvalue : d.reference = .valueOf name) {dir : Directory} {dn : Dn}
    (hmissing : dir.entry? dn = none) : dir.Rejects (d.readReferenceValues dn) := by
  unfold readReferenceValues
  rw [hvalue]
  refine Rejects.after (Directory.keeps_unwritten_read dn [name]) fun found mid hread _ => ?_
  rw [Directory.run_read, hmissing] at hread
  cases hread
  exact Directory.rejects_throw _

namespace Provisioner

variable {p : Provisioner} {dn : Dn}

/-! ## Look-ups of an entry that is not stored -/

/-- Nothing has been looked up of the entry but its static memberships. -/
def Caches.Bare (caches : Caches) (p : Provisioner) (dn : Dn) : Prop :=
  ∀ kind, kind ≠ .static → caches.get kind = (p.caches dn).get kind

/-- At first nothing has been looked up. -/
theorem get_caches (p : Provisioner) (dn : Dn) (kind : MembershipKind) :
    (p.caches dn).get kind = { descriptor := p.descriptor kind, bases := p.bases, dn } := by
  cases kind <;> rfl

theorem rejects_referenceValues {kind : MembershipKind} (hkind : kind ≠ .static) {dir : Directory}
    (hmissing : dir.entry? dn = none) :
    dir.Rejects ((p.caches dn).get kind).referenceValues := by
  obtain ⟨name, hvalue⟩ := p.exists_valueOf hkind
  rw [p.get_caches dn kind]
  exact (KindDescriptor.rejects_readReferenceValues hvalue hmissing).bind

theorem rejects_allMemberships {kind : MembershipKind} (hkind : kind ≠ .static) {dir : Directory}
    (hmissing : dir.entry? dn = none) :
    dir.Rejects ((p.caches dn).get kind).allMemberships := by
  have hreferences := rejects_referenceValues (p := p) hkind hmissing
  rw [p.get_caches dn kind] at hreferences ⊢
  exact hreferences.bind

/-- If the entry is not stored and nothing was looked up of it, the computation writes nothing, and
ends in a result with a property if it does not fail; still nothing was looked up then. -/
def Lacks (p : Provisioner) (dn : Dn) (S : α → Prop) (x : Cached α) : Prop :=
  ∀ (dir : Directory) (caches : Caches), dir.entry? dn = none → caches.Bare p dn →
    match dir.run (x.run caches) with
    | (.ok (a, caches'), after) => (S a ∧ caches'.Bare p dn) ∧ after.entries = dir.entries
    | (.error _, _) => True

namespace Lacks

variable {kind : MembershipKind} {S : α → Prop} {T : β → Prop}

theorem pure {a : α} (h : S a) : Lacks p dn S (Pure.pure a) :=
  fun _ _ _ hbare => ⟨⟨h, hbare⟩, rfl⟩

theorem bind {x : Cached α} {f : α → Cached β} (hx : Lacks p dn S x)
    (hf : ∀ a, S a → Lacks p dn T (f a)) : Lacks p dn T (x >>= f) := by
  intro dir caches hmissing hbare
  have hfirst := hx dir caches hmissing hbare
  rw [StateT.run_bind, Directory.run_bind]
  cases hrun : dir.run (x.run caches) with
  | mk result mid =>
    rw [hrun] at hfirst
    cases result with
    | error err => exact trivial
    | ok found =>
      obtain ⟨⟨hS, hbare'⟩, hentries⟩ := hfirst
      have hmid : mid.entry? dn = none := by rw [Directory.entry?, hentries]; exact hmissing
      have hsecond := hf found.1 hS mid found.2 hmid hbare'
      dsimp only
      cases hrest : mid.run ((f found.1).run found.2) with
      | mk result after =>
        rw [hrest] at hsecond
        cases result with
        | error err => exact trivial
        | ok found' => exact ⟨hsecond.1, hsecond.2.trans hentries⟩

theorem lift {x : Action α} (hquiet : Keeps Unwritten x) (hends : Ends S (fun _ => True) x) :
    Lacks p dn S (liftM x) := by
  intro dir caches _ hbare
  have hq := hquiet dir
  have he := hends dir
  rw [Directory.run_cached_lift]
  cases hrun : dir.run x with
  | mk result after =>
    rw [hrun] at hq he
    cases result with
    | error err => exact trivial
    | ok a => exact ⟨⟨he, hbare⟩, hq.1⟩

/-- Static memberships are found for the name alone. -/
theorem lookUp_static {query : MembershipCache → Directory.Action (α × MembershipCache)}
    (hquery : ∀ cache, Keeps Unwritten (query cache)) :
    Lacks p dn (fun _ => True) (Provisioner.lookUp .static query) := by
  intro dir caches _ hbare
  have hquiet := hquery (caches.get .static) dir
  rw [Directory.run_lookUp]
  cases hrun : dir.run (query (caches.get .static)) with
  | mk result after =>
    rw [hrun] at hquiet
    cases result with
    | error err => exact trivial
    | ok found =>
      refine ⟨⟨trivial, fun kind hkind => ?_⟩, hquiet.1⟩
      rw [Caches.get_set, if_neg hkind.symm]
      exact hbare kind hkind

/-- A look-up that fails without the entry. -/
theorem lookUp
    {query : MembershipCache → Directory.Action (α × MembershipCache)} (hkind : kind ≠ .static)
    (hquery : ∀ dir : Directory, dir.entry? dn = none →
      dir.Rejects (query ((p.caches dn).get kind))) :
    Lacks p dn S (Provisioner.lookUp kind query) := by
  intro dir caches hmissing hbare
  obtain ⟨⟨err, herr⟩, -⟩ := hquery dir hmissing
  rw [Directory.run_lookUp, hbare kind hkind, Directory.run_of_result herr]
  trivial

theorem lookUp_references (hkind : kind ≠ .static) :
    Lacks p dn (fun _ => False) (Provisioner.lookUp kind MembershipCache.referenceValues) :=
  lookUp hkind fun _ => rejects_referenceValues hkind

theorem lookUp_memberships (hkind : kind ≠ .static) :
    Lacks p dn (fun _ => False) (Provisioner.lookUp kind MembershipCache.allMemberships) :=
  lookUp hkind fun _ => rejects_allMemberships hkind

theorem lookUp_byReferences (hkind : kind ≠ .static) (references : List String) :
    Lacks p dn (fun _ => False) (Provisioner.lookUp kind (·.membershipsByReferences references)) :=
  lookUp hkind fun _ hmissing => (rejects_allMemberships hkind hmissing).bind

theorem lookUp_byGroups (hkind : kind ≠ .static) (groups : List Dn) :
    Lacks p dn (fun _ => False) (Provisioner.lookUp kind (·.membershipsByGroups groups)) :=
  lookUp hkind fun _ hmissing => (rejects_allMemberships hkind hmissing).bind

end Lacks

/-! ## Plans for an entry that is not stored -/

variable {kind : MembershipKind} {references : Option (List String)}

theorem lacks_refuseOrphans (hkind : kind ≠ .static) :
    Lacks p dn (fun _ => references ≠ some []) (p.refuseOrphans kind references) := by
  unfold refuseOrphans
  split
  · exact Lacks.bind (Lacks.lookUp_memberships hkind) fun _ h => h.elim
  · next hne => exact Lacks.pure hne

theorem lacks_followReferences (hkind : kind ≠ .static) (target : Dn) :
    Lacks p dn (fun _ => (p.descriptor kind).maintained = true → references = none)
      (p.followReferences kind target references) := by
  unfold followReferences
  split
  · split
    · exact Lacks.bind (Lacks.lookUp_references hkind) fun _ h => h.elim
    · next hnot => exact Lacks.pure fun h => absurd h hnot
  · exact Lacks.pure fun _ => rfl

/-- The plan for a kind of groups whose references are values needs those of the entry. -/
def NeedsReferences (p : Provisioner) (dn : Dn) (input : Input) (kind : MembershipKind) : Prop :=
  p.plannedReferences dn input kind = some [] ∨
    (p.descriptor kind).maintained = true ∧ p.plannedReferences dn input kind ≠ none ∨
    ((p.applyStatus input).2.get kind).isUntouched = false

theorem lacks_planReferences (hkind : kind ≠ .static) (target : Dn) (renamed : Bool)
    (request : GroupRequest) :
    Lacks p dn (fun _ => ((p.descriptor kind).maintained = true → references = none) ∧
        request.isUntouched = true) (p.planReferences target renamed request kind references) := by
  unfold planReferences
  refine Lacks.bind (lacks_followReferences hkind target) fun diff hfollows => ?_
  split
  · next huntouched => exact Lacks.pure ⟨hfollows, huntouched⟩
  · exact Lacks.bind (Lacks.lookUp_memberships hkind) fun _ h => h.elim

theorem lacks_loadStatic (needed : Bool) : Lacks p dn (fun _ => True) (loadStatic needed) := by
  unfold loadStatic
  split
  · exact Lacks.lookUp_static MembershipCache.keeps_unwritten_allMemberships
  · exact Lacks.pure trivial

theorem not_needsReferences {input : Input} (horphans : p.plannedReferences dn input kind ≠ some [])
    (hplan : ((p.descriptor kind).maintained = true → p.plannedReferences dn input kind = none) ∧
      ((p.applyStatus input).2.get kind).isUntouched = true) :
    ¬ p.NeedsReferences dn input kind := by
  rintro (horphaned | ⟨hmaintained, hknown⟩ | htouched)
  · exact horphans horphaned
  · exact hknown (hplan.1 hmaintained)
  · rw [hplan.2] at htouched
    cases htouched

/-- If an update is planned for an entry that is not stored, its references are not needed. -/
theorem lacks_planUpdate (input : Input) :
    Lacks p dn (fun _ => ∀ kind, kind ≠ .static → ¬ p.NeedsReferences dn input kind)
      (p.planUpdate dn input) := by
  unfold planUpdate
  refine Lacks.bind (lacks_refuseOrphans (by decide)) fun _ hposix => ?_
  refine Lacks.bind (lacks_refuseOrphans (by decide)) fun _ halias => ?_
  refine Lacks.bind (S := fun _ => True) (Lacks.lift (p.keeps_unwritten_choosePassword input)
    ((p.ends_choosePassword input).mono (fun _ _ => trivial) fun _ _ => trivial)) fun chosen _ => ?_
  refine Lacks.bind (S := fun _ => True) (Lacks.lift (p.keeps_unwritten_hashPassword chosen)
    ((p.ends_hashPassword chosen).mono (fun _ _ => trivial) fun _ _ => trivial)) fun _ _ => ?_
  refine Lacks.bind (lacks_loadStatic _) fun _ _ => ?_
  simp only [List.mapM_cons, List.mapM_nil, bind_assoc, pure_bind]
  refine Lacks.bind (lacks_planReferences (by decide) _ _ _) fun _ hposixPlan => ?_
  refine Lacks.bind (lacks_planReferences (by decide) _ _ _) fun _ haliasPlan => ?_
  refine Lacks.pure fun kind hkind => ?_
  cases kind with
  | static => exact absurd rfl hkind
  | posix => exact not_needsReferences hposix hposixPlan
  | mailAlias => exact not_needsReferences halias haliasPlan

theorem lacks_refuseInUse (hkind : kind ≠ .static) (ordinary : Attributes) :
    Lacks p dn (fun _ => True) (p.refuseInUse ordinary kind) := by
  unfold refuseInUse
  dsimp only
  split
  · exact Lacks.bind (Lacks.lookUp_byReferences hkind _) fun _ h => h.elim
  · exact Lacks.pure trivial

theorem lacks_leaving (hkind : kind ≠ .static) (requests : GroupRequests) :
    Lacks p dn (fun _ => (requests.get kind).groups = []) (leaving requests kind) := by
  unfold leaving
  dsimp only
  split
  · next hnone => exact Lacks.pure (List.isEmpty_iff.1 hnone)
  · exact Lacks.bind (Lacks.lookUp_byGroups hkind _) fun _ h => h.elim

/-- If a removal is planned for an entry that is not stored, it lists no groups but static ones. -/
theorem lacks_planLeaving (input : Input) :
    Lacks p dn (fun _ => ∀ kind, kind ≠ .static → (input.requests.get kind).groups = [])
      (p.planLeaving input) := by
  unfold planLeaving
  refine Lacks.bind (S := fun _ => True) ?_ fun _ _ => ?_
  · refine Lacks.bind (lacks_refuseInUse (by decide) _) fun _ _ => ?_
    refine Lacks.bind (lacks_refuseInUse (by decide) _) fun _ _ => ?_
    exact Lacks.pure trivial
  simp only [List.mapM_cons, List.mapM_nil, bind_assoc, pure_bind]
  refine Lacks.bind (lacks_leaving (by decide) _) fun _ hposix => ?_
  refine Lacks.bind (lacks_leaving (by decide) _) fun _ halias => ?_
  refine Lacks.pure fun kind hkind => ?_
  cases kind with
  | static => exact absurd rfl hkind
  | posix => exact hposix
  | mailAlias => exact halias

/-! ## Requests for an entry that is not stored -/

variable {dir : Directory}

theorem modifyValues_of_nil {op : ModifyOp} {attrs : Attributes} (h : attrs.pairs = []) :
    p.modifyValues dn op attrs = pure () := by
  unfold modifyValues sendItems
  rw [h]
  rfl

theorem rejects_modifyValues {op : ModifyOp} {attrs : Attributes} (hmissing : dir.entry? dn = none)
    (h : attrs.pairs ≠ []) : dir.Rejects (p.modifyValues dn op attrs) := by
  unfold modifyValues sendItems
  cases hpairs : attrs.pairs with
  | nil => exact absurd hpairs h
  | cons pair rest => exact (Directory.rejects_modify hmissing p.supply _).lift

theorem rejects_writePassword {op : ModifyOp} {stored : Option String}
    (hmissing : dir.entry? dn = none) (h : stored.isSome = true) :
    dir.Rejects (p.writePassword dn op stored) := by
  unfold writePassword
  cases stored with
  | none => cases h
  | some value => exact (Directory.rejects_modify hmissing p.supply _).lift

theorem rejects_move {rename : Option Rename} (hmissing : dir.entry? dn = none)
    (h : rename.isSome = true) : dir.Rejects (p.move dn rename) := by
  unfold move
  cases rename with
  | none => cases h
  | some r => exact (Directory.rejects_rename hmissing p.supply r.rdn r.superior).lift

/-- A diff without effect sends nothing. -/
theorem applyDiff_of_isEmpty (d : KindDescriptor) (supply : Supply) {diff : Diff GroupMembership}
    (h : diff.isEmpty = true) : d.applyDiff supply diff = pure () := by
  rw [Diff.isEmpty, Bool.and_eq_true, List.isEmpty_iff, List.isEmpty_iff] at h
  unfold KindDescriptor.applyDiff KindDescriptor.removeMemberships
  rw [h.1, h.2]
  rfl

/-- The static groups that are listed, if any are, hold the name already, and no others do. -/
def StaticSettled (p : Provisioner) (dn : Dn) (entries : Entries) (request : GroupRequest) : Prop :=
  request.isUntouched = true ∨
    (Diff.between ((p.descriptor .static).foundIn p.bases [dn.text] entries)
      (request.groups.map fun group => ⟨dn.text, group⟩)).isEmpty = true

theorem staticDiff_isEmpty {e : Entry} {entries : Entries} {input : Input} {plan : UpdatePlan}
    (hplanned : p.Planned dn e entries input plan) (hrename : renameFor? dn input.name = none)
    (hsettled : p.StaticSettled dn entries (p.applyStatus input).2.static) :
    (staticDiff plan dn).isEmpty = true := by
  have hfollow : plan.followRename = false := by rw [hplanned.followRename_eq, hrename]; rfl
  rw [← hplanned.static_eq] at hsettled
  by_cases huntouched : plan.static.isUntouched = true
  · rw [staticDiff_of_untouched dn hfollow huntouched]
    rfl
  · have hexisting := hplanned.existing_eq (by simp [huntouched])
    unfold staticDiff
    rw [hfollow, hexisting, if_neg huntouched]
    exact hsettled.resolve_left huntouched

/-- Why an update notices that its entry does not exist: it replaces attributes, moves the entry,
needs its references, or sets a password before anything changes for static groups. -/
def UpdateNotices (p : Provisioner) (dn : Dn) (entries : Entries) (input : Input) : Prop :=
  (p.applyStatus input).1.pairs ≠ [] ∨ (renameFor? dn input.name).isSome = true ∨
    (∃ kind, kind ≠ .static ∧ p.NeedsReferences dn input kind) ∨
    (input.resetPassword = true ∨ input.password.isSome = true) ∧
      p.StaticSettled dn entries (p.applyStatus input).2.static

/-- What only follows references is nothing unless the references are needed. -/
theorem OnlyFollows.eq_nothing {e : Entry} {entries : Entries} {input : Input}
    {plan : ReferencePlan}
    (hfollows : p.OnlyFollows kind dn e entries (p.plannedReferences dn input kind)
      ((p.applyStatus input).2.get kind) plan)
    (hneeds : ¬ p.NeedsReferences dn input kind) : plan = ⟨kind, {}, []⟩ := by
  have huntouched : ((p.applyStatus input).2.get kind).isUntouched = true :=
    Bool.of_not_eq_false fun h => hneeds (.inr (.inr h))
  obtain ⟨diff, rfl, reference, rfl, -⟩ := hfollows huntouched
  have hnone : p.followers kind dn e entries (p.plannedReferences dn input kind) = [] := by
    unfold followers
    split
    · next new hnew =>
      refine if_neg fun hmaintained => hneeds (.inr (.inl ⟨hmaintained, ?_⟩))
      rw [hnew]
      exact Option.some_ne_none new
    · rfl
  rw [hnone]
  rfl

/-- With no other request before it, the password is what is sent first. -/
theorem rejects_settle {e : Entry} {input : Input} {plan : UpdatePlan}
    (hplanned : p.PlannedInFull dn e dir.entries input plan) (hmissing : dir.entry? dn = none)
    (hrename : renameFor? dn input.name = none)
    (hneeds : ∀ kind, kind ≠ .static → ¬ p.NeedsReferences dn input kind)
    (hpassword : plan.password.isSome = true)
    (hsettled : p.StaticSettled dn dir.entries (p.applyStatus input).2.static) :
    dir.Rejects (p.settle plan dn) := by
  have hnaming : plan.naming = [] := by
    have hsplit := hplanned.split_eq
    rw [hrename] at hsplit
    exact congrArg Prod.fst hsplit
  have hitems : p.sendItems dn plan.naming = pure () := by rw [hnaming]; rfl
  have hstatic := applyDiff_of_isEmpty (p.descriptor .static) p.supply
    (staticDiff_isEmpty hplanned.toPlanned hrename hsettled)
  obtain ⟨posix, mailAlias, hreferences, hposix, halias⟩ := hplanned.follows
  have hplans : plan.references.forM (p.applyReferences dn) = pure () := by
    rw [hreferences]
    show (p.applyReferences dn posix >>= fun _ => p.applyReferences dn mailAlias >>= fun _ =>
      pure ()) = _
    rw [hposix.eq_nothing (hneeds .posix (by decide)),
      halias.eq_nothing (hneeds .mailAlias (by decide))]
    rfl
  unfold settle
  rw [hitems, hstatic, hplans]
  exact rejects_writePassword hmissing hpassword

/-- A plan whose first request is for an entry that is not stored cannot be carried out. -/
theorem rejects_carryOut {e : Entry} {input : Input} {plan : UpdatePlan}
    (hplanned : p.PlannedInFull dn e dir.entries input plan) (hmissing : dir.entry? dn = none)
    (hneeds : ∀ kind, kind ≠ .static → ¬ p.NeedsReferences dn input kind)
    (hnotices : p.UpdateNotices dn dir.entries input) : dir.Rejects (p.carryOut plan) := by
  unfold carryOut
  rw [hplanned.dn_eq]
  by_cases hvalues : plan.ordinary.pairs = []
  · rw [modifyValues_of_nil hvalues, pure_bind]
    cases hrename : renameFor? dn input.name with
    | some r =>
      refine Rejects.bind (rejects_move hmissing ?_)
      rw [hplanned.rename_eq, hrename]
      rfl
    | none =>
      have hmove : p.move dn plan.rename = pure dn := by rw [hplanned.rename_eq, hrename]; rfl
      have hordinary : plan.ordinary = (p.applyStatus input).1 := by
        have hsplit := hplanned.split_eq
        rw [hrename] at hsplit
        exact congrArg Prod.snd hsplit
      rw [hmove, pure_bind]
      refine Rejects.bind ?_
      rcases hnotices with hsent | hmoves | ⟨kind, hkind, hneeded⟩ | ⟨hasked, hsettled⟩
      · exact absurd (hordinary ▸ hvalues) hsent
      · rw [hrename] at hmoves
        cases hmoves
      · exact absurd hneeded (hneeds kind hkind)
      · exact rejects_settle hplanned hmissing hrename hneeds (hplanned.password.2 hasked) hsettled
  · exact Rejects.bind (rejects_modifyValues hmissing hvalues)

/-! ## The operations -/

variable {entryClass : EntryClass} {uid : String} {attributes : List InputAttribute} {input : Input}

/-- An operation is rejected if what comes after its input is. -/
theorem rejects_resolved {mode : InputMode} {f : Dn → Input → Action α}
    (hf : ∀ dn input, (dir.run (p.resolve entryClass uid)).1 = .ok dn →
      Input.partition mode attributes = .ok input →
        ∀ found : Directory, found.entries = dir.entries → found.Rejects (f dn input)) :
    dir.Rejects (do
      let dn ← p.resolve entryClass uid
      let input ← ofInput (Input.partition mode attributes)
      f dn input) := by
  refine Rejects.after (p.keeps_unwritten_resolve entryClass uid) fun dn found hfound hsame => ?_
  refine Rejects.after (keeps_unwritten_ofInput _) fun input mid hmid _ => ?_
  cases hinput : Input.partition mode attributes with
  | error err =>
    rw [hinput] at hmid
    cases hmid
  | ok input' =>
    rw [hinput] at hmid
    cases hmid
    exact hf dn input (by rw [hfound]) hinput _ hsame

theorem rejects_update
    (h : ∀ dn input, (dir.run (p.resolve entryClass uid)).1 = .ok dn →
      Input.partition .update attributes = .ok input →
        dir.entry? dn = none ∧ p.UpdateNotices dn dir.entries input) :
    dir.Rejects (p.update entryClass uid attributes) := by
  refine rejects_resolved fun dn input hresolve hinput found hfound => ?_
  obtain ⟨hmissing, hnotices⟩ := h dn input hresolve hinput
  refine Rejects.after (p.keeps_unwritten_planUpdate dn input _)
    fun plan planned hplan hentries => ?_
  have hplanned : planned.entries = dir.entries := hentries.trans hfound
  have hlacks := lacks_planUpdate (p := p) input found (p.caches dn)
    (by rw [Directory.entry?, hfound]; exact hmissing) fun _ _ => rfl
  have hfinds := finds_planUpdate (E := fun _ => True) (e := ⟨dn, .empty⟩)
    (.inr ⟨hmissing, trivial⟩) input (fun _ _ _ => trivial) found (p.caches dn) hfound (p.agree_caches dn _ _)
  rw [hplan] at hlacks hfinds
  have hmissing' : planned.entry? dn = none := by rw [Directory.entry?, hplanned]; exact hmissing
  rw [← hplanned] at hfinds hnotices
  exact (rejects_carryOut hfinds.1 hmissing' hlacks.1.1 hnotices).bind

theorem joinGroups_of_nil {requests : GroupRequests} (h : (requests.get kind).groups = []) :
    p.joinGroups dn requests kind = pure () := by
  unfold joinGroups
  dsimp only
  rw [h]
  rfl

theorem rejects_joinGroups {requests : GroupRequests} (hmissing : dir.entry? dn = none)
    (hkind : kind ≠ .static) (h : (requests.get kind).groups ≠ []) :
    dir.Rejects (p.joinGroups dn requests kind) := by
  obtain ⟨name, hvalue⟩ := p.exists_valueOf hkind
  unfold joinGroups
  dsimp only
  rw [if_neg fun hnone => h (List.isEmpty_iff.1 hnone)]
  exact (KindDescriptor.rejects_readReferenceValues hvalue hmissing).lift.bind

/-- Without static groups, the first groups to join need the references of the entry. -/
theorem rejects_joinAll {requests : GroupRequests} {kinds : List MembershipKind}
    (hmissing : dir.entry? dn = none) (hstatic : requests.static.groups = [])
    (h : ∃ kind ∈ kinds, (requests.get kind).groups ≠ []) :
    dir.Rejects (kinds.forM (p.joinGroups dn requests)) := by
  induction kinds with
  | nil =>
    obtain ⟨_, hmem, -⟩ := h
    cases hmem
  | cons kind kinds ih =>
    by_cases hnone : (requests.get kind).groups = []
    · have hrest : ∃ kind ∈ kinds, (requests.get kind).groups ≠ [] := by
        obtain ⟨other, hmem, hother⟩ := h
        rcases List.mem_cons.1 hmem with rfl | hmem
        · exact absurd hnone hother
        · exact ⟨other, hmem, hother⟩
      show dir.Rejects (p.joinGroups dn requests kind >>= fun _ => kinds.forM _)
      rw [joinGroups_of_nil hnone, pure_bind]
      exact ih hrest
    · have hkind : kind ≠ .static := fun heq => hnone (heq ▸ hstatic)
      exact Rejects.bind (rejects_joinGroups hmissing hkind hnone)

/-- Why an addition of values notices that its entry does not exist: it adds values or a password,
or its first groups need a reference of the entry. -/
def AdditionNotices (input : Input) : Prop :=
  input.ordinary.pairs ≠ [] ∨ (input.resetPassword = true ∨ input.password.isSome = true) ∨
    input.requests.static.groups = [] ∧ ∃ kind, (input.requests.get kind).groups ≠ []

theorem rejects_addValues
    (h : ∀ dn input, (dir.run (p.resolve entryClass uid)).1 = .ok dn →
      Input.partition .values attributes = .ok input →
        dir.entry? dn = none ∧ AdditionNotices input) :
    dir.Rejects (p.addValues entryClass uid attributes) := by
  refine rejects_resolved fun dn input hresolve hinput found hfound => ?_
  obtain ⟨hmissing, hnotices⟩ := h dn input hresolve hinput
  refine Rejects.after (p.keeps_unwritten_choosePassword input)
    fun chosen mid hchosen hmid => ?_
  refine Rejects.after (p.keeps_unwritten_hashPassword chosen)
    fun stored last hstored hlast => ?_
  have hmissing' : last.entry? dn = none := by
    rw [Directory.entry?, hlast, hmid, hfound]
    exact hmissing
  by_cases hvalues : input.ordinary.pairs = []
  · rw [modifyValues_of_nil hvalues, pure_bind]
    have hasked := (p.ends_choosePassword input).of_run_ok hchosen
    have hhashed := (p.ends_hashPassword chosen).of_run_ok hstored
    cases stored with
    | some value =>
      exact Rejects.bind (rejects_writePassword hmissing' rfl)
    | none =>
      obtain ⟨hstatic, kind, hgroups⟩ :=
        (hnotices.resolve_left (absurd hvalues)).resolve_left fun h => by
          have hchosen := hasked.2 h
          rw [← hhashed] at hchosen
          cases hchosen
      show last.Rejects (pure () >>= _)
      rw [pure_bind]
      exact (rejects_joinAll hmissing' hstatic ⟨kind, kind.mem_all, hgroups⟩).bind
  · exact Rejects.bind (rejects_modifyValues hmissing' hvalues)

/-- Why a removal of values notices that its entry does not exist: it removes values or a password,
or needs the references of the entry to find memberships. -/
def RemovalNotices (input : Input) : Prop :=
  input.ordinary.pairs ≠ [] ∨ input.password.isSome = true ∨
    ∃ kind, kind ≠ .static ∧ (input.requests.get kind).groups ≠ []

theorem rejects_removeValues
    (h : ∀ dn input, (dir.run (p.resolve entryClass uid)).1 = .ok dn →
      Input.partition .values attributes = .ok input →
        dir.entry? dn = none ∧ RemovalNotices input) :
    dir.Rejects (p.removeValues entryClass uid attributes) := by
  refine rejects_resolved fun dn input hresolve hinput found hfound => ?_
  obtain ⟨hmissing, hnotices⟩ := h dn input hresolve hinput
  refine Rejects.after (p.keeps_unwritten_hashPassword input.password)
    fun stored mid hstored hmid => ?_
  refine Rejects.after (p.keeps_unwritten_planLeaving input _)
    fun ending last hending hlast => ?_
  have hmissing' (later : Directory) (hlater : later.entries = dir.entries) :
      later.entry? dn = none := by
    rw [Directory.entry?, hlater]
    exact hmissing
  have hlacks := lacks_planLeaving (p := p) input mid (p.caches dn)
    (hmissing' mid (hmid.trans hfound)) fun _ _ => rfl
  rw [hending] at hlacks
  replace hmissing' := hmissing' last (hlast.trans (hmid.trans hfound))
  dsimp only
  by_cases hvalues : input.ordinary.pairs = []
  · rw [modifyValues_of_nil hvalues, pure_bind]
    have hhashed := (p.ends_hashPassword input.password).of_run_ok hstored
    rcases hnotices with hsent | hpassword | ⟨kind, hkind, hgroups⟩
    · exact absurd hvalues hsent
    · exact Rejects.bind (rejects_writePassword hmissing' (hhashed.trans hpassword))
    · exact absurd (hlacks.1.1 kind hkind) hgroups
  · exact Rejects.bind (rejects_modifyValues hmissing' hvalues)

/-- An identifier leads to an entry: it spells the name of the entry, or the entry has it and lies
below a base context. -/
def identifies (p : Provisioner) (entryClass : EntryClass) (uid : String) (e : Entry) : Bool :=
  if p.identifiesByName entryClass then
    match Dn.parse uid with
    | .ok dn => e.dn.same dn
    | .error _ => false
  else p.bases.any e.dn.isWithin && (p.uidFilter entryClass uid).accepts e

/-- An identifier of no entry leads nowhere, or to a name at which nothing is stored. -/
theorem missing_of_resolve (hnone : ∀ e ∈ dir.entries.list, p.identifies entryClass uid e = false)
    (hresolve : (dir.run (p.resolve entryClass uid)).1 = .ok dn) : dir.entry? dn = none := by
  rcases resolve_ok hresolve with
    ⟨hnamed, hparse⟩ | ⟨hnot, e, he, rfl, ⟨base, hbase, hbelow⟩, haccepts⟩
  · refine Option.eq_none_iff_forall_ne_some.2 fun e he => ?_
    obtain ⟨hmem, hkey⟩ := dir.entries.get?_eq_some_iff.1 he
    have hother := hnone e hmem
    rw [identifies, if_pos hnamed, hparse] at hother
    cases (Dn.same_iff.2 hkey).symm.trans hother
  · have hother := hnone e he
    have hwithin : p.bases.any e.dn.isWithin = true := List.any_eq_true.2 ⟨base, hbase, hbelow⟩
    rw [identifies, if_neg (Bool.not_eq_true _ ▸ hnot), hwithin, haccepts] at hother
    cases hother

end Provisioner

/-! ## Identifiers of no entry -/

namespace Operation

/-- The operation is about the entry with an identifier. -/
def IsAbout (entryClass : EntryClass) (uid : String) : Operation → Prop
  | .create .. => False
  | .update c u _ | .addValues c u _ | .removeValues c u _ => c = entryClass ∧ u = uid

/-- The operation notices that nothing is stored at a name before it changes anything. -/
def Notices (p : Provisioner) (dn : Dn) (entries : Entries) (input : Input) : Operation → Prop
  | .create .. => False
  | .update .. => p.UpdateNotices dn entries input
  | .addValues .. => Provisioner.AdditionNotices input
  | .removeValues .. => Provisioner.RemovalNotices input

end Operation

/-- **An identifier of no entry changes nothing**, and the operation fails, if it notices that the
entry does not exist. An identifier that is no name, or none of an entry, and a malformed input are
noticed in any case. -/
theorem missing_entry_rejected (p : Provisioner) (dir : Directory) (op : Operation)
    {entryClass : EntryClass} {uid : String} (habout : op.IsAbout entryClass uid)
    (hnone : ∀ e ∈ dir.entries.list, p.identifies entryClass uid e = false)
    (hnotices : ∀ dn input, op.Concerns p dir dn input → op.Notices p dn dir.entries input) :
    dir.Rejects (op.run p) := by
  cases op with
  | create => exact habout.elim
  | update c u attributes =>
    obtain ⟨rfl, rfl⟩ := habout
    exact Provisioner.rejects_update fun dn input hresolve hinput =>
      ⟨Provisioner.missing_of_resolve hnone hresolve, hnotices dn input ⟨hresolve, hinput⟩⟩
  | addValues c u attributes =>
    obtain ⟨rfl, rfl⟩ := habout
    exact Provisioner.rejects_addValues fun dn input hresolve hinput =>
      ⟨Provisioner.missing_of_resolve hnone hresolve, hnotices dn input ⟨hresolve, hinput⟩⟩
  | removeValues c u attributes =>
    obtain ⟨rfl, rfl⟩ := habout
    exact Provisioner.rejects_removeValues fun dn input hresolve hinput =>
      ⟨Provisioner.missing_of_resolve hnone hresolve, hnotices dn input ⟨hresolve, hinput⟩⟩

namespace Sample

/-- A directory with a group and nothing else. -/
def emptyTeam : Directory :=
  directory [(name "cn" "team", [("cn", ["team"])])]

/-- An update that lists a static group. -/
def askTeam : List InputAttribute :=
  [⟨"ldapGroups", [.text "cn=team,dc=x"]⟩]

/-- With another attribute in the same update it is noticed that the entry does not exist. -/
theorem emptyTeam_rejects :
    emptyTeam.Rejects (provisioner.update .account "cn=ann,dc=x"
      (⟨"sn", [.text "Smith"]⟩ :: askTeam)) := by
  refine missing_entry_rejected provisioner emptyTeam
    (.update .account "cn=ann,dc=x" (⟨"sn", [.text "Smith"]⟩ :: askTeam)) ⟨rfl, rfl⟩
    (by decide +kernel) ?_
  rintro dn input ⟨-, hinput⟩
  have hsorted : Input.partition .update (⟨"sn", [.text "Smith"]⟩ :: askTeam) =
      .ok { ordinary := .ofList [("sn", ["Smith"])],
            requests := { static := .replace [name "cn" "team"] } } := by decide +kernel
  cases hsorted.symm.trans hinput
  exact .inl (by decide +kernel)

/-- An update that lists nothing but a static group succeeds without the entry, and lets the group
refer to it. -/
theorem missing_entry_joins :
    (∀ e ∈ emptyTeam.entries.list, provisioner.identifies .account "cn=ann,dc=x" e = false) ∧
      (emptyTeam.run (provisioner.update .account "cn=ann,dc=x" askTeam)).1 = .ok "cn=ann,dc=x" ∧
      (Directory.entry? (emptyTeam.run (provisioner.update .account "cn=ann,dc=x" askTeam)).2
        (name "cn" "team")).map (fun e => e.attributes.values "uniqueMember") =
          some ["cn=ann,dc=x"] :=
  ⟨by decide +kernel, by decide +kernel, by decide +kernel⟩

end Sample

end Roster
