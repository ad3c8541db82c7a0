import Roster.Proofs.Histories
import Roster.Proofs.OwnReferences

/-!
# What an operation does to other entries

An operation modifies other entries than its own only by adding single references of its entry to
groups or taking them out, for the kinds of groups that it was asked about or that are maintained.
`run_spreads` says so of every request, whatever becomes of the operation, and that without a rename
all other values in the groups survive. The server's time stamp must not be what groups hold their
members under, and what a new entry gets by default counts as its references
(`defaults_spread_and_stamp_loses`).
-/

namespace Roster

open Directory (Unwritten unwritten_frame)

/-! ## What an operation is asked for -/

namespace Operation

/-- The operation is about the entry with a name, and its input has been sorted. -/
def Concerns (p : Provisioner) (dir : Directory) (dn : Dn) (input : Input) : Operation → Prop
  | .create _ attributes => Input.partition .create attributes = .ok input ∧ input.name = some dn
  | .update entryClass uid attributes =>
    (dir.run (p.resolve entryClass uid)).1 = .ok dn ∧ Input.partition .update attributes = .ok input
  | .addValues entryClass uid attributes | .removeValues entryClass uid attributes =>
    (dir.run (p.resolve entryClass uid)).1 = .ok dn ∧ Input.partition .values attributes = .ok input

/-- What an operation asks for memberships: its input, changed by the status policy if that applies.
-/
def requests (p : Provisioner) (input : Input) : Operation → GroupRequests
  | .create .. | .update .. => (p.applyStatus input).2
  | .addValues .. | .removeValues .. => input.requests

/-- The attributes that an operation sends, besides a password. -/
def attributes (p : Provisioner) (input : Input) : Operation → Attributes
  | .create entryClass _ => p.newAttributes entryClass (p.applyStatus input).1
  | .update .. => (p.applyStatus input).1
  | .addValues .. | .removeValues .. => input.ordinary

/-- An update makes memberships of a kind follow: the kind is maintained, and the entry is renamed
or references are supplied. -/
def Maintains (p : Provisioner) (dn : Dn) (input : Input) (kind : MembershipKind) : Operation → Prop
  | .update .. => (p.descriptor kind).maintained = true ∧
      ((Provisioner.renameFor? dn input.name).isSome = true ∨
        ∃ name, (p.descriptor kind).reference = .valueOf name ∧ input.ordinary.contains name = true)
  | _ => False

/-- An operation may change memberships of a kind: groups of it are listed, or they follow. -/
def Affects (op : Operation) (p : Provisioner) (dn : Dn) (input : Input) (kind : MembershipKind) :
    Prop :=
  ((op.requests p input).get kind).isUntouched = false ∨ op.Maintains p dn input kind

/-- A reference is among the attributes of the input or among those that are sent. -/
def Gives (op : Operation) (p : Provisioner) (input : Input) (kind : MembershipKind)
    (reference : String) : Prop :=
  reference ∈ ((p.descriptor kind).referenceValues none input.ordinary).getD [] ∨
    reference ∈ ((p.descriptor kind).referenceValues none (op.attributes p input)).getD []

end Operation

namespace Provisioner

variable {p : Provisioner} {affected : MembershipKind → Prop}
  {known : MembershipKind → String → Prop} {name : Dn} {dir : Directory} {α β : Type}

/-! ## Rules -/

/-- What is stored at a moment reads as the entry of the moment. -/
theorem reads_entry (m : Moment) {E : ProvisioningError → Prop} (hE : ∀ err, E err) :
    m.entries.Reads m.name m.entry E := by
  cases hentry : m.entries.get? m.name with
  | none => exact .inr ⟨hentry, hE _⟩
  | some e => exact .inl (by rw [Moment.entry, hentry]; rfl)

/-- References that the entry has at a moment. -/
theorem mem_references_of_referencesOf {m : Moment} {kind : MembershipKind} {r : String}
    (h : r ∈ (p.referencesOf kind m.name m.entry).getD []) :
    r ∈ m.references (p.descriptor kind) :=
  KindDescriptor.mem_referenceValues_of_referencesOf h

theorem keeps_spreads_quiet {x : Action α} (h : Keeps Unwritten x) :
    Keeps (Spreads p affected known name name) x :=
  fun dir => (h dir).spreads

/-- The names of the entry that a computation leads to do not matter to what comes before it. -/
theorem exists_spreads_bind {x : Action α} {f : α → Action β}
    (hx : Keeps (Spreads p affected known name name) x)
    (hf : ∀ a mid, dir.run x = (.ok a, mid) →
      ∃ name', Spreads p affected known name name' mid (mid.run (f a)).2) :
    ∃ name', Spreads p affected known name name' dir (dir.run (x >>= f)).2 := by
  have hfirst := hx dir
  rw [Directory.run_bind]
  cases hrun : dir.run x with
  | mk result mid =>
    rw [hrun] at hfirst
    cases result with
    | error e => exact ⟨name, hfirst⟩
    | ok a =>
      obtain ⟨name', hrest⟩ := hf a mid hrun
      exact ⟨name', hfirst.trans hrest⟩

/-- What is done under the least reference that the entry has now. -/
theorem keeps_spreads_current {kind : MembershipKind} {f : String → Action Unit}
    (hf : ∀ (known' : MembershipKind → String → Prop) (reference : String),
      (∀ kind r, known kind r → known' kind r) → known' kind reference →
        Keeps (Spreads p affected known' name name) (f reference)) :
    Keeps (Spreads p affected known name name) (do
      let found ← liftM ((p.descriptor kind).readReferenceValues name)
      let reference ← p.requireCanonical kind name found
      f reference) := by
  intro dir
  obtain ⟨mid, hquiet, hread⟩ := (p.descriptor kind).run_readReferenceValues
    (reads_entry ⟨dir.entries, name⟩ (E := fun _ => True) fun _ => trivial).either
  rw [Directory.run_bind, Directory.run_lift]
  rcases hread with hread | ⟨-, hread⟩
  · rw [hread]
    refine hquiet.spreads.trans_visited ?_
    refine (spreads_frame p affected _ name).keeps_bind_of_ends
      (keeps_spreads_quiet (p.keeps_unwritten_requireCanonical kind name _))
      (p.ends_requireCanonical_mem kind name _ (E := fun _ => True) fun _ => trivial)
      (fun reference href => ?_) mid
    refine hf _ reference (fun _ _ => .inl) (.inr ?_)
    rw [hquiet.1]
    exact mem_references_of_referencesOf href
  · rw [hread]
    exact hquiet.spreads

/-- What is done with the finding of a look-up that is made while nothing has changed. -/
theorem exists_spreads_found {m : Moment} {mid : Directory} {x : Cached α}
    {f : α × Caches → Action β} {S : α → Prop} {E : ProvisioningError → Prop}
    (hx : Finds p m.name m.entry m.entries S E x) (hmid : mid.entries = m.entries)
    (hf : ∀ found after, after.entries = m.entries → S found.1 →
      ∃ name', Spreads p affected known m.name name' after (after.run (f found)).2) :
    ∃ name', Spreads p affected known m.name name' mid
      (mid.run (x.run (p.caches m.name) >>= f)).2 := by
  have hfound := hx mid (p.caches m.name) hmid (p.agree_caches m.name m.entry m.entries)
  rw [Directory.run_bind]
  cases hrun : mid.run (x.run (p.caches m.name)) with
  | mk result after =>
    rw [hrun] at hfound
    cases result with
    | error e => exact ⟨m.name, hfound.2.spreads⟩
    | ok found =>
      obtain ⟨hS, -, hquiet⟩ := hfound
      obtain ⟨name', hrest⟩ := hf found after (hquiet.1.trans hmid) hS
      exact ⟨name', hquiet.spreads.trans hrest⟩

/-- An operation that begins with an identifier and an input writes nothing before it knows its
entry and what it is asked for. -/
theorem spreads_opened {entryClass : EntryClass} {uid : String} {mode : InputMode}
    {attributes : List InputAttribute} {rest : Dn → Input → Action β}
    {affected : Dn → Input → MembershipKind → Prop} {known : Input → MembershipKind → String → Prop}
    (hrest : ∀ dn input mid, mid.entries = dir.entries → ∃ name',
      Spreads p (affected dn input) (known input) dn name' mid (mid.run (rest dn input)).2) :
    dir.Unwritten (dir.run (do
        let dn ← p.resolve entryClass uid
        let input ← ofInput (Input.partition mode attributes)
        rest dn input)).2 ∨
      ∃ dn input, ((dir.run (p.resolve entryClass uid)).1 = .ok dn ∧
          Input.partition mode attributes = .ok input) ∧
        ∃ name', Spreads p (affected dn input) (known input) dn name' dir (dir.run (do
          let dn ← p.resolve entryClass uid
          let input ← ofInput (Input.partition mode attributes)
          rest dn input)).2 := by
  have hquiet := p.keeps_unwritten_resolve entryClass uid dir
  rw [Directory.run_bind]
  cases hrun : dir.run (p.resolve entryClass uid) with
  | mk result mid =>
    rw [hrun] at hquiet
    cases result with
    | error e => exact .inl hquiet
    | ok dn =>
      cases hinput : Input.partition mode attributes with
      | error e => exact .inl hquiet
      | ok input =>
        obtain ⟨name', hspreads⟩ := hrest dn input mid hquiet.1
        exact .inr ⟨dn, input, ⟨rfl, rfl⟩, name', hquiet.spreads.trans hspreads⟩

/-! ## Creating -/

theorem spreads_create (entryClass : EntryClass) (attributes : List InputAttribute)
    (dir : Directory) :
    dir.Unwritten (dir.run (p.create entryClass attributes)).2 ∨ ∃ dn input,
      (Operation.create entryClass attributes).Concerns p dir dn input ∧ ∃ name',
        Spreads p ((Operation.create entryClass attributes).Affects p dn input)
          ((Operation.create entryClass attributes).Gives p input) dn name' dir
          (dir.run (p.create entryClass attributes)).2 := by
  unfold create
  cases hinput : Input.partition .create attributes with
  | error e => exact .inl (unwritten_frame.refl dir)
  | ok input =>
    cases hname : input.name with
    | none =>
      left
      simp only [ofInput, pure_bind, hname]
      exact unwritten_frame.refl dir
    | some dn =>
      refine .inr ⟨dn, input, ⟨hinput, hname⟩, dn, ?_⟩
      simp only [ofInput, pure_bind, hname]
      refine Spreads.of_first ?_
      have frame := spreads_frame p ((Operation.create entryClass attributes).Affects p dn input)
        (fun kind reference => (Operation.create entryClass attributes).Gives p input kind reference ∨
          reference ∈ (⟨dir.entries, dn⟩ : Moment).references (p.descriptor kind)) dn
      refine frame.keeps_bind_of_ends (keeps_spreads_quiet (p.keeps_unwritten_joinings dn _ _))
        (p.ends_joinings dn _ _ (E := fun _ => True) fun _ => trivial) (fun diffs hdiffs => ?_) dir
      refine frame.keeps_bind
        (keeps_spreads_quiet (p.keeps_unwritten_choosePassword input)) fun _ => ?_
      refine frame.keeps_bind
        (keeps_spreads_quiet (p.keeps_unwritten_hashPassword _)) fun stored => ?_
      refine frame.keeps_bind (keeps_spreads_add _).lift fun _ => ?_
      refine frame.keeps_bind (frame.keeps_forM fun joins hjoins => ?_) fun _ =>
        keeps_spreads_quiet (p.keeps_unwritten_identify entryClass dn)
      refine (keeps_spreads_applyDiff fun m hm => ?_).lift
      obtain ⟨hlisted, href⟩ := hdiffs joins hjoins m hm
      refine ⟨.inl hlisted, ?_⟩
      exact (KindDescriptor.mem_referenceValues_split href _).elim .inr fun h => .inl (.inr h)

/-! ## Updating -/

variable {kind : MembershipKind}

/-- The planned memberships of a value kind are changed under references that are known. -/
theorem keeps_spreads_applyReferences {dn : Dn} {e : Entry} {entries : Entries} {renamed : Bool}
    {references : Option (List String)} {request : GroupRequest} {plan : ReferencePlan}
    (hplan : PlansReferences p kind dn e entries renamed references request plan)
    (honly : p.OnlyFollows kind dn e entries references request plan)
    (haffected : request.isUntouched = false ∨
      (p.descriptor kind).maintained = true ∧ references.isSome = true → affected kind)
    (hknown : ∀ r, r ∈ (p.referencesOf kind dn e).getD [] ∨ r ∈ references.getD [] →
      known kind r) :
    Keeps (Spreads p affected known name name) (p.applyReferences name plan) := by
  have hkind := hplan.kind_eq
  have hmem (m : GroupMembership) (hm : m ∈ plan.diff.removed ∨ m ∈ plan.diff.added) :
      affected kind ∧ known kind m.reference :=
    ⟨haffected (honly.maintained (.inl ⟨m, hm⟩)), hknown _ (hplan.reference_mem hm)⟩
  unfold applyReferences
  rw [hkind]
  dsimp only
  split
  · exact (keeps_spreads_applyDiff hmem).lift
  · next hdeferred =>
    have hne : plan.deferred ≠ [] := fun h => hdeferred (List.isEmpty_iff.2 h)
    refine keeps_spreads_current fun known' reference hle href =>
      (keeps_spreads_applyDiff fun m hm => ?_).lift
    rcases hm with hm | hm
    · exact (hmem m (.inl hm)).imp_right (hle kind _)
    · rcases OrderedSet.mem_of_mem_insertAll hm with hm | hm
      · exact (hmem m (.inr hm)).imp_right (hle kind _)
      · obtain ⟨group, -, rfl⟩ := List.mem_map.1 hm
        exact ⟨haffected (honly.maintained (.inr hne)), href⟩

/-- Static memberships are changed under the name of the entry before or after its move. -/
theorem keeps_spreads_static {m : Moment} {input : Input} {plan : UpdatePlan}
    (hplan : Planned p m.name m.entry m.entries input plan)
    (haffected : (p.applyStatus input).2.static.isUntouched = false ∨
      (p.descriptor .static).maintained = true ∧ (renameFor? m.name input.name).isSome = true →
        affected .static)
    (hknown : ∀ r, r ∈ m.references (p.descriptor .static) ∨ r = name.text → known .static r) :
    Keeps (Spreads p affected known name name)
      ((p.descriptor .static).applyDiff p.supply (staticDiff plan name)) := by
  by_cases hneeded : (plan.followRename || !plan.static.isUntouched) = true
  · have hasked : affected .static := by
      refine haffected ?_
      rw [Bool.or_eq_true, Bool.not_eq_true', hplan.followRename_eq, hplan.static_eq,
        Bool.and_eq_true] at hneeded
      exact hneeded.symm.imp_right And.symm
    refine keeps_spreads_applyDiff fun m' hm => ⟨hasked, hknown _ ?_⟩
    rcases hm with hm | hm
    · refine .inl (mem_references_of_referencesOf ?_)
      have hthere := mem_staticDiff.1 hm
      rw [hplan.existing_eq hneeded] at hthere
      exact reference_of_mem_membershipsOf hthere
    · exact .inr (mem_staticDiff.2 hm)
  · rw [Bool.or_eq_true, not_or, Bool.not_eq_true, Bool.not_eq_true', Bool.not_eq_false] at hneeded
    rw [staticDiff_of_untouched name hneeded.1 hneeded.2]
    exact keeps_spreads_applyDiff fun m' hm => hm.elim nofun nofun

/-- What is settled after a move changes memberships under references that the entry had before the
update, that it has after the move, or that are supplied. -/
theorem keeps_spreads_settle (moved : Moment) {m : Moment} {input : Input} {plan : UpdatePlan}
    (hplan : PlannedInFull p m.name m.entry m.entries input plan)
    (hmoved : moved.name = landing m.name (renameFor? m.name input.name))
    (haffected : ∀ kind, ((p.applyStatus input).2.get kind).isUntouched = false ∨
      (p.descriptor kind).maintained = true ∧ ((renameFor? m.name input.name).isSome = true ∨
        ∃ name, (p.descriptor kind).reference = .valueOf name ∧
          input.ordinary.contains name = true) → affected kind)
    (hknown : ∀ kind r, r ∈ m.references (p.descriptor kind) ∨
      r ∈ moved.references (p.descriptor kind) ∨
        r ∈ ((p.descriptor kind).referenceValues none input.ordinary).getD [] → known kind r) :
    Keeps (Spreads p affected known moved.name moved.name) (p.settle plan moved.name) := by
  have frame := spreads_frame p affected known moved.name
  have hreferences {kind : MembershipKind} {plan : ReferencePlan}
      (hplan : PlansReferences p kind m.name m.entry m.entries
        (renameFor? m.name input.name).isSome (p.plannedReferences m.name input kind)
        ((p.applyStatus input).2.get kind) plan)
      (honly : p.OnlyFollows kind m.name m.entry m.entries (p.plannedReferences m.name input kind)
        ((p.applyStatus input).2.get kind) plan) :
      Keeps (Spreads p affected known moved.name moved.name)
        (p.applyReferences moved.name plan) := by
    refine keeps_spreads_applyReferences hplan honly (fun h => haffected kind ?_) fun r hr =>
      hknown kind r ?_
    · exact h.imp_right fun h => ⟨h.1, isSome_plannedReferences h.2⟩
    · rcases hr with hr | hr
      · exact .inl (mem_references_of_referencesOf hr)
      · have hcomes := mem_plannedReferences hr moved.entry.attributes
        rw [← hmoved] at hcomes
        exact .inr hcomes
  refine frame.keeps_settle (frame.keeps_sendItems (keeps_spreads_own _)) ?_ ?_
    (frame.keeps_writePassword _ fun _ => keeps_spreads_own _)
  · refine keeps_spreads_static hplan.toPlanned (fun h => haffected .static ?_) fun r hr =>
      hknown .static r ?_
    · exact h.imp_right fun h => ⟨h.1, .inl h.2⟩
    · exact hr.imp_right fun hr => .inl (List.mem_singleton.2 hr)
  · obtain ⟨posix, mailAlias, hlist, hposix, halias⟩ := hplan.references
    obtain ⟨posix', mailAlias', hlist', honlyPosix, honlyAlias⟩ := hplan.follows
    rw [hlist] at hlist'
    cases hlist'
    intro references hmem
    rw [hlist] at hmem
    rcases List.mem_pair.1 hmem with rfl | rfl
    · exact hreferences hposix honlyPosix
    · exact hreferences halias honlyAlias

/-- Carrying out a plan changes memberships under references of the entry only. -/
theorem exists_spreads_carryOut {m : Moment} {input : Input} {plan : UpdatePlan}
    {entryClass : EntryClass} {uid : String} {attributes : List InputAttribute}
    (hplan : PlannedInFull p m.name m.entry m.entries input plan) {mid : Directory}
    (hmid : mid.entries = m.entries) :
    ∃ name', Spreads p ((Operation.update entryClass uid attributes).Affects p m.name input)
      ((Operation.update entryClass uid attributes).Gives p input) m.name name' mid
      (mid.run (p.carryOut plan >>= p.identify entryClass)).2 := by
  obtain ⟨entries, dn⟩ := m
  cases hmid
  -- The references that the entry has before the update are known from here on.
  refine Exists.imp (fun name' h => Spreads.of_first h) ?_
  unfold carryOut
  simp only [bind_assoc, pure_bind]
  rw [hplan.dn_eq, hplan.rename_eq]
  refine exists_spreads_bind ((spreads_frame p _ _ dn).keeps_sendItems (keeps_spreads_own _))
    fun _ sent _ => ?_
  have hmove := spreads_move p ((Operation.update entryClass uid attributes).Affects p dn input)
    (fun kind reference => (Operation.update entryClass uid attributes).Gives p input kind reference ∨
      reference ∈ (⟨mid.entries, dn⟩ : Moment).references (p.descriptor kind))
    dn (renameFor? dn input.name) sent
  rw [Directory.run_bind]
  cases hrun : sent.run (p.move dn (renameFor? dn input.name)) with
  | mk result moved =>
    rw [hrun] at hmove
    cases result with
    | error e => exact ⟨dn, hmove⟩
    | ok landed =>
      -- So are, after the move, those that it has then.
      refine ⟨landed, hmove.2.trans_visited ?_⟩
      refine (spreads_frame p _ _ landed).keeps_bind
        (keeps_spreads_settle ⟨moved.entries, landed⟩ hplan hmove.1 (fun kind h => h)
          fun kind r hr => ?_)
        (fun _ => keeps_spreads_quiet (p.keeps_unwritten_identify entryClass landed)) moved
      rcases hr with hr | hr | hr
      · exact .inl (.inr hr)
      · exact .inr hr
      · exact .inl (.inl (.inl hr))

theorem spreads_update (entryClass : EntryClass) (uid : String) (attributes : List InputAttribute)
    (dir : Directory) :
    dir.Unwritten (dir.run (p.update entryClass uid attributes)).2 ∨ ∃ dn input,
      (Operation.update entryClass uid attributes).Concerns p dir dn input ∧ ∃ name',
        Spreads p ((Operation.update entryClass uid attributes).Affects p dn input)
          ((Operation.update entryClass uid attributes).Gives p input) dn name' dir
          (dir.run (p.update entryClass uid attributes)).2 := by
  unfold update
  refine spreads_opened fun dn input mid _ => ?_
  have hplan := finds_planUpdate (p := p) (E := fun _ => True)
    (reads_entry ⟨mid.entries, dn⟩ fun _ => trivial) input fun _ _ _ => trivial
  exact exists_spreads_found (m := ⟨mid.entries, dn⟩) hplan rfl
    fun found planned hplanned hfound => exists_spreads_carryOut (m := ⟨mid.entries, dn⟩) hfound hplanned

/-! ## Adding and removing values -/

theorem keeps_spreads_joinGroups (requests : GroupRequests)
    (haffected : (requests.get kind).isUntouched = false → affected kind) :
    Keeps (Spreads p affected known name name) (p.joinGroups name requests kind) := by
  have frame := spreads_frame p affected known name
  unfold joinGroups
  dsimp only
  split
  · exact frame.keeps_pure _
  · next hgroups =>
    have hne : (requests.get kind).groups ≠ [] := fun h => hgroups (List.isEmpty_iff.2 h)
    refine keeps_spreads_current fun known' reference _ href => Keeps.lift ?_
    refine (spreads_frame p affected known' name).keeps_forM fun group _ => ?_
    exact keeps_spreads_addMembership
      (haffected (GroupRequest.isUntouched_of_groups hne)) href

theorem spreads_addValues (entryClass : EntryClass) (uid : String)
    (attributes : List InputAttribute) (dir : Directory) :
    dir.Unwritten (dir.run (p.addValues entryClass uid attributes)).2 ∨ ∃ dn input,
      (Operation.addValues entryClass uid attributes).Concerns p dir dn input ∧ ∃ name',
        Spreads p ((Operation.addValues entryClass uid attributes).Affects p dn input)
          ((Operation.addValues entryClass uid attributes).Gives p input) dn name' dir
          (dir.run (p.addValues entryClass uid attributes)).2 := by
  unfold addValues
  refine spreads_opened fun dn input mid _ => ⟨dn, ?_⟩
  have frame := spreads_frame p ((Operation.addValues entryClass uid attributes).Affects p dn input)
    ((Operation.addValues entryClass uid attributes).Gives p input) dn
  refine frame.keeps_bind
    (keeps_spreads_quiet (p.keeps_unwritten_choosePassword input)) (fun _ => ?_) mid
  refine frame.keeps_bind (keeps_spreads_quiet (p.keeps_unwritten_hashPassword _)) fun stored => ?_
  refine frame.keeps_bind (frame.keeps_sendItems (keeps_spreads_own _)) fun _ => ?_
  refine frame.keeps_bind
    (frame.keeps_writePassword stored fun _ => keeps_spreads_own _) fun _ => ?_
  refine frame.keeps_bind (frame.keeps_forM fun kind _ => ?_) fun _ => frame.keeps_pure _
  exact keeps_spreads_joinGroups input.requests .inl

theorem spreads_removeValues (entryClass : EntryClass) (uid : String)
    (attributes : List InputAttribute) (dir : Directory) :
    dir.Unwritten (dir.run (p.removeValues entryClass uid attributes)).2 ∨ ∃ dn input,
      (Operation.removeValues entryClass uid attributes).Concerns p dir dn input ∧ ∃ name',
        Spreads p ((Operation.removeValues entryClass uid attributes).Affects p dn input)
          ((Operation.removeValues entryClass uid attributes).Gives p input) dn name' dir
          (dir.run (p.removeValues entryClass uid attributes)).2 := by
  unfold removeValues
  refine spreads_opened fun dn input mid _ => ?_
  refine Exists.imp (fun name' h => Spreads.of_first h) ?_
  have frame := spreads_frame p ((Operation.removeValues entryClass uid attributes).Affects p dn input)
    (fun kind reference =>
      (Operation.removeValues entryClass uid attributes).Gives p input kind reference ∨
        reference ∈ (⟨mid.entries, dn⟩ : Moment).references (p.descriptor kind)) dn
  refine exists_spreads_bind (keeps_spreads_quiet (p.keeps_unwritten_hashPassword _))
    fun stored hashed hrun => ?_
  have hhashed := p.keeps_unwritten_hashPassword input.password mid
  rw [hrun] at hhashed
  refine exists_spreads_found (m := ⟨mid.entries, dn⟩) (finds_planLeaving_memberships
    (reads_entry ⟨mid.entries, dn⟩ (E := fun _ => True) fun _ => trivial) (fun _ => trivial) input)
    hhashed.1 fun ending planned _ hending => ⟨dn, ?_⟩
  refine frame.keeps_bind (frame.keeps_sendItems (keeps_spreads_own _)) (fun _ => ?_) planned
  refine frame.keeps_bind
    (frame.keeps_writePassword stored fun _ => keeps_spreads_own _) fun _ => ?_
  refine frame.keeps_bind (Keeps.lift (frame.keeps_forM fun m hm => ?_)) fun _ => ?_
  · obtain ⟨group, hgroup, rfl⟩ := List.mem_map.1 hm
    refine keeps_spreads_removeMembership (.inl ?_) (.inr (List.mem_singleton.2 rfl))
    exact GroupRequest.isUntouched_of_groups (List.ne_nil_of_mem hgroup)
  · refine frame.keeps_bind (frame.keeps_forM fun leaving hleaving => ?_) fun _ => frame.keeps_pure _
    refine Keeps.lift (frame.keeps_forM fun m hm => ?_)
    obtain ⟨hlisted, hthere⟩ := hending leaving hleaving m hm
    exact keeps_spreads_removeMembership (.inl hlisted)
      (.inr (mem_references_of_referencesOf (reference_of_mem_membershipsOf hthere)))

end Provisioner

/-! ## All operations -/

theorem Operation.exists_spreads (p : Provisioner) (op : Operation) (dir : Directory) :
    dir.Unwritten (dir.run (op.run p)).2 ∨ ∃ dn input, op.Concerns p dir dn input ∧ ∃ name',
      Spreads p (op.Affects p dn input) (op.Gives p input) dn name' dir (dir.run (op.run p)).2 := by
  cases op with
  | create entryClass attributes => exact Provisioner.spreads_create entryClass attributes dir
  | update entryClass uid attributes => exact Provisioner.spreads_update entryClass uid attributes dir
  | addValues entryClass uid attributes =>
    exact Provisioner.spreads_addValues entryClass uid attributes dir
  | removeValues entryClass uid attributes =>
    exact Provisioner.spreads_removeValues entryClass uid attributes dir

/-- **The reach of an operation.** Whatever becomes of it, it writes nothing; or it is about an
entry, and each of its requests either modifies this entry under the name that it has at the time,
or adds or removes one reference of it in one group, of a kind that the operation affects. Without a
rename all other values in the member attributes of other entries survive in their order. -/
theorem run_spreads (p : Provisioner) (op : Operation) (dir : Directory) :
    dir.Unwritten (dir.run (op.run p)).2 ∨
      ∃ dn input steps last, op.Concerns p dir dn input ∧
        History p.supply dir.denied ⟨dir.entries, dn⟩ steps last ∧
        last.entries = (dir.run (op.run p)).2.entries ∧
        (dir.run (op.run p)).2.journal = dir.journal ++ steps.map Prod.snd ∧
        (∀ step ∈ steps, step.2.Minds p step.1.name
          (Owned p (op.Affects p dn input) (op.Gives p input) (moments steps last))) ∧
        ((∀ step ∈ steps, step.2.isRename = false) →
          ∀ (x : Dn) (kind : MembershipKind) (keep : String → Bool), dn.key ≠ x.key →
            ¬ Text.same "modifyTimestamp" (p.descriptor kind).memberAttribute = true →
            (∀ other reference,
              Owned p (op.Affects p dn input) (op.Gives p input) (moments steps last) other reference →
              Text.same (p.descriptor other).memberAttribute
                (p.descriptor kind).memberAttribute = true →
              ∀ v, Text.same v reference = true → keep v = false) →
            Selects x (p.descriptor kind).memberAttribute keep dir.entries
              (dir.run (op.run p)).2.entries) := by
  refine (op.exists_spreads p dir).imp_right ?_
  rintro ⟨dn, input, hconcerns, name', -, steps, hhistory, hjournal, hminds⟩
  refine ⟨dn, input, steps, _, hconcerns, hhistory, rfl, hjournal, hminds, ?_⟩
  intro hstays x kind keep hx hstamp hkeep
  exact hhistory.selects hminds hstays hx hstamp hkeep

namespace Sample

/-- The provisioner whose static groups hold their members under the name of the time stamp, where
it also looks for the references of alias groups. -/
def stampSeeker : Provisioner :=
  { provisioner with
    configuration :=
      { provisioner.configuration with
        principal := "cn=boss,dc=x", groupMemberAttribute := "modifyTimestamp",
        aliasGroupMemberRefAttribute := "modifyTimestamp" } }

/-- The input for a new group that joins an alias group. -/
def clubJoins : List InputAttribute :=
  [⟨"__NAME__", [.text "cn=club,dc=x"]⟩, ⟨"uniqueMember", [.text "cn=ann,dc=x"]⟩,
    ⟨"aliasGroups", [.text "cn=team,dc=x"]⟩]

/-- This input, sorted. -/
def clubInput : Input where
  name := some (name "cn" "club")
  requests := { mailAlias := .replace [name "cn" "team"] }
  ordinary := .ofList [("uniqueMember", ["cn=ann,dc=x"])]

/-- A directory with a group that holds a member where the server writes its time stamp. -/
def bobInStampedTeam : Directory :=
  directory [(name "cn" "team", [("cn", ["team"]), ("modifyTimestamp", ["cn=bob,dc=x"])])]

/-- The directory after the group has been created. -/
def clubInTeam : Directory :=
  (bobInStampedTeam.run (stampSeeker.create .group clubJoins)).2

/-- The modifications that a journal asks for. -/
def modifications (journal : List Request) : List (Dn × List Modification) :=
  journal.filterMap fun
    | .modify dn items => some (dn, items)
    | _ => none

/-- The entry of the operation has its first name and, if it is stored, the server's time stamp. -/
def Timed (m : Moment) : Prop :=
  m.name = name "cn" "club" ∧ ∀ v ∈ m.entry.attributes.values "modifyTimestamp", v = "now"

theorem Timed.step {m m' : Moment} {request : Request} {denied : List Dn} (h : Timed m)
    (hhandles : m.Handles stampSeeker.supply denied request m') (hstays : request.isRename = false) :
    Timed m' := by
  have hput (attrs : Attributes) (tick : Nat) :
      ∀ v ∈ (attrs.put "modifyTimestamp" [stampSeeker.supply.time tick]).values "modifyTimestamp",
        v = "now" := by
    intro v hv
    rw [Attributes.values_put, if_pos (Text.same_refl _)] at hv
    exact List.mem_singleton.1 hv
  cases hhandles with
  | quiet => exact h
  | @add dir dn attrs =>
    refine ⟨h.1, ?_⟩
    cases hrun : dir.run (Directory.add stampSeeker.supply dn attrs) with
    | mk result after =>
      cases result with
      | error e =>
        rw [Directory.run_perform_error hrun]
        exact h.2
      | ok _ =>
        have hfound : after.entries.get? dn =
            some ⟨dn, Directory.stamped stampSeeker.supply dir.handled dn attrs⟩ := by
          rw [Directory.run_add_ok hrun, Entries.get?, Entries.find?_insert, if_pos rfl]
        rw [Moment.entry, hfound]
        exact hput _ dir.handled
  | @modify dir dn group items =>
    refine ⟨h.1, ?_⟩
    cases hrun : dir.run (Directory.modify stampSeeker.supply group items) with
    | mk result after =>
      cases result with
      | error e =>
        rw [Directory.run_perform_error hrun]
        exact h.2
      | ok _ =>
        obtain ⟨-, e, attrs, hentry, -, rfl⟩ := Directory.run_modify_ok hrun
        have hfound := Entries.get?_insert_stamped hentry
          (attrs.put "modifyTimestamp" [stampSeeker.supply.time dir.handled]) dn
        dsimp only [Moment.entry]
        rw [hfound]
        split
        · exact hput attrs dir.handled
        · exact h.2
  | rename => cases hstays
  | stay => cases hstays

theorem Timed.history {first last : Moment} {steps : List (Moment × Request)} {denied : List Dn}
    (hhistory : History stampSeeker.supply denied first steps last) (h : Timed first)
    (hstays : ∀ step ∈ steps, step.2.isRename = false) : ∀ m ∈ moments steps last, Timed m := by
  induction hhistory with
  | done m =>
    intro m' hm
    rw [List.mem_singleton.1 hm]
    exact h
  | step hhandles _ ih =>
    rw [List.forall_mem_cons] at hstays
    intro m' hm
    rcases List.mem_cons.1 hm with rfl | hm
    · exact h
    · exact ih (h.step hhandles hstays.1) hstays.2 m' hm

/-- **A default spreads, and a stamp loses.** Under a usable configuration a new group joins another
one under the configured principal. This is no value of the input, and the entry never has it among
the references of the kind. The member of the other group is lost, which is no reference either. -/
theorem defaults_spread_and_stamp_loses :
    stampSeeker.configuration.check = .ok () ∧
      (Operation.create .group clubJoins).Concerns stampSeeker bobInStampedTeam (name "cn" "club")
        clubInput ∧
      (bobInStampedTeam.run (stampSeeker.create .group clubJoins)).1 = .ok "cn=club,dc=x" ∧
      clubInTeam.journal.all (fun request => !request.isRename) = true ∧
      modifications clubInTeam.journal = [(name "cn" "team",
        [⟨.add, (stampSeeker.descriptor .mailAlias).memberAttribute, ["cn=boss,dc=x"]⟩])] ∧
      "cn=boss,dc=x" ∉
        ((stampSeeker.descriptor .mailAlias).referenceValues none clubInput.ordinary).getD [] ∧
      (∀ steps last, History stampSeeker.supply bobInStampedTeam.denied
          ⟨bobInStampedTeam.entries, name "cn" "club"⟩ steps last →
        steps.map Prod.snd = clubInTeam.journal → ∀ m ∈ moments steps last,
          "cn=boss,dc=x" ∉ m.references (stampSeeker.descriptor .mailAlias) ∧
            m.references (stampSeeker.descriptor .static) = ["cn=club,dc=x"]) ∧
      bobInStampedTeam.valuesAt (name "cn" "team")
        (stampSeeker.descriptor .static).memberAttribute = ["cn=bob,dc=x"] ∧
      clubInTeam.valuesAt (name "cn" "team")
        (stampSeeker.descriptor .static).memberAttribute = ["now"] := by
  have hstays : clubInTeam.journal.all (fun request => !request.isRename) = true := by
    decide +kernel
  have hinput : Input.partition .create clubJoins = .ok clubInput := by decide +kernel
  have hnone : "cn=boss,dc=x" ∉
      ((stampSeeker.descriptor .mailAlias).referenceValues none clubInput.ordinary).getD [] := by
    decide +kernel
  refine ⟨by decide +kernel, ⟨hinput, rfl⟩, by decide +kernel, hstays, by decide +kernel, hnone, ?_,
    by decide +kernel, by decide +kernel⟩
  intro steps last hhistory hrequests m hm
  rw [← hrequests, List.all_map, List.all_eq_true] at hstays
  obtain ⟨hname, htime⟩ := Timed.history hhistory ⟨rfl, by decide +kernel⟩
    (fun step hstep => by simpa using hstays step hstep) m hm
  constructor
  · rw [Moment.references, KindDescriptor.mem_referenceValues_some rfl, hname]
    rintro (hleaf | hvalue)
    · cases hleaf
    · exact absurd (htime _ hvalue) (by decide)
  · rw [Moment.references, hname]
    rfl

end Sample

end Roster
