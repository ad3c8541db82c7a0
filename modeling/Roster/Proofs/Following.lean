import Roster.Proofs.DiffRuns
import Roster.Proofs.InputValues
import Roster.Proofs.NameTexts
import Roster.Proofs.Replacing

/-!
# Static memberships of a renamed entry

Static groups hold their members by name. When an update renames an entry and static memberships are
maintained, the new name takes the place of the old one in the groups below the base contexts;
otherwise no other entry's members change. `update_renames_members` says so value by value, if the two
names can be told apart by their texts; they can if the old one has been read from a text
(`rdnKeys_eq_of_text_same`). The server's time stamp must not be what groups hold their members under.
Without either, members do not follow (`renamed_members_astray`).
-/

namespace Roster

namespace Text

/-! ## A value in place of another -/

/-- The values `after` are the values `before` with `new` in place of `old`; values that are neither
stay as they are, in their order. -/
structure Renamed (old new : String) (before after : List String) : Prop where
  holds_new : holds after new = true ↔ holds before old = true ∨ holds before new = true
  gone : holds after old = false
  others : (after.filter fun v => !same v old && !same v new) =
    before.filter fun v => !same v old && !same v new

variable {old new : String} {values : List String}

/-- Without the old value everything stays as it is. -/
theorem renamed_of_not_holds (h : holds values old = false) : Renamed old new values values where
  holds_new := by simp [h]
  gone := h
  others := rfl

theorem holds_addNew (values : List String) (value x : String) :
    holds (addNew values value) x = true ↔ holds values x = true ∨ same value x = true := by
  unfold addNew
  by_cases hthere : holds values value = true
  · rw [if_pos hthere]
    refine ⟨.inl, fun h => h.elim (fun hx => hx) fun hsame => ?_⟩
    rw [← holds_congr hsame]
    exact hthere
  · rw [if_neg hthere, holds_append_singleton]

/-- The new value may be put in place of the old one, if no value is there in two spellings. -/
theorem renamed_of_holds (hne : ¬ same old new = true) (hdistinct : Distinct values)
    (h : holds values old = true) : Renamed old new values (addNew (dropFirst values old) new) where
  holds_new := by
    refine iff_of_true ?_ (.inl h)
    rw [holds_addNew]
    exact .inr (same_refl new)
  gone := by
    rw [← Bool.not_eq_true, holds_addNew, dropFirst, hdistinct.holds_eraseP]
    rintro (⟨-, hsame⟩ | hsame)
    · exact hsame (same_refl old)
    · exact hne (same_symm hsame)
  others := by
    rw [filter_addNew (by simp), filter_dropFirst fun v hv => by simp [hv]]

end Text

/-! ## Memberships under one reference -/

theorem referencesIn_of_exists {r : String} {memberships : List GroupMembership} {dn : Dn}
    (hreference : ∀ m ∈ memberships, m.reference = r)
    (honce : memberships.Pairwise fun a b => (a == b) = false)
    (hsome : ∃ m ∈ memberships, m.group.key = dn.key) : referencesIn memberships dn = [r] := by
  induction memberships with
  | nil =>
    obtain ⟨m, hm, -⟩ := hsome
    cases hm
  | cons m rest ih =>
    rw [List.pairwise_cons] at honce
    have hrest := fun m' hm' => hreference m' (List.mem_cons_of_mem m hm')
    by_cases hkey : m.group.key = dn.key
    · have hnone : rest.filter (fun m' => m'.group.same dn) = [] := by
        refine List.filter_eq_nil_iff.2 fun m' hm' hsame => ?_
        have heq : (m == m') = true := GroupMembership.beq_iff.2
          ⟨(hreference m List.mem_cons_self).trans (hrest m' hm').symm,
            hkey.trans (Dn.same_iff.1 hsame).symm⟩
        rw [honce.1 m' hm'] at heq
        cases heq
      simp [referencesIn, hkey, hnone, hreference m List.mem_cons_self]
    · obtain ⟨m', hm', hkey'⟩ := hsome
      rcases List.mem_cons.1 hm' with rfl | hm'
      · exact absurd hkey' hkey
      · have hin := ih hrest honce.2 ⟨m', hm', hkey'⟩
        simpa [referencesIn, hkey] using hin

theorem referencesIn_of_not_exists {memberships : List GroupMembership} {dn : Dn}
    (hnone : ¬ ∃ m ∈ memberships, m.group.key = dn.key) : referencesIn memberships dn = [] := by
  unfold referencesIn
  rw [List.filter_eq_nil_iff.2, List.map_nil]
  intro m hm hsame
  exact hnone ⟨m, hm, Dn.same_iff.1 hsame⟩

namespace Provisioner

variable {p : Provisioner} {dn landed x : Dn} {e : Entry} {dir : Directory}
  {existing : List GroupMembership}

/-- The old name goes from the groups of some memberships under it. -/
theorem referencesIn_removed (hexisting : ∀ m ∈ existing, m.reference = dn.text)
    (hne : dn.text ≠ landed.text) (hsome : ∃ m ∈ existing, m.group.key = x.key) :
    referencesIn (followMove existing landed).effectiveRemoved x = [dn.text] := by
  have hmem (m : GroupMembership) (hm : m ∈ (followMove existing landed).effectiveRemoved) :
      m ∈ existing :=
    OrderedSet.mem_of_mem_insertAll_nil (OrderedSet.mem_difference.1 hm).1
  refine referencesIn_of_exists (fun m hm => hexisting m (hmem m hm)) ?_ ?_
  · exact (OrderedSet.pairwise_insertAll List.Pairwise.nil existing).filter _
  · obtain ⟨m, hm, hkey⟩ := hsome
    obtain ⟨r, hr, heq⟩ := OrderedSet.exists_mem_insertAll [] hm
    refine ⟨r, OrderedSet.mem_difference.2 ⟨hr, fun a ha hra => hne ?_⟩,
      (GroupMembership.beq_iff.1 heq).2.trans hkey⟩
    obtain ⟨_, _, rfl⟩ := List.mem_map.1 (OrderedSet.mem_of_mem_insertAll_nil ha)
    rw [← hexisting r (OrderedSet.mem_of_mem_insertAll_nil hr)]
    exact (GroupMembership.beq_iff.1 hra).1

/-- The new name comes into the same groups. -/
theorem referencesIn_added (hexisting : ∀ m ∈ existing, m.reference = dn.text)
    (hne : dn.text ≠ landed.text) (hsome : ∃ m ∈ existing, m.group.key = x.key) :
    referencesIn (followMove existing landed).effectiveAdded x = [landed.text] := by
  refine referencesIn_of_exists (fun m hm => ?_) ?_ ?_
  · obtain ⟨_, _, rfl⟩ := List.mem_map.1
      (OrderedSet.mem_of_mem_insertAll_nil (OrderedSet.mem_difference.1 hm).1)
    rfl
  · exact (OrderedSet.pairwise_insertAll List.Pairwise.nil _).filter _
  · obtain ⟨m, hm, hkey⟩ := hsome
    obtain ⟨a, ha, heq⟩ := OrderedSet.exists_mem_insertAll (α := GroupMembership) []
      (List.mem_map_of_mem (f := fun m => (⟨landed.text, m.group⟩ : GroupMembership)) hm)
    obtain ⟨hreference, hgroup⟩ := GroupMembership.beq_iff.1 heq
    refine ⟨a, OrderedSet.mem_difference.2 ⟨ha, fun r hr har => hne ?_⟩, hgroup.trans hkey⟩
    have hold := hexisting r (OrderedSet.mem_of_mem_insertAll_nil hr)
    exact hold.symm.trans ((GroupMembership.beq_iff.1 har).1.symm.trans hreference)

/-- Groups without such memberships are not concerned. -/
theorem referencesIn_of_none (landed : Dn) (hnone : ¬ ∃ m ∈ existing, m.group.key = x.key) :
    referencesIn (followMove existing landed).effectiveRemoved x = [] ∧
      referencesIn (followMove existing landed).effectiveAdded x = [] := by
  refine ⟨referencesIn_of_not_exists ?_, referencesIn_of_not_exists ?_⟩
  · rintro ⟨m, hm, hkey⟩
    exact hnone ⟨m, OrderedSet.mem_of_mem_insertAll_nil (OrderedSet.mem_difference.1 hm).1, hkey⟩
  · rintro ⟨m, hm, hkey⟩
    obtain ⟨old, hold, rfl⟩ := List.mem_map.1
      (OrderedSet.mem_of_mem_insertAll_nil (OrderedSet.mem_difference.1 hm).1)
    exact hnone ⟨old, hold, hkey⟩

/-! ## The settling of a renamed entry -/

/-- Every entry keeps the name under which it is stored. -/
def Named (dir after : Directory) : Prop :=
  ∀ x, after.storedName x = dir.storedName x

theorem named_frame : Frame Named where
  refl _ _ := rfl
  trans hab hbc x := (hbc x).trans (hab x)

theorem keeps_named_modify {supply : Supply} {group : Dn} {items : List Modification} :
    Keeps Named (Directory.modify supply group items) := by
  intro dir x
  cases hrun : dir.run (Directory.modify supply group items) with
  | mk result after =>
    cases result with
    | error err =>
      rw [Directory.run_perform_error hrun]
      rfl
    | ok _ =>
      obtain ⟨-, e, attrs, hentry, -, rfl⟩ := Directory.run_modify_ok hrun
      have hfound := Entries.get?_insert_stamped hentry
        (attrs.put "modifyTimestamp" [supply.time dir.handled]) x
      unfold Directory.storedName
      dsimp only
      rw [hfound]
      split
      · next hkey =>
        have hold : dir.entries.get? x = some e := (dir.get?_congr hkey).symm.trans hentry
        rw [hold]
        rfl
      · rfl

/-- No entry lies below a name, and a new name for its entry would not lie below it either. -/
structure Clear (dn landed : Dn) (entries : Entries) : Prop where
  below (e : Entry) : e ∈ entries.list → e.dn.isWithin dn = true → e.dn.key = dn.key
  outside : ¬ landed.isWithin dn = true

theorem Clear.named {after : Directory} (h : Clear dn landed dir.entries) (hnamed : Named dir after) :
    Clear dn landed after.entries where
  below e he hwithin := by
    have hname : after.storedName e.dn = some e.dn :=
      congrArg (Option.map Entry.dn) (after.entries.get?_eq_some_iff.2 ⟨he, rfl⟩)
    rw [hnamed] at hname
    obtain ⟨old, hold, hdn⟩ := Option.map_eq_some_iff.1 hname
    rw [← hdn] at hwithin ⊢
    exact h.below old (dir.entries.get?_eq_some_iff.1 hold).1 hwithin
  outside := h.outside

/-- What an update settles besides static memberships spares the static members of other entries. -/
theorem keeps_spares_rest {plan : UpdatePlan} {entries : Entries} {input : Input}
    (hplan : Planned p dn e entries input plan)
    (hkinds : ∀ kind, kind ≠ .static → ¬ Text.same (p.descriptor kind).memberAttribute
      (p.descriptor .static).memberAttribute = true)
    (hstamp : ¬ Text.same "modifyTimestamp" (p.descriptor .static).memberAttribute = true)
    (hx : landed.key ≠ x.key) :
    Keeps (Spares x (p.descriptor .static).memberAttribute) (do
      plan.references.forM (p.applyReferences landed)
      p.writePassword landed .replace plan.password) := by
  have frame := spares_frame x (p.descriptor .static).memberAttribute
  have hother {kind : MembershipKind} (hkind : kind ≠ .static) (op : ModifyOp)
      (m : GroupMembership) : Keeps (Spares x (p.descriptor .static).memberAttribute)
        (Directory.modify p.supply m.group
          [⟨op, (p.descriptor kind).memberAttribute, [m.reference]⟩]) := by
    refine keeps_spares_modify hstamp fun _ item hitem => ?_
    rw [List.mem_singleton.1 hitem]
    exact hkinds kind hkind
  have hreferences : ∀ references ∈ plan.references, references.kind ≠ .static := by
    obtain ⟨posix, mailAlias, hlist, hposix, halias⟩ := hplan.references
    intro references hmem
    rw [hlist] at hmem
    rcases List.mem_pair.1 hmem with rfl | rfl
    · rw [hposix.kind_eq]
      decide
    · rw [halias.kind_eq]
      decide
  refine frame.keeps_bind (frame.keeps_forM fun references hmem => ?_) fun _ => ?_
  · have hkind := hreferences references hmem
    exact frame.keeps_applyReferences (fun hquiet => hquiet.spares _ _)
      (fun m => hother hkind .delete m) fun m => frame.keeps_addMembership (hother hkind .add m)
  · exact frame.keeps_writePassword _ fun _ =>
      keeps_spares_modify hstamp fun hkey => absurd hkey hx

/-- **An update that renames an entry** alters the static members of another one by its diff. -/
theorem Stages.alters_static {plan : UpdatePlan} {input : Input} {r : Rename} {group : Entry}
    {planned sent moved settled after : Directory}
    (hstages : p.Stages dn dir plan planned sent landed moved settled after)
    (hplan : Planned p dn e dir.entries input plan) (hrename : plan.rename = some r)
    (hclear : Clear dn (landing dn (some r)) dir.entries)
    (hkinds : ∀ kind, kind ≠ .static → ¬ Text.same (p.descriptor kind).memberAttribute
      (p.descriptor .static).memberAttribute = true)
    (hstamp : ¬ Text.same "modifyTimestamp" (p.descriptor .static).memberAttribute = true)
    (hx : dn.key ≠ x.key) (hgroup : dir.entries.get? x = some group) :
    landed = landing dn (some r) ∧
      Alters x (p.descriptor .static).memberAttribute (fun vs =>
        (referencesIn (staticDiff plan landed).effectiveAdded x).foldl Text.addNew
          ((referencesIn (staticDiff plan landed).effectiveRemoved x).foldl Text.dropFirst vs))
        dir after := by
  have frame := spares_frame x (p.descriptor .static).memberAttribute
  -- The attributes that are replaced before the move are those of the renamed entry.
  have hsent : Spares x (p.descriptor .static).memberAttribute dir sent := by
    have hvalues : Keeps (Spares x (p.descriptor .static).memberAttribute)
        (p.modifyValues dn .replace plan.ordinary) :=
      frame.keeps_sendItems (keeps_spares_modify hstamp fun hkey => absurd hkey hx)
    have hkept := hvalues planned
    rw [hstages.run_values] at hkept
    exact frame.trans (hstages.quiet_plan.spares _ _) hkept
  have hnamed : Named dir sent := by
    have hvalues : Keeps Named (p.modifyValues dn .replace plan.ordinary) :=
      named_frame.keeps_sendItems keeps_named_modify
    have hkept := hvalues planned
    rw [hstages.run_values] at hkept
    refine named_frame.trans (fun y => ?_) hkept
    rw [Directory.storedName, hstages.quiet_plan.1, Directory.storedName]
  -- The move leaves the other entry where it is.
  obtain ⟨group', hgroup', -⟩ := hsent.stored hgroup
  have hrun := hstages.run_move
  rw [hrename] at hrun
  have hmove := Directory.run_lift_ok hrun
  have hclear' := hclear.named hnamed
  obtain ⟨hne, hstays⟩ :=
    Directory.run_rename_elsewhere hclear'.below hclear'.outside hx hgroup' hmove
  have hmoved : Spares x (p.descriptor .static).memberAttribute sent moved := by
    rw [Spares, hstays, hgroup']
  -- What follows, apart from the diff, is about the renamed entry or about other kinds.
  obtain ⟨_, named, hnaming, hsettle⟩ := Directory.run_bind_ok.1 hstages.run_settle
  obtain ⟨_, applied, happlied, hrest⟩ := Directory.run_bind_ok.1 hsettle
  have hnamingKept : Keeps (Spares x (p.descriptor .static).memberAttribute)
      (p.sendItems landed plan.naming) :=
    frame.keeps_sendItems (keeps_spares_modify hstamp fun hkey => absurd hkey hne)
  have hnamingSpares := hnamingKept moved
  rw [hnaming] at hnamingSpares
  have hrestSpares := keeps_spares_rest hplan hkinds hstamp hne applied
  rw [hrest] at hrestSpares
  refine ⟨(Directory.run_rename_ok hmove).1, ?_⟩
  exact ((frame.trans hsent (frame.trans hmoved hnamingSpares)).alters.trans
    (KindDescriptor.alters_applyDiff hstamp (Directory.run_lift_ok happlied))).trans
      (frame.trans hrestSpares (hstages.quiet_end.spares _ _)).alters

/-! ## The outcome -/

/-- The parts of a new name come from the name that is asked for and from the old one. -/
theorem spelled_landing {asked : Option Dn} {r : Rename} (hdn : dn.Spelled)
    (hasked : ∀ target, asked = some target → target.Spelled)
    (hrename : renameFor? dn asked = some r) : (landing dn (some r)).Spelled := by
  have hparent {d above : Dn} (hd : d.Spelled) (habove : d.parent? = some above) :
      above.Spelled := by
    obtain ⟨rdns⟩ := d
    cases rdns with
    | nil => cases habove
    | cons r rest =>
      cases habove
      exact fun s hs => hd s (List.mem_cons_of_mem r hs)
  obtain ⟨rfl, -, hleaf, hsuperior⟩ := renameFor?_eq_some hrename
  have htarget := hasked _ rfl
  have habove : ((r.superior <|> dn.parent?).getD .root).Spelled := by
    rw [hsuperior]
    cases hfilter : r.target.parent?.filter fun parent => !dn.parent?.any parent.same with
    | some above => exact hparent htarget (Option.filter_eq_some_iff.1 hfilter).1
    | none =>
      cases hold : dn.parent? with
      | some above => exact hparent hdn hold
      | none => exact fun s hs => by cases hs
  intro s hs
  rcases List.mem_cons.1 hs with hs | hs
  · exact hs ▸ htarget _ (List.mem_of_head? hleaf)
  · exact habove s hs

end Provisioner

namespace Input

theorem spelled_of_singleDn {a : InputAttribute} {target : Dn} (h : a.singleDn = .ok target) :
    target.Spelled := by
  unfold InputAttribute.singleDn at h
  split at h
  · obtain ⟨_, -, hparse, -⟩ := a.dnOf_ok h
    exact Dn.spelled_of_parse hparse
  · cases h

/-- The name that an input asks for has been read from a text. -/
theorem name_spelled {mode : InputMode} {attributes : List InputAttribute} {input : Input}
    (h : partition mode attributes = .ok input) :
    ∀ target, input.name = some target → target.Spelled := by
  refine foldlM_take (P := fun input _ => ∀ target, input.name = some target → target.Spelled)
    ?_ h nofun
  intro a rest input input' htakes hstart target hname
  cases hmeaning : InputRole.ofName a.name with
  | uid =>
    rw [hmeaning] at htakes
    cases htakes
  | name =>
    rw [hmeaning] at htakes
    obtain ⟨-, asked, hsingle, rfl⟩ := htakes
    cases hname
    exact spelled_of_singleDn hsingle
  | groups | password | enable | resetPassword =>
    rw [hmeaning] at htakes
    obtain ⟨_, -, rfl⟩ := htakes
    exact hstart target hname
  | ordinary =>
    rw [hmeaning] at htakes
    obtain ⟨_, -, rfl⟩ := htakes
    rw [addOrdinary_eq] at hname
    exact hstart target hname

end Input

namespace Provisioner

variable {p : Provisioner} {dn : Dn} {e : Entry} {dir : Directory}

theorem reference_of_mem_static {m : GroupMembership}
    (hm : m ∈ p.membershipsOf .static dn e dir.entries) : m.reference = dn.text :=
  List.mem_singleton.1 (reference_of_mem_membershipsOf hm)

/-- An entry has static memberships in the groups below the base contexts that hold its name. -/
theorem exists_static_iff {group : Entry} (hentry : dir.entry? group.dn = some group) :
    (∃ m ∈ p.membershipsOf .static dn e dir.entries, m.group.key = group.dn.key) ↔
      p.InScope group.dn ∧ (p.descriptor .static).Holds group dn.text := by
  have hcovers {m : GroupMembership} (hm : m ∈ p.membershipsOf .static dn e dir.entries)
      (hkey : m.group.key = group.dn.key) : m.Covers group.dn dn.text :=
    ⟨hkey, reference_of_mem_static hm ▸ Text.same_refl _⟩
  constructor
  · rintro ⟨m, hm, hkey⟩
    have hheld := holdsAt_of_mem_membershipsOf hm
    rw [reference_of_mem_static hm, Directory.HoldsAt, dir.valuesAt_congr hkey] at hheld
    obtain ⟨⟨group', hentry', hscope⟩, -⟩ :=
      (exists_covers_iff hheld).1 ⟨m, hm, hcovers hm hkey⟩
    cases hentry.symm.trans hentry'
    exact ⟨hscope, (Directory.holdsAt_iff hentry _ _).1 hheld⟩
  · rintro ⟨hscope, hholds⟩
    have hheld := (Directory.holdsAt_iff hentry (p.descriptor .static).memberAttribute _).2 hholds
    obtain ⟨m, hm, hkey, -⟩ := (exists_covers_iff (e := e) hheld).2
      ⟨⟨group, hentry, hscope⟩, dn.text, List.mem_singleton_self _, Text.same_refl _⟩
    exact ⟨m, hm, hkey⟩

/-- What becomes of the static members of another entry when an entry is renamed to another name. -/
structure MembersFollow (p : Provisioner) (dn landed : Dn) (group group' : Entry) : Prop where
  /-- Below the base contexts the new name stands for the old one, if memberships are maintained. -/
  renamed : (p.descriptor .static).maintained = true → p.InScope group.dn →
    Text.Renamed dn.text landed.text (group.attributes.values (p.descriptor .static).memberAttribute)
      (group'.attributes.values (p.descriptor .static).memberAttribute)
  /-- Elsewhere, and without maintenance, nothing changes. -/
  kept : ¬ ((p.descriptor .static).maintained = true ∧ p.InScope group.dn) →
    group'.attributes.values (p.descriptor .static).memberAttribute =
      group.attributes.values (p.descriptor .static).memberAttribute

/-- A new name that is clear of the old one has another text, ignoring ASCII case. -/
theorem Clear.not_same {entries : Entries} {asked : Option Dn} {r : Rename}
    (h : Clear dn (landing dn (some r)) entries) (hdn : dn.Spelled)
    (hasked : ∀ target, asked = some target → target.Spelled)
    (hrename : renameFor? dn asked = some r) :
    ¬ Text.same dn.text (landing dn (some r)).text = true := by
  intro hsame
  have hkeys := Dn.rdnKeys_eq_of_text_same hdn (spelled_landing hdn hasked hrename) hsame
  exact h.outside (Dn.isWithin_iff.2 (hkeys ▸ List.suffix_refl _))

/-- An update that renames its entry and lists no static groups moves the static memberships, and
without maintenance none of them. -/
theorem Planned.exists_followMove {plan : UpdatePlan} {input : Input} {r : Rename}
    (h : Planned p dn e dir.entries input plan) (henable : input.enable = none)
    (huntouched : input.requests.static = .untouched)
    (hrename : renameFor? dn input.name = some r) (landed : Dn) :
    ∃ existing, staticDiff plan landed = followMove existing landed ∧
      ∀ m, m ∈ existing ↔ (p.descriptor .static).maintained = true ∧
        m ∈ p.membershipsOf .static dn e dir.entries := by
  have hstatic : plan.static.isUntouched = true := by
    rw [h.static_eq, applyStatus, henable]
    dsimp only
    rw [huntouched]
    rfl
  have hfollow : plan.followRename = (p.descriptor .static).maintained := by
    rw [h.followRename_eq, hrename]
    rfl
  cases hmaintained : (p.descriptor .static).maintained with
  | true =>
    refine ⟨p.membershipsOf .static dn e dir.entries, ?_, by simp⟩
    rw [staticDiff, hstatic, hfollow, hmaintained, h.existing_eq]
    · rfl
    · rw [hfollow, hmaintained]
      rfl
  | false =>
    refine ⟨[], ?_, by simp⟩
    rw [staticDiff, hstatic, hfollow, hmaintained]
    rfl

/-- The members follow in a group where the memberships of the entry have been moved. -/
theorem membersFollow_of_followMove {existing : List GroupMembership} {landed : Dn}
    {group group' : Entry} (hentry : dir.entry? group.dn = some group)
    (hdistinct : Text.Distinct (group.attributes.values (p.descriptor .static).memberAttribute))
    (hnames : ¬ Text.same dn.text landed.text = true)
    (hexisting : ∀ m, m ∈ existing ↔ (p.descriptor .static).maintained = true ∧
      m ∈ p.membershipsOf .static dn e dir.entries)
    (hvalues : group'.attributes.values (p.descriptor .static).memberAttribute =
      (referencesIn (followMove existing landed).effectiveAdded group.dn).foldl Text.addNew
        ((referencesIn (followMove existing landed).effectiveRemoved group.dn).foldl Text.dropFirst
          (group.attributes.values (p.descriptor .static).memberAttribute))) :
    p.MembersFollow dn landed group group' := by
  by_cases hmember : ∃ m ∈ existing, m.group.key = group.dn.key
  · have hreference : ∀ m ∈ existing, m.reference = dn.text :=
      fun m hm => reference_of_mem_static ((hexisting m).1 hm).2
    have hne : dn.text ≠ landed.text := fun heq => hnames (heq ▸ Text.same_refl _)
    rw [referencesIn_removed hreference hne hmember, referencesIn_added hreference hne hmember]
      at hvalues
    obtain ⟨m, hm, hkey⟩ := hmember
    obtain ⟨hmaintained, hmem⟩ := (hexisting m).1 hm
    obtain ⟨hscope, hholds⟩ := (exists_static_iff hentry).1 ⟨m, hmem, hkey⟩
    refine ⟨fun _ _ => ?_, fun hnot => absurd ⟨hmaintained, hscope⟩ hnot⟩
    rw [hvalues]
    exact Text.renamed_of_holds hnames hdistinct hholds
  · obtain ⟨hremoved, hadded⟩ := referencesIn_of_none landed hmember
    rw [hremoved, hadded] at hvalues
    refine ⟨fun hmaintained hscope => ?_, fun _ => hvalues⟩
    rw [hvalues]
    refine Text.renamed_of_not_holds (Bool.eq_false_iff.2 fun hholds => hmember ?_)
    obtain ⟨m, hm, hkey⟩ := (exists_static_iff (e := e) hentry).2 ⟨hscope, hholds⟩
    exact ⟨m, (hexisting m).2 ⟨hmaintained, hm⟩, hkey⟩

/-- **Static memberships follow a rename** exactly if they are maintained, where groups do not hold
their members under the name of the time stamp and the texts of the two names differ. They do differ
if the old name has been read from a text. -/
theorem update_renames_members {entryClass : EntryClass} {uid uid' : String}
    {attributes : List InputAttribute} {after : Directory} {input : Input} {r : Rename}
    (hresolve : (dir.run (p.resolve entryClass uid)).1 = .ok dn) (hstored : dir.entry? dn = some e)
    (hinput : Input.partition .update attributes = .ok input) (henable : input.enable = none)
    (huntouched : input.requests.static = .untouched)
    (hrename : renameFor? dn input.name = some r)
    (hclear : Clear dn (landing dn (some r)) dir.entries)
    (hkinds : ∀ kind, kind ≠ .static → ¬ Text.same (p.descriptor kind).memberAttribute
      (p.descriptor .static).memberAttribute = true)
    (hdistinct : ∀ group ∈ dir.entries.list, ∀ pair ∈ group.attributes.pairs,
      Text.Distinct pair.2)
    (hstamp : ¬ Text.same "modifyTimestamp" (p.descriptor .static).memberAttribute = true)
    (hrun : dir.run (p.update entryClass uid attributes) = (.ok uid', after)) :
    ((∃ s, Dn.parse s = .ok dn) → ¬ Text.same dn.text (landing dn (some r)).text = true) ∧
      (¬ Text.same dn.text (landing dn (some r)).text = true →
        ∀ group ∈ dir.entries.list, group.dn.key ≠ dn.key →
          ∃ group', after.entry? group.dn = some group' ∧
            p.MembersFollow dn (landing dn (some r)) group group') := by
  refine ⟨fun ⟨s, hread⟩ => ?_, fun hnames group hgroup hother => ?_⟩
  · exact hclear.not_same (Dn.spelled_of_parse hread) (Input.name_spelled hinput) hrename
  obtain ⟨plan, planned, sent, landed, moved, settled, hplan, hstages⟩ :=
    update_ok hresolve hstored hinput hrun
  have hentry : dir.entries.get? group.dn = some group :=
    dir.entries.get?_eq_some_iff.2 ⟨hgroup, rfl⟩
  obtain ⟨rfl, halters⟩ := hstages.alters_static hplan (hplan.rename_eq.trans hrename) hclear
    hkinds hstamp (Ne.symm hother) hentry
  obtain ⟨group', hgroup', hvalues⟩ := halters.stored hentry
  refine ⟨group', hgroup', ?_⟩
  obtain ⟨existing, hdiff, hexisting⟩ :=
    hplan.exists_followMove henable huntouched hrename (landing dn (some r))
  rw [hdiff] at hvalues
  exact membersFollow_of_followMove hentry (Text.distinct_values (hdistinct group hgroup) _) hnames
    hexisting hvalues

end Provisioner

namespace Sample

/-- The provisioner that lets static memberships follow a renamed entry. -/
def renamer : Provisioner :=
  { provisioner with
    configuration := { provisioner.configuration with maintainLdapGroupMembership := true } }

/-- A group with some members. -/
def staticTeam : Entry :=
  ⟨name "cn" "team", .ofList [("uniqueMember", ["CN=ann,dc=x", "cn=bob,dc=x"])]⟩

/-- A directory with an entry, and with a group that holds its name. -/
def annInStaticTeam : Directory :=
  directory [(name "cn" "ann", [("cn", ["ann"])]),
    (name "cn" "team", [("uniqueMember", ["CN=ann,dc=x", "cn=bob,dc=x"])])]

/-- The directory after the entry has got another name. -/
def beaInStaticTeam : Directory :=
  (annInStaticTeam.run
    (renamer.update .account "cn=ann,dc=x" [⟨"__NAME__", [.text "cn=bea,dc=x"]⟩])).2

theorem annInStaticTeam_clear :
    Provisioner.Clear (name "cn" "ann") (name "cn" "bea") annInStaticTeam.entries where
  below := by decide +kernel
  outside := by decide +kernel

/-- The new name takes the place of the old one, in whatever spelling that was held. -/
theorem annInStaticTeam_renamed :
    (∃ group', beaInStaticTeam.entry? (name "cn" "team") = some group' ∧
      renamer.MembersFollow (name "cn" "ann") (name "cn" "bea") staticTeam group') ∧
      beaInStaticTeam.valuesAt (name "cn" "team") "uniqueMember" =
        ["cn=bob,dc=x", "cn=bea,dc=x"] := by
  refine ⟨?_, by decide +kernel⟩
  have hresolve : (annInStaticTeam.run (renamer.resolve .account "cn=ann,dc=x")).1 =
      .ok (name "cn" "ann") := by decide +kernel
  have hread : Dn.parse "cn=ann,dc=x" = .ok (name "cn" "ann") := by decide +kernel
  have hstored : annInStaticTeam.entry? (name "cn" "ann") =
      some ⟨name "cn" "ann", .ofList [("cn", ["ann"])]⟩ := by decide +kernel
  have hinput : Input.partition .update [⟨"__NAME__", [.text "cn=bea,dc=x"]⟩] =
      .ok { name := some (name "cn" "bea") } := by decide +kernel
  have hrename : Provisioner.renameFor? (name "cn" "ann") (some (name "cn" "bea")) =
      some ⟨name "cn" "bea", .single "cn" "bea", none⟩ := by decide +kernel
  have hkinds : ∀ kind, kind ≠ .static → ¬ Text.same (renamer.descriptor kind).memberAttribute
      (renamer.descriptor .static).memberAttribute = true := by
    intro kind
    cases kind <;> decide +kernel
  have hrun : (annInStaticTeam.run (renamer.update .account "cn=ann,dc=x"
      [⟨"__NAME__", [.text "cn=bea,dc=x"]⟩])).1 = .ok "cn=bea,dc=x" := by decide +kernel
  obtain ⟨hnames, hfollow⟩ := Provisioner.update_renames_members hresolve hstored hinput rfl rfl
    hrename annInStaticTeam_clear hkinds (by decide +kernel) (by decide +kernel)
    (Directory.run_of_result hrun)
  exact hfollow (hnames ⟨_, hread⟩) staticTeam (by decide +kernel) (by decide +kernel)

/-! ## Members that do not follow -/

/-- Under a usable configuration an update that asks for another name and nothing else succeeds, and
the members of a group do not follow. -/
structure Astray (p : Provisioner) (dir : Directory) (uid asked : String) (dn target : Dn)
    (group : Entry) : Prop where
  valid : p.configuration.check = .ok ()
  kinds (kind other : MembershipKind) : kind ≠ other →
    ¬ Text.same (p.descriptor kind).memberAttribute (p.descriptor other).memberAttribute = true
  distinct (group : Entry) : group ∈ dir.entries.list →
    ∀ pair ∈ group.attributes.pairs, Text.Distinct pair.2
  resolves : (dir.run (p.resolve .account uid)).1 = .ok dn
  input : Input.partition .update [⟨"__NAME__", [.text asked]⟩] = .ok { name := some target }
  clear : Provisioner.Clear dn target dir.entries
  lands : Provisioner.landing dn (Provisioner.renameFor? dn (some target)) = target
  runs : ∃ uid', (dir.run (p.update .account uid [⟨"__NAME__", [.text asked]⟩])).1 = .ok uid'
  stored : group ∈ dir.entries.list ∧ group.dn.key ≠ dn.key
  astray : ¬ ∃ group', Directory.entry?
    (dir.run (p.update .account uid [⟨"__NAME__", [.text asked]⟩])).2 group.dn = some group' ∧
      p.MembersFollow dn target group group'

/-- The provisioner whose groups hold their members under the name of the time stamp, and whose
static memberships follow a renamed entry. -/
def stampedRenamer : Provisioner :=
  { provisioner with
    configuration :=
      { provisioner.configuration with
        groupMemberAttribute := "modifyTimestamp", maintainLdapGroupMembership := true } }

/-- A group that holds a name where the server writes its time stamp. -/
def stampedTeam : Entry :=
  ⟨name "cn" "team", .ofList [("cn", ["team"]), ("modifyTimestamp", ["cn=ann,dc=x"])]⟩

/-- A directory with an entry and this group. -/
def annInNameTeam : Directory :=
  directory [(name "cn" "ann", [("cn", ["ann"])]),
    (name "cn" "team", [("cn", ["team"]), ("modifyTimestamp", ["cn=ann,dc=x"])])]

/-- The provisioner that knows entries by their common name, and whose static memberships follow a
renamed entry. -/
def keyedRenamer : Provisioner :=
  { renamer with configuration := { renamer.configuration with uidAttribute := "cn" } }

/-- A name that no text reads as: its type looks like a pair and the start of another one. -/
def unread : Dn :=
  ⟨[.single "b=1+a" "2", .single "dc" "x"]⟩

/-- The name that the text of the former reads as. -/
def reread : Dn :=
  ⟨[⟨[⟨"b", "1"⟩, ⟨"a", "2"⟩]⟩, .single "dc" "x"]⟩

/-- A group that holds this text. -/
def unreadTeam : Entry :=
  ⟨name "cn" "team", .ofList [("uniqueMember", ["b=1+a=2,dc=x"])]⟩

/-- A directory with an entry under the name that no text reads as, and with the group. -/
def unreadInTeam : Directory :=
  directory [(unread, [("cn", ["ann"]), ("objectClass", ["inetOrgPerson"])]),
    (name "cn" "team", [("uniqueMember", ["b=1+a=2,dc=x"])])]

/-- Members do not follow if the server writes its time stamp over the new name, or if the old name
has the text of the new one. -/
theorem renamed_members_astray :
    Astray stampedRenamer annInNameTeam "cn=ann,dc=x" "cn=bea,dc=x" (name "cn" "ann")
        (name "cn" "bea") stampedTeam ∧
      Astray keyedRenamer unreadInTeam "ann" "b=1+a=2,dc=x" unread reread unreadTeam := by
  constructor
  · refine ⟨by decide +kernel, fun kind other => by cases kind <;> cases other <;> decide +kernel,
      by decide +kernel, by decide +kernel, by decide +kernel,
      ⟨by decide +kernel, by decide +kernel⟩, by decide +kernel,
      ⟨"cn=bea,dc=x", by decide +kernel⟩, by decide +kernel, ?_⟩
    rintro ⟨group', hgroup', hfollow⟩
    have hscope : stampedRenamer.InScope stampedTeam.dn :=
      ⟨⟨[.single "dc" "x"]⟩, by decide +kernel, by decide +kernel⟩
    have hnew := (hfollow.renamed rfl hscope).holds_new.2 (.inl (by decide +kernel))
    have hlost : Text.holds ((annInNameTeam.run (stampedRenamer.update .account "cn=ann,dc=x"
        [⟨"__NAME__", [.text "cn=bea,dc=x"]⟩])).2.valuesAt stampedTeam.dn "modifyTimestamp")
        (name "cn" "bea").text = false := by decide +kernel
    rw [Directory.valuesAt_of_entry? hgroup'] at hlost
    exact Bool.false_ne_true (hlost.symm.trans hnew)
  · refine ⟨by decide +kernel, fun kind other => by cases kind <;> cases other <;> decide +kernel,
      by decide +kernel, by decide +kernel, by decide +kernel,
      ⟨by decide +kernel, by decide +kernel⟩, by decide +kernel,
      ⟨"ann", by decide +kernel⟩, by decide +kernel, ?_⟩
    rintro ⟨group', hgroup', hfollow⟩
    have hscope : keyedRenamer.InScope unreadTeam.dn :=
      ⟨⟨[.single "dc" "x"]⟩, by decide +kernel, by decide +kernel⟩
    have hgone := (hfollow.renamed rfl hscope).gone
    have hstays : Text.holds ((unreadInTeam.run (keyedRenamer.update .account "ann"
        [⟨"__NAME__", [.text "b=1+a=2,dc=x"]⟩])).2.valuesAt unreadTeam.dn "uniqueMember")
        unread.text = true := by decide +kernel
    rw [Directory.valuesAt_of_entry? hgroup'] at hstays
    exact Bool.false_ne_true (hgone.symm.trans hstays)

end Sample

end Roster
