import Roster.Proofs.Stranding

/-!
# What becomes of supplied values

An update replaces the values of an attribute by those that are supplied. Without a move that is all
that happens to them. With a move the relative names have a say, and `values_landed` computes what
the entry has then: a list of supplied values goes before the move, and loses what the old relative
name holds, or it goes after the move, in place of what the new relative name brings.
`update_reflects_iff` says when the outcome is what the input asks for (`Reflects`), and `Mismatches`
lists the ways in which a move leads to another one.
-/

namespace Roster

namespace Provisioner

/-! ## Naming attributes -/

/-- What an update writes after its move for an attribute of which the new relative name holds some
values. Nothing is written if the supplied values are spellings of the first of them. -/
def namingValues? (named supplied : List String) : Option (List String) :=
  match named with
  | [] => none
  | first :: _ =>
    if supplied.all fun v => Text.same v first then none
    else some (if Text.holds supplied first then supplied else first :: supplied)

theorem valuesOf_cons (ava : Ava) (avas : List Ava) (name : String) :
    (⟨ava :: avas⟩ : Rdn).valuesOf name =
      if Text.same ava.type name then ava.value :: (⟨avas⟩ : Rdn).valuesOf name
      else (⟨avas⟩ : Rdn).valuesOf name := by
  simp only [Rdn.valuesOf, List.filter_cons]
  split <;> rfl

theorem namingValues?_nil (named : List String) : namingValues? named [] = none := by
  cases named <;> rfl

/-- The replacements after a move write one list of values for each naming attribute. -/
theorem values_applyAll_takeNaming {text name : String} {avas : List Ava}
    {ordinary attrs attrs' : Attributes}
    (h : attrs.applyAll text (takeNaming avas ordinary).1 = .ok attrs') :
    attrs'.values name =
      (namingValues? ((⟨avas⟩ : Rdn).valuesOf name) (ordinary.values name)).getD
        (attrs.values name) := by
  induction avas generalizing ordinary attrs with
  | nil =>
    cases h
    rfl
  | cons ava avas ih =>
    unfold takeNaming at h
    dsimp only at h
    by_cases hname : Text.same ava.type name = true
    · -- The values are taken out by the first pair of a type; nothing is left for further ones.
      have htaken : (ordinary.erase ava.type).values name = [] := by
        rw [Attributes.values_erase, if_pos hname]
      rw [valuesOf_cons, if_pos hname, namingValues?]
      rw [ordinary.values_congr hname] at h
      split at h
      · next hall =>
        rw [if_pos hall, ih h, htaken, namingValues?_nil]
      · next hall =>
        obtain ⟨mid, happly, hrest⟩ := Attributes.applyAll_cons.1 h
        cases happly
        rw [if_neg hall, ih hrest, htaken, namingValues?_nil, Attributes.values_settle,
          if_pos hname]
        rfl
    · have hleft : (ordinary.erase ava.type).values name = ordinary.values name := by
        rw [Attributes.values_erase, if_neg hname]
      rw [valuesOf_cons, if_neg hname]
      split at h
      · rw [ih h, hleft]
      · obtain ⟨mid, happly, hrest⟩ := Attributes.applyAll_cons.1 h
        cases happly
        rw [ih hrest, hleft, Attributes.values_settle, if_neg hname]

/-- What an entry has of an attribute after a move, in terms of the values that the old and the new
relative name hold, of those that are supplied and of those that were there. -/
def valuesAfterMove (old named supplied stored : List String) : List String :=
  (namingValues? named supplied).getD (OrderedSet.insertAll
    ((if named = [] then supplied else stored).filter fun v => !Text.holds old v) named)

/-! ## What an update is asked for -/

/-- The values of an attribute are those that are supplied: all of them are there, nothing is there
besides them and the values in the relative name, and these are all there after a move. -/
structure Reflects (values supplied named : List String) (moved : Bool) : Prop where
  complete (v : String) : v ∈ supplied → Text.holds values v = true
  nothingElse (v : String) : v ∈ values → Text.holds (supplied ++ named) v = true
  named (v : String) : moved = true → v ∈ named → Text.holds values v = true

/-- The ways in which the values after a move are not those that are asked for. -/
inductive Mismatches (old named supplied stored : List String) : Prop
  /-- A supplied value goes along with the old relative name. -/
  | dropped (v : String) : named = [] → v ∈ supplied → Text.holds old v = true →
      Mismatches old named supplied stored
  /-- The supplied values are those that the move brings, so nothing is replaced and a stored value
  stays. -/
  | stays (v : String) : named ≠ [] → namingValues? named supplied = none → v ∈ stored →
      Text.holds old v = false → Text.holds named v = false →
      Mismatches old named supplied stored
  /-- The supplied values replace those that the move brings, and only the first of these is kept. -/
  | overwritten (values : List String) (v : String) : namingValues? named supplied = some values →
      v ∈ named → Text.holds values v = false → Mismatches old named supplied stored

theorem holds_append_iff {xs ys : List String} {v : String} :
    Text.holds (xs ++ ys) v = true ↔ Text.holds xs v = true ∨ Text.holds ys v = true := by
  rw [Text.holds, List.any_append, Bool.or_eq_true, Text.holds, Text.holds]

/-- If nothing is written after the move, the supplied values are in the new relative name. -/
theorem holds_of_namingValues?_eq_none {named supplied : List String} (hne : named ≠ [])
    (hnone : namingValues? named supplied = none) {v : String} (hv : v ∈ supplied) :
    Text.holds named v = true := by
  cases named with
  | nil => exact absurd rfl hne
  | cons first others =>
    unfold namingValues? at hnone
    dsimp only at hnone
    split at hnone
    · next hall =>
      have hsame := List.all_eq_true.1 hall v hv
      rw [Text.holds_congr hsame]
      exact Text.holds_of_mem List.mem_cons_self
    · cases hnone

/-- What is written after the move are the supplied values, perhaps with the first of the new
relative name. -/
theorem mem_namingValues? {named supplied values : List String}
    (h : namingValues? named supplied = some values) :
    (∀ v ∈ supplied, v ∈ values) ∧ ∀ v ∈ values, v ∈ supplied ∨ v ∈ named := by
  cases named with
  | nil => cases h
  | cons first others =>
    unfold namingValues? at h
    dsimp only at h
    split at h
    · cases h
    · cases h
      split
      · exact ⟨fun v hv => hv, fun v hv => .inl hv⟩
      · refine ⟨fun v hv => List.mem_cons_of_mem first hv, fun v hv => ?_⟩
        rcases List.mem_cons.1 hv with rfl | hv
        · exact .inr List.mem_cons_self
        · exact .inl hv

/-- Values that a new relative name does not hold reflect what is supplied unless the old one takes
some of them along. -/
theorem reflects_filter_iff {old supplied : List String} :
    Reflects (supplied.filter fun v => !Text.holds old v) supplied [] true ↔
      ∀ v ∈ supplied, Text.holds old v = false := by
  constructor
  · intro h v hv
    rw [← Bool.not_eq_true]
    intro hold
    obtain ⟨u, hu, hfold⟩ := Text.holds_iff.1 (h.complete v hv)
    have hkept := (List.mem_filter.1 hu).2
    rw [Text.holds_congr (Text.same_iff.2 hfold), hold] at hkept
    cases hkept
  · intro h
    refine ⟨fun v hv => ?_, fun v hv => ?_, nofun⟩
    · exact Text.holds_of_mem (List.mem_filter.2 ⟨hv, by rw [h v hv]; rfl⟩)
    · rw [List.append_nil]
      exact Text.holds_of_mem (List.mem_filter.1 hv).1

/-- If nothing is written after the move, the values reflect what is supplied unless a stored one
stays that the new relative name does not hold. -/
theorem reflects_insertAll_iff {old named supplied stored : List String} (hne : named ≠ [])
    (hnone : namingValues? named supplied = none) :
    Reflects (OrderedSet.insertAll (stored.filter fun v => !Text.holds old v) named) supplied named
        true ↔
      ∀ v ∈ stored, Text.holds old v = false → Text.holds named v = true := by
  have hsupplied (v : String) (hv : Text.holds supplied v = true) : Text.holds named v = true := by
    obtain ⟨u, hu, hfold⟩ := Text.holds_iff.1 hv
    rw [← Text.holds_congr (Text.same_iff.2 hfold)]
    exact holds_of_namingValues?_eq_none hne hnone hu
  constructor
  · intro h v hv hold
    have hkept : v ∈ stored.filter fun v => !Text.holds old v := by
      rw [List.mem_filter, hold]
      exact ⟨hv, rfl⟩
    have hthere := h.nothingElse v (OrderedSet.mem_insertAll.2 (.inl hkept))
    exact (holds_append_iff.1 hthere).elim (hsupplied v) fun hin => hin
  · intro h
    have hnamed (v : String) (hv : Text.holds named v = true) : Text.holds (OrderedSet.insertAll
        (stored.filter fun v => !Text.holds old v) named) v = true := by
      obtain ⟨u, hu, hfold⟩ := Text.holds_iff.1 hv
      exact Text.holds_iff.2 ⟨u, OrderedSet.mem_insertAll.2 (.inr hu), hfold⟩
    refine ⟨fun v hv => hnamed v (hsupplied v (Text.holds_of_mem hv)), fun v hv => ?_,
      fun v _ hv => hnamed v (Text.holds_of_mem hv)⟩
    refine holds_append_iff.2 (.inr ?_)
    rcases OrderedSet.mem_insertAll.1 hv with hv | hv
    · obtain ⟨hv, hold⟩ := List.mem_filter.1 hv
      rw [Bool.not_eq_true'] at hold
      exact h v hv hold
    · exact Text.holds_of_mem hv

/-- What is written after the move reflects what is supplied if it has all values of the new relative
name. -/
theorem reflects_namingValues_iff {named supplied values : List String}
    (hsome : namingValues? named supplied = some values) :
    Reflects values supplied named true ↔ ∀ v ∈ named, Text.holds values v = true := by
  obtain ⟨hcomplete, honly⟩ := mem_namingValues? hsome
  constructor
  · exact fun h v hv => h.named v rfl hv
  · refine fun h => ⟨fun v hv => Text.holds_of_mem (hcomplete v hv), fun v hv => ?_,
      fun v _ hv => h v hv⟩
    exact holds_append_iff.2 ((honly v hv).imp Text.holds_of_mem Text.holds_of_mem)

/-- **A move leads to what is asked for** exactly if it does not run into a mismatch. -/
theorem reflects_valuesAfterMove_iff (old named supplied stored : List String) :
    Reflects (valuesAfterMove old named supplied stored) supplied named true ↔
      ¬ Mismatches old named supplied stored := by
  unfold valuesAfterMove
  by_cases hnil : named = []
  · subst hnil
    have hnone : namingValues? [] supplied = none := rfl
    rw [hnone, Option.getD_none, if_pos rfl, OrderedSet.insertAll_nil, reflects_filter_iff]
    constructor
    · rintro h (⟨v, -, hv, hold⟩ | ⟨v, hne, -⟩ | ⟨values, v, hsome, -⟩)
      · exact absurd hold (Bool.eq_false_iff.1 (h v hv))
      · exact hne rfl
      · cases hsome
    · exact fun h v hv => Bool.eq_false_iff.2 fun hold => h (.dropped v rfl hv hold)
  rw [if_neg hnil]
  cases hwritten : namingValues? named supplied with
  | none =>
    rw [Option.getD_none, reflects_insertAll_iff hnil hwritten]
    constructor
    · rintro h (⟨v, hnil', -⟩ | ⟨v, -, -, hv, hold, hother⟩ | ⟨values, v, hsome, -⟩)
      · exact hnil hnil'
      · exact absurd (h v hv hold) (Bool.eq_false_iff.1 hother)
      · exact absurd (hwritten.symm.trans hsome) nofun
    · refine fun h v hv hold => Classical.byContradiction fun hother => ?_
      exact h (.stays v hnil hwritten hv hold (Bool.eq_false_iff.2 hother))
  | some values =>
    rw [Option.getD_some, reflects_namingValues_iff hwritten]
    constructor
    · rintro h (⟨v, hnil', -⟩ | ⟨v, -, hnone, -⟩ | ⟨values', v, hsome, hv, hlost⟩)
      · exact hnil hnil'
      · exact absurd (hwritten.symm.trans hnone) nofun
      · cases hwritten.symm.trans hsome
        exact absurd (h v hv) (Bool.eq_false_iff.1 hlost)
    · refine fun h v hv => Classical.byContradiction fun hlost => ?_
      exact h (.overwritten values v hwritten hv (Bool.eq_false_iff.2 hlost))

/-! ## The stages of an update -/

variable {p : Provisioner} {dn landed : Dn} {e : Entry} {name : String}

/-- An update that sends anything for its entry can only succeed if the entry is there. -/
theorem Stages.exists_entry {dir : Directory} {plan : UpdatePlan}
    {planned sent moved settled after : Directory}
    (h : p.Stages dn dir plan planned sent landed moved settled after)
    (hsends : plan.rename ≠ none ∨ plan.ordinary.get? name ≠ none) :
    ∃ e, dir.entry? dn = some e := by
  have hentries : planned.entry? dn = dir.entry? dn := by
    rw [Directory.entry?, h.quiet_plan.1]
    rfl
  rw [← hentries]
  rcases run_sendItems_ok h.run_values with ⟨hempty, hsent⟩ | hmodify
  · -- Nothing is replaced, so the entry is moved.
    have hnone : plan.ordinary.get? name = none := by
      rw [Attributes.get?, List.map_eq_nil_iff.1 hempty]
      rfl
    have hmove := h.run_move
    unfold move at hmove
    split at hmove
    · obtain ⟨-, -, e, hentry, -⟩ := Directory.run_rename_ok (Directory.run_lift_ok hmove)
      rw [← hsent]
      exact ⟨e, hentry⟩
    · next hrename => exact absurd hnone (hsends.resolve_left fun hne => hne hrename)
  · obtain ⟨-, e, -, hentry, -⟩ := Directory.run_modify_ok hmodify
    exact ⟨e, hentry⟩

/-- What is sent after the move changes an attribute only by the replacements among it. -/
theorem run_settle_values {plan : UpdatePlan} {moved settled : Directory} (hplain : p.IsPlain name)
    (hstored : moved.entries.get? landed = some e)
    (hsettle : moved.run (p.settle plan landed) = (.ok (), settled)) :
    ∃ e' attrs, settled.entries.get? landed = some e' ∧
      e.attributes.applyAll landed.text plan.naming = .ok attrs ∧
      e'.attributes.values name = attrs.values name := by
  have hsplit : p.settle plan landed = p.sendItems landed plan.naming >>= fun _ =>
      p.settle { plan with naming := [] } landed := rfl
  rw [hsplit] at hsettle
  obtain ⟨_, named, hnaming, hrest⟩ := Directory.run_bind_ok.1 hsettle
  have hspares : Spares landed name named settled := by
    have hkeeps : Keeps (Spares landed name) (p.settle { plan with naming := [] } landed) :=
      keeps_spares_settle hplain (by simp)
    exact hkeeps.of_run hrest
  obtain ⟨e₁, attrs, hnamed, happly, hvalues⟩ : ∃ e₁ attrs, named.entries.get? landed = some e₁ ∧
      e.attributes.applyAll landed.text plan.naming = .ok attrs ∧
      e₁.attributes.values name = attrs.values name := by
    rcases run_sendItems_ok hnaming with ⟨hempty, hnamed⟩ | hmodify
    · rw [hempty, hnamed]
      exact ⟨e, e.attributes, hstored, rfl, rfl⟩
    · obtain ⟨-, old, attrs, hentry, happly, rfl⟩ := Directory.run_modify_ok hmodify
      cases hstored.symm.trans hentry
      refine ⟨_, attrs, (Entries.get?_insert_stamped hentry _ landed).trans (if_pos rfl),
        happly, ?_⟩
      rw [Attributes.values_put, if_neg hplain.timeStamp]
  obtain ⟨e', hsettled, hsame⟩ := hspares.stored hnamed
  exact ⟨e', attrs, hsettled, happly, hsame.trans hvalues⟩

/-- What an update that says nothing about the state of the entry sends of its attributes. -/
theorem Planned.split_of_enable {input : Input} {plan : UpdatePlan} {entries : Entries}
    (h : Planned p dn e entries input plan) (henable : input.enable = none) :
    (plan.naming, plan.ordinary) = splitNaming (renameFor? dn input.name) input.ordinary := by
  have happly : p.applyStatus input = (input.ordinary, input.requests) := by
    rw [applyStatus, henable]
  have hsplit := h.split_eq
  rwa [happly] at hsplit

/-- What an update makes of the values of an attribute of its entry. -/
def valuesAfter (dn : Dn) (e : Entry) (input : Input) (name : String) : List String :=
  match renameFor? dn input.name with
  | none => (input.ordinary.get? name).getD (e.attributes.values name)
  | some r =>
    let stays := if r.rdn.valuesOf name = [] then e.attributes.values name else []
    valuesAfterMove (dn.leafValues name) (r.rdn.valuesOf name)
      ((input.ordinary.get? name).getD stays) (e.attributes.values name)

/-- **What an update leaves of an attribute**, unless it moves the entry below itself. -/
theorem values_after {input : Input} {plan : UpdatePlan} {dir : Directory}
    {planned sent moved settled after : Directory}
    (hplan : Planned p dn e dir.entries input plan)
    (hstages : p.Stages dn dir plan planned sent landed moved settled after)
    (hstored : dir.entry? dn = some e) (hplain : p.IsPlain name)
    (hsplit : (plan.naming, plan.ordinary) =
      splitNaming (renameFor? dn input.name) input.ordinary) :
    landed = landing dn (renameFor? dn input.name) ∧
      (¬ Directory.NestsItself dn landed → ∃ e', after.entry? landed = some e' ∧
        e'.attributes.values name = valuesAfter dn e input name) ∧
      (Directory.NestsItself dn landed → after.entry? landed = none) := by
  have hstored' : planned.entry? dn = some e := by
    rw [Directory.entry?, hstages.quiet_plan.1]
    exact hstored
  obtain ⟨e₁, hsent, hwritten⟩ := run_modifyValues_replace hstored' hstages.run_values
  have hvalues : e₁.attributes.values name =
      (plan.ordinary.get? name).getD (e.attributes.values name) :=
    (hwritten name).resolve_right fun h => hplain.timeStamp h.1
  obtain ⟨hlanded, hunmoved, hmoved⟩ := run_move_ok hsent hstages.run_move
  rw [hplan.rename_eq] at hlanded hunmoved hmoved
  simp only [Directory.entry?, hstages.quiet_end.1]
  unfold valuesAfter
  refine ⟨hlanded, ?_⟩
  cases hrename : renameFor? dn input.name with
  | none =>
    rw [hrename] at hsplit hlanded
    have hhere : landed = dn := hlanded
    subst hhere
    refine ⟨fun _ => ?_, fun hnests => absurd (Dn.same_iff.2 rfl) hnests.2⟩
    obtain ⟨hnaming, hordinary⟩ := Prod.mk.inj hsplit
    have hstored : moved.entries.get? landed = some e₁ := by
      rw [hunmoved hrename]
      exact hsent
    obtain ⟨e', attrs, hsettled, happly, hsame⟩ :=
      run_settle_values hplain hstored hstages.run_settle
    rw [hnaming] at happly
    cases happly
    exact ⟨e', hsettled, by rw [hsame, hvalues, hordinary]⟩
  | some r =>
    refine ⟨fun hstays => ?_, fun hnests => ?_⟩
    · rw [hrename] at hsplit
      obtain ⟨hnaming, hordinary⟩ := Prod.mk.inj hsplit
      obtain ⟨e', attrs, hsettled, happly, hsame⟩ :=
        run_settle_values hplain ((hmoved r hrename).1 hstays) hstages.run_settle
      rw [hnaming] at happly
      refine ⟨e', hsettled, ?_⟩
      rw [hsame, values_applyAll_takeNaming happly,
        Directory.values_renamedAttributes _ _ _ _ _ _ hplain.entryDn hplain.timeStamp, hvalues,
        hordinary, get?_takeNaming, Attributes.values]
      unfold valuesAfterMove
      cases input.ordinary.get? name with
      | some supplied =>
        dsimp only [Option.getD_some]
        split <;> rfl
      | none =>
        -- Nothing is supplied: what the new relative name does not hold stays as it was.
        dsimp only [Option.getD_none]
        by_cases hnew : r.rdn.valuesOf name = []
        · rw [if_pos hnew, if_pos hnew, if_pos hnew, hnew]
          rfl
        · rw [if_neg hnew, if_neg hnew, if_neg hnew]
          rfl
    · have hkeeps : Keeps (Vacant landed) (p.settle plan landed) :=
        (vacant_membershipFrame p landed).keeps_settle keeps_vacant_modify fun _ =>
          keeps_vacant_modify
      exact hkeeps.of_run hstages.run_settle ((hmoved r hrename).2 hnests)

/-- **What an update leaves of an attribute that is supplied**: the supplied values if there is no
move, and what the relative names make of them if there is one. -/
theorem values_landed {input : Input} {plan : UpdatePlan} {dir : Directory}
    {planned sent moved settled after : Directory} {supplied : List String}
    (hplan : Planned p dn e dir.entries input plan)
    (hstages : p.Stages dn dir plan planned sent landed moved settled after)
    (hstored : dir.entry? dn = some e) (henable : input.enable = none) (hplain : p.IsPlain name)
    (hsupplied : input.ordinary.get? name = some supplied) :
    landed = landing dn (renameFor? dn input.name) ∧
      (renameFor? dn input.name = none →
        ∃ e', after.entry? landed = some e' ∧ e'.attributes.values name = supplied) ∧
      ∀ r, renameFor? dn input.name = some r →
        (¬ Directory.NestsItself dn landed → ∃ e', after.entry? landed = some e' ∧
          e'.attributes.values name = valuesAfterMove (dn.leafValues name) (r.rdn.valuesOf name)
            supplied (e.attributes.values name)) ∧
        (Directory.NestsItself dn landed → after.entry? landed = none) := by
  obtain ⟨hlanded, hstays, hgone⟩ :=
    values_after hplan hstages hstored hplain (hplan.split_of_enable henable)
  refine ⟨hlanded, fun hrename => ?_, fun r hrename => ⟨fun hnests => ?_, hgone⟩⟩
  · have hhere : landed = dn := by rw [hlanded, hrename]; rfl
    obtain ⟨e', hafter, hvalues⟩ := hstays fun hnests =>
      absurd (Dn.same_iff.2 (congrArg Dn.key hhere)) hnests.2
    rw [valuesAfter, hrename, hsupplied] at hvalues
    exact ⟨e', hafter, hvalues⟩
  · obtain ⟨e', hafter, hvalues⟩ := hstays hnests
    rw [valuesAfter, hrename, hsupplied] at hvalues
    exact ⟨e', hafter, hvalues⟩

/-- An update that supplies an attribute can only succeed if the entry is there. -/
theorem exists_entry_of_supplied {entryClass : EntryClass} {uid uid' : String}
    {attributes : List InputAttribute} {dir after : Directory} {input : Input}
    {supplied : List String} (hresolve : (dir.run (p.resolve entryClass uid)).1 = .ok dn)
    (hinput : Input.partition .update attributes = .ok input) (henable : input.enable = none)
    (hsupplied : input.ordinary.get? name = some supplied)
    (hrun : dir.run (p.update entryClass uid attributes) = (.ok uid', after)) :
    ∃ e, dir.entry? dn = some e := by
  cases hentry : dir.entry? dn with
  | some e => exact ⟨e, rfl⟩
  | none =>
    -- The plan of a missing entry does not depend on what is taken for its attributes.
    have hread : dir.entry? dn = some ⟨dn, .empty⟩ ∨ dir.entry? dn = none := .inr hentry
    obtain ⟨plan, _, _, _, _, _, hplan, hstages⟩ := update_stages hresolve hread hinput hrun
    have hsends : plan.rename ≠ none ∨ plan.ordinary.get? name ≠ none := by
      rw [hplan.rename_eq]
      cases hrename : renameFor? dn input.name with
      | some r => exact .inl (Option.some_ne_none r)
      | none =>
        have hsplit := hplan.split_of_enable henable
        rw [hrename] at hsplit
        have hordinary : plan.ordinary = input.ordinary := (Prod.mk.inj hsplit).2
        rw [hordinary, hsupplied]
        exact .inr (Option.some_ne_none _)
    rw [← hentry]
    exact hstages.exists_entry hsends

/-- The entry at a name has the supplied values of an attribute. -/
def HoldsSupplied (dir : Directory) (dn : Dn) (name : String) (supplied : List String)
    (moved : Bool) : Prop :=
  ∃ e, dir.entry? dn = some e ∧
    Reflects (e.attributes.values name) supplied (dn.leafValues name) moved

/-- **When supplied values replace what was there.** An update that succeeds leaves an attribute as
it is asked for if it does not move the entry. If it does, it must not move the entry below itself,
and the relative names must not get in the way. -/
theorem update_reflects_iff (p : Provisioner) (entryClass : EntryClass) (uid uid' : String)
    (attributes : List InputAttribute) (dir after : Directory) (dn : Dn) (input : Input)
    (name : String) (supplied : List String)
    (hresolve : (dir.run (p.resolve entryClass uid)).1 = .ok dn)
    (hinput : Input.partition .update attributes = .ok input) (henable : input.enable = none)
    (hplain : p.IsPlain name) (hsupplied : input.ordinary.get? name = some supplied)
    (hrun : dir.run (p.update entryClass uid attributes) = (.ok uid', after)) :
    ∃ e, dir.entry? dn = some e ∧
      (HoldsSupplied after (landing dn (renameFor? dn input.name)) name supplied
          (renameFor? dn input.name).isSome ↔
        ∀ r, renameFor? dn input.name = some r →
          ¬ Directory.NestsItself dn (landing dn (some r)) ∧
            ¬ Mismatches (dn.leafValues name) (r.rdn.valuesOf name) supplied
              (e.attributes.values name)) := by
  obtain ⟨e, hstored⟩ := exists_entry_of_supplied hresolve hinput henable hsupplied hrun
  refine ⟨e, hstored, ?_⟩
  obtain ⟨plan, planned, sent, landed, moved, settled, hplan, hstages⟩ :=
    update_ok hresolve hstored hinput hrun
  obtain ⟨hlanded, hunmoved, hmoved⟩ :=
    values_landed hplan hstages hstored henable hplain hsupplied
  cases hrename : renameFor? dn input.name with
  | none =>
    obtain ⟨e', hafter, hvalues⟩ := hunmoved hrename
    rw [hlanded, hrename] at hafter
    refine ⟨fun _ => nofun, fun _ => ⟨e', hafter, ?_⟩⟩
    rw [hvalues]
    exact ⟨fun v hv => Text.holds_of_mem hv,
      fun v hv => holds_append_iff.2 (.inl (Text.holds_of_mem hv)), nofun⟩
  | some r =>
    obtain ⟨hstays, hgone⟩ := hmoved r hrename
    rw [hlanded, hrename] at hstays hgone
    have hnamed : (landing dn (some r)).leafValues name = r.rdn.valuesOf name := rfl
    constructor
    · rintro ⟨e', hafter, hreflects⟩ r' hr'
      cases hr'
      by_cases hnests : Directory.NestsItself dn (landing dn (some r))
      · rw [hgone hnests] at hafter
        cases hafter
      · obtain ⟨e₁, hfound, hvalues⟩ := hstays hnests
        cases hafter.symm.trans hfound
        rw [hvalues, hnamed] at hreflects
        exact ⟨hnests, (reflects_valuesAfterMove_iff _ _ _ _).1 hreflects⟩
    · intro h
      obtain ⟨hnests, hmatches⟩ := h r rfl
      obtain ⟨e', hafter, hvalues⟩ := hstays hnests
      refine ⟨e', hafter, ?_⟩
      rw [hvalues, hnamed]
      exact (reflects_valuesAfterMove_iff _ _ _ _).2 hmatches

end Provisioner

namespace Sample

/-- The attributes of an update that gives the entry in `annInTeam` another name and `uid` values. -/
def newNameWith (uids : List String) : List InputAttribute :=
  [⟨"__NAME__", [.text "cn=ann,dc=x"]⟩, ⟨"uid", uids.map .text⟩]

/-- The directory after such an update. -/
def annRenamed (uids : List String) : Directory :=
  (annInTeam.run (provisioner.update .account "uid=ann,dc=x" (newNameWith uids))).2

theorem isPlain_uid : provisioner.IsPlain "uid" where
  member kind := by cases kind <;> decide +kernel
  password := by decide +kernel
  entryDn := by decide +kernel
  timeStamp := by decide +kernel

/-- Another `uid` than the one in the old name comes through the rename. -/
theorem renamed_holds_new_uid :
    Provisioner.HoldsSupplied (annRenamed ["bea"]) (name "cn" "ann") "uid" ["bea"] true := by
  have hrename : Provisioner.renameFor? (name "uid" "ann") (some (name "cn" "ann")) =
      some ⟨name "cn" "ann", .single "cn" "ann", none⟩ := by decide +kernel
  obtain ⟨e, hentry, hiff⟩ := Provisioner.update_reflects_iff provisioner .account "uid=ann,dc=x"
    "cn=ann,dc=x" (newNameWith ["bea"]) annInTeam (annRenamed ["bea"]) (name "uid" "ann")
    { name := some (name "cn" "ann"), ordinary := .ofList [("uid", ["bea"])] } "uid" ["bea"]
    (by decide +kernel) (by decide +kernel) rfl isPlain_uid (by decide +kernel)
    (Directory.run_of_result (by decide +kernel))
  rw [hrename] at hiff
  refine hiff.2 fun r hr => ?_
  cases hr
  refine ⟨fun hnests => absurd hnests.1 (by decide +kernel), ?_⟩
  have hnamed : (Rdn.single "cn" "ann").valuesOf "uid" = [] := by decide +kernel
  rintro (⟨v, -, hv, hold⟩ | ⟨v, hne, -⟩ | ⟨values, v, -, hv, -⟩)
  · rw [List.mem_singleton.1 hv] at hold
    exact absurd hold (by decide +kernel)
  · exact hne hnamed
  · rw [hnamed] at hv
    cases hv

/-- A `uid` that stands in the old name is lost although it is supplied. -/
theorem renamed_loses_supplied_uid :
    Input.partition .update (newNameWith ["ann", "bea"]) =
        .ok { name := some (name "cn" "ann"), ordinary := .ofList [("uid", ["ann", "bea"])] } ∧
      (annInTeam.run
        (provisioner.update .account "uid=ann,dc=x" (newNameWith ["ann", "bea"]))).1 =
          .ok "cn=ann,dc=x" ∧
      ¬ Provisioner.HoldsSupplied (annRenamed ["ann", "bea"]) (name "cn" "ann") "uid"
        ["ann", "bea"] true := by
  refine ⟨by decide +kernel, by decide +kernel, ?_⟩
  rintro ⟨e, he, hreflects⟩
  have hleft : (Directory.entry? (annRenamed ["ann", "bea"]) (name "cn" "ann")).map
      (fun e => e.attributes.values "uid") = some ["bea"] := by decide +kernel
  rw [he] at hleft
  have hvalues : e.attributes.values "uid" = ["bea"] := Option.some.inj hleft
  have hthere := hreflects.complete "ann" List.mem_cons_self
  rw [hvalues] at hthere
  exact absurd hthere (by decide +kernel)

end Sample

end Roster
