import Roster.Proofs.DiffRuns
import Roster.Proofs.Planning

/-!
# Histories of runs

A run of an operation is a sequence of requests, each of which is handled by what is stored at that
moment. `History` follows the stored entries from request to request, together with the name that
the entry of the operation has.

`Spreads` says of all requests between two moments that they modify the entry itself, or a single
membership under a reference that is known beforehand or that the entry has at some moment in
between. Its rules follow the sequencing of computations: `Spreads.trans_visited` is for what comes
after a look-up. What a history of this sort leaves of other entries is stated by `History.selects`.
-/

namespace Roster

open Directory (Unwritten)

/-! ## Moments -/

/-- What is stored at some moment of an operation, and the name that its entry has then. -/
structure Moment where
  entries : Entries
  name : Dn

namespace Moment

/-- The entry of the operation, without attributes if it is not stored. -/
def entry (m : Moment) : Entry :=
  (m.entries.get? m.name).getD ⟨m.name, .empty⟩

/-- The references that the entry has: its name, or the values in its name and in its attributes. -/
def references (m : Moment) (d : KindDescriptor) : List String :=
  (d.referenceValues (some m.name) m.entry.attributes).getD []

/-- What a request makes of a moment, while some names may not be written. Only the entry of the
operation is added or renamed. -/
inductive Handles (supply : Supply) (denied : List Dn) : Moment → Request → Moment → Prop
  | quiet (m : Moment) {request : Request} : request.isMutation = false →
      Handles supply denied m request m
  | add {dir : Directory} (name : Dn) (attrs : Attributes) : dir.denied = denied →
      Handles supply denied ⟨dir.entries, name⟩ (.add name)
        ⟨(dir.run (Directory.add supply name attrs)).2.entries, name⟩
  | modify {dir : Directory} (name dn : Dn) (items : List Modification) : dir.denied = denied →
      Handles supply denied ⟨dir.entries, name⟩ (.modify dn items)
        ⟨(dir.run (Directory.modify supply dn items)).2.entries, name⟩
  | rename {dir after : Directory} {name landed : Dn} {rdn : Rdn} {superior : Option Dn} :
      dir.denied = denied →
      dir.run (Directory.rename supply name rdn superior) = (.ok landed, after) →
      Handles supply denied ⟨dir.entries, name⟩
        (.rename name (Directory.renamedDn name rdn superior)) ⟨after.entries, landed⟩
  | stay {dir after : Directory} {name : Dn} {rdn : Rdn} {superior : Option Dn}
      {e : DirectoryError} : dir.denied = denied →
      dir.run (Directory.rename supply name rdn superior) = (.error e, after) →
      Handles supply denied ⟨dir.entries, name⟩
        (.rename name (Directory.renamedDn name rdn superior)) ⟨after.entries, name⟩

end Moment

/-- The requests that lead from one moment to another, each with the moment at which it was made. -/
inductive History (supply : Supply) (denied : List Dn) :
    Moment → List (Moment × Request) → Moment → Prop
  | done (m : Moment) : History supply denied m [] m
  | step {m mid last : Moment} {request : Request} {rest : List (Moment × Request)} :
      m.Handles supply denied request mid → History supply denied mid rest last →
      History supply denied m ((m, request) :: rest) last

/-- All moments of a history. -/
def moments (steps : List (Moment × Request)) (last : Moment) : List Moment :=
  steps.map Prod.fst ++ [last]

namespace History

variable {supply : Supply} {denied : List Dn} {first mid last : Moment}
  {steps rest : List (Moment × Request)}

theorem first_mem (h : History supply denied first steps last) : first ∈ moments steps last := by
  cases h <;> simp [moments]

theorem append (h : History supply denied first steps mid) (hrest : History supply denied mid rest last) :
    History supply denied first (steps ++ rest) last := by
  induction h with
  | done => exact hrest
  | step hhandles _ ih => exact .step hhandles (ih hrest)

theorem moments_append (steps rest : List (Moment × Request)) (last : Moment) :
    moments (steps ++ rest) last = steps.map Prod.fst ++ moments rest last := by
  simp [moments]

/-- The moments of a part are moments of the whole. -/
theorem mem_moments_append (hrest : History supply denied mid rest last) {m : Moment}
    (hm : m ∈ moments steps mid) : m ∈ moments (steps ++ rest) last := by
  rw [moments_append, List.mem_append]
  rcases List.mem_append.1 hm with hm | hm
  · exact .inl hm
  · rw [List.mem_singleton.1 hm]
    exact .inr hrest.first_mem

/-- Requests that change nothing are all made at the same moment. -/
theorem quiet (m : Moment) {requests : List Request} (h : ∀ r ∈ requests, r.isMutation = false) :
    History supply denied m (requests.map fun r => (m, r)) m := by
  induction requests with
  | nil => exact .done m
  | cons r requests ih =>
    rw [List.forall_mem_cons] at h
    exact .step (.quiet m h.1) (ih h.2)

end History

/-! ## Requests for the entry and for its memberships -/

/-- The request modifies the entry with this name, or it adds one reference to a group or takes one
out; `owns` tells for which references of which kinds. -/
def Request.Minds (p : Provisioner) (name : Dn) (owns : MembershipKind → String → Prop) :
    Request → Prop
  | .modify dn items => dn = name ∨ ∃ kind reference op, owns kind reference ∧
      (op = .add ∨ op = .delete) ∧ items = [⟨op, (p.descriptor kind).memberAttribute, [reference]⟩]
  | _ => True

/-- Whether a request asks for another name of an entry. -/
def Request.isRename : Request → Bool
  | .rename .. => true
  | _ => false

theorem Request.Minds.mono {p : Provisioner} {name : Dn} {owns owns' : MembershipKind → String → Prop}
    {request : Request} (h : request.Minds p name owns)
    (howns : ∀ kind reference, owns kind reference → owns' kind reference) :
    request.Minds p name owns' := by
  cases request with
  | modify dn items =>
    exact h.imp_right fun ⟨kind, reference, op, hown, hitems⟩ =>
      ⟨kind, reference, op, howns kind reference hown, hitems⟩
  | search | read | add | rename => trivial

/-- The references of kinds that are affected which are known, or which the entry has at some of the
moments. -/
def Owned (p : Provisioner) (affected : MembershipKind → Prop)
    (known : MembershipKind → String → Prop) (visited : List Moment) (kind : MembershipKind)
    (reference : String) : Prop :=
  affected kind ∧
    (known kind reference ∨ ∃ m ∈ visited, reference ∈ m.references (p.descriptor kind))

/-- All requests between two directories mind the entry of an operation and its memberships. The
entry has the names `name` and `name'` then. -/
def Spreads (p : Provisioner) (affected : MembershipKind → Prop)
    (known : MembershipKind → String → Prop) (name name' : Dn) (dir after : Directory) : Prop :=
  after.denied = dir.denied ∧ ∃ steps,
    History p.supply dir.denied ⟨dir.entries, name⟩ steps ⟨after.entries, name'⟩ ∧
    after.journal = dir.journal ++ steps.map Prod.snd ∧
    ∀ step ∈ steps, step.2.Minds p step.1.name
      (Owned p affected known (moments steps ⟨after.entries, name'⟩))

variable {p : Provisioner} {affected : MembershipKind → Prop}
  {known : MembershipKind → String → Prop} {name name' name'' : Dn} {dir mid after : Directory}

/-- What comes later may use the references that the entry has in between. -/
theorem Spreads.trans_visited (hfirst : Spreads p affected known name name' dir mid)
    (hrest : Spreads p affected (fun kind reference => known kind reference ∨
      reference ∈ (⟨mid.entries, name'⟩ : Moment).references (p.descriptor kind))
      name' name'' mid after) :
    Spreads p affected known name name'' dir after := by
  obtain ⟨hdenied, steps, hsteps, hjournal, hminds⟩ := hfirst
  obtain ⟨hdenied', rest, hhistory, hjournal', hminds'⟩ := hrest
  rw [hdenied] at hhistory
  refine ⟨hdenied'.trans hdenied, steps ++ rest, hsteps.append hhistory, ?_, fun step hstep => ?_⟩
  · rw [hjournal', hjournal, List.append_assoc, List.map_append]
  rcases List.mem_append.1 hstep with hstep | hstep
  · refine (hminds step hstep).mono fun kind reference ⟨haffected, hknown⟩ => ⟨haffected, ?_⟩
    exact hknown.imp_right fun ⟨m, hm, href⟩ => ⟨m, hhistory.mem_moments_append hm, href⟩
  · refine (hminds' step hstep).mono fun kind reference ⟨haffected, hknown⟩ => ⟨haffected, ?_⟩
    have hlater {m : Moment} (hm : m ∈ moments rest ⟨after.entries, name''⟩) :
        m ∈ moments (steps ++ rest) ⟨after.entries, name''⟩ := by
      rw [History.moments_append]
      exact List.mem_append_right _ hm
    rcases hknown with (hknown | href) | ⟨m, hm, href⟩
    · exact .inl hknown
    · exact .inr ⟨_, hlater hhistory.first_mem, href⟩
    · exact .inr ⟨m, hlater hm, href⟩

theorem Spreads.mono {known' : MembershipKind → String → Prop}
    (h : Spreads p affected known name name' dir after)
    (hknown : ∀ kind reference, known kind reference → known' kind reference) :
    Spreads p affected known' name name' dir after := by
  obtain ⟨hdenied, steps, hsteps, hjournal, hminds⟩ := h
  refine ⟨hdenied, steps, hsteps, hjournal, fun step hstep => (hminds step hstep).mono ?_⟩
  exact fun kind reference hown => ⟨hown.1, hown.2.imp_left (hknown kind reference)⟩

theorem Spreads.trans (hfirst : Spreads p affected known name name' dir mid)
    (hrest : Spreads p affected known name' name'' mid after) :
    Spreads p affected known name name'' dir after :=
  hfirst.trans_visited (hrest.mono fun _ _ => .inl)

theorem Directory.Unwritten.spreads (h : dir.Unwritten after) :
    Spreads p affected known name name dir after := by
  obtain ⟨hentries, hdenied, requests, hjournal, hquiet⟩ := h
  refine ⟨hdenied, requests.map fun r => (⟨dir.entries, name⟩, r), ?_, ?_, ?_⟩
  · rw [hentries]
    exact .quiet _ hquiet
  · rw [List.map_map, hjournal]
    exact congrArg _ (List.map_id requests).symm
  · intro step hstep
    obtain ⟨request, hrequest, rfl⟩ := List.mem_map.1 hstep
    have hnot := hquiet request hrequest
    cases request with
    | modify dn items => cases hnot
    | search | read | add | rename => trivial

theorem spreads_frame (p : Provisioner) (affected : MembershipKind → Prop)
    (known : MembershipKind → String → Prop) (name : Dn) :
    Frame (Spreads p affected known name name) where
  refl dir := (Directory.unwritten_frame.refl dir).spreads
  trans hfirst hrest := hfirst.trans hrest

/-- The references that the entry has at first may be used. -/
theorem Spreads.of_first
    (h : Spreads p affected (fun kind reference => known kind reference ∨
      reference ∈ (⟨dir.entries, name⟩ : Moment).references (p.descriptor kind))
      name name' dir after) :
    Spreads p affected known name name' dir after :=
  ((spreads_frame p affected known name).refl dir).trans_visited h

/-! ## Single requests -/

/-- A single request spreads what it minds. -/
theorem Spreads.single {request : Request} {α : Type}
    {outcome : Directory → Except DirectoryError (α × Entries)}
    (hafter : (dir.run (Directory.perform request outcome)).2 = after)
    (hhandles : (⟨dir.entries, name⟩ : Moment).Handles p.supply dir.denied request
      ⟨after.entries, name'⟩)
    (hminds : request.Minds p name fun kind reference => affected kind ∧ known kind reference) :
    Spreads p affected known name name' dir after := by
  have hrecord : after.denied = dir.denied ∧ after.journal = dir.journal ++ [request] := by
    rw [← hafter, Directory.run_perform]
    split <;> exact ⟨rfl, rfl⟩
  refine ⟨hrecord.1, [(⟨dir.entries, name⟩, request)], .step hhandles (.done _), hrecord.2,
    fun step hstep => ?_⟩
  rw [List.mem_singleton.1 hstep]
  exact hminds.mono fun kind reference hown => ⟨hown.1, .inl hown.2⟩

theorem keeps_spreads_modify {dn : Dn} {items : List Modification}
    (hminds : (Request.modify dn items).Minds p name
      fun kind reference => affected kind ∧ known kind reference) :
    Keeps (Spreads p affected known name name) (Directory.modify p.supply dn items) :=
  fun _ => .single rfl (.modify name dn items rfl) hminds

theorem keeps_spreads_own (items : List Modification) :
    Keeps (Spreads p affected known name name) (Directory.modify p.supply name items) :=
  keeps_spreads_modify (.inl rfl)

theorem keeps_spreads_add (attrs : Attributes) :
    Keeps (Spreads p affected known name name) (Directory.add p.supply name attrs) :=
  fun _ => .single rfl (.add name attrs rfl) trivial

/-- A move spreads from the old name to the new one, or it fails and leaves the name. -/
theorem spreads_move (p : Provisioner) (affected : MembershipKind → Prop)
    (known : MembershipKind → String → Prop) (name : Dn) (rename : Option Provisioner.Rename)
    (dir : Directory) :
    match dir.run (p.move name rename) with
    | (.ok landed, after) =>
      landed = Provisioner.landing name rename ∧ Spreads p affected known name landed dir after
    | (.error _, after) => Spreads p affected known name name dir after := by
  unfold Provisioner.move
  cases rename with
  | none => exact ⟨rfl, (spreads_frame p affected known name).refl dir⟩
  | some r =>
    dsimp only
    rw [Directory.run_lift]
    cases hrun : dir.run (Directory.rename p.supply name r.rdn r.superior) with
    | mk result after =>
      have hafter := congrArg Prod.snd hrun
      cases result with
      | error e => exact .single hafter (.stay rfl hrun) trivial
      | ok landed =>
        exact ⟨(Directory.run_rename_ok hrun).1, .single hafter (.rename rfl hrun) trivial⟩

/-! ## Memberships -/

variable {kind : MembershipKind} {m : GroupMembership}

theorem keeps_spreads_removeMembership (haffected : affected kind)
    (hknown : known kind m.reference) :
    Keeps (Spreads p affected known name name)
      ((p.descriptor kind).removeMembership p.supply m) :=
  keeps_spreads_modify (.inr ⟨kind, m.reference, .delete, ⟨haffected, hknown⟩, .inr rfl, rfl⟩)

theorem keeps_spreads_addMembership (haffected : affected kind) (hknown : known kind m.reference) :
    Keeps (Spreads p affected known name name) ((p.descriptor kind).addMembership p.supply m) :=
  (spreads_frame p affected known name).keeps_addMembership
    (keeps_spreads_modify (.inr ⟨kind, m.reference, .add, ⟨haffected, hknown⟩, .inl rfl, rfl⟩))

/-- A diff of known references spreads. -/
theorem keeps_spreads_applyDiff {diff : Diff GroupMembership}
    (hdiff : ∀ m, m ∈ diff.removed ∨ m ∈ diff.added → affected kind ∧ known kind m.reference) :
    Keeps (Spreads p affected known name name) ((p.descriptor kind).applyDiff p.supply diff) :=
  (spreads_frame p affected known name).keeps_applyDiff
    (fun m hm => keeps_spreads_removeMembership (hdiff m (.inl hm)).1 (hdiff m (.inl hm)).2)
    fun m hm => keeps_spreads_addMembership (hdiff m (.inr hm)).1 (hdiff m (.inr hm)).2

/-! ## What other entries keep -/

/-- The entry at a name, if there is one, keeps some of the values of an attribute in their order.
-/
def Selects (x : Dn) (attr : String) (keep : String → Bool) (before after : Entries) : Prop :=
  (after.get? x).map (fun e => (e.attributes.values attr).filter keep) =
    (before.get? x).map fun e => (e.attributes.values attr).filter keep

variable {x : Dn} {attr : String} {keep : String → Bool}

theorem Alters.selects {f : List String → List String} (h : Alters x attr f dir after)
    (hf : ∀ values, (f values).filter keep = values.filter keep) :
    Selects x attr keep dir.entries after.entries := by
  have hvalues := congrArg (Option.map (List.filter keep)) h
  rw [Option.map_map, Option.map_map] at hvalues
  refine hvalues.trans (congrArg (fun f => (dir.entries.get? x).map f) ?_)
  funext e
  exact hf _

/-- A request for a single membership keeps the values that are not spellings of its reference. -/
theorem selects_membership {supply : Supply} {group : Dn} {op : ModifyOp} {other reference : String}
    (hop : op = .add ∨ op = .delete) (hstamp : ¬ Text.same "modifyTimestamp" attr = true)
    (hkeep : Text.same other attr = true →
      ∀ v, Text.same v reference = true → keep v = false) (dir : Directory) :
    Selects x attr keep dir.entries
      (dir.run (Directory.modify supply group [⟨op, other, [reference]⟩])).2.entries := by
  by_cases hother : Text.same other attr = true
  · replace hkeep := hkeep hother
    cases hrun : dir.run (Directory.modify supply group [⟨op, other, [reference]⟩]) with
    | mk result after =>
      cases result with
      | error e =>
        rw [Directory.run_perform_error hrun]
        rfl
      | ok _ =>
        rcases hop with rfl | rfl
        · refine Alters.selects (alters_modify (f := (· ++ [reference])) hstamp hrun ?_) ?_
          · intro text attrs attrs' happly
            rw [Attributes.applyAll_add_one] at happly
            rw [(Attributes.addValue_ok happly).2, if_pos hother, attrs.values_congr hother]
          · intro values
            split <;> simp [hkeep reference (Text.same_refl reference)]
        · refine Alters.selects (alters_modify (f := (Text.dropFirst · reference)) hstamp hrun ?_) ?_
          · intro text attrs attrs' happly
            rw [Attributes.applyAll_delete_one] at happly
            rw [(Attributes.deleteValue_ok happly).2, if_pos hother, attrs.values_congr hother,
              Text.dropFirst]
          · intro values
            split
            · exact Text.filter_dropFirst hkeep
            · rfl
  · refine (keeps_spares_modify hstamp (fun _ item hitem => ?_) dir).alters.selects fun _ => rfl
    rw [List.mem_singleton.1 hitem]
    exact hother

/-- One request that minds the entry and its memberships, and does not rename the entry, keeps the
values of other entries that are not spellings of a reference. -/
theorem Moment.Handles.selects {supply : Supply} {denied : List Dn} {owns : MembershipKind → String → Prop}
    {m m' : Moment} {request : Request} (h : m.Handles supply denied request m')
    (hminds : request.Minds p m.name owns) (hstays : request.isRename = false)
    (hx : m.name.key ≠ x.key) (hstamp : ¬ Text.same "modifyTimestamp" attr = true)
    (hkeep : ∀ kind reference, owns kind reference →
      Text.same (p.descriptor kind).memberAttribute attr = true →
      ∀ v, Text.same v reference = true → keep v = false) :
    m'.name = m.name ∧ Selects x attr keep m.entries m'.entries := by
  cases h with
  | quiet => exact ⟨rfl, rfl⟩
  | @add dir dn attrs =>
    refine ⟨rfl, ?_⟩
    cases hrun : dir.run (Directory.add supply dn attrs) with
    | mk result after =>
      cases result with
      | error e =>
        rw [Directory.run_perform_error hrun]
        rfl
      | ok _ =>
        rw [Selects, Directory.run_add_ok hrun, Entries.get?, Entries.find?_insert, if_neg hx]
        rfl
  | @modify dir name dn items =>
    refine ⟨rfl, ?_⟩
    rcases hminds with rfl | ⟨kind, reference, op, hown, hop, rfl⟩
    · have hspares : Keeps (Spares x attr) (Directory.modify supply dn items) :=
        keeps_spares_modify hstamp fun hkey => absurd hkey hx
      exact (hspares dir).alters.selects fun _ => rfl
    · exact selects_membership hop hstamp (hkeep kind reference hown) dir
  | rename => cases hstays
  | stay => cases hstays

/-- **A history without a rename** keeps the values of other entries that are not spellings of a
reference, in their order. -/
theorem History.selects {supply : Supply} {denied : List Dn} {owns : MembershipKind → String → Prop}
    {first last : Moment} {steps : List (Moment × Request)} (h : History supply denied first steps last)
    (hminds : ∀ step ∈ steps, step.2.Minds p step.1.name owns)
    (hstays : ∀ step ∈ steps, step.2.isRename = false) (hx : first.name.key ≠ x.key)
    (hstamp : ¬ Text.same "modifyTimestamp" attr = true)
    (hkeep : ∀ kind reference, owns kind reference →
      Text.same (p.descriptor kind).memberAttribute attr = true →
      ∀ v, Text.same v reference = true → keep v = false) :
    Selects x attr keep first.entries last.entries := by
  induction h with
  | done => rfl
  | step hhandles _ ih =>
    rw [List.forall_mem_cons] at hminds hstays
    obtain ⟨hname, hselects⟩ := hhandles.selects hminds.1 hstays.1 hx hstamp hkeep
    exact (ih hminds.2 hstays.2 (hname ▸ hx)).trans hselects

end Roster
