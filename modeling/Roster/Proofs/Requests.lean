import Roster.Proofs.Runs

/-!
# What single requests do

Reads and searches answer from the entries and change nothing (`Unwritten`). Every request is logged,
and one that is no mutation leaves the entries alone (`Logged`). Any other request is on record as
such (`Wrote`), so the journal alone tells whether something was written.
-/

namespace Roster

variable {ε α : Type}

namespace Directory

/-- Nothing was written between two moments: there were reads and searches only. -/
def Unwritten (dir after : Directory) : Prop :=
  after.entries = dir.entries ∧ after.denied = dir.denied ∧
    ∃ requests, after.journal = dir.journal ++ requests ∧ ∀ r ∈ requests, r.isMutation = false

/-- The journal tells what happened between two moments: the entries did not change without a
mutation in it. -/
def Logged (dir after : Directory) : Prop :=
  after.denied = dir.denied ∧
    ∃ requests, after.journal = dir.journal ++ requests ∧
      ((∀ r ∈ requests, r.isMutation = false) → after.entries = dir.entries)

/-- A mutation was asked for between two moments. -/
def Wrote (dir after : Directory) : Prop :=
  ∃ requests, after.journal = dir.journal ++ requests ∧ ∃ r ∈ requests, r.isMutation = true

/-- Every request between two moments has a property. -/
def Sends (P : Request → Prop) (dir after : Directory) : Prop :=
  ∃ requests, after.journal = dir.journal ++ requests ∧ ∀ r ∈ requests, P r

theorem unwritten_frame : Frame Unwritten where
  refl dir := ⟨rfl, rfl, [], by simp, by simp⟩
  trans := by
    rintro a b c ⟨hab, dab, rs, hrs, qrs⟩ ⟨hbc, dbc, ts, hts, qts⟩
    refine ⟨hbc.trans hab, dbc.trans dab, rs ++ ts, by rw [hts, hrs, List.append_assoc], ?_⟩
    intro r hr
    rcases List.mem_append.1 hr with h | h
    · exact qrs r h
    · exact qts r h

theorem logged_frame : Frame Logged where
  refl dir := ⟨rfl, [], by simp, fun _ => rfl⟩
  trans := by
    rintro a b c ⟨dab, rs, hrs, hab⟩ ⟨dbc, ts, hts, hbc⟩
    refine ⟨dbc.trans dab, rs ++ ts, by rw [hts, hrs, List.append_assoc], fun hquiet => ?_⟩
    rw [hbc fun r hr => hquiet r (List.mem_append_right rs hr),
      hab fun r hr => hquiet r (List.mem_append_left ts hr)]

theorem Unwritten.logged {dir after : Directory} (h : Unwritten dir after) : Logged dir after := by
  obtain ⟨hentries, hdenied, requests, hjournal, -⟩ := h
  exact ⟨hdenied, requests, hjournal, fun _ => hentries⟩

theorem sends_frame (P : Request → Prop) : Frame (Sends P) where
  refl dir := ⟨[], by simp, by simp⟩
  trans := by
    rintro a b c ⟨rs, hrs, hab⟩ ⟨ts, hts, hbc⟩
    refine ⟨rs ++ ts, by rw [hts, hrs, List.append_assoc], fun r hr => ?_⟩
    exact (List.mem_append.1 hr).elim (hab r) (hbc r)

theorem Unwritten.sends {dir after : Directory} {P : Request → Prop} (h : Unwritten dir after)
    (hP : ∀ r, r.isMutation = false → P r) : Sends P dir after := by
  obtain ⟨-, -, requests, hjournal, hquiet⟩ := h
  exact ⟨requests, hjournal, fun r hr => hP r (hquiet r hr)⟩

theorem Wrote.trans_logged {a b c : Directory} (hab : Wrote a b) (hbc : Logged b c) :
    Wrote a c := by
  obtain ⟨rs, hrs, r, hr, hmut⟩ := hab
  obtain ⟨-, ts, hts, -⟩ := hbc
  exact ⟨rs ++ ts, by rw [hts, hrs, List.append_assoc], r, List.mem_append_left ts hr, hmut⟩

theorem Logged.trans_wrote {a b c : Directory} (hab : Logged a b) (hbc : Wrote b c) :
    Wrote a c := by
  obtain ⟨-, rs, hrs, -⟩ := hab
  obtain ⟨ts, hts, r, hr, hmut⟩ := hbc
  exact ⟨rs ++ ts, by rw [hts, hrs, List.append_assoc], r, List.mem_append_right rs hr, hmut⟩

theorem keeps_wrote_bind {β : Type} {x : ExceptT ε (StateM Directory) α}
    {f : α → ExceptT ε (StateM Directory) β} (hx : Keeps Wrote x) (hf : ∀ a, Keeps Logged (f a)) :
    Keeps Wrote (x >>= f) := by
  intro dir
  have hfirst := hx dir
  rw [run_bind]
  split <;> next h => rw [h] at hfirst; first | exact hfirst.trans_logged (hf _ _) | exact hfirst

theorem keeps_wrote_tryCatch {x : ExceptT ε (StateM Directory) α}
    {handle : ε → ExceptT ε (StateM Directory) α} (hx : Keeps Wrote x)
    (hhandle : ∀ e, Keeps Logged (handle e)) : Keeps Wrote (tryCatch x handle) := by
  intro dir
  have hfirst := hx dir
  rw [run_tryCatch]
  split <;> next h =>
    rw [h] at hfirst; first | exact hfirst.trans_logged (hhandle _ _) | exact hfirst

/-! ## Single requests -/

theorem run_perform (dir : Directory) (request : Request)
    (outcome : Directory → Except DirectoryError (α × Entries)) :
    dir.run (perform request outcome) =
      match outcome dir with
      | .ok (a, entries) => (.ok a, { dir.record request with entries })
      | .error e => (.error e, dir.record request) := by
  unfold run perform
  cases outcome dir <;> rfl

/-- Every request is logged if only mutations change the entries. -/
theorem keeps_logged_perform {request : Request}
    {outcome : Directory → Except DirectoryError (α × Entries)}
    (h : request.isMutation = false →
      ∀ dir a entries, outcome dir = .ok (a, entries) → entries = dir.entries) :
    Keeps Logged (perform request outcome) := by
  intro dir
  rw [run_perform]
  split
  · next a entries ho =>
    refine ⟨rfl, [request], rfl, fun hquiet => ?_⟩
    exact h (hquiet request List.mem_cons_self) dir a entries ho
  · exact ⟨rfl, [request], rfl, fun _ => rfl⟩

/-- A request for a change is on record, whatever becomes of it. -/
theorem keeps_wrote_perform {request : Request}
    {outcome : Directory → Except DirectoryError (α × Entries)}
    (h : request.isMutation = true) : Keeps Wrote (perform request outcome) := by
  intro dir
  rw [run_perform]
  split <;> exact ⟨[request], rfl, request, List.mem_cons_self, h⟩

theorem keeps_sends_perform {request : Request}
    {outcome : Directory → Except DirectoryError (α × Entries)} {P : Request → Prop}
    (h : P request) : Keeps (Sends P) (perform request outcome) := by
  intro dir
  rw [run_perform]
  split <;> exact ⟨[request], rfl, by simpa using h⟩

theorem run_read (dir : Directory) (dn : Dn) (wanted : List String) :
    dir.run (read dn wanted) =
      (.ok ((dir.entry? dn).map fun e => ⟨e.dn, e.attributes.project wanted⟩),
        dir.record (.read dn)) :=
  rfl

theorem run_search (dir : Directory) (base : Dn) (scope : Scope) (filter : Filter)
    (wanted : List String) :
    dir.run (search base scope filter wanted) =
      (.ok ((dir.entries.list.filter fun e => scope.covers base e.dn && filter.accepts e).map
          fun e => ⟨e.dn, e.attributes.project wanted⟩),
        dir.record (.search base filter)) :=
  rfl

/-- A modification that succeeds carries its items out on the stored entry. -/
theorem run_modify_ok {dir after : Directory} {supply : Supply} {dn : Dn}
    {items : List Modification} (h : dir.run (modify supply dn items) = (.ok (), after)) :
    dn.isIn dir.denied = false ∧
      ∃ e attrs, dir.entry? dn = some e ∧ e.attributes.applyAll dn.text items = .ok attrs ∧
        after = { dir.record (.modify dn items) with
          entries := dir.entries.insert
            ⟨e.dn, attrs.put "modifyTimestamp" [supply.time dir.handled]⟩ } := by
  unfold modify at h
  rw [run_perform] at h
  split at h
  · next entries houtcome =>
    cases h
    unfold afterModify checkWritable at houtcome
    split at houtcome
    · cases houtcome
    · next hwritable =>
      cases hentry : dir.entry? dn with
      | none =>
        rw [hentry] at houtcome
        cases houtcome
      | some e =>
        rw [hentry] at houtcome
        cases happly : e.attributes.applyAll dn.text items with
        | error err =>
          simp only [happly] at houtcome
          cases houtcome
        | ok attrs =>
          simp only [happly] at houtcome
          cases houtcome
          exact ⟨Bool.not_eq_true _ ▸ hwritable, e, attrs, rfl, happly, rfl⟩
  · cases h

/-- A modification of a writable entry succeeds if its items can be carried out. -/
theorem run_modify_of_applyAll {dir : Directory} {supply : Supply} {dn : Dn}
    {items : List Modification} {e : Entry} {attrs : Attributes}
    (hwritable : dn.isIn dir.denied = false) (hentry : dir.entry? dn = some e)
    (happly : e.attributes.applyAll dn.text items = .ok attrs) :
    dir.run (modify supply dn items) = (.ok (), { dir.record (.modify dn items) with
      entries := dir.entries.insert
        ⟨e.dn, attrs.put "modifyTimestamp" [supply.time dir.handled]⟩ }) := by
  unfold modify
  rw [run_perform]
  have houtcome : afterModify supply dn items dir = .ok ((), dir.entries.insert
      ⟨e.dn, attrs.put "modifyTimestamp" [supply.time dir.handled]⟩) := by
    unfold afterModify checkWritable
    simp only [hwritable, Bool.false_eq_true, if_false, hentry, happly]
    rfl
  rw [houtcome]

/-- A new entry that is accepted is stored at its name. -/
theorem run_add_ok {dir after : Directory} {supply : Supply} {dn : Dn} {attrs : Attributes}
    (h : dir.run (add supply dn attrs) = (.ok (), after)) :
    after.entries = dir.entries.insert ⟨dn, stamped supply dir.handled dn attrs⟩ := by
  unfold add at h
  rw [run_perform] at h
  split at h
  · next entries houtcome =>
    cases h
    unfold afterAdd at houtcome
    dsimp only [bind, Except.bind] at houtcome
    -- Each check fails or goes on to the next one, and the entry is stored after the last.
    repeat' split at houtcome
    all_goals cases houtcome <;> rfl
  · cases h

/-- A request that fails leaves the entries alone. -/
theorem run_perform_error {dir after : Directory} {request : Request}
    {outcome : Directory → Except DirectoryError (α × Entries)} {e : DirectoryError}
    (h : dir.run (perform request outcome) = (.error e, after)) : after = dir.record request := by
  rw [run_perform] at h
  split at h
  · cases h
  · cases h
    rfl

theorem unwritten_record {dir : Directory} {request : Request}
    (h : request.isMutation = false) : Unwritten dir (dir.record request) :=
  ⟨rfl, rfl, [request], rfl, by simpa using h⟩

/-- The directory after it has taken note of some requests. -/
def recordAll (dir : Directory) (requests : List Request) : Directory :=
  requests.foldl record dir

theorem recordAll_append (dir : Directory) (requests more : List Request) :
    dir.recordAll (requests ++ more) = (dir.recordAll requests).recordAll more :=
  List.foldl_append

theorem entries_recordAll (dir : Directory) (requests : List Request) :
    (dir.recordAll requests).entries = dir.entries := by
  induction requests generalizing dir with
  | nil => rfl
  | cons request rest ih => exact ih (dir.record request)

theorem journal_recordAll (dir : Directory) (requests : List Request) :
    (dir.recordAll requests).journal = dir.journal ++ requests := by
  induction requests generalizing dir with
  | nil => exact (List.append_nil _).symm
  | cons request rest ih =>
    exact (ih (dir.record request)).trans (List.append_cons dir.journal request rest).symm

theorem unwritten_recordAll {dir : Directory} {requests : List Request}
    (h : ∀ r ∈ requests, r.isMutation = false) : Unwritten dir (dir.recordAll requests) := by
  induction requests generalizing dir with
  | nil => exact unwritten_frame.refl dir
  | cons request rest ih =>
    rw [List.forall_mem_cons] at h
    exact unwritten_frame.trans (unwritten_record h.1) (ih h.2)

theorem keeps_unwritten_read (dn : Dn) (wanted : List String) : Keeps Unwritten (read dn wanted) :=
  fun _ => unwritten_record rfl

theorem keeps_unwritten_search (base : Dn) (scope : Scope) (filter : Filter)
    (wanted : List String) : Keeps Unwritten (search base scope filter wanted) :=
  fun _ => unwritten_record rfl

theorem keeps_logged_add (supply : Supply) (dn : Dn) (attrs : Attributes) :
    Keeps Logged (add supply dn attrs) :=
  keeps_logged_perform fun h => by cases h

theorem keeps_logged_modify (supply : Supply) (dn : Dn) (items : List Modification) :
    Keeps Logged (modify supply dn items) :=
  keeps_logged_perform fun h => by cases h

theorem keeps_logged_rename (supply : Supply) (dn : Dn) (rdn : Rdn) (superior : Option Dn) :
    Keeps Logged (rename supply dn rdn superior) :=
  keeps_logged_perform fun h => by cases h

theorem keeps_wrote_modify (supply : Supply) (dn : Dn) (items : List Modification) :
    Keeps Wrote (modify supply dn items) :=
  keeps_wrote_perform rfl

theorem keeps_wrote_rename (supply : Supply) (dn : Dn) (rdn : Rdn) (superior : Option Dn) :
    Keeps Wrote (rename supply dn rdn superior) :=
  keeps_wrote_perform rfl

end Directory

/-- A computation that writes nothing is logged. -/
theorem Keeps.logged {x : ExceptT ε (StateM Directory) α} (h : Keeps Directory.Unwritten x) :
    Keeps Directory.Logged x :=
  fun dir => (h dir).logged

end Roster
