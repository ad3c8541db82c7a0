import Roster.Directory.Entries
import Roster.Directory.Error
import Roster.Directory.Request

/-!
# Directories

A directory holds entries, a journal of the requests made of it, and the names whose entries may not
be written. All requests go through `perform`: the journal keeps every request, and the entries
change only if the request succeeds (`perform_error`).
-/

namespace Roster

/-- A directory with its history. -/
structure Directory where
  entries : Entries
  /-- The requests since the journal was last cleared, the earliest first. -/
  journal : List Request
  /-- The names that may not be written. -/
  denied : List Dn
  /-- The number of requests ever handled. -/
  handled : Nat

namespace Directory

/-- A directory without entries. -/
def empty : Directory :=
  ⟨.empty, [], [], 0⟩

/-- A computation that makes requests of a directory and may fail; what was done stays done. -/
abbrev Action (α : Type) : Type :=
  ExceptT DirectoryError (StateM Directory) α

/-- The entry at a name, without a request. -/
def entry? (dir : Directory) (dn : Dn) : Option Entry :=
  dir.entries.get? dn

/-- Stores an entry as it is, without a request. -/
def seed (dir : Directory) (e : Entry) : Directory :=
  { dir with entries := dir.entries.insert e }

/-- Forbids writes at a name from now on. -/
def deny (dir : Directory) (dn : Dn) : Directory :=
  { dir with denied := dn :: dir.denied }

/-- Forgets the requests made so far. -/
def clearJournal (dir : Directory) : Directory :=
  { dir with journal := [] }

/-- The number of requests in the journal that asked for a change. -/
def mutations (dir : Directory) : Nat :=
  dir.journal.countP Request.isMutation

/-- The directory after it has taken note of a request. -/
def record (dir : Directory) (request : Request) : Directory :=
  { dir with journal := dir.journal ++ [request], handled := dir.handled + 1 }

/-- Handles a request, given its result and the entries that it leaves. -/
def perform {α : Type} (request : Request)
    (outcome : Directory → Except DirectoryError (α × Entries)) : Action α :=
  fun dir =>
    let noted := dir.record request
    match outcome dir with
    | .ok (a, entries) => (.ok a, { noted with entries })
    | .error e => (.error e, noted)

/-- Fails if writes at a name are forbidden. -/
def checkWritable (dir : Directory) (operation : String) (dn : Dn) :
    Except DirectoryError Unit :=
  if dn.isIn dir.denied then .error (.insufficientAccess operation dn.text) else .ok ()

/-- The entry at a name, with the attributes asked for. -/
def read (dn : Dn) (wanted : List String) : Action (Option Entry) :=
  perform (.read dn) fun dir =>
    .ok ((dir.entry? dn).map fun e => ⟨e.dn, e.attributes.project wanted⟩, dir.entries)

/-- The entries that a scope reaches and a filter accepts, with the attributes asked for. -/
def search (base : Dn) (scope : Scope) (filter : Filter) (wanted : List String) :
    Action (List Entry) :=
  perform (.search base filter) fun dir =>
    let found := dir.entries.list.filter fun e => scope.covers base e.dn && filter.accepts e
    .ok (found.map fun e => ⟨e.dn, e.attributes.project wanted⟩, dir.entries)

/-! ## Lemmas -/

@[simp] theorem record_entries (dir : Directory) (request : Request) :
    (dir.record request).entries = dir.entries :=
  rfl

@[simp] theorem record_journal (dir : Directory) (request : Request) :
    (dir.record request).journal = dir.journal ++ [request] :=
  rfl

theorem perform_ok {α : Type} {request : Request}
    {outcome : Directory → Except DirectoryError (α × Entries)} {dir : Directory} {a : α}
    {entries : Entries} (h : outcome dir = .ok (a, entries)) :
    perform request outcome dir = (.ok a, { dir.record request with entries }) := by
  simp only [perform, h]

/-- A failed request leaves nothing but its record. -/
theorem perform_error {α : Type} {request : Request}
    {outcome : Directory → Except DirectoryError (α × Entries)} {dir : Directory}
    {e : DirectoryError} (h : outcome dir = .error e) :
    perform request outcome dir = (.error e, dir.record request) := by
  simp only [perform, h]

end Directory

end Roster
