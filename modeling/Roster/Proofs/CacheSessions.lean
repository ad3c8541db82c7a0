import Roster.Proofs.Memberships

/-!
# Questions to one cache

A cache of an entry may be asked for the references of the entry and for its memberships, all of them
or some, as often as one likes and in any order. Each answer is the one that requests made for this
question alone would give, and all of the questions together cost no more than one of each sort:
`serve_transparent`. The requests that have filled a cache can be read off what it holds (`spent`), so
it is enough that each question adds to both alike (`Serves`).
-/

namespace Roster

open Directory (Action)

variable {α β : Type}

/-! ## Questions -/

/-- A question to a cache. -/
inductive CacheCall where
  | references
  | memberships
  /-- The memberships under one of some references. -/
  | byReferences (references : List String)
  /-- The memberships in one of some groups. -/
  | byGroups (groups : List Dn)

/-- What a question is answered by. -/
inductive CacheAnswer where
  /-- None says that the entry has no attribute for references. -/
  | references (found : Option (List String))
  | memberships (found : List GroupMembership)

namespace CacheCall

/-- Puts a question to a cache. -/
def ask (cache : MembershipCache) : CacheCall → Action (CacheAnswer × MembershipCache)
  | .references => do
    let (found, cache) ← cache.referenceValues
    return (.references found, cache)
  | .memberships => do
    let (found, cache) ← cache.allMemberships
    return (.memberships found, cache)
  | .byReferences wanted => do
    let (found, cache) ← cache.membershipsByReferences wanted
    return (.memberships found, cache)
  | .byGroups groups => do
    let (found, cache) ← cache.membershipsByGroups groups
    return (.memberships found, cache)

/-- Answers a question by requests of its own: the references are read, and their memberships are
searched for, of which those asked for are kept. -/
def lookUp (d : KindDescriptor) (bases : List Dn) (dn : Dn) : CacheCall → Action CacheAnswer
  | .references => return .references (← d.readReferenceValues dn)
  | .memberships => do
    let references ← d.readReferenceValues dn
    return .memberships (← d.findMemberships bases (references.getD []))
  | .byReferences wanted => do
    let references ← d.readReferenceValues dn
    let found ← d.findMemberships bases (references.getD [])
    return .memberships (found.filter fun m => wanted.contains m.reference)
  | .byGroups groups => do
    let references ← d.readReferenceValues dn
    let found ← d.findMemberships bases (references.getD [])
    return .memberships (found.filter fun m => m.group.isIn groups)

/-- The answer for an entry with some references and memberships. -/
def answer (references : Option (List String)) (found : List GroupMembership) :
    CacheCall → CacheAnswer
  | .references => .references references
  | .memberships => .memberships found
  | .byReferences wanted => .memberships (found.filter fun m => wanted.contains m.reference)
  | .byGroups groups => .memberships (found.filter fun m => m.group.isIn groups)

end CacheCall

/-- Puts some questions to a cache, one after the other. A question that fails leaves it as it was. -/
def MembershipCache.serve (cache : MembershipCache) :
    List CacheCall → Directory → List (Except DirectoryError CacheAnswer) × MembershipCache × Directory
  | [], dir => ([], cache, dir)
  | call :: rest, dir =>
    match dir.run (call.ask cache) with
    | (.ok (found, cache'), mid) =>
      let (answers, last, after) := cache'.serve rest mid
      (.ok found :: answers, last, after)
    | (.error e, mid) =>
      let (answers, last, after) := cache.serve rest mid
      (.error e :: answers, last, after)

section

variable {d : KindDescriptor} {bases : List Dn} {dn : Dn} {dir : Directory}
  {references : Option (List String)} {cache : MembershipCache}

/-- A question that is answered on its own gets what the entries say. -/
theorem CacheCall.run_lookUp (call : CacheCall) (d : KindDescriptor) (bases : List Dn) (dn : Dn)
    (dir : Directory) :
    (dir.run (call.lookUp d bases dn)).1 = (d.references? dn dir.entries).map fun references =>
      call.answer references (d.foundIn bases (references.getD []) dir.entries) := by
  have hread := d.run_readReferenceValues_eq dn dir
  cases hknown : d.references? dn dir.entries with
  | error e =>
    rw [hknown] at hread
    cases call <;> simp only [lookUp, Directory.run_bind, hread] <;> rfl
  | ok references =>
    rw [hknown] at hread
    have hfind := d.run_findMemberships_eq bases (references.getD []) (dir.recordAll (d.reads dn))
    rw [Directory.entries_recordAll] at hfind
    cases call <;> simp only [lookUp, Directory.run_bind, hread, hfind] <;> rfl

/-! ## Caches and the requests that filled them -/

namespace MembershipCache

/-- What a cache holds is what the entries say, and it holds memberships only beside the references
under which they were found. -/
structure Knows (cache : MembershipCache) (d : KindDescriptor) (bases : List Dn) (dn : Dn)
    (entries : Entries) : Prop where
  descriptor_eq : cache.descriptor = d
  bases_eq : cache.bases = bases
  dn_eq : cache.dn = dn
  references_eq : ∀ references, cache.references = some references →
    d.references? dn entries = .ok references
  memberships_eq : ∀ memberships, cache.memberships = some memberships →
    ∃ references, cache.references = some references ∧
      memberships = d.foundIn bases (references.getD []) entries

/-- The requests that have filled a cache. -/
def spent (cache : MembershipCache) : List Request :=
  match cache.references with
  | none => []
  | some references =>
    cache.descriptor.reads cache.dn ++
      if cache.memberships.isSome then cache.descriptor.searches cache.bases (references.getD [])
      else []

/-- A query gives an answer, and the cache that it leaves counts the requests that it took among those
that have filled it. -/
def Serves (dir : Directory) (d : KindDescriptor) (bases : List Dn) (dn : Dn)
    (cache : MembershipCache) (query : Action (α × MembershipCache)) (a : α) : Prop :=
  ∃ cache' requests, dir.run query = (.ok (a, cache'), dir.recordAll requests) ∧
    cache'.Knows d bases dn dir.entries ∧ cache'.spent = cache.spent ++ requests

theorem Serves.map {query : Action (α × MembershipCache)} {a : α} {f : α → β}
    (h : Serves dir d bases dn cache query a) :
    Serves dir d bases dn cache (query >>= fun found => pure (f found.1, found.2)) (f a) := by
  obtain ⟨cache', requests, hrun, hknows, hspent⟩ := h
  refine ⟨cache', requests, ?_, hknows, hspent⟩
  rw [Directory.run_bind, hrun]
  rfl

theorem serves_pure (h : cache.Knows d bases dn dir.entries) (a : α) :
    Serves dir d bases dn cache (pure (a, cache)) a :=
  ⟨cache, [], rfl, h, (List.append_nil _).symm⟩

theorem Knows.memberships_none (h : cache.Knows d bases dn dir.entries)
    (hnone : cache.references = none) : cache.memberships = none := by
  cases hcache : cache.memberships with
  | none => rfl
  | some memberships =>
    obtain ⟨references, hsome, -⟩ := h.memberships_eq memberships hcache
    rw [hnone] at hsome
    cases hsome

/-- The references are read once, and names are not read at all. -/
theorem run_referenceValues (h : cache.Knows d bases dn dir.entries)
    (hknown : d.references? dn dir.entries = .ok references) :
    ∃ requests, dir.run cache.referenceValues =
        (.ok (references, { cache with references := some references }),
          dir.recordAll requests) ∧
      ({ cache with references := some references } : MembershipCache).Knows d bases dn
        dir.entries ∧
      ({ cache with references := some references } : MembershipCache).spent =
        cache.spent ++ requests := by
  unfold referenceValues
  cases hcache : cache.references with
  | some held =>
    have hheld := h.references_eq held hcache
    rw [hknown] at hheld
    cases hheld
    have hsame : ({ cache with references := some references } : MembershipCache) = cache := by
      rw [← hcache]
    rw [hsame]
    exact ⟨[], rfl, h, (List.append_nil _).symm⟩
  | none =>
    have hnone := h.memberships_none hcache
    refine ⟨d.reads dn, ?_, ⟨h.descriptor_eq, h.bases_eq, h.dn_eq, ?_, ?_⟩, ?_⟩
    · dsimp only
      rw [h.descriptor_eq, h.dn_eq, Directory.run_bind, d.run_readReferenceValues_eq, hknown]
      rfl
    · rintro _ heq
      cases heq
      exact hknown
    · intro memberships heq
      rw [hnone] at heq
      cases heq
    · simp [spent, hcache, hnone, h.descriptor_eq, h.dn_eq]

theorem serves_referenceValues (h : cache.Knows d bases dn dir.entries)
    (hknown : d.references? dn dir.entries = .ok references) :
    Serves dir d bases dn cache cache.referenceValues references :=
  ⟨_, run_referenceValues h hknown⟩

/-- The memberships are searched for once, after the references have been read. -/
theorem serves_allMemberships (h : cache.Knows d bases dn dir.entries)
    (hknown : d.references? dn dir.entries = .ok references) :
    Serves dir d bases dn cache cache.allMemberships
      (d.foundIn bases (references.getD []) dir.entries) := by
  unfold allMemberships
  cases hcache : cache.memberships with
  | some memberships =>
    obtain ⟨held, hreferences, rfl⟩ := h.memberships_eq memberships hcache
    have hheld := h.references_eq held hreferences
    rw [hknown] at hheld
    cases hheld
    exact serves_pure h _
  | none =>
    obtain ⟨requests, hrun, hknows, hspent⟩ := run_referenceValues h hknown
    refine ⟨⟨d, bases, cache.dn, some references,
        some (d.foundIn bases (references.getD []) dir.entries)⟩,
      requests ++ d.searches bases (references.getD []), ?_,
      ⟨rfl, rfl, h.dn_eq, hknows.references_eq, ?_⟩, ?_⟩
    · dsimp only
      rw [Directory.run_bind, hrun]
      dsimp only
      rw [h.descriptor_eq, h.bases_eq, Directory.run_bind, d.run_findMemberships_eq,
        Directory.entries_recordAll, Directory.recordAll_append]
      rfl
    · rintro _ heq
      cases heq
      exact ⟨references, rfl, rfl⟩
    · rw [← List.append_assoc, ← hspent]
      simp [spent, hcache, h.descriptor_eq]

/-- Every question is answered, and what it costs fills the cache. -/
theorem serves_ask (h : cache.Knows d bases dn dir.entries)
    (hknown : d.references? dn dir.entries = .ok references) (call : CacheCall) :
    Serves dir d bases dn cache (call.ask cache)
      (call.answer references (d.foundIn bases (references.getD []) dir.entries)) := by
  have hall := serves_allMemberships h hknown
  cases call with
  | references => exact (serves_referenceValues h hknown).map (f := CacheAnswer.references)
  | memberships => exact hall.map (f := CacheAnswer.memberships)
  | byReferences wanted =>
    exact (hall.map (f := List.filter fun m => wanted.contains m.reference)).map
      (f := CacheAnswer.memberships)
  | byGroups groups =>
    exact (hall.map (f := List.filter fun m => m.group.isIn groups)).map
      (f := CacheAnswer.memberships)

/-- Without the entry nothing is held, and every question fails in the read of the references. -/
theorem run_ask_error (h : cache.Knows d bases dn dir.entries) {e : DirectoryError}
    (hunknown : d.references? dn dir.entries = .error e) (call : CacheCall) :
    dir.run (call.ask cache) = (.error e, dir.recordAll (d.reads dn)) := by
  have hreferences : cache.references = none := by
    cases hcache : cache.references with
    | none => rfl
    | some held =>
      have hheld := h.references_eq held hcache
      rw [hunknown] at hheld
      cases hheld
  have hmemberships := h.memberships_none hreferences
  have hread : dir.run cache.referenceValues = (.error e, dir.recordAll (d.reads dn)) := by
    unfold referenceValues
    rw [hreferences]
    dsimp only
    rw [h.descriptor_eq, h.dn_eq, Directory.run_bind, d.run_readReferenceValues_eq, hunknown]
  have hall : dir.run cache.allMemberships = (.error e, dir.recordAll (d.reads dn)) := by
    unfold allMemberships
    rw [hmemberships]
    dsimp only
    rw [Directory.run_bind, hread]
  cases call with
  | references => simp only [CacheCall.ask, Directory.run_bind, hread]
  | memberships => simp only [CacheCall.ask, Directory.run_bind, hall]
  | byReferences wanted =>
    simp only [CacheCall.ask, membershipsByReferences, Directory.run_bind, hall]
  | byGroups groups => simp only [CacheCall.ask, membershipsByGroups, Directory.run_bind, hall]

/-! ## Whole sessions -/

/-- What each question preserves, a session preserves. -/
theorem serve_known (h : cache.Knows d bases dn dir.entries)
    (hknown : d.references? dn dir.entries = .ok references) (calls : List CacheCall) :
    ∃ cache' requests, cache.serve calls dir =
        (calls.map fun call =>
            .ok (call.answer references (d.foundIn bases (references.getD []) dir.entries)),
          cache', dir.recordAll requests) ∧
      cache'.Knows d bases dn dir.entries ∧ cache'.spent = cache.spent ++ requests := by
  induction calls generalizing cache dir with
  | nil => exact ⟨cache, [], rfl, h, (List.append_nil _).symm⟩
  | cons call rest ih =>
    obtain ⟨mid, requests, hrun, hknows, hspent⟩ := serves_ask h hknown call
    have hentries := dir.entries_recordAll requests
    rw [← hentries] at hknows hknown
    obtain ⟨last, more, hrest, hlast, hlater⟩ := ih hknows hknown
    rw [hentries] at hrest hlast
    refine ⟨last, requests ++ more, ?_, hlast, ?_⟩
    · rw [serve, hrun, Directory.recordAll_append]
      dsimp only
      rw [hrest]
      rfl
    · rw [hlater, hspent, List.append_assoc]

theorem serve_unknown (h : cache.Knows d bases dn dir.entries) {e : DirectoryError}
    (hunknown : d.references? dn dir.entries = .error e) (calls : List CacheCall) :
    ∃ requests, cache.serve calls dir =
      (calls.map fun _ => .error e, cache, dir.recordAll requests) := by
  induction calls generalizing dir with
  | nil => exact ⟨[], rfl⟩
  | cons call rest ih =>
    have hfirst := run_ask_error h hunknown call
    rw [← dir.entries_recordAll (d.reads dn)] at h hunknown
    obtain ⟨more, hrest⟩ := ih h hunknown
    refine ⟨d.reads dn ++ more, ?_⟩
    rw [serve, hfirst, Directory.recordAll_append]
    dsimp only
    rw [hrest]
    rfl

/-- The requests of a whole session: at most one read of the entry, and none if names are references;
and at most one search below each base context, and none if there are no references. -/
def Economical (kind : MembershipKind) (d : KindDescriptor) (bases : List Dn) (dn : Dn)
    (references : List String) (requests : List Request) : Prop :=
  ∃ reads searches, requests = reads ++ searches ∧
    (reads = [] ∨ kind ≠ .static ∧ reads = [.read dn]) ∧
    (searches = [] ∨
      references ≠ [] ∧ searches = bases.map fun base => .search base (d.filter references))

theorem Knows.economical {kind : MembershipKind} {c : Configuration}
    (h : cache.Knows (kind.descriptor c) bases dn dir.entries)
    (hknown : (kind.descriptor c).references? dn dir.entries = .ok references) :
    Economical kind (kind.descriptor c) bases dn (references.getD []) cache.spent := by
  unfold spent
  cases hcache : cache.references with
  | none => exact ⟨[], [], rfl, .inl rfl, .inl rfl⟩
  | some held =>
    have hheld := h.references_eq held hcache
    rw [hknown] at hheld
    cases hheld
    rw [h.descriptor_eq, h.bases_eq, h.dn_eq]
    refine ⟨_, _, rfl, ?_, ?_⟩
    · cases kind with
      | static => exact .inl rfl
      | posix | mailAlias => exact .inr ⟨nofun, rfl⟩
    · unfold KindDescriptor.searches
      split
      · split
        · exact .inl rfl
        · next hsome => exact .inr ⟨fun hnil => hsome (List.isEmpty_iff.2 hnil), rfl⟩
      · exact .inl rfl

/-- **A cache answers as the directory does, and asks it once.** Whatever is asked and in which order,
each answer is the one to a question of its own; nothing changes meanwhile; and as long as the entry is
there the whole session takes one read and one search below each base context at most. An entry without
the attribute for references is told from one that has no values for it. -/
theorem serve_transparent (kind : MembershipKind) (c : Configuration) (bases : List Dn) (dn : Dn)
    (calls : List CacheCall) (dir : Directory) :
    ∃ cache after,
      (⟨kind.descriptor c, bases, dn, none, none⟩ : MembershipCache).serve calls dir =
        (calls.map fun call => (dir.run (call.lookUp (kind.descriptor c) bases dn)).1,
          cache, after) ∧
      after.entries = dir.entries ∧
      ∀ e, dir.entry? dn = some e →
        (dir.run (CacheCall.references.lookUp (kind.descriptor c) bases dn)).1 =
          .ok (.references ((kind.descriptor c).referencesOf dn e)) ∧
        (∀ name, (kind.descriptor c).reference = .valueOf name →
          (kind.descriptor c).referencesOf dn e =
            (e.attributes.get? name).map fun values => OrderedSet.insertAll [] values) ∧
        ∃ requests, after.journal = dir.journal ++ requests ∧
          Economical kind (kind.descriptor c) bases dn
            (((kind.descriptor c).referencesOf dn e).getD []) requests := by
  have hfresh : (⟨kind.descriptor c, bases, dn, none, none⟩ : MembershipCache).Knows
      (kind.descriptor c) bases dn dir.entries := ⟨rfl, rfl, rfl, nofun, nofun⟩
  have hanswers (call : CacheCall) := call.run_lookUp (kind.descriptor c) bases dn dir
  cases hknown : (kind.descriptor c).references? dn dir.entries with
  | error err =>
    obtain ⟨requests, hrun⟩ := serve_unknown hfresh hknown calls
    refine ⟨⟨kind.descriptor c, bases, dn, none, none⟩, dir.recordAll requests, hrun.trans ?_,
      Directory.entries_recordAll dir requests, fun e he => ?_⟩
    · simp only [hanswers, hknown, Except.map]
    · rw [KindDescriptor.references?_of_stored he] at hknown
      cases hknown
  | ok references =>
    obtain ⟨cache, requests, hrun, hknows, hspent⟩ := serve_known hfresh hknown calls
    refine ⟨cache, dir.recordAll requests, hrun.trans ?_, Directory.entries_recordAll dir requests,
      fun e he => ?_⟩
    · simp only [hanswers, hknown, Except.map]
    · obtain rfl : (kind.descriptor c).referencesOf dn e = references := by
        rw [KindDescriptor.references?_of_stored he] at hknown
        exact Except.ok.inj hknown
      refine ⟨?_, fun name hname => ?_, requests, Directory.journal_recordAll dir requests, ?_⟩
      · rw [hanswers, hknown]
        rfl
      · rw [KindDescriptor.referencesOf_valueOf hname, KindDescriptor.referenceValues_none hname]
      · have hcost := hknows.economical hknown
        rwa [hspent] at hcost

end MembershipCache

end

namespace Sample

/-- Three questions get their answers for one read and one search. -/
theorem annInTeam_served :
    annInTeam.entry? (name "uid" "ann") = some ⟨name "uid" "ann", .ofList [("uid", ["ann"])]⟩ ∧
      ∃ cache after,
        (⟨provisioner.descriptor .posix, provisioner.bases, name "uid" "ann", none, none⟩ :
          MembershipCache).serve [.byReferences ["ann"], .references, .memberships] annInTeam =
            ([.ok (.memberships [⟨"ann", name "cn" "team"⟩]), .ok (.references (some ["ann"])),
              .ok (.memberships [⟨"ann", name "cn" "team"⟩])], cache, after) ∧
        ∃ requests, after.journal = annInTeam.journal ++ requests ∧
          MembershipCache.Economical .posix (provisioner.descriptor .posix) provisioner.bases
            (name "uid" "ann") ["ann"] requests := by
  have hentry : annInTeam.entry? (name "uid" "ann") =
      some ⟨name "uid" "ann", .ofList [("uid", ["ann"])]⟩ := by decide +kernel
  obtain ⟨cache, after, hserve, -, hcost⟩ := MembershipCache.serve_transparent .posix
    provisioner.configuration provisioner.bases (name "uid" "ann")
    [.byReferences ["ann"], .references, .memberships] annInTeam
  obtain ⟨-, -, hrequests⟩ := hcost _ hentry
  refine ⟨hentry, cache, after, hserve.trans ?_, hrequests⟩
  congr 1

end Sample

end Roster
