import Roster.Proofs.Memberships

/-!
# Computations that look things up

An operation keeps what it has looked up about its entry in caches. As long as nothing is written
the caches agree with the stored entries (`Caches.Agree`), and so every look-up gives what the
entries say. `Finds` states what a computation that only reads gives then, and how it fails; its
rules follow the sequencing of computations.
-/

namespace Roster

open Directory (Unwritten unwritten_frame)

variable {α β : Type}

/-! ## Caches that agree with the entries -/

/-- What a cache of an entry holds is what the entries say. -/
structure MembershipCache.Agrees (cache : MembershipCache) (d : KindDescriptor) (bases : List Dn)
    (dn : Dn) (e : Entry) (entries : Entries) : Prop where
  descriptor_eq : cache.descriptor = d
  bases_eq : cache.bases = bases
  dn_eq : cache.dn = dn
  references_eq : ∀ references, cache.references = some references → references = d.referencesOf dn e
  memberships_eq : ∀ memberships, cache.memberships = some memberships →
    memberships = d.foundIn bases ((d.referencesOf dn e).getD []) entries

/-- A query of a cache gives what the entries say, and writes nothing; it fails only if the entry is
not there. -/
def MembershipCache.Answers (dir : Directory) (d : KindDescriptor) (bases : List Dn) (dn : Dn)
    (e : Entry) (query : Directory.Action (α × MembershipCache)) (a : α) : Prop :=
  match dir.run query with
  | (.ok (found, cache), after) =>
    found = a ∧ cache.Agrees d bases dn e dir.entries ∧ dir.Unwritten after
  | (.error err, after) =>
    (dir.entry? dn = none ∧ err = .noSuchObject dn.text) ∧ dir.Unwritten after

namespace MembershipCache

variable {cache : MembershipCache} {d : KindDescriptor} {bases : List Dn} {dn : Dn} {e : Entry}
  {dir : Directory}

/-- What is computed from an answer is an answer. -/
theorem Answers.bind {query : Directory.Action (α × MembershipCache)} {a : α} {b : β}
    {f : α × MembershipCache → Directory.Action (β × MembershipCache)}
    (h : Answers dir d bases dn e query a)
    (hf : ∀ (cache : MembershipCache) (mid : Directory), mid.entries = dir.entries →
      cache.Agrees d bases dn e dir.entries → Answers mid d bases dn e (f (a, cache)) b) :
    Answers dir d bases dn e (query >>= f) b := by
  unfold Answers at h ⊢
  rw [Directory.run_bind]
  cases hrun : dir.run query with
  | mk result mid =>
    rw [hrun] at h
    cases result with
    | error err => exact h
    | ok found =>
      obtain ⟨rfl, hagrees, hquiet⟩ := h
      have hrest := hf found.2 mid hquiet.1 hagrees
      unfold Answers Directory.entry? at hrest
      rw [hquiet.1] at hrest
      dsimp only
      cases hlast : mid.run (f (found.1, found.2)) with
      | mk result after =>
        rw [hlast] at hrest
        cases result with
        | error err => exact ⟨hrest.1, unwritten_frame.trans hquiet hrest.2⟩
        | ok found' => exact ⟨hrest.1, hrest.2.1, unwritten_frame.trans hquiet hrest.2.2⟩

theorem answers_pure (h : cache.Agrees d bases dn e dir.entries) (a : α) :
    Answers dir d bases dn e (Pure.pure (a, cache)) a :=
  ⟨rfl, h, unwritten_frame.refl dir⟩

theorem answers_referenceValues (h : cache.Agrees d bases dn e dir.entries)
    (hentry : dir.entry? dn = some e ∨ dir.entry? dn = none) :
    Answers dir d bases dn e cache.referenceValues (d.referencesOf dn e) := by
  unfold referenceValues
  cases hcache : cache.references with
  | some references =>
    rw [← h.references_eq references hcache]
    exact answers_pure h references
  | none =>
    obtain ⟨after, hquiet, hread⟩ := d.run_readReferenceValues hentry
    dsimp only
    unfold Answers
    rw [h.descriptor_eq, h.dn_eq, Directory.run_bind]
    rcases hread with hread | ⟨hmissing, hread⟩
    · rw [hread]
      exact ⟨rfl, ⟨rfl, h.bases_eq, rfl, fun _ heq => (Option.some.inj heq).symm, h.memberships_eq⟩,
        hquiet⟩
    · rw [hread]
      exact ⟨⟨hmissing, rfl⟩, hquiet⟩

theorem answers_allMemberships (h : cache.Agrees d bases dn e dir.entries)
    (hentry : dir.entry? dn = some e ∨ dir.entry? dn = none) :
    Answers dir d bases dn e cache.allMemberships
      (d.foundIn bases ((d.referencesOf dn e).getD []) dir.entries) := by
  unfold allMemberships
  cases hcache : cache.memberships with
  | some memberships =>
    rw [← h.memberships_eq memberships hcache]
    exact answers_pure h memberships
  | none =>
    refine (answers_referenceValues h hentry).bind fun cache' mid hentries hagrees => ?_
    obtain ⟨after, hfind, hquiet⟩ :=
      d.run_findMemberships bases ((d.referencesOf dn e).getD []) mid
    dsimp only
    unfold Answers
    rw [hagrees.descriptor_eq, hagrees.bases_eq, Directory.run_bind, hfind, hentries]
    exact ⟨rfl, ⟨rfl, rfl, hagrees.dn_eq, hagrees.references_eq,
      fun _ heq => (Option.some.inj heq).symm⟩, hquiet⟩

end MembershipCache

/-- The entry at a name is the given one, or there is none and its absence is among the failures. -/
def Entries.Reads (entries : Entries) (dn : Dn) (e : Entry) (E : ProvisioningError → Prop) : Prop :=
  entries.get? dn = some e ∨
    entries.get? dn = none ∧ E (.directory (.noSuchObject dn.text))

namespace Entries.Reads

variable {entries : Entries} {dn : Dn} {e : Entry} {E : ProvisioningError → Prop}

theorem stored (h : entries.get? dn = some e) : entries.Reads dn e E :=
  .inl h

theorem either (h : entries.Reads dn e E) :
    entries.get? dn = some e ∨ entries.get? dn = none :=
  h.imp_right And.left

theorem fails (h : entries.Reads dn e E) (hmissing : entries.get? dn = none) :
    E (.directory (.noSuchObject dn.text)) := by
  rcases h with hstored | ⟨-, hfails⟩
  · rw [hmissing] at hstored
    cases hstored
  · exact hfails

end Entries.Reads

namespace Provisioner

/-- All caches of an operation agree with the entries. -/
def Caches.Agree (caches : Caches) (p : Provisioner) (dn : Dn) (e : Entry) (entries : Entries) :
    Prop :=
  ∀ kind, (caches.get kind).Agrees (p.descriptor kind) p.bases dn e entries

theorem Caches.get_set (caches : Caches) (kind other : MembershipKind) (cache : MembershipCache) :
    (caches.set kind cache).get other = if kind = other then cache else caches.get other := by
  cases kind <;> cases other <;> rfl

/-- Nothing has been looked up at first. -/
theorem agree_caches (p : Provisioner) (dn : Dn) (e : Entry) (entries : Entries) :
    (p.caches dn).Agree p dn e entries := by
  intro kind
  cases kind <;> exact ⟨rfl, rfl, rfl, nofun, nofun⟩

/-- The references of the entry that an operation is about. -/
def referencesOf (p : Provisioner) (kind : MembershipKind) (dn : Dn) (e : Entry) :
    Option (List String) :=
  (p.descriptor kind).referencesOf dn e

/-- The reference under which an entry joins groups of a kind; no text if it has none. -/
def ownReference (p : Provisioner) (dn : Dn) (e : Entry) (kind : MembershipKind) : String :=
  (canonicalReference? ((p.referencesOf kind dn e).getD [])).getD ""

/-- The memberships of the entry that an operation is about. -/
def membershipsOf (p : Provisioner) (kind : MembershipKind) (dn : Dn) (e : Entry)
    (entries : Entries) : List GroupMembership :=
  (p.descriptor kind).foundIn p.bases ((p.referencesOf kind dn e).getD []) entries

theorem reference_of_mem_membershipsOf {p : Provisioner} {kind : MembershipKind} {dn : Dn} {e : Entry}
    {entries : Entries} {m : GroupMembership} (h : m ∈ p.membershipsOf kind dn e entries) :
    m.reference ∈ (p.referencesOf kind dn e).getD [] :=
  KindDescriptor.reference_of_mem_foundIn h

/-- The references of the other kinds are values of the member. -/
theorem exists_valueOf (p : Provisioner) {kind : MembershipKind} (h : kind ≠ .static) :
    ∃ name, (p.descriptor kind).reference = .valueOf name := by
  cases kind with
  | static => exact absurd rfl h
  | posix | mailAlias => exact ⟨_, rfl⟩

/-! ## Computations that only look up -/

/-- With caches that agree with the entries the computation writes nothing, the caches still agree,
and it ends in a result with one property or in a failure with another. -/
def Finds (p : Provisioner) (dn : Dn) (e : Entry) (entries : Entries) (S : α → Prop)
    (E : ProvisioningError → Prop) (x : Cached α) : Prop :=
  ∀ (dir : Directory) (caches : Caches), dir.entries = entries → caches.Agree p dn e entries →
    match dir.run (x.run caches) with
    | (.ok (a, caches'), after) => S a ∧ caches'.Agree p dn e entries ∧ dir.Unwritten after
    | (.error err, after) => E err ∧ dir.Unwritten after

namespace Finds

variable {p : Provisioner} {dn : Dn} {e : Entry} {entries : Entries} {S : α → Prop} {T : β → Prop}
  {E : ProvisioningError → Prop}

theorem pure {a : α} (h : S a) : Finds p dn e entries S E (Pure.pure a) :=
  fun dir _ _ hagree => ⟨h, hagree, unwritten_frame.refl dir⟩

theorem throw {err : ProvisioningError} (h : E err) :
    Finds p dn e entries S E (MonadExcept.throw err) :=
  fun dir _ _ _ => ⟨h, unwritten_frame.refl dir⟩

theorem bind {x : Cached α} {f : α → Cached β} (hx : Finds p dn e entries S E x)
    (hf : ∀ a, S a → Finds p dn e entries T E (f a)) : Finds p dn e entries T E (x >>= f) := by
  intro dir caches hentries hagree
  have hfirst := hx dir caches hentries hagree
  rw [StateT.run_bind, Directory.run_bind]
  cases hrun : dir.run (x.run caches) with
  | mk result mid =>
    rw [hrun] at hfirst
    cases result with
    | error err => exact hfirst
    | ok found =>
      obtain ⟨hS, hagree', hquiet⟩ := hfirst
      have hsecond := hf found.1 hS mid found.2 (hquiet.1.trans hentries) hagree'
      dsimp only
      cases hrest : mid.run ((f found.1).run found.2) with
      | mk result after =>
        rw [hrest] at hsecond
        cases result with
        | error err => exact ⟨hsecond.1, unwritten_frame.trans hquiet hsecond.2⟩
        | ok found' =>
          exact ⟨hsecond.1, hsecond.2.1, unwritten_frame.trans hquiet hsecond.2.2⟩

theorem mono {x : Cached α} {S' : α → Prop} {E' : ProvisioningError → Prop}
    (hx : Finds p dn e entries S E x) (hS : ∀ a, S a → S' a) (hE : ∀ err, E err → E' err) :
    Finds p dn e entries S' E' x := by
  intro dir caches hentries hagree
  have h := hx dir caches hentries hagree
  cases hrun : dir.run (x.run caches) with
  | mk result after =>
    rw [hrun] at h
    cases result with
    | error err => exact ⟨hE err h.1, h.2⟩
    | ok found => exact ⟨hS found.1 h.1, h.2⟩

/-- What reads without the caches leaves them as they are. -/
theorem lift {x : Action α} (hquiet : Keeps Unwritten x) (hends : Ends S E x) :
    Finds p dn e entries S E (liftM x) := by
  intro dir caches _ hagree
  have hq := hquiet dir
  have he := hends dir
  rw [Directory.run_cached_lift]
  cases hrun : dir.run x with
  | mk result after =>
    rw [hrun] at hq he
    cases result with
    | error err => exact ⟨he, hq⟩
    | ok a => exact ⟨he, hagree, hq⟩

/-- A look-up answers from the cache of its kind. -/
theorem lookUp {kind : MembershipKind}
    {query : MembershipCache → Directory.Action (α × MembershipCache)} {a : α}
    (hentry : entries.Reads dn e E)
    (hquery : ∀ (dir : Directory) (cache : MembershipCache), dir.entries = entries →
      cache.Agrees (p.descriptor kind) p.bases dn e dir.entries →
      (dir.entry? dn = some e ∨ dir.entry? dn = none) →
      MembershipCache.Answers dir (p.descriptor kind) p.bases dn e (query cache) a) :
    Finds p dn e entries (· = a) E (Provisioner.lookUp kind query) := by
  intro dir caches hentries hagree
  subst hentries
  have hanswers := hquery dir (caches.get kind) rfl (hagree kind) hentry.either
  unfold MembershipCache.Answers at hanswers
  rw [Directory.run_lookUp]
  cases hrun : dir.run (query (caches.get kind)) with
  | mk result after =>
    rw [hrun] at hanswers
    cases result with
    | error err =>
      obtain ⟨⟨hmissing, rfl⟩, hquiet⟩ := hanswers
      exact ⟨hentry.fails hmissing, hquiet⟩
    | ok found =>
      obtain ⟨hfound, hcache, hquiet⟩ := hanswers
      refine ⟨hfound, fun other => ?_, hquiet⟩
      rw [Caches.get_set]
      split
      · next h => exact h ▸ hcache
      · exact hagree other

variable (hentry : entries.Reads dn e E) (kind : MembershipKind)

include hentry

theorem lookUp_references : Finds p dn e entries (· = p.referencesOf kind dn e) E
    (Provisioner.lookUp kind MembershipCache.referenceValues) :=
  lookUp hentry fun _ _ _ => MembershipCache.answers_referenceValues

theorem lookUp_memberships : Finds p dn e entries (· = p.membershipsOf kind dn e entries) E
    (Provisioner.lookUp kind MembershipCache.allMemberships) := by
  refine lookUp hentry fun dir cache hentries => ?_
  subst hentries
  exact MembershipCache.answers_allMemberships

theorem lookUp_byReferences (references : List String) :
    Finds p dn e entries
      (· = (p.membershipsOf kind dn e entries).filter fun m => references.contains m.reference) E
      (Provisioner.lookUp kind (·.membershipsByReferences references)) := by
  refine lookUp hentry fun dir cache hentries hagrees hread => ?_
  subst hentries
  exact (MembershipCache.answers_allMemberships hagrees hread).bind fun _ _ hmid hagrees' =>
    MembershipCache.answers_pure (hmid ▸ hagrees') _

theorem lookUp_byGroups (groups : List Dn) :
    Finds p dn e entries
      (· = (p.membershipsOf kind dn e entries).filter fun m => m.group.isIn groups) E
      (Provisioner.lookUp kind (·.membershipsByGroups groups)) := by
  refine lookUp hentry fun dir cache hentries hagrees hread => ?_
  subst hentries
  exact (MembershipCache.answers_allMemberships hagrees hread).bind fun _ _ hmid hagrees' =>
    MembershipCache.answers_pure (hmid ▸ hagrees') _

end Finds

/-- What searches below the base contexts find are the entries there that a filter accepts. -/
theorem mem_searched {bases : List Dn} {filter : Filter} {wanted : List String} {entries : Entries}
    {x : Entry} :
    x ∈ (bases.map fun base => (entries.list.filter fun e =>
        e.dn.isWithin base && filter.accepts e).map fun e =>
          (⟨e.dn, e.attributes.project wanted⟩ : Entry)).flatten ↔
      ∃ e ∈ entries.list, (∃ base ∈ bases, e.dn.isWithin base = true) ∧ filter.accepts e = true ∧
        x = ⟨e.dn, e.attributes.project wanted⟩ := by
  rw [List.mem_flatten]
  constructor
  · rintro ⟨_, hfound, hx⟩
    obtain ⟨base, hbase, rfl⟩ := List.mem_map.1 hfound
    obtain ⟨e, he, rfl⟩ := List.mem_map.1 hx
    rw [List.mem_filter, Bool.and_eq_true] at he
    exact ⟨e, he.1, ⟨base, hbase, he.2.1⟩, he.2.2, rfl⟩
  · rintro ⟨e, he, ⟨base, hbase, hwithin⟩, haccepts, rfl⟩
    refine ⟨_, List.mem_map_of_mem hbase, List.mem_map_of_mem (List.mem_filter.2 ⟨he, ?_⟩)⟩
    rw [Bool.and_eq_true]
    exact ⟨hwithin, haccepts⟩

/-- An identifier leads to the name that it spells, or to a stored entry that has it. -/
theorem resolve_ok {p : Provisioner} {entryClass : EntryClass} {uid : String} {dir : Directory}
    {dn : Dn} (h : (dir.run (p.resolve entryClass uid)).1 = .ok dn) :
    p.identifiesByName entryClass = true ∧ Dn.parse uid = .ok dn ∨
      p.identifiesByName entryClass = false ∧ ∃ e ∈ dir.entries.list, e.dn = dn ∧
        (∃ base ∈ p.bases, dn.isWithin base = true) ∧
        (p.uidFilter entryClass uid).accepts e = true := by
  unfold resolve at h
  split at h
  · next hnamed =>
    refine .inl ⟨hnamed, ?_⟩
    cases hparse : Dn.parse uid with
    | error e =>
      rw [hparse] at h
      cases h
    | ok parsed =>
      rw [hparse] at h
      cases h
      rfl
  · next hnot =>
    refine .inr ⟨Bool.eq_false_iff.2 hnot, ?_⟩
    obtain ⟨after, hsearch, -⟩ := KindDescriptor.run_mapM_search p.bases
      (p.uidFilter entryClass uid) [p.uidAttribute entryClass] dir
    rw [Directory.run_bind, Directory.run_mapM_lift, Directory.run_lift, hsearch] at h
    dsimp only [Except.mapError] at h
    split at h
    · next first rest hflat =>
      cases h
      have hmem := hflat ▸ List.mem_cons_self (a := first) (l := rest)
      obtain ⟨e, he, hwithin, haccepts, rfl⟩ := mem_searched.1 hmem
      exact ⟨e, he, rfl, hwithin, haccepts⟩
    · cases h

end Provisioner

end Roster
