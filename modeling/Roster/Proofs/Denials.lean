import Mathlib.Data.List.Induction
import Mathlib.Data.List.Infix
import Roster.Proofs.Sessions

/-!
# Names at which writes are forbidden

A request is refused if writes are forbidden at the one name that it asks about (`Mutation.guard?`): the
name of the entry that is modified or renamed, or the parent of a new one. But requests write at other
names too. A new entry comes to its own name, and a renamed one takes all entries below it along, from
names and to names that nobody asks about. `Mutation.Reaches` lists the names that an accepted request
writes at without asking.

`denied_stays` says that these are all: as long as no accepted request reaches a name at which writes
are forbidden, what is stored there stays as it is, all along a session, and whoever asks to write there
is refused. That accepted requests do reach such names is shown by `denied_written`.
-/

namespace Roster

open Directory (renamedDn moveDescendant moveDescendants keysBelow exchange carried)

/-! ## Names below a renamed one -/

namespace Dn

variable {d e dn renamed : Dn}

/-- Spellings of one name move to spellings of one name. -/
theorem IsBelow.key_follow_congr (hrenamed : renamed.rdns ≠ []) (hd : d.IsBelow dn)
    (he : e.IsBelow dn) (h : d.key = e.key) :
    (d.follow dn renamed).key = (e.follow dn renamed).key := by
  obtain ⟨front, hfront, hdkeys, hdfollow⟩ := hd.exists_front renamed
  obtain ⟨front', hfront', hekeys, hefollow⟩ := he.exists_front renamed
  have hsame : ",".intercalate (front.map Rdn.key) = ",".intercalate (front'.map Rdn.key) := by
    unfold key at h
    rw [hdkeys, hekeys] at h
    by_cases hroot : dn.rdns = []
    · simpa [hroot] using h
    · rw [String.intercalate_append_of_ne_nil (by simpa) (by simpa),
        String.intercalate_append_of_ne_nil (by simpa) (by simpa)] at h
      exact (String.append_left_inj _).1 ((String.append_left_inj _).1 h)
  rw [hdfollow, hefollow, key_append hfront hrenamed, key_append hfront' hrenamed, hsame]

end Dn

namespace Directory

variable {dn renamed : Dn} {table : Entries} {key : String}

/-- A key from which nothing moves and to which nothing moves sees nothing of the move. -/
theorem find?_moveDescendants_of_spared (hrenamed : renamed.rdns ≠ [])
    (hspared : ∀ x ∈ table.names, x.IsBelow dn → x.key ≠ key ∧ (x.follow dn renamed).key ≠ key) :
    (moveDescendants dn renamed table).find? key = table.find? key := by
  have hturns (turns : List String) (hturns : ∀ turn ∈ turns, turn ∈ keysBelow dn table)
      (now : Entries) : (turns.foldl (moveDescendant dn renamed) now).find? key = now.find? key := by
    induction turns generalizing now with
    | nil => rfl
    | cons turn turns ih =>
      rw [List.forall_mem_cons] at hturns
      rw [List.foldl_cons, ih hturns.2]
      obtain ⟨x, hx, hbelow, rfl⟩ := mem_keysBelow.1 hturns.1
      obtain ⟨hother, hfollow⟩ := hspared x.dn (Entries.mem_names.2 ⟨x, hx, rfl⟩) hbelow
      cases hfind : now.find? x.dn.key with
      | none => rw [moveDescendant, hfind]
      | some e =>
        -- What has this key now need not be `x`, but it moves to where `x` would.
        have hkey := (now.find?_eq_some_iff.1 hfind).2
        have hcarried : (carried dn renamed e).dn.key ≠ key := by
          show (e.dn.follow dn renamed).key ≠ key
          by_cases hwithin : e.dn.isWithin dn = true
          · have hebelow : e.dn.IsBelow dn :=
              ⟨hwithin, fun hsame => hbelow.2 (Dn.same_iff.2 (hkey ▸ Dn.same_iff.1 hsame))⟩
            rwa [hebelow.key_follow_congr hrenamed hbelow hkey]
          · rwa [Dn.follow_of_not_isWithin hwithin, hkey]
        rw [moveDescendant_eq hfind, Entries.find?_insert, if_neg hcarried, Entries.find?_eraseKey,
          if_neg hother]
  exact hturns _ (fun _ h => h) table

end Directory

/-! ## Requests -/

namespace Mutation

variable {supply : Supply} {dir : Directory} {m : Mutation} {d dn : Dn} {operation : String}

/-- The name that a request asks about, with the word for what it asks. -/
def guard? : Mutation → Option (String × Dn)
  | .add dn _ => dn.parent?.map fun parent => ("add", parent)
  | .modify dn _ => some ("modify", dn)
  | .rename dn _ _ => some ("rename", dn)

/-- Whether a request, if it is accepted, writes at `d` without asking. -/
def Reaches (d : Dn) (entries : Entries) : Mutation → Prop
  | .add dn _ => dn.key = d.key
  | .modify .. => False
  | .rename dn rdn superior =>
    let renamed := renamedDn dn rdn superior
    renamed.key = d.key ∨ ∃ x ∈ renamed :: entries.names,
      x.IsBelow dn ∧ (x.key = d.key ∨ (x.follow dn renamed).key = d.key)

instance (d : Dn) (entries : Entries) : DecidablePred (Reaches d entries)
  | .add .. => inferInstanceAs (Decidable (_ = _))
  | .modify .. => .isFalse id
  | .rename .. => inferInstanceAs (Decidable (_ ∨ ∃ x ∈ _, _))

/-- A request is refused if writes are forbidden at the name that it asks about. -/
theorem run_of_denied (hguard : m.guard? = some (operation, dn))
    (hdenied : dn.isIn dir.denied = true) :
    dir.run (m.send supply) =
      (.error (.insufficientAccess operation dn.text), dir.record m.request) := by
  have hcheck : dir.checkWritable operation dn = .error (.insufficientAccess operation dn.text) := by
    rw [Directory.checkWritable, if_pos hdenied]
  cases m with
  | add target attrs =>
    obtain ⟨parent, hparent, heq⟩ := Option.map_eq_some_iff.1 hguard
    cases heq
    refine (Directory.run_perform dir _ _).trans ?_
    rw [Directory.afterAdd, hparent]
    simp only [hcheck]
    rfl
  | modify target items =>
    cases hguard
    refine (Directory.run_perform dir _ _).trans ?_
    rw [Directory.afterModify, hcheck]
    rfl
  | rename target rdn superior =>
    cases hguard
    have hrename : dir.run (Directory.rename supply dn rdn superior) =
        (.error (.insufficientAccess "rename" dn.text),
          dir.record (.rename dn (renamedDn dn rdn superior))) := by
      refine (Directory.run_perform dir _ _).trans ?_
      rw [Directory.afterRename, hcheck]
      rfl
    unfold send
    rw [Directory.run_bind, hrename]
    rfl

/-- An accepted request that does not reach a name at which writes are forbidden leaves what is stored
there. -/
theorem Effect.entry_of_denied {entries : Entries} (heffect : m.Effect supply dir entries)
    (hguard : ∀ operation dn, m.guard? = some (operation, dn) → dn.key ≠ d.key)
    (hreach : ¬ m.Reaches d dir.entries) : entries.get? d = dir.entry? d := by
  cases heffect with
  | added _ => exact (Entries.find?_insert ..).trans (if_neg hreach)
  | modified hentry _ =>
    have hkey := (dir.entries.get?_eq_some_iff.1 hentry).2
    exact (Entries.find?_insert ..).trans (if_neg (hkey ▸ hguard _ _ rfl))
  | @renamed dn rdn superior e hentry =>
    obtain ⟨hrenamed, hspared⟩ := not_or.1 hreach
    refine (Directory.find?_moveDescendants_of_spared (List.cons_ne_nil _ _) ?_).trans ?_
    · intro x hx hbelow
      have hknown : x ∈ renamedDn dn rdn superior :: dir.entries.names := by
        obtain ⟨e', he', rfl⟩ := Entries.mem_names.1 hx
        rcases Entries.mem_insertInto he' with rfl | he'
        · exact List.mem_cons_self
        · exact List.mem_cons_of_mem _ (Entries.mem_names.2 ⟨e', (List.mem_filter.1 he').1, rfl⟩)
      exact not_or.1 fun h => hspared ⟨x, hknown, hbelow, h⟩
    · exact (Directory.find?_exchange ..).trans
        ((if_neg hrenamed).trans (if_neg (hguard _ _ rfl)))

end Mutation

/-! ## Sessions -/

/-- A request is accepted and writes at `d` without asking. -/
def Directory.Reaches (supply : Supply) (d : Dn) (dir : Directory) : Command → Prop
  | .change m => (dir.run (m.send supply)).1 = .ok () ∧ m.Reaches d dir.entries
  | .search .. | .read .. => False

instance (supply : Supply) (d : Dn) (dir : Directory) : DecidablePred (dir.Reaches supply d)
  | .change _ => inferInstanceAs (Decidable (_ ∧ _))
  | .search .. | .read .. => .isFalse id

/-- Where writes are forbidden is not for requests to change. -/
theorem Command.denied_run (supply : Supply) (dir : Directory) (c : Command) :
    (dir.run (c.send supply)).2.denied = dir.denied := by
  cases c with
  | search | read => rfl
  | change m =>
    have hlogged : Keeps Directory.Logged (m.send supply) := by
      cases m with
      | add dn attrs => exact Directory.keeps_logged_add supply dn attrs
      | modify dn items => exact Directory.keeps_logged_modify supply dn items
      | rename dn rdn superior =>
        exact Directory.logged_frame.keeps_bind
          (Directory.keeps_logged_rename supply dn rdn superior) fun _ =>
            Directory.logged_frame.keeps_pure ()
    exact (hlogged dir).1

/-- A request leaves what is stored at a name at which writes are forbidden, if it does not reach it. -/
theorem Command.entry_of_denied (supply : Supply) {dir : Directory} {c : Command} {d : Dn}
    (hdenied : d ∈ dir.denied) (hreach : ¬ dir.Reaches supply d c) :
    Directory.entry? (dir.run (c.send supply)).2 d = dir.entry? d := by
  rcases c.run_cases supply dir with ⟨hentries, -⟩ | ⟨m, rfl, hok, heffect⟩
  · rw [Directory.entry?, hentries, Directory.entry?]
  · refine heffect.entry_of_denied (fun operation dn hguard hkey => ?_) fun h => hreach ⟨hok, h⟩
    have hisIn : dn.isIn dir.denied = true :=
      List.any_eq_true.2 ⟨d, hdenied, Dn.same_iff.2 hkey⟩
    have hrefused : dir.run (m.send supply) =
        (.error (.insufficientAccess operation dn.text), dir.record m.request) :=
      Mutation.run_of_denied hguard hisIn
    have hok : (dir.run (m.send supply)).1 = .ok () := hok
    rw [hrefused] at hok
    cases hok

theorem Directory.denied_session (supply : Supply) (dir : Directory) (commands : List Command) :
    (dir.session supply commands).denied = dir.denied := by
  induction commands using List.reverseRecOn with
  | nil => rfl
  | append_singleton front c ih => rw [session_append, c.denied_run, ih]

/-- **What stays as it is where writes are forbidden.** In every session after `deny d`, a request that
asks to write at `d` is refused and changes no entry; and as long as no accepted request reaches `d`,
what is stored there, if anything is, stays the same. -/
theorem Directory.denied_stays (supply : Supply) (dir : Directory) (d : Dn) {commands : List Command}
    (h : ∀ front c, front ++ [c] <+: commands →
      ¬ ((dir.deny d).session supply front).Reaches supply d c) :
    (∀ (front : List Command) (m : Mutation) (operation : String) (dn : Dn),
      m.guard? = some (operation, dn) → dn.same d = true →
      ((dir.deny d).session supply front).run (m.send supply) =
        (.error (.insufficientAccess operation dn.text),
          ((dir.deny d).session supply front).record m.request)) ∧
    ∀ front, front <+: commands →
      Directory.entry? ((dir.deny d).session supply front) d = dir.entry? d := by
  have hdenied (front : List Command) : d ∈ ((dir.deny d).session supply front).denied := by
    rw [denied_session]
    exact List.mem_cons_self
  constructor
  · intro front m operation dn hguard hsame
    exact Mutation.run_of_denied hguard (List.any_eq_true.2 ⟨d, hdenied front, hsame⟩)
  · intro front
    induction front using List.reverseRecOn with
    | nil => exact fun _ => rfl
    | append_singleton front c ih =>
      intro hfront
      rw [session_append, Command.entry_of_denied supply (hdenied front) (h front c hfront)]
      exact ih ((List.prefix_append front [c]).trans hfront)

namespace Sample

/-- The name of the team of a unit. -/
def unitTeam (unit : String) : Dn :=
  under (name "ou" unit) "cn" "team"

/-- Two units and two teams, one of them in a unit that has no entry. -/
def units : Directory :=
  (Directory.fresh []).session provisioner.supply
    [.change (.add (name "ou" "a") .empty), .change (.add (unitTeam "a") (.ofList [("sn", ["Lee"])])),
      .change (.add (name "ou" "b") .empty), .change (.add (unitTeam "c") .empty)]

/-- Requests that ask to write at the first team or pass it by. -/
def visits : List Command :=
  [.change (.modify (under (name "OU" "A") "CN" "TEAM") [⟨.replace, "sn", ["Ray"]⟩]),
    .change (.add ((unitTeam "a").child (.single "cn" "ann")) .empty),
    .change (.rename (name "ou" "b") (.single "ou" "c") none),
    .change (.rename (unitTeam "a") (.single "cn" "crew") none),
    .change (.modify (name "ou" "a") [⟨.add, "sn", ["Ray"]⟩])]

theorem team_stays :
    Directory.entry? ((units.deny (unitTeam "a")).session provisioner.supply visits) (unitTeam "a") =
        units.entry? (unitTeam "a") ∧
      units.valuesAt (unitTeam "a") "sn" = ["Lee"] := by
  refine ⟨(Directory.denied_stays provisioner.supply units (unitTeam "a")
    fun front c (hfront : front ++ [c] <+: visits) => ?_).2 visits List.prefix_rfl, by decide +kernel⟩
  have hall : ∀ front ∈ visits.inits, ∀ c ∈ visits[front.length]?,
      ¬ ((units.deny (unitTeam "a")).session provisioner.supply front).Reaches provisioner.supply
        (unitTeam "a") c := by
    decide +kernel
  have hnext : visits[front.length]? = some c := by
    obtain ⟨rest, hrest⟩ := hfront
    simp [← hrest]
  exact hall front ((List.mem_inits _ _).2 ((List.prefix_append front [c]).trans hfront)) c hnext

/-- Writes are forbidden at a name, and yet an entry is added there, or put there by a rename; and one
rename of the unit above takes an entry from such a name, and puts it in the place of another one where
writes are forbidden. -/
theorem denied_written :
    units.entry? (name "ou" "c") = none ∧
    (Directory.entry? ((units.deny (name "ou" "c")).session provisioner.supply
      [.change (.add (name "ou" "c") .empty)]) (name "ou" "c")).isSome = true ∧
    (Directory.entry? ((units.deny (name "ou" "c")).session provisioner.supply
      [.change (.rename (name "ou" "b") (.single "ou" "c") none)]) (name "ou" "c")).isSome = true ∧
    units.valuesAt (unitTeam "a") "sn" = ["Lee"] ∧ units.valuesAt (unitTeam "c") "sn" = [] ∧
    Directory.entry? ((units.deny (unitTeam "a")).session provisioner.supply
      [.change (.rename (name "ou" "a") (.single "ou" "c") none)]) (unitTeam "a") = none ∧
    Directory.valuesAt ((units.deny (unitTeam "c")).session provisioner.supply
      [.change (.rename (name "ou" "a") (.single "ou" "c") none)]) (unitTeam "c") "sn" = ["Lee"] := by
  decide +kernel

end Sample

end Roster
