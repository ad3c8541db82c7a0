import Roster.Proofs.Requests

/-!
# Requests one after the other

An operation sends its requests one after the other and ends with the first that fails. A `Course`
is the sequence of the requests for changes between two moments, each made of the directory that
those before it left; the only failure that it survives is that a value is there already, where this
counts as done. The journal tells this sequence (`Course.journal_eq`).

`Issues` says of a computation which sequences it sends: one that has a given form if it succeeds,
and otherwise the beginning of one. Its rules follow the sequencing of computations.
-/

namespace Roster

open Directory (Unwritten unwritten_frame)

/-! ## Requests for changes -/

/-- A request for a change, with everything that it is given. -/
inductive Mutation where
  | add (dn : Dn) (attrs : Attributes)
  | modify (dn : Dn) (items : List Modification)
  | rename (dn : Dn) (rdn : Rdn) (superior : Option Dn)

namespace Mutation

/-- The request as the journal keeps it. -/
def request : Mutation → Request
  | .add dn _ => .add dn
  | .modify dn items => .modify dn items
  | .rename dn rdn superior => .rename dn (Directory.renamedDn dn rdn superior)

/-- Makes the request. -/
def send (supply : Supply) : Mutation → Directory.Action Unit
  | .add dn attrs => Directory.add supply dn attrs
  | .modify dn items => Directory.modify supply dn items
  | .rename dn rdn superior => do
    let _ ← Directory.rename supply dn rdn superior
    return ()

/-- Whatever becomes of it, the request is on record and nothing else is. -/
theorem journal_send (m : Mutation) (supply : Supply) (dir : Directory) :
    (dir.run (m.send supply)).2.journal = dir.journal ++ [m.request] := by
  cases m with
  | add dn attrs =>
    show (dir.run (Directory.add supply dn attrs)).2.journal = _
    unfold Directory.add
    rw [Directory.run_perform]
    split <;> rfl
  | modify dn items =>
    show (dir.run (Directory.modify supply dn items)).2.journal = _
    unfold Directory.modify
    rw [Directory.run_perform]
    split <;> rfl
  | rename dn rdn superior =>
    unfold send Directory.rename
    rw [Directory.run_bind, Directory.run_perform]
    cases Directory.afterRename supply dn (Directory.renamedDn dn rdn superior) rdn dir <;> rfl

end Mutation

/-- A request for a change as an operation sends it. -/
structure Errand where
  mutation : Mutation
  /-- Whether it counts as done if the value is there already. -/
  lenient : Bool := false

namespace Errand

/-- With this outcome of its request an errand is done. -/
def Done (errand : Errand) : Except DirectoryError Unit → Prop
  | .ok _ => True
  | .error e => errand.lenient = true ∧ e.isValueExists = true

/-- The request as the journal keeps it. -/
def request (errand : Errand) : Request :=
  errand.mutation.request

theorem isMutation_request (errand : Errand) : errand.request.isMutation = true := by
  unfold request
  cases errand.mutation <;> rfl

end Errand

/-! ## Courses -/

variable {ε α β : Type}

/-- The requests for changes between two directories, and the result that they lead to. Anything
else in between only reads. A request that fails is the last of all requests, and its failure is the
result. -/
inductive Course (supply : Supply) (raise : DirectoryError → ε) :
    Directory → List Errand → Except ε α → Directory → Prop
  | rest {dir after : Directory} {result : Except ε α} : dir.Unwritten after →
      Course supply raise dir [] result after
  | goesOn {dir before mid after : Directory} {errand : Errand} {later : List Errand}
      {outcome : Except DirectoryError Unit} {result : Except ε α} : dir.Unwritten before →
      before.run (errand.mutation.send supply) = (outcome, mid) → errand.Done outcome →
      Course supply raise mid later result after →
      Course supply raise dir (errand :: later) result after
  | stops {dir before after : Directory} {errand : Errand} {e : DirectoryError} :
      dir.Unwritten before →
      before.run (errand.mutation.send supply) = (.error e, after) → ¬ errand.Done (.error e) →
      Course supply raise dir [errand] (.error (raise e)) after

namespace Course

variable {supply : Supply} {raise : DirectoryError → ε} {dir mid after : Directory}
  {sent later : List Errand} {result : Except ε α}

/-- What only reads does not count at the beginning. -/
theorem of_unwritten (hquiet : dir.Unwritten mid) (h : Course supply raise mid sent result after) :
    Course supply raise dir sent result after := by
  cases h with
  | rest h => exact .rest (unwritten_frame.trans hquiet h)
  | goesOn h hrun hdone hrest => exact .goesOn (unwritten_frame.trans hquiet h) hrun hdone hrest
  | stops h hrun hfails => exact .stops (unwritten_frame.trans hquiet h) hrun hfails

/-- What comes after a computation that succeeded. -/
theorem append {a : α} {next : Except ε β}
    (h : Course supply raise dir sent (.ok a : Except ε α) mid)
    (hlater : Course supply raise mid later next after) :
    Course supply raise dir (sent ++ later) next after := by
  generalize hresult : (.ok a : Except ε α) = first at h
  induction h with
  | rest hquiet => exact hlater.of_unwritten hquiet
  | goesOn hquiet hrun hdone _ ih => exact .goesOn hquiet hrun hdone (ih hlater hresult)
  | stops => cases hresult

/-- A course falls into the requests of one part, which have all been done, and those of the rest.
-/
theorem split (h : Course supply raise dir (sent ++ later) result after) :
    (∃ mid, Course supply raise dir sent (.ok () : Except ε Unit) mid ∧
        Course supply raise mid later result after) ∨
      later = [] ∧ Course supply raise dir sent result after := by
  induction sent generalizing dir with
  | nil => exact .inl ⟨dir, .rest (unwritten_frame.refl dir), h⟩
  | cons errand sent ih =>
    generalize hall : errand :: sent ++ later = all at h
    cases h with
    | rest => cases hall
    | goesOn hquiet hrun hdone hrest =>
      cases hall
      rcases ih hrest with ⟨mid, hfirst, hlast⟩ | ⟨hnone, hwhole⟩
      · exact .inl ⟨mid, .goesOn hquiet hrun hdone hfirst, hlast⟩
      · exact .inr ⟨hnone, .goesOn hquiet hrun hdone hwhole⟩
    | stops hquiet hrun hfails =>
      obtain ⟨rfl, hnone⟩ := List.cons.inj hall
      obtain ⟨rfl, rfl⟩ := List.append_eq_nil_iff.1 hnone
      exact .inr ⟨rfl, .stops hquiet hrun hfails⟩

/-- Only a failure ends a sequence of computations early. -/
theorem error {err : ε} (h : Course supply raise dir sent (.error err : Except ε α) after) :
    Course supply raise dir sent (.error err : Except ε β) after := by
  generalize hresult : (.error err : Except ε α) = first at h
  induction h with
  | rest hquiet => exact .rest hquiet
  | goesOn hquiet hrun hdone _ ih => exact .goesOn hquiet hrun hdone (ih hresult)
  | stops hquiet hrun hfails =>
    cases hresult
    exact .stops hquiet hrun hfails

/-- The failures of the directory become failures of an operation. -/
theorem lift {found : Except DirectoryError α} (h : Course supply id dir sent found after) :
    Course supply ProvisioningError.directory dir sent
      (found.mapError ProvisioningError.directory) after := by
  induction h with
  | rest hquiet => exact .rest hquiet
  | goesOn hquiet hrun hdone _ ih => exact .goesOn hquiet hrun hdone ih
  | stops hquiet hrun hfails => exact .stops hquiet hrun hfails

/-- **The requests for changes in the journal** are those of the course, in their order. -/
theorem journal_eq (h : Course supply raise dir sent result after) :
    ∃ requests, after.journal = dir.journal ++ requests ∧
      requests.filter Request.isMutation = sent.map Errand.request := by
  have hnone {requests : List Request} (hquiet : ∀ r ∈ requests, r.isMutation = false) :
      requests.filter Request.isMutation = [] :=
    List.filter_eq_nil_iff.2 fun r hr => Bool.not_eq_true _ ▸ hquiet r hr
  induction h with
  | rest hquiet =>
    obtain ⟨-, -, requests, hjournal, hquiet⟩ := hquiet
    exact ⟨requests, hjournal, hnone hquiet⟩
  | @goesOn dir before mid after errand later outcome result hquiet hrun _ _ ih =>
    obtain ⟨-, -, quiet, hbefore, hquiet⟩ := hquiet
    obtain ⟨requests, hjournal, hmutations⟩ := ih
    have hsent := errand.mutation.journal_send supply before
    rw [hrun] at hsent
    refine ⟨quiet ++ (errand.request :: requests), ?_, ?_⟩
    · rw [hjournal, hsent, hbefore, List.append_assoc, List.append_assoc]
      rfl
    · rw [List.filter_append, hnone hquiet, List.nil_append,
        List.filter_cons_of_pos errand.isMutation_request, hmutations, List.map_cons]
  | @stops dir before after errand e hquiet hrun _ =>
    obtain ⟨-, -, quiet, hbefore, hquiet⟩ := hquiet
    have hsent := errand.mutation.journal_send supply before
    rw [hrun] at hsent
    refine ⟨quiet ++ [errand.request], ?_, ?_⟩
    · rw [hsent, hbefore, List.append_assoc]
      rfl
    · rw [List.filter_append, hnone hquiet, List.nil_append,
        List.filter_cons_of_pos errand.isMutation_request, List.filter_nil, List.map_cons,
        List.map_nil]

/-- What reading keeps and each of the requests, the whole course keeps. -/
theorem keeps {R : Directory → Directory → Prop} (frame : Frame R)
    (hquiet : ∀ {dir after : Directory}, dir.Unwritten after → R dir after)
    (h : Course supply raise dir sent result after)
    (hsent : ∀ errand ∈ sent, Keeps R (errand.mutation.send supply)) : R dir after := by
  induction h with
  | rest hrest => exact hquiet hrest
  | @goesOn dir before mid after errand later outcome result hbefore hrun _ _ ih =>
    rw [List.forall_mem_cons] at hsent
    exact frame.trans (hquiet hbefore) (frame.trans (hsent.1.of_run hrun) (ih hsent.2))
  | @stops dir before after errand e hbefore hrun _ =>
    have hsend := (hsent errand (List.mem_singleton_self _)).of_run hrun
    exact frame.trans (hquiet hbefore) hsend

end Course

/-! ## What a computation sends -/

/-- Every run of the computation takes a course: of a given form if it succeeds, and otherwise the
beginning of one that has this form. -/
def Issues (supply : Supply) (raise : DirectoryError → ε) (P : List Errand → Prop)
    (x : ExceptT ε (StateM Directory) α) : Prop :=
  ∀ dir : Directory, ∃ sent full, Course supply raise dir sent (dir.run x).1 (dir.run x).2 ∧
    P full ∧ sent <+: full ∧ ∀ a, (dir.run x).1 = .ok a → sent = full

/-- A sequence of one form, and after it one of another form. -/
def Then (P Q : List Errand → Prop) (full : List Errand) : Prop :=
  ∃ first later, P first ∧ Q later ∧ full = first ++ later

/-- Whatever a computation results in, it ends. -/
theorem ends_any (x : ExceptT ε (StateM Directory) α) :
    Ends (fun _ => True) (fun _ => True) x := by
  intro dir
  cases (dir.run x).1 <;> trivial

namespace Issues

variable {supply : Supply} {raise : DirectoryError → ε} {P Q T : List Errand → Prop}

theorem mono {x : ExceptT ε (StateM Directory) α} (hx : Issues supply raise P x)
    (hP : ∀ full, P full → Q full) : Issues supply raise Q x := by
  intro dir
  obtain ⟨sent, full, hcourse, hfull, hrest⟩ := hx dir
  exact ⟨sent, full, hcourse, hP full hfull, hrest⟩

/-- A run that succeeds takes the whole course. -/
theorem course {x : ExceptT ε (StateM Directory) α} {dir after : Directory} {a : α}
    (hx : Issues supply raise P x) (hrun : dir.run x = (.ok a, after)) :
    ∃ full, P full ∧ Course supply raise dir full (.ok a : Except ε α) after := by
  obtain ⟨sent, full, hcourse, hfull, -, hall⟩ := hx dir
  rw [hrun] at hcourse hall
  obtain rfl := hall a rfl
  exact ⟨sent, hfull, hcourse⟩

/-- What only reads sends nothing. -/
theorem quiet {x : ExceptT ε (StateM Directory) α} (hx : Keeps Unwritten x) :
    Issues supply raise (· = []) x :=
  fun dir => ⟨[], [], .rest (hx dir), rfl, List.prefix_rfl, fun _ _ => rfl⟩

theorem pure (a : α) : Issues supply raise (· = []) (Pure.pure a : ExceptT ε (StateM Directory) α) :=
  quiet (unwritten_frame.keeps_pure a)

/-- A sequence of computations sends one after the other what its parts send. What the first of them
gives may be known. -/
theorem bind {x : ExceptT ε (StateM Directory) α} {f : α → ExceptT ε (StateM Directory) β}
    {S : α → Prop} {E : ε → Prop} (hx : Issues supply raise P x) (hends : Ends S E x)
    (hf : ∀ a, S a → Issues supply raise Q (f a)) (hQ : ∃ later, Q later) :
    Issues supply raise (Then P Q) (x >>= f) := by
  intro dir
  obtain ⟨sent, full, hcourse, hfull, hbegins, hall⟩ := hx dir
  have hend := hends dir
  rw [Directory.run_bind]
  cases hrun : dir.run x with
  | mk result mid =>
    rw [hrun] at hcourse hall hend
    cases result with
    | error err =>
      obtain ⟨later, hlater⟩ := hQ
      exact ⟨sent, full ++ later, hcourse.error, ⟨full, later, hfull, hlater, rfl⟩,
        hbegins.trans (List.prefix_append full later), nofun⟩
    | ok a =>
      obtain ⟨sent', full', hcourse', hfull', hbegins', hall'⟩ := hf a hend mid
      obtain rfl := hall a rfl
      refine ⟨sent ++ sent', sent ++ full', hcourse.append hcourse', ⟨sent, full', hfull, hfull', rfl⟩,
        (List.prefix_append_right_inj sent).2 hbegins', fun b hb => ?_⟩
      rw [hall' b hb]

/-- One computation after the other. -/
theorem seq {x : ExceptT ε (StateM Directory) α} {y : ExceptT ε (StateM Directory) β}
    (hx : Issues supply raise P x) (hy : Issues supply raise Q y) :
    Issues supply raise (Then P Q) (x >>= fun _ => y) := by
  obtain ⟨-, full, -, hfull, -⟩ := hy Directory.empty
  exact bind hx (ends_any x) (fun _ _ => hy) ⟨full, hfull⟩

/-- What comes after a computation that only reads sends all there is. -/
theorem after_quiet {x : ExceptT ε (StateM Directory) α} {f : α → ExceptT ε (StateM Directory) β}
    {S : α → Prop} {E : ε → Prop} (hx : Keeps Unwritten x) (hends : Ends S E x)
    (hf : ∀ a, S a → Issues supply raise P (f a)) (hP : ∃ full, P full) :
    Issues supply raise P (x >>= f) := by
  refine (bind (quiet hx) hends hf hP).mono ?_
  rintro _ ⟨_, later, rfl, hlater, rfl⟩
  exact hlater

/-- What comes before a computation that only reads sends all there is. -/
theorem before_quiet {x : ExceptT ε (StateM Directory) α} {f : α → ExceptT ε (StateM Directory) β}
    (hx : Issues supply raise P x) (hf : ∀ a, Keeps Unwritten (f a)) :
    Issues supply raise P (x >>= f) := by
  refine (bind hx (ends_any x) (fun a _ => quiet (hf a)) ⟨[], rfl⟩).mono ?_
  rintro _ ⟨full, _, hfull, rfl, rfl⟩
  rw [List.append_nil]
  exact hfull

/-- A loop sends one after the other what its steps send. -/
theorem forM {γ : Type} {xs : List γ} {f : γ → ExceptT ε (StateM Directory) Unit}
    {errands : γ → List Errand} (hf : ∀ x ∈ xs, Issues supply raise (· = errands x) (f x)) :
    Issues supply raise (· = xs.flatMap errands) (xs.forM f) := by
  induction xs with
  | nil => exact pure ()
  | cons x xs ih =>
    rw [List.forall_mem_cons] at hf
    refine (seq hf.1 (ih hf.2)).mono ?_
    rintro _ ⟨_, _, rfl, rfl, rfl⟩
    rw [List.flatMap_cons]

/-! ## Single requests -/

/-- A computation that is a request for a change sends one errand. -/
theorem request {errand : Errand} {x : Directory.Action α}
    (hx : ∀ dir : Directory, dir.run (errand.mutation.send supply) =
      ((dir.run x).1.map fun _ => (), (dir.run x).2)) :
    Issues supply id (· = [errand]) x := by
  intro dir
  have hsend := hx dir
  refine ⟨[errand], [errand], ?_, rfl, List.prefix_rfl, fun _ _ => rfl⟩
  cases hrun : dir.run x with
  | mk result after =>
    rw [hrun] at hsend
    cases result with
    | ok a => exact .goesOn (unwritten_frame.refl dir) hsend trivial (.rest (unwritten_frame.refl after))
    | error e =>
      by_cases hdone : errand.Done (.error e)
      · exact .goesOn (unwritten_frame.refl dir) hsend hdone (.rest (unwritten_frame.refl after))
      · exact .stops (unwritten_frame.refl dir) hsend hdone

theorem modify (dn : Dn) (items : List Modification) :
    Issues supply id (· = [⟨.modify dn items, false⟩]) (Directory.modify supply dn items) := by
  refine request fun dir => ?_
  show dir.run (Directory.modify supply dn items) = _
  cases dir.run (Directory.modify supply dn items) with
  | mk result after => cases result <;> rfl

theorem add (dn : Dn) (attrs : Attributes) :
    Issues supply id (· = [⟨.add dn attrs, false⟩]) (Directory.add supply dn attrs) := by
  refine request fun dir => ?_
  show dir.run (Directory.add supply dn attrs) = _
  cases dir.run (Directory.add supply dn attrs) with
  | mk result after => cases result <;> rfl

theorem rename (dn : Dn) (rdn : Rdn) (superior : Option Dn) :
    Issues supply id (· = [⟨.rename dn rdn superior, false⟩])
      (Directory.rename supply dn rdn superior) := by
  refine request fun dir => ?_
  show dir.run (Directory.rename supply dn rdn superior >>= fun _ => Pure.pure ()) = _
  rw [Directory.run_bind]
  cases dir.run (Directory.rename supply dn rdn superior) with
  | mk result after => cases result <;> rfl

/-- An operation sends what its requests send. -/
theorem lift {x : Directory.Action α} (hx : Issues supply id P x) :
    Issues supply ProvisioningError.directory P (liftM x : Provisioner.Action α) := by
  intro dir
  obtain ⟨sent, full, hcourse, hfull, hbegins, hall⟩ := hx dir
  rw [Directory.run_lift]
  refine ⟨sent, full, hcourse.lift, hfull, hbegins, fun a ha => ?_⟩
  cases hrun : (dir.run x).1 with
  | ok b => exact hall b hrun
  | error e =>
    rw [hrun] at ha
    cases ha

end Issues

end Roster
