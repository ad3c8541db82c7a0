import Roster.Provision.Create
import Roster.Provision.Values

/-!
# Runs of computations over a directory

`Directory.run` gives the result of a computation beside the directory that it leaves. The lemmas of
this file follow a run through the sequencing of computations: `run_bind_ok` and `run_bind_error`
say how a sequence can succeed and how it can fail, `Keeps` transfers a relation between the
directories before and after from the single requests to whole computations, and `Ends` collects
what results and which failures are possible.
-/

namespace Roster

variable {ε α β : Type}

/-- The result of a computation, and the directory that it leaves. -/
def Directory.run (dir : Directory) (x : ExceptT ε (StateM Directory) α) :
    Except ε α × Directory :=
  x dir

namespace Directory

/-- A run with a known result. -/
theorem run_of_result {dir : Directory} {x : ExceptT ε (StateM Directory) α} {result : Except ε α}
    (h : (dir.run x).1 = result) : dir.run x = (result, (dir.run x).2) :=
  Prod.ext h rfl

/-! ## Sequences -/

@[simp] theorem run_pure (dir : Directory) (a : α) :
    dir.run (pure a : ExceptT ε (StateM Directory) α) = (.ok a, dir) :=
  rfl

@[simp] theorem run_throw (dir : Directory) (e : ε) :
    dir.run (throw e : ExceptT ε (StateM Directory) α) = (.error e, dir) :=
  rfl

@[simp] theorem run_get (dir : Directory) :
    dir.run (get : ExceptT ε (StateM Directory) Directory) = (.ok dir, dir) :=
  rfl

theorem run_bind (dir : Directory) (x : ExceptT ε (StateM Directory) α)
    (f : α → ExceptT ε (StateM Directory) β) :
    dir.run (x >>= f) =
      match dir.run x with
      | (.ok a, after) => after.run (f a)
      | (.error e, after) => (.error e, after) := by
  show (ExceptT.bindCont f (x dir).1) (x dir).2 = _
  unfold run
  cases x dir with
  | mk result after => cases result <;> rfl

/-- A sequence succeeds if both of its parts do. -/
theorem run_bind_ok {dir after : Directory} {x : ExceptT ε (StateM Directory) α}
    {f : α → ExceptT ε (StateM Directory) β} {b : β} :
    dir.run (x >>= f) = (.ok b, after) ↔
      ∃ a mid, dir.run x = (.ok a, mid) ∧ mid.run (f a) = (.ok b, after) := by
  rw [run_bind]
  constructor
  · intro h
    split at h
    · next a mid hx => exact ⟨a, mid, hx, h⟩
    · cases h
  · rintro ⟨a, mid, hx, hf⟩
    rw [hx]
    exact hf

/-- A sequence fails in its first part, or in its second part after the first succeeded. -/
theorem run_bind_error {dir after : Directory} {x : ExceptT ε (StateM Directory) α}
    {f : α → ExceptT ε (StateM Directory) β} {e : ε} :
    dir.run (x >>= f) = (.error e, after) ↔
      dir.run x = (.error e, after) ∨
        ∃ a mid, dir.run x = (.ok a, mid) ∧ mid.run (f a) = (.error e, after) := by
  rw [run_bind]
  constructor
  · intro h
    split at h
    · next a mid hx => exact .inr ⟨a, mid, hx, h⟩
    · next e' mid hx =>
      cases h
      exact .inl hx
  · rintro (hx | ⟨a, mid, hx, hf⟩)
    · rw [hx]
    · rw [hx]
      exact hf

/-- A loop fails at one of its elements, after it succeeded at those before. -/
theorem run_forM_error {dir after : Directory} {xs : List α}
    {f : α → ExceptT ε (StateM Directory) Unit} {e : ε}
    (hrun : dir.run (xs.forM f) = (.error e, after)) :
    ∃ front x rest mid, xs = front ++ x :: rest ∧ dir.run (front.forM f) = (.ok (), mid) ∧
      mid.run (f x) = (.error e, after) := by
  induction xs generalizing dir with
  | nil => cases hrun
  | cons x xs ih =>
    rcases run_bind_error.1 hrun with h | ⟨_, mid, hfirst, hrest⟩
    · exact ⟨[], x, xs, dir, rfl, rfl, h⟩
    · obtain ⟨front, y, rest, last, hsplit, hfront, hlast⟩ := ih hrest
      refine ⟨x :: front, y, rest, last, by rw [hsplit, List.cons_append], ?_, hlast⟩
      exact run_bind_ok.2 ⟨(), mid, hfirst, hfront⟩

/-- A loop that succeeds has succeeded at each of its elements. -/
theorem run_forM_ok {dir after : Directory} {xs : List α}
    {f : α → ExceptT ε (StateM Directory) Unit} (hrun : dir.run (xs.forM f) = (.ok (), after))
    {x : α} (hx : x ∈ xs) :
    ∃ front rest before next, xs = front ++ x :: rest ∧
      dir.run (front.forM f) = (.ok (), before) ∧ before.run (f x) = (.ok (), next) ∧
      next.run (rest.forM f) = (.ok (), after) := by
  induction xs generalizing dir with
  | nil => cases hx
  | cons y ys ih =>
    obtain ⟨_, mid, hfirst, hrest⟩ := run_bind_ok.1 hrun
    rcases List.mem_cons.1 hx with rfl | hx
    · exact ⟨[], ys, dir, mid, rfl, rfl, hfirst, hrest⟩
    · obtain ⟨front, rest, before, next, hsplit, hfront, hturn, hlast⟩ := ih hrest hx
      refine ⟨y :: front, rest, before, next, by rw [hsplit, List.cons_append], ?_, hturn, hlast⟩
      exact run_bind_ok.2 ⟨(), mid, hfirst, hfront⟩

/-- A loop succeeds if each of its elements does, whatever of a kind of directories it finds. -/
theorem exists_run_forM {P : Directory → Prop} {xs : List α}
    {f : α → ExceptT ε (StateM Directory) Unit}
    (hstep : ∀ x ∈ xs, ∀ dir : Directory, P dir → ∃ after, dir.run (f x) = (.ok (), after) ∧ P after)
    {dir : Directory} (hdir : P dir) : ∃ after, dir.run (xs.forM f) = (.ok (), after) ∧ P after := by
  induction xs generalizing dir with
  | nil => exact ⟨dir, rfl, hdir⟩
  | cons x xs ih =>
    rw [List.forall_mem_cons] at hstep
    obtain ⟨mid, hfirst, hmid⟩ := hstep.1 dir hdir
    obtain ⟨after, hrest, hafter⟩ := ih hstep.2 hmid
    exact ⟨after, run_bind_ok.2 ⟨(), mid, hfirst, hrest⟩, hafter⟩

/-- A loop over computations that change nothing and succeed succeeds. -/
theorem exists_run_mapM {dir : Directory} {xs : List α} {f : α → ExceptT ε (StateM Directory) β}
    (hf : ∀ x ∈ xs, ∃ b, dir.run (f x) = (.ok b, dir)) :
    ∃ bs, dir.run (xs.mapM f) = (.ok bs, dir) := by
  induction xs with
  | nil => exact ⟨[], rfl⟩
  | cons x xs ih =>
    rw [List.forall_mem_cons] at hf
    obtain ⟨b, hb⟩ := hf.1
    obtain ⟨bs, hbs⟩ := ih hf.2
    refine ⟨b :: bs, ?_⟩
    rw [List.mapM_cons, run_bind, hb]
    dsimp only
    rw [run_bind, hbs]
    rfl

/-- A request of an operation fails as the directory does. -/
theorem run_lift (dir : Directory) (x : Directory.Action α) :
    dir.run (liftM x : Provisioner.Action α) =
      ((dir.run x).1.mapError ProvisioningError.directory, (dir.run x).2) := by
  show (ExceptT.adapt ProvisioningError.directory x) dir = _
  unfold run
  rfl

theorem run_lift_ok {dir after : Directory} {x : Directory.Action α} {a : α}
    (h : dir.run (liftM x : Provisioner.Action α) = (.ok a, after)) :
    dir.run x = (.ok a, after) := by
  rw [run_lift] at h
  cases hrun : dir.run x with
  | mk result mid =>
    rw [hrun] at h
    cases result <;> cases h
    rfl

theorem run_lift_error {dir after : Directory} {x : Directory.Action α} {e : DirectoryError}
    (h : dir.run (liftM x : Provisioner.Action α) = (.error (.directory e), after)) :
    dir.run x = (.error e, after) := by
  rw [run_lift] at h
  cases hrun : dir.run x with
  | mk result mid =>
    rw [hrun] at h
    cases result <;> cases h
    rfl

theorem run_lift_of_ok {dir after : Directory} {x : Directory.Action α} {a : α}
    (h : dir.run x = (.ok a, after)) : dir.run (liftM x : Provisioner.Action α) = (.ok a, after) := by
  rw [run_lift, h]
  rfl

theorem run_mapM_lift {γ : Type} (dir : Directory) (xs : List γ) (f : γ → Directory.Action α) :
    dir.run (xs.mapM fun x => (liftM (f x) : Provisioner.Action α)) =
      dir.run (liftM (xs.mapM f) : Provisioner.Action (List α)) := by
  induction xs generalizing dir with
  | nil => rfl
  | cons x xs ih =>
    rw [List.mapM_cons, List.mapM_cons, run_bind, run_lift, run_lift, run_bind]
    cases dir.run (f x) with
    | mk result mid =>
      cases result with
      | error e => rfl
      | ok a =>
        dsimp only [Except.mapError]
        rw [run_bind, ih, run_lift, run_bind]
        cases mid.run (xs.mapM f) with
        | mk rest after => cases rest <;> rfl

theorem run_tryCatch (dir : Directory) (x : ExceptT ε (StateM Directory) α)
    (handle : ε → ExceptT ε (StateM Directory) α) :
    dir.run (tryCatch x handle) =
      match dir.run x with
      | (.ok a, after) => (.ok a, after)
      | (.error e, after) => after.run (handle e) := by
  unfold run
  simp only [tryCatch, tryCatchThe, MonadExceptOf.tryCatch, ExceptT.tryCatch, ExceptT.mk, bind,
    StateT.bind]
  cases x dir with
  | mk result after => cases result <;> rfl

/-! ## Computations with caches -/

open Provisioner

/-- Without a use for the caches they are handed on. -/
theorem run_cached_lift (dir : Directory) (caches : Caches) (x : Provisioner.Action α) :
    dir.run ((liftM x : Cached α).run caches) =
      match dir.run x with
      | (.ok a, after) => (.ok (a, caches), after)
      | (.error e, after) => (.error e, after) := by
  show dir.run (x >>= fun a => pure (a, caches)) = _
  rw [run_bind]
  cases dir.run x with
  | mk result after => cases result <;> rfl

/-- A look-up replaces the cache of its kind. -/
theorem run_lookUp (dir : Directory) (caches : Caches) (kind : MembershipKind)
    (query : MembershipCache → Directory.Action (α × MembershipCache)) :
    dir.run ((lookUp kind query).run caches) =
      match dir.run (query (caches.get kind)) with
      | (.ok (a, cache), after) => (.ok (a, caches.set kind cache), after)
      | (.error e, after) => (.error (.directory e), after) := by
  show dir.run ((liftM (liftM (query (caches.get kind)) : Provisioner.Action (α × MembershipCache)) :
    Cached (α × MembershipCache)).run caches >>= fun found =>
      pure (found.1.1, found.2.set kind found.1.2)) = _
  rw [run_bind, run_cached_lift, run_lift]
  cases dir.run (query (caches.get kind)) with
  | mk result after => cases result <;> rfl

end Directory

/-! ## Relations that a computation keeps -/

/-- A relation between the directories before and after some requests, as far as a composition of
requests is concerned. -/
structure Frame (R : Directory → Directory → Prop) : Prop where
  refl (dir : Directory) : R dir dir
  trans {a b c : Directory} : R a b → R b c → R a c

/-- Every run of the computation relates the directory before it to the one that it leaves. -/
def Keeps (R : Directory → Directory → Prop) (x : ExceptT ε (StateM Directory) α) : Prop :=
  ∀ dir : Directory, R dir (dir.run x).2

theorem Keeps.of_run {R : Directory → Directory → Prop} {x : ExceptT ε (StateM Directory) α}
    {dir after : Directory} {result : Except ε α} (h : Keeps R x)
    (hrun : dir.run x = (result, after)) : R dir after := by
  have hkept := h dir
  rw [hrun] at hkept
  exact hkept

namespace Frame

variable {R : Directory → Directory → Prop} (frame : Frame R)

include frame

theorem keeps_pure (a : α) : Keeps R (pure a : ExceptT ε (StateM Directory) α) :=
  fun dir => frame.refl dir

theorem keeps_throw (e : ε) : Keeps R (throw e : ExceptT ε (StateM Directory) α) :=
  fun dir => frame.refl dir

theorem keeps_get : Keeps R (get : ExceptT ε (StateM Directory) Directory) :=
  fun dir => frame.refl dir

theorem keeps_bind {x : ExceptT ε (StateM Directory) α} {f : α → ExceptT ε (StateM Directory) β}
    (hx : Keeps R x) (hf : ∀ a, Keeps R (f a)) : Keeps R (x >>= f) := by
  intro dir
  have hfirst := hx dir
  rw [Directory.run_bind]
  split
  · next a mid h =>
    rw [h] at hfirst
    exact frame.trans hfirst (hf a mid)
  · next e mid h =>
    rw [h] at hfirst
    exact hfirst

theorem keeps_tryCatch {x : ExceptT ε (StateM Directory) α}
    {handle : ε → ExceptT ε (StateM Directory) α} (hx : Keeps R x)
    (hhandle : ∀ e, Keeps R (handle e)) : Keeps R (tryCatch x handle) := by
  intro dir
  have hfirst := hx dir
  rw [Directory.run_tryCatch]
  split
  · next a mid h =>
    rw [h] at hfirst
    exact hfirst
  · next e mid h =>
    rw [h] at hfirst
    exact frame.trans hfirst (hhandle e mid)

theorem keeps_forM {xs : List α} {f : α → ExceptT ε (StateM Directory) Unit}
    (hf : ∀ x ∈ xs, Keeps R (f x)) : Keeps R (xs.forM f) := by
  induction xs with
  | nil => exact frame.keeps_pure ()
  | cons x xs ih =>
    refine frame.keeps_bind (hf x List.mem_cons_self) fun _ => ?_
    exact ih fun y hy => hf y (List.mem_cons_of_mem x hy)

theorem keeps_mapM {xs : List α} {f : α → ExceptT ε (StateM Directory) β}
    (hf : ∀ x ∈ xs, Keeps R (f x)) : Keeps R (xs.mapM f) := by
  induction xs with
  | nil => exact frame.keeps_pure []
  | cons x xs ih =>
    rw [List.mapM_cons]
    refine frame.keeps_bind (hf x List.mem_cons_self) fun _ => ?_
    refine frame.keeps_bind (ih fun y hy => hf y (List.mem_cons_of_mem x hy)) fun _ => ?_
    exact frame.keeps_pure _

end Frame

/-- What the requests of a directory keep, an operation keeps that makes them. -/
theorem Keeps.lift {R : Directory → Directory → Prop} {x : Directory.Action α} (hx : Keeps R x) :
    Keeps R (liftM x : Provisioner.Action α) := by
  intro dir
  rw [Directory.run_lift]
  exact hx dir

theorem Keeps.cached_lift {R : Directory → Directory → Prop} {x : Provisioner.Action α}
    (hx : Keeps R x) (caches : Provisioner.Caches) :
    Keeps R ((liftM x : Provisioner.Cached α).run caches) := by
  intro dir
  have h := hx dir
  rw [Directory.run_cached_lift]
  split <;> next hrun => rw [hrun] at h; exact h

theorem keeps_lookUp {R : Directory → Directory → Prop} {kind : MembershipKind}
    {query : MembershipCache → Directory.Action (α × MembershipCache)}
    (hquery : ∀ cache, Keeps R (query cache)) (caches : Provisioner.Caches) :
    Keeps R ((Provisioner.lookUp kind query).run caches) := by
  intro dir
  have hq := hquery (caches.get kind) dir
  rw [Directory.run_lookUp]
  split <;> next h => rw [h] at hq; exact hq

/-! ## How a computation can end -/

/-- Every run ends in a result with one property or in a failure with another. -/
def Ends (S : α → Prop) (E : ε → Prop) (x : ExceptT ε (StateM Directory) α) : Prop :=
  ∀ dir : Directory, match (dir.run x).1 with
    | .ok a => S a
    | .error e => E e

namespace Ends

variable {S : α → Prop} {T : β → Prop} {E F : ε → Prop}

theorem pure {a : α} (h : S a) : Ends S E (Pure.pure a : ExceptT ε (StateM Directory) α) :=
  fun _ => h

theorem throw {e : ε} (h : E e) :
    Ends S E (MonadExcept.throw e : ExceptT ε (StateM Directory) α) :=
  fun _ => h

theorem of_run_ok {x : ExceptT ε (StateM Directory) α} {dir after : Directory} {a : α}
    (h : Ends S E x) (hrun : dir.run x = (.ok a, after)) : S a := by
  have hend := h dir
  rw [hrun] at hend
  exact hend

theorem of_run_error {x : ExceptT ε (StateM Directory) α} {dir after : Directory} {e : ε}
    (h : Ends S E x) (hrun : dir.run x = (.error e, after)) : E e := by
  have hend := h dir
  rw [hrun] at hend
  exact hend

theorem get : Ends (fun _ => True) E (MonadState.get : ExceptT ε (StateM Directory) Directory) :=
  fun _ => trivial

theorem bind {x : ExceptT ε (StateM Directory) α} {f : α → ExceptT ε (StateM Directory) β}
    (hx : Ends S E x) (hf : ∀ a, S a → Ends T E (f a)) : Ends T E (x >>= f) := by
  intro dir
  have hfirst := hx dir
  rw [Directory.run_bind]
  cases hrun : dir.run x with
  | mk result mid =>
    rw [hrun] at hfirst
    cases result with
    | ok a => exact hf a hfirst mid
    | error e => exact hfirst

theorem mono {x : ExceptT ε (StateM Directory) α} {S' : α → Prop} (hx : Ends S E x)
    (hS : ∀ a, S a → S' a) (hE : ∀ e, E e → F e) : Ends S' F x := by
  intro dir
  have h := hx dir
  cases hrun : (dir.run x).1 with
  | ok a =>
    rw [hrun] at h
    exact hS a h
  | error e =>
    rw [hrun] at h
    exact hE e h

theorem forM {xs : List α} {f : α → ExceptT ε (StateM Directory) Unit}
    (hf : ∀ x ∈ xs, Ends (fun _ => True) E (f x)) : Ends (fun _ => True) E (xs.forM f) := by
  induction xs with
  | nil => exact pure trivial
  | cons x xs ih =>
    refine bind (hf x List.mem_cons_self) fun _ _ => ?_
    exact ih fun y hy => hf y (List.mem_cons_of_mem x hy)

theorem mapM {xs : List α} {f : α → ExceptT ε (StateM Directory) β}
    (hf : ∀ x ∈ xs, Ends (fun _ => True) E (f x)) : Ends (fun _ => True) E (xs.mapM f) := by
  induction xs with
  | nil => exact pure trivial
  | cons x xs ih =>
    rw [List.mapM_cons]
    refine bind (hf x List.mem_cons_self) fun _ _ => ?_
    refine bind (ih fun y hy => hf y (List.mem_cons_of_mem x hy)) fun _ _ => ?_
    exact pure trivial

/-- Each result of a loop is one of an element. -/
theorem mapM_mem {T : α → β → Prop} {xs : List α} {f : α → ExceptT ε (StateM Directory) β}
    (hf : ∀ x ∈ xs, Ends (T x) E (f x)) :
    Ends (fun ys => ∀ y ∈ ys, ∃ x ∈ xs, T x y) E (xs.mapM f) := by
  induction xs with
  | nil => exact pure nofun
  | cons x xs ih =>
    rw [List.mapM_cons]
    refine bind (hf x List.mem_cons_self) fun y hy => ?_
    refine bind (ih fun z hz => hf z (List.mem_cons_of_mem x hz)) fun ys hys => pure ?_
    rw [List.forall_mem_cons]
    refine ⟨⟨x, List.mem_cons_self, hy⟩, fun z hz => ?_⟩
    obtain ⟨x', hx', hT⟩ := hys z hz
    exact ⟨x', List.mem_cons_of_mem x hx', hT⟩

theorem cached_lift {x : Provisioner.Action α} {E : ProvisioningError → Prop} (hx : Ends S E x)
    (caches : Provisioner.Caches) :
    Ends (fun found : α × Provisioner.Caches => S found.1) E
      ((liftM x : Provisioner.Cached α).run caches) :=
  bind hx fun _ h => pure h

end Ends

/-- What comes after a computation may use what is known of its result. -/
theorem Frame.keeps_bind_of_ends {R : Directory → Directory → Prop} (frame : Frame R)
    {x : ExceptT ε (StateM Directory) α} {f : α → ExceptT ε (StateM Directory) β} {S : α → Prop}
    {E : ε → Prop} (hx : Keeps R x) (hends : Ends S E x) (hf : ∀ a, S a → Keeps R (f a)) :
    Keeps R (x >>= f) := by
  intro dir
  have hfirst := hx dir
  have hend := hends dir
  rw [Directory.run_bind]
  cases hrun : dir.run x with
  | mk result mid =>
    rw [hrun] at hfirst hend
    cases result with
    | error e => exact hfirst
    | ok a => exact frame.trans hfirst (hf a hend mid)

/-- A request can only fail as the directory does. -/
theorem ends_lift (x : Directory.Action α) {E : ProvisioningError → Prop}
    (hE : ∀ e, E (.directory e)) : Ends (fun _ => True) E (liftM x : Provisioner.Action α) := by
  intro dir
  rw [Directory.run_lift]
  cases (dir.run x).1 with
  | ok a => exact trivial
  | error e => exact hE e

theorem ends_lookUp (kind : MembershipKind)
    (query : MembershipCache → Directory.Action (α × MembershipCache))
    (caches : Provisioner.Caches) {E : ProvisioningError → Prop} (hE : ∀ e, E (.directory e)) :
    Ends (fun _ => True) E ((Provisioner.lookUp kind query).run caches) := by
  intro dir
  rw [Directory.run_lookUp]
  cases dir.run (query (caches.get kind)) with
  | mk result after =>
    cases result with
    | ok a => exact trivial
    | error e => exact hE e

/-! ## A small setting for instances -/

namespace Sample

/-- The name of an entry right below the base context `dc=x`. -/
def name (type value : String) : Dn :=
  ⟨[.single type value, .single "dc" "x"]⟩

/-- A provisioner for `dc=x`, for which names are identifiers. -/
def provisioner : Provisioner where
  configuration :=
    { baseContexts := ["dc=x"], uidAttribute := "entryDN", gidAttribute := "entryDN" }
  bases := [⟨[.single "dc" "x"]⟩]
  algorithm := .plain
  status := .ignore
  supply := ⟨fun _ => "id", fun _ => "now", fun _ => [], fun _ _ => 0⟩

/-- A directory with some entries. -/
def directory (entries : List (Dn × List (String × List String))) : Directory :=
  entries.foldl (fun dir e => dir.seed ⟨e.1, .ofList e.2⟩) .empty

end Sample

end Roster
