import Mathlib.Data.List.Forall2
import RecordQuery.Error
/-!
# Computations that may fail

When a computation that may fail succeeds: a sequence of steps succeeds when each step does, and a
pass over a list when every item does. `mapM_eq_ok_iff` gives the second as a relation between the
items and their results. `Errs` is what all errors of a computation have in common; it goes through
sequences of steps and passes over lists.
-/

namespace RecordQuery

variable {ε α β : Type}

/-- What follows a success goes on with its result. -/
@[simp] theorem ok_bind (a : α) (f : α → Except ε β) :
    ((Except.ok a : Except ε α) >>= f) = f a := rfl

/-- Nothing follows a failure. -/
@[simp] theorem error_bind (e : ε) (f : α → Except ε β) :
    ((Except.error e : Except ε α) >>= f) = .error e := rfl

/-- A returned result is a success. -/
@[simp] theorem pure_eq_ok (a : α) : (pure a : Except ε α) = .ok a := rfl

/-- Two steps succeed when the first does and the second does on its result. -/
theorem bind_eq_ok_iff {x : Except ε α} {f : α → Except ε β} {b : β} :
    (x >>= f) = .ok b ↔ ∃ a, x = .ok a ∧ f a = .ok b := by
  cases x with
  | error e => simp
  | ok a => simp

/-- Two steps fail when the first does, or the second does on its result. -/
theorem bind_eq_error_iff {x : Except ε α} {f : α → Except ε β} {e : ε} :
    (x >>= f) = .error e ↔ x = .error e ∨ ∃ a, x = .ok a ∧ f a = .error e := by
  cases x with
  | error e => simp
  | ok a => simp

/-- A mapped computation succeeds when the computation does. -/
theorem map_eq_ok_iff {x : Except ε α} {f : α → β} {b : β} :
    x.map f = .ok b ↔ ∃ a, x = .ok a ∧ f a = b := by
  cases x with
  | error e => simp [Except.map]
  | ok a => simp [Except.map]

/-- A mapped computation fails as the computation does. -/
theorem map_eq_error_iff {x : Except ε α} {f : α → β} {e : ε} :
    x.map f = .error e ↔ x = .error e := by
  cases x with
  | error e => simp [Except.map]
  | ok a => simp [Except.map]

/-- A mapped computation has a result when the computation has. -/
theorem exists_map_iff {x : Except ε α} {f : α → β} :
    (∃ b, x.map f = .ok b) ↔ ∃ a, x = .ok a := by
  cases x with
  | error e => simp [Except.map]
  | ok a => simp [Except.map]

/-- A step after which its result is only put together has a result when the step has. -/
theorem exists_bind_pure_iff {x : Except ε α} {f : α → β} :
    (∃ b, (x >>= fun a => pure (f a)) = .ok b) ↔ ∃ a, x = .ok a := by
  cases x with
  | error e => simp
  | ok a => simp

/-- Mapping the result of two steps is mapping the result of the second. -/
theorem map_bind {γ : Type} (x : Except ε α) (f : α → Except ε β) (g : β → γ) :
    (x >>= f).map g = x >>= fun a => (f a).map g := by
  cases x with
  | error e => rfl
  | ok a => rfl

/-- A pass over a list succeeds when every item does, and gives their results in order. -/
theorem mapM_eq_ok_iff {f : α → Except ε β} {xs : List α} {ys : List β} :
    xs.mapM f = .ok ys ↔ List.Forall₂ (fun x y => f x = .ok y) xs ys := by
  induction xs generalizing ys with
  | nil =>
      rw [List.mapM_nil, pure_eq_ok, List.forall₂_nil_left_iff]
      constructor
      · intro h
        exact (Except.ok.inj h).symm
      · intro h
        rw [h]
  | cons x xs ih =>
      rw [List.mapM_cons, bind_eq_ok_iff, List.forall₂_cons_left_iff]
      constructor
      · rintro ⟨y, hy, h⟩
        obtain ⟨zs, hzs, h⟩ := bind_eq_ok_iff.mp h
        exact ⟨y, zs, hy, ih.mp hzs, (Except.ok.inj h).symm⟩
      · rintro ⟨y, zs, hy, hzs, rfl⟩
        exact ⟨y, hy, by rw [ih.mpr hzs]; rfl⟩

/-- A pass over a list succeeds when every item does. -/
theorem exists_mapM_iff {f : α → Except ε β} {xs : List α} :
    (∃ ys, xs.mapM f = .ok ys) ↔ ∀ x ∈ xs, ∃ y, f x = .ok y := by
  simp only [mapM_eq_ok_iff]
  induction xs with
  | nil => exact iff_of_true ⟨[], .nil⟩ (by simp)
  | cons x xs ih =>
      rw [List.forall_mem_cons, ← ih]
      constructor
      · rintro ⟨ys, hys⟩
        cases hys with
        | cons hxy hrest => exact ⟨⟨_, hxy⟩, _, hrest⟩
      · rintro ⟨⟨y, hxy⟩, ys, hrest⟩
        exact ⟨y :: ys, .cons hxy hrest⟩

/-- A pass over a list fails when one of its items does. -/
theorem exists_mem_of_mapM_eq_error {f : α → Except ε β} {xs : List α} {e : ε}
    (h : xs.mapM f = .error e) : ∃ x ∈ xs, f x = .error e := by
  induction xs with
  | nil => exact absurd h (by simp)
  | cons x rest ih =>
      rw [List.mapM_cons] at h
      rcases bind_eq_error_iff.mp h with hx | ⟨y, -, h⟩
      · exact ⟨x, List.mem_cons_self, hx⟩
      · rcases bind_eq_error_iff.mp h with hrest | ⟨ys, -, h⟩
        · obtain ⟨z, hz, hfz⟩ := ih hrest
          exact ⟨z, List.mem_cons_of_mem x hz, hfz⟩
        · exact absurd h (by simp)

/-- When every item is related to its result, so are the items and the results of a pass. -/
theorem forall₂_of_mapM {γ : Type} {f : α → Except ε β} {g : α → γ} {R : β → γ → Prop}
    {xs : List α} {ys : List β} (hR : ∀ x ∈ xs, ∀ y, f x = .ok y → R y (g x))
    (h : xs.mapM f = .ok ys) : List.Forall₂ R ys (xs.map g) := by
  have hpairs := mapM_eq_ok_iff.mp h
  clear h
  induction hpairs with
  | nil => exact .nil
  | cons hxy _ ih =>
      exact .cons (hR _ List.mem_cons_self _ hxy) (ih fun x hx => hR x (List.mem_cons_of_mem _ hx))

/-- In related lists every item of the second is related to an item of the first. -/
theorem exists_mem_of_forall₂ {R : α → β → Prop} {xs : List α} {ys : List β}
    (h : List.Forall₂ R xs ys) {y : β} (hy : y ∈ ys) : ∃ x ∈ xs, R x y := by
  induction h with
  | nil => exact absurd hy List.not_mem_nil
  | cons hxy _ ih =>
      rcases List.mem_cons.mp hy with rfl | hy
      · exact ⟨_, List.mem_cons_self, hxy⟩
      · obtain ⟨x, hx, hxy⟩ := ih hy
        exact ⟨x, List.mem_cons_of_mem _ hx, hxy⟩

/-- What holds of the result of every item holds of all results of a pass. -/
theorem forall_mem_of_mapM {f : α → Except ε β} {P : β → Prop} {xs : List α} {ys : List β}
    (hP : ∀ x ∈ xs, ∀ y, f x = .ok y → P y) (h : xs.mapM f = .ok ys) : ∀ y ∈ ys, P y := by
  intro y hy
  obtain ⟨x, hx, hxy⟩ := exists_mem_of_forall₂ (mapM_eq_ok_iff.mp h) hy
  exact hP x hx y hxy

/-- When related items agree in a property, so do related lists. -/
theorem forall_mem_iff_of_forall₂ {P : α → Prop} {Q : β → Prop} {xs : List α} {ys : List β}
    (h : List.Forall₂ (fun x y => Q y ↔ P x) xs ys) : (∀ y ∈ ys, Q y) ↔ ∀ x ∈ xs, P x := by
  induction h with
  | nil => simp
  | cons hxy _ ih => rw [List.forall_mem_cons, List.forall_mem_cons, ih, hxy]

/-- When every item agrees with its result in a property, so do the items and the results of a
pass. -/
theorem forall_mem_iff_of_mapM {f : α → Except ε β} {P : α → Prop} {Q : β → Prop} {xs : List α}
    {ys : List β} (hPQ : ∀ x ∈ xs, ∀ y, f x = .ok y → (Q y ↔ P x)) (h : xs.mapM f = .ok ys) :
    (∀ y ∈ ys, Q y) ↔ ∀ x ∈ xs, P x := by
  refine forall_mem_iff_of_forall₂ ?_
  have hpairs := (List.forall₂_and_left _ _).mpr ⟨hPQ, mapM_eq_ok_iff.mp h⟩
  exact hpairs.imp fun _ _ hpair => hpair.1 _ hpair.2

/-- Related lists have equal images when related items have. -/
theorem map_eq_map_of_forall₂ {γ : Type} {R : α → β → Prop} {f : α → γ} {g : β → γ}
    (hR : ∀ x y, R x y → f x = g y) {xs : List α} {ys : List β} (h : List.Forall₂ R xs ys) :
    xs.map f = ys.map g := by
  induction h with
  | nil => rfl
  | cons hxy _ ih => rw [List.map_cons, List.map_cons, hR _ _ hxy, ih]

/-- Items are related to images of what they are related to, item by item or as a list. -/
theorem forall₂_exists_iff {γ : Type} {R : α → β → Prop} {f : β → γ} {xs : List α} {zs : List γ} :
    List.Forall₂ (fun x z => ∃ y, R x y ∧ f y = z) xs zs ↔
      ∃ ys, List.Forall₂ R xs ys ∧ ys.map f = zs := by
  induction xs generalizing zs with
  | nil => simp
  | cons x rest ih =>
      rw [List.forall₂_cons_left_iff]
      constructor
      · rintro ⟨z, later, ⟨y, hy, rfl⟩, hlater, rfl⟩
        obtain ⟨ys, hys, rfl⟩ := ih.mp hlater
        exact ⟨y :: ys, .cons hy hys, rfl⟩
      · rintro ⟨ys, hys, rfl⟩
        obtain ⟨y, later, hy, hlater, rfl⟩ := List.forall₂_cons_left_iff.mp hys
        exact ⟨f y, later.map f, ⟨y, hy, rfl⟩, ih.mpr ⟨later, hlater, rfl⟩, rfl⟩

/-- A lifted computation succeeds when the computation does. -/
theorem liftFault_eq_ok_iff {α : Type} {x : Except Fault α} {a : α} :
    liftFault x = .ok a ↔ x = .ok a := by
  cases x with
  | error f => simp [liftFault]
  | ok b => simp [liftFault]

theorem liftFilter_eq_ok_iff {α : Type} {x : Except FilterError α} {a : α} :
    liftFilter x = .ok a ↔ x = .ok a := by
  cases x with
  | error e => simp [liftFilter]
  | ok b => simp [liftFilter]

/-! ## Errors of runs -/

/-- Every error of the run has a property. -/
def Errs (P : ε → Prop) (x : Except ε α) : Prop :=
  ∀ e, x = .error e → P e

namespace Errs

variable {P Q : ε → Prop}

theorem ok (a : α) : Errs P (.ok a : Except ε α) :=
  fun _ he => absurd he (by simp)

theorem error {e : ε} (h : P e) : Errs P (.error e : Except ε α) := by
  intro e' he
  rwa [← Except.error.inj he]

theorem imp {x : Except ε α} (h : Errs P x) (hPQ : ∀ e, P e → Q e) : Errs Q x :=
  fun e he => hPQ e (h e he)

theorem map {x : Except ε α} (h : Errs P x) (f : α → β) : Errs P (x.map f) :=
  fun e he => h e (map_eq_error_iff.mp he)

theorem bind {x : Except ε α} {f : α → Except ε β} (hx : Errs P x) (hf : ∀ a, Errs P (f a)) :
    Errs P (x >>= f) := by
  intro e he
  rcases bind_eq_error_iff.mp he with hfirst | ⟨a, -, hsecond⟩
  · exact hx e hfirst
  · exact hf a e hsecond

theorem mapM {f : α → Except ε β} {xs : List α} (h : ∀ x ∈ xs, Errs P (f x)) :
    Errs P (xs.mapM f) := by
  intro e he
  obtain ⟨x, hx, hfx⟩ := exists_mem_of_mapM_eq_error he
  exact h x hx e hfx

end Errs

end RecordQuery
