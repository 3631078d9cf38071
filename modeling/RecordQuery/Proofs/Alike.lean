import RecordQuery.Proofs.Outcome
/-!
# Runs that end alike

Two runs of a program on related data are compared step by step. `Alike E R` says that either both
succeed, with results that `R` relates, or both fail, with errors that `E` relates. It goes through
sequences of steps and passes over lists, so that a comparison of whole runs needs only their single
steps.
-/

namespace RecordQuery

variable {ε ε' α α' β β' : Type}

/-- Both runs succeed with related results, or both fail with related errors. -/
inductive Alike (E : ε → ε' → Prop) (R : α → α' → Prop) : Except ε α → Except ε' α' → Prop
  | ok {a : α} {a' : α'} : R a a' → Alike E R (.ok a) (.ok a')
  | error {e : ε} {e' : ε'} : E e e' → Alike E R (.error e) (.error e')

/-- Whatever the errors are. -/
def AnyErrors (_ : ε) (_ : ε') : Prop :=
  True

namespace Alike

variable {E : ε → ε' → Prop} {R : α → α' → Prop} {S : β → β' → Prop} {x : Except ε α}
  {x' : Except ε' α'}

/-- A run ends as it ends. -/
theorem refl {E : ε → ε → Prop} {R : α → α → Prop} (hE : ∀ e, E e e) (hR : ∀ a, R a a)
    (x : Except ε α) : Alike E R x x := by
  cases x with
  | ok a => exact .ok (hR a)
  | error e => exact .error (hE e)

/-- A run is alike to itself when errors do not matter. -/
theorem same (x : Except ε α) : Alike AnyErrors Eq x x :=
  refl (fun _ => trivial) (fun _ => rfl) x

/-- Runs that fail end alike when errors do not matter. -/
theorem failed {e : ε} {e' : ε'} : Alike AnyErrors R (.error e) (.error e') :=
  .error trivial

theorem imp {R' : α → α' → Prop} (hR : ∀ a a', R a a' → R' a a') (h : Alike E R x x') :
    Alike E R' x x' := by
  cases h with
  | ok ha => exact .ok (hR _ _ ha)
  | error he => exact .error he

/-- Steps that go on alike from related results. -/
theorem bind {f : α → Except ε β} {f' : α' → Except ε' β'} (hx : Alike E R x x')
    (hf : ∀ a a', R a a' → Alike E S (f a) (f' a')) : Alike E S (x >>= f) (x' >>= f') := by
  cases hx with
  | ok ha => exact hf _ _ ha
  | error he => exact .error he

/-- Steps that go on alike from the same results. -/
theorem bind_eq {x' : Except ε' α} {f : α → Except ε β} {f' : α → Except ε' β'}
    (hx : Alike E Eq x x') (hf : ∀ a, Alike E S (f a) (f' a)) :
    Alike E S (x >>= f) (x' >>= f') := by
  apply hx.bind
  rintro a _ rfl
  exact hf a

theorem map {f : α → β} {f' : α' → β'} (hx : Alike E R x x')
    (hf : ∀ a a', R a a' → S (f a) (f' a')) : Alike E S (x.map f) (x'.map f') := by
  cases hx with
  | ok ha => exact .ok (hf _ _ ha)
  | error he => exact .error he

/-- Lifting errors does not matter when errors do not. -/
theorem liftFault {x : Except Fault α} {x' : Except Fault α'} (h : Alike AnyErrors R x x') :
    Alike AnyErrors R (RecordQuery.liftFault x) (RecordQuery.liftFault x') := by
  cases h with
  | ok ha => exact .ok ha
  | error => exact .failed

theorem liftFilter {x : Except FilterError α} {x' : Except FilterError α'}
    (h : Alike AnyErrors R x x') :
    Alike AnyErrors R (RecordQuery.liftFilter x) (RecordQuery.liftFilter x') := by
  cases h with
  | ok ha => exact .ok ha
  | error => exact .failed

/-- Passes over lists whose items are gone through alike, one by one. -/
theorem mapM_forall₂ {γ γ' : Type} {f : γ → Except ε α} {f' : γ' → Except ε' α} {xs : List γ}
    {xs' : List γ'} (h : List.Forall₂ (fun x x' => Alike E Eq (f x) (f' x')) xs xs') :
    Alike E Eq (xs.mapM f) (xs'.mapM f') := by
  induction h with
  | nil => exact .ok rfl
  | cons hx _ ih =>
      rw [List.mapM_cons, List.mapM_cons]
      refine hx.bind_eq fun a => ?_
      exact ih.bind fun as _ has => .ok (congrArg _ has)

/-- Passes over a list whose items are gone through alike. -/
theorem mapM {γ : Type} {f : γ → Except ε α} {f' : γ → Except ε' α} {xs : List γ}
    (h : ∀ x ∈ xs, Alike E Eq (f x) (f' x)) : Alike E Eq (xs.mapM f) (xs.mapM f') :=
  mapM_forall₂ (List.forall₂_same.mpr h)

/-- Of runs that end alike both have a result, or neither has. -/
theorem exists_ok_iff (h : Alike E R x x') : (∃ a, x = .ok a) ↔ ∃ a', x' = .ok a' := by
  cases h with
  | ok => exact iff_of_true ⟨_, rfl⟩ ⟨_, rfl⟩
  | error => simp

/-- Runs that end alike give the same results, where related results are the same. -/
theorem ok_iff {x : Except ε α} {x' : Except ε' α} (h : Alike E Eq x x') (a : α) :
    x = .ok a ↔ x' = .ok a := by
  cases h with
  | ok ha => rw [ha, Except.ok.injEq, Except.ok.injEq]
  | error => simp

end Alike

end RecordQuery
