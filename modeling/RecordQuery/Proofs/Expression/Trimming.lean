import RecordQuery.Proofs.Expression.Preservation
/-!
# Leaving operands out of expressions

Operands are left out of a join, and out of the joins inside it. `Trimmed quiet es es'` compares the
operands before and after: in the quiet case those that make a demand are the same, and otherwise the
written forms that are left are shorter altogether. Joining keeps this, so that the written form of a
whole expression tells which of the two it was.
-/

namespace RecordQuery.Expr

/-! ## Lengths of written forms -/

/-- A blank expression is written as nothing. -/
theorem render_of_isBlank {e : Expr} (h : e.isBlank = true) : e.render = "" := by
  cases e with
  | atom fragment => exact String.isEmpty_iff.mp h
  | negation operand => exact absurd h (by simp [isBlank])
  | join c operands => exact absurd h (by simp [isBlank])

/-- What a join adds to the lengths of so many texts: parentheses, and the word between any two. -/
def joinLength (word : String) : Nat → Nat
  | 0 => 0
  | 1 => 0
  | n + 2 => 4 + (n + 1) * (word.length + 2)

theorem joinLength_mono (word : String) {m n : Nat} (h : m ≤ n) :
    joinLength word m ≤ joinLength word n := by
  match m, n, h with
  | 0, _, _ => exact Nat.zero_le _
  | 1, _, _ => exact Nat.zero_le _
  | m + 2, n + 2, h =>
      exact Nat.add_le_add_left (Nat.mul_le_mul_right _ (Nat.le_of_succ_le_succ h)) 4

theorem length_intercalate_cons (separator first : String) (rest : List String) :
    (separator.intercalate (first :: rest)).length =
      (String.join (first :: rest)).length + rest.length * separator.length := by
  induction rest generalizing first with
  | nil => simp
  | cons next rest ih =>
      rw [String.intercalate_cons_cons, String.length_append, String.length_append, ih,
        @String.join_cons first, String.length_append, List.length_cons, Nat.succ_mul]
      omega

theorem length_parenthesize (word : String) (texts : List String) :
    (parenthesize word texts).length =
      (String.join texts).length + joinLength word texts.length := by
  match texts with
  | [] => rfl
  | [text] => simp [parenthesize, joinLength]
  | first :: second :: rest =>
      have hspace : " ".length = 1 := rfl
      have hopen : "( ".length = 2 := rfl
      have hclose : " )".length = 2 := rfl
      have hseparator : (" " ++ word ++ " ").length = word.length + 2 := by
        rw [String.length_append, String.length_append, hspace]
        omega
      have hjoin : joinLength word (first :: second :: rest).length =
          4 + (second :: rest).length * (word.length + 2) := rfl
      have hwritten : parenthesize word (first :: second :: rest) =
          "( " ++ (" " ++ word ++ " ").intercalate (first :: second :: rest) ++ " )" := rfl
      rw [hwritten, String.length_append, String.length_append, length_intercalate_cons, hseparator,
        hopen, hclose, hjoin]
      omega

/-- The length of the written forms of expressions, one after the other. -/
def size (es : List Expr) : Nat :=
  (String.join (es.map render)).length

theorem size_singleton (e : Expr) : size [e] = e.render.length := by
  rw [size, List.map_singleton, String.join_cons, String.join_nil, String.append_empty]

theorem size_append (es fs : List Expr) : size (es ++ fs) = size es + size fs := by
  rw [size, List.map_append, String.join_append, String.length_append, size, size]

theorem size_cons (e : Expr) (es : List Expr) : size (e :: es) = e.render.length + size es := by
  rw [← List.singleton_append, size_append, size_singleton]

/-- Blank expressions do not count. -/
theorem size_demanding (es : List Expr) : size (demanding es) = size es := by
  induction es with
  | nil => rfl
  | cons e rest ih =>
      rw [size_cons, ← ih, demanding, List.filter_cons]
      cases hblank : e.isBlank with
      | true => rw [render_of_isBlank hblank]; exact (Nat.zero_add _).symm
      | false => exact size_cons e _

theorem length_render_joined (c : Connective) (operands : List Expr) :
    (joined c operands).render.length = size operands + joinLength c.keyword operands.length := by
  rw [render_joined, length_parenthesize, List.length_map, size]

theorem length_render_joinDemands (c : Connective) (operands : List Expr) :
    (joinDemands c operands).render.length =
      size operands + joinLength c.keyword (demanding operands).length := by
  rw [joinDemands_eq, length_render_joined, size_demanding]

theorem length_render_refuseAll (operands : List Expr) :
    (refuseAll operands).render.length =
      size operands + 4 * (demanding operands).length +
        joinLength Connective.and.keyword (demanding operands).length := by
  have hnegations : ∀ es : List Expr, size (es.map .negation) = size es + 4 * es.length := by
    intro es
    induction es with
    | nil => rfl
    | cons e rest ih =>
        have hword : "NOT ".length = 4 := rfl
        rw [List.map_cons, size_cons, size_cons, ih, List.length_cons, render, String.length_append,
          hword]
        omega
  rw [refuseAll_eq, length_render_joined, hnegations, List.length_map, size_demanding]

/-! ## Trimmed operands -/

/-- Operands before and after some have been left out: in the quiet case the same operands make a
demand, and otherwise what is left is shorter, and not more of it makes a demand. -/
structure Trimmed (quiet : Prop) (es es' : List Expr) : Prop where
  same : quiet → demanding es = demanding es'
  shorter : ¬quiet → size es' < size es
  fewer : ¬quiet → (demanding es').length ≤ (demanding es).length

namespace Trimmed

variable {quiet other : Prop} {es es' fs fs' : List Expr}

theorem size_le (h : Trimmed quiet es es') : size es' ≤ size es := by
  by_cases hquiet : quiet
  · exact Nat.le_of_eq (by rw [← size_demanding, ← h.same hquiet, size_demanding])
  · exact Nat.le_of_lt (h.shorter hquiet)

theorem length_demanding_le (h : Trimmed quiet es es') :
    (demanding es').length ≤ (demanding es).length := by
  by_cases hquiet : quiet
  · exact Nat.le_of_eq (by rw [h.same hquiet])
  · exact h.fewer hquiet

theorem congr (h : Trimmed quiet es es') (hiff : quiet ↔ other) : Trimmed other es es' :=
  propext hiff ▸ h

theorem refl (es : List Expr) : Trimmed True es es :=
  ⟨fun _ => rfl, fun h => absurd trivial h, fun h => absurd trivial h⟩

theorem append (h : Trimmed quiet es es') (k : Trimmed other fs fs') :
    Trimmed (quiet ∧ other) (es ++ fs) (es' ++ fs') where
  same hboth := by
    rw [demanding, demanding, List.filter_append, List.filter_append]
    exact congrArg₂ _ (h.same hboth.1) (k.same hboth.2)
  shorter hnot := by
    rw [size_append, size_append]
    by_cases hquiet : quiet
    · have hlt := k.shorter fun hother => hnot ⟨hquiet, hother⟩
      exact Nat.add_lt_add_of_le_of_lt h.size_le hlt
    · exact Nat.add_lt_add_of_lt_of_le (h.shorter hquiet) k.size_le
  fewer _ := by
    rw [demanding, demanding, List.filter_append, List.filter_append, List.length_append,
      List.length_append]
    exact Nat.add_le_add h.length_demanding_le k.length_demanding_le

/-- An expression that makes a demand only when the longer one does. -/
theorem singleton {e e' : Expr} (hsame : quiet → e = e')
    (hshorter : ¬quiet → e'.render.length < e.render.length) : Trimmed quiet [e] [e'] where
  same hquiet := by rw [hsame hquiet]
  shorter hnot := by rw [size_singleton, size_singleton]; exact hshorter hnot
  fewer hnot := by
    have hdemand : e.isBlank = false := by
      by_contra hblank
      have hlt := hshorter hnot
      rw [render_of_isBlank ((Bool.not_eq_false _).mp hblank)] at hlt
      exact absurd hlt (Nat.not_lt_zero _)
    have hkept : demanding [e] = [e] := by rw [demanding, List.filter_singleton, hdemand]; rfl
    rw [hkept]
    exact List.length_filter_le _ [e']

/-- An expression that is left out makes no demand in the quiet case, and is written in the other. -/
theorem dropped {e : Expr} (hblank : quiet → e.isBlank = true)
    (hwritten : ¬quiet → 0 < e.render.length) : Trimmed quiet [e] [] where
  same hquiet := by rw [demanding, List.filter_singleton, hblank hquiet]; rfl
  shorter hnot := by rw [size_singleton]; exact hwritten hnot
  fewer _ := Nat.zero_le _

/-- Joining what makes a demand. -/
theorem joinDemands (h : Trimmed quiet es es') (c : Connective) :
    Trimmed quiet [Expr.joinDemands c es] [Expr.joinDemands c es'] := by
  refine singleton (fun hquiet => ?_) fun hnot => ?_
  · rw [joinDemands_eq, joinDemands_eq, h.same hquiet]
  · rw [length_render_joinDemands, length_render_joinDemands]
    exact Nat.add_lt_add_of_lt_of_le (h.shorter hnot) (joinLength_mono _ h.length_demanding_le)

/-- Refusing what makes a demand. -/
theorem refuseAll (h : Trimmed quiet es es') :
    Trimmed quiet [RecordQuery.refuseAll es] [RecordQuery.refuseAll es'] := by
  refine singleton (fun hquiet => ?_) fun hnot => ?_
  · rw [refuseAll_eq, refuseAll_eq, h.same hquiet]
  · rw [length_render_refuseAll, length_render_refuseAll]
    have hsize := h.shorter hnot
    have hcount := h.length_demanding_le
    have hjoin := joinLength_mono Connective.and.keyword hcount
    omega

/-- The written form tells whether the case was the quiet one. -/
theorem render_eq_iff {e e' : Expr} (h : Trimmed quiet [e] [e']) : e.render = e'.render ↔ quiet := by
  constructor
  · intro heq
    by_contra hnot
    have hlt := h.shorter hnot
    rw [size_singleton, size_singleton, heq] at hlt
    exact absurd hlt (Nat.lt_irrefl _)
  · intro hquiet
    -- a blank expression is written like the join of nothing, and any other stands by itself
    have hjoin : ∀ d : Expr, (joined .and (demanding [d])).render = d.render := by
      intro d
      rw [demanding, List.filter_singleton]
      cases hblank : d.isBlank with
      | true => rw [render_of_isBlank hblank]; rfl
      | false => rfl
    rw [← hjoin e, h.same hquiet, hjoin]

/-! ## Passes over lists -/

variable {ε ι : Type} {f f' : ι → Except ε Expr} {calm : ι → Prop} {xs : List ι}

/-- Items that are trimmed one by one. -/
theorem mapM (h : ∀ x ∈ xs, ∀ e, f x = .ok e → ∃ e', f' x = .ok e' ∧ Trimmed (calm x) [e] [e'])
    (hes : xs.mapM f = .ok es) :
    ∃ es', xs.mapM f' = .ok es' ∧ Trimmed (∀ x ∈ xs, calm x) es es' := by
  have hpairs := mapM_eq_ok_iff.mp hes
  clear hes
  induction hpairs with
  | nil => exact ⟨[], rfl, (refl []).congr (by simp)⟩
  | @cons x e xs es hx _ ih =>
      rw [List.forall_mem_cons] at h
      obtain ⟨e', he', htrimmed⟩ := h.1 e hx
      obtain ⟨es', hes', hrest⟩ := ih h.2
      refine ⟨e' :: es', ?_, (htrimmed.append hrest).congr List.forall_mem_cons.symm⟩
      rw [List.mapM_cons, he', ok_bind, hes', ok_bind, pure_eq_ok]

/-- Items of which some are left out. -/
theorem filter {keep : ι → Bool} (hkept : ∀ x ∈ xs, keep x = true → calm x)
    (hdropped : ∀ x ∈ xs, keep x = false → ∀ e, f x = .ok e → Trimmed (calm x) [e] [])
    (hes : xs.mapM f = .ok es) :
    ∃ es', (xs.filter keep).mapM f = .ok es' ∧ Trimmed (∀ x ∈ xs, calm x) es es' := by
  have hpairs := mapM_eq_ok_iff.mp hes
  clear hes
  induction hpairs with
  | nil => exact ⟨[], rfl, (refl []).congr (by simp)⟩
  | @cons x e xs es hx _ ih =>
      rw [List.forall_mem_cons] at hkept hdropped
      obtain ⟨es', hes', hrest⟩ := ih hkept.2 hdropped.2
      rw [List.filter_cons]
      cases hkeep : keep x with
      | true =>
          have hsame : Trimmed (calm x) [e] [e] := (refl [e]).congr (by simp [hkept.1 hkeep])
          refine ⟨e :: es', ?_, (hsame.append hrest).congr List.forall_mem_cons.symm⟩
          rw [if_pos rfl, List.mapM_cons, hx, ok_bind, hes', ok_bind, pure_eq_ok]
      | false =>
          refine ⟨es', ?_, ((hdropped.1 hkeep e hx).append hrest).congr List.forall_mem_cons.symm⟩
          rw [if_neg Bool.false_ne_true, hes']

end Trimmed

end RecordQuery.Expr
