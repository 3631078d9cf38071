import Mathlib.Algebra.Order.Field.Basic
import Mathlib.Algebra.Order.Field.Rat
import Mathlib.Data.List.Sort
import Mathlib.Order.WithBot
import RecordQuery.Operator
import RecordQuery.Text.Similarity
/-!
# Closest texts in any order

The texts closest to a word do not depend on the order of the candidates. Numbers other than the
undefined one are ordered as the rationals between the two infinities are (`Binary64.lt_iff_rank`),
and a likeness is never undefined, so that candidates are ranked by a total order
(`closest_eq_of_perm`).
-/

namespace RecordQuery

/-! ## The order of numbers -/

namespace Binary64

/-- The signed numerator of a finite number. -/
def numerator (negative : Bool) (m : Nat) (e : Int) : Int :=
  if negative then -((ratio m e).1 : Int) else (ratio m e).1

/-- The place of a number among the rationals and the two infinities. -/
def rank : Binary64 → WithBot (WithTop ℚ)
  | .nan => ⊥
  | .infinity true => ⊥
  | .infinity false => ((⊤ : WithTop ℚ) : WithBot (WithTop ℚ))
  | .finite negative m e =>
    (((numerator negative m e / (ratio m e).2 : ℚ) : WithTop ℚ) : WithBot (WithTop ℚ))

/-- The denominator of a finite number is positive. -/
theorem ratio_snd_pos (m : Nat) (e : Int) : 0 < (ratio m e).2 :=
  Nat.pow_pos (by decide)

/-- A finite number is compared with any other by its numerator and denominator. -/
theorem lt_of_key {a b : Binary64} {n m : Int} {d e : Nat} (ha : a.key? = some (n, d))
    (hb : b.key? = some (m, e)) (hpos : 0 < d ∨ 0 < e) :
    a.lt b = decide (n * e < m * d) := by
  rw [lt, ha, hb]
  cases d with
  | succ d => rfl
  | zero =>
      cases e with
      | succ e => rfl
      | zero => simp at hpos

theorem key?_finite (negative : Bool) (m : Nat) (e : Int) :
    (finite negative m e).key? = some (numerator negative m e, (ratio m e).2) := rfl

/-- Numbers that are not undefined are ordered by their places. -/
theorem lt_iff_rank {a b : Binary64} (ha : a ≠ nan) (hb : b ≠ nan) :
    a.lt b = true ↔ a.rank < b.rank := by
  cases a with
  | nan => exact absurd rfl ha
  | infinity negative =>
      cases b with
      | nan => exact absurd rfl hb
      | infinity negative' => cases negative <;> cases negative' <;> simp [lt, key?, rank]
      | finite negative' m e =>
          have hpos := ratio_snd_pos m e
          cases negative with
          | true =>
              rw [lt_of_key (a := infinity true) rfl (key?_finite negative' m e) (.inr hpos)]
              simp [rank, hpos]
          | false =>
              rw [lt_of_key (a := infinity false) rfl (key?_finite negative' m e) (.inr hpos)]
              simp [rank]
  | finite negative m e =>
      have hpos := ratio_snd_pos m e
      cases b with
      | nan => exact absurd rfl hb
      | infinity negative' =>
          cases negative' with
          | true =>
              rw [lt_of_key (b := infinity true) (key?_finite negative m e) rfl (.inl hpos)]
              simp [rank]
          | false =>
              rw [lt_of_key (b := infinity false) (key?_finite negative m e) rfl (.inl hpos)]
              exact iff_of_true (by simp [hpos]) (WithBot.coe_lt_coe.mpr (WithTop.coe_lt_top _))
      | finite negative' m' e' =>
          have hpos' := ratio_snd_pos m' e'
          rw [lt_of_key (key?_finite negative m e) (key?_finite negative' m' e') (.inl hpos),
            decide_eq_true_iff, rank, rank, WithBot.coe_lt_coe, WithTop.coe_lt_coe,
            div_lt_div_iff₀ (by exact_mod_cast hpos) (by exact_mod_cast hpos')]
          exact_mod_cast Iff.rfl

theorem ofSignificand_ne_nan (negative : Bool) (m : Nat) (e : Int) :
    ofSignificand negative m e ≠ nan := by
  have hne : ∀ (m : Nat) (e : Int),
      (if maxExponent < e then infinity negative else finite negative m e) ≠ nan := by
    intro m e
    split
    · exact Binary64.noConfusion
    · exact Binary64.noConfusion
  exact hne _ _

/-- A rounded ratio is not undefined. -/
theorem ofRatio_ne_nan (negative : Bool) (num den : Nat) : ofRatio negative num den ≠ nan := by
  rw [ofRatio]
  split
  · exact Binary64.noConfusion
  · exact ofSignificand_ne_nan _ _ _

end Binary64

/-! ## Sorting -/

/-- By a total order a list is sorted whatever its order is. -/
theorem mergeSort_eq_of_perm {α : Type} {le : α → α → Bool}
    (trans : ∀ a b c, le a b = true → le b c = true → le a c = true)
    (total : ∀ a b, (le a b || le b a) = true)
    (antisymm : ∀ a b, le a b = true → le b a = true → a = b) {xs ys : List α} (h : xs.Perm ys) :
    xs.mergeSort le = ys.mergeSort le := by
  refine List.Perm.eq_of_pairwise (fun a b _ _ => antisymm a b)
    (List.pairwise_mergeSort trans total xs) (List.pairwise_mergeSort trans total ys) ?_
  exact (List.mergeSort_perm xs le).trans (h.trans (List.mergeSort_perm ys le).symm)

theorem Operator.sorted_eq_of_perm {names names' : List String} (h : names.Perm names') :
    sorted names = sorted names' := by
  refine mergeSort_eq_of_perm ?_ ?_ ?_ h
  · intro a b c hab hbc
    exact decide_eq_true (String.le_trans (of_decide_eq_true hab) (of_decide_eq_true hbc))
  · intro a b
    simpa using String.le_total a b
  · intro a b hab hba
    exact String.le_antisymm (of_decide_eq_true hab) (of_decide_eq_true hba)

namespace Text.Similarity

/-! ## Ranks of candidates -/

theorem ratio_ne_nan (text word : List CodePoint) : ratio text word ≠ .nan := by
  rw [ratio]
  split
  · exact Binary64.ofRatio_ne_nan _ _ _
  · exact Binary64.ofRatio_ne_nan _ _ _

/-- A candidate with its likeness to the word. -/
def scoredFor (word text : String) : Scored :=
  ⟨ratio (toCodePoints text) (toCodePoints word), text⟩

/-- A candidate ranks before another when it is more alike, or as alike and not the smaller text. -/
theorem before_iff {word a b : String} :
    (scoredFor word a).before (scoredFor word b) = true ↔
      (scoredFor word b).score.rank < (scoredFor word a).score.rank ∨
        (scoredFor word b).score.rank = (scoredFor word a).score.rank ∧ b ≤ a := by
  have hlt : ∀ a b, (scoredFor word a).score.lt (scoredFor word b).score = true ↔
      (scoredFor word a).score.rank < (scoredFor word b).score.rank := fun a b =>
    Binary64.lt_iff_rank (ratio_ne_nan _ _) (ratio_ne_nan _ _)
  have htext : ∀ text, (scoredFor word text).text = text := fun _ => rfl
  rw [Scored.before, htext, htext]
  split
  · next h => exact iff_of_true rfl (.inl ((hlt b a).mp h))
  · next h =>
      split
      · next h' =>
          have hrank := (hlt a b).mp h'
          simp [hrank.le.not_gt, hrank.ne']
      · next h' =>
          rw [hlt] at h h'
          have hrank := le_antisymm (not_lt.mp h') (not_lt.mp h)
          simp [hrank]

/-- The closest candidates are those that rank first. -/
theorem closest_eq (word : String) (candidates : List String) (count : Nat) (cutoff : Binary64) :
    closest word candidates count cutoff =
      ((candidates.filter fun text => cutoff.le (scoredFor word text).score).mergeSort
        fun a b => (scoredFor word a).before (scoredFor word b)).take count := by
  have hsort := List.map_mergeSort (f := scoredFor word) (s := Scored.before)
    (l := candidates.filter fun text => cutoff.le (scoredFor word text).score)
    fun _ _ _ _ => rfl
  have htext : ∀ texts : List String, (texts.map (scoredFor word)).map Scored.text = texts := by
    intro texts
    rw [List.map_map]
    exact List.map_id texts
  rw [closest, List.filter_map]
  show ((((candidates.filter fun text => cutoff.le (scoredFor word text).score).map
    (scoredFor word)).mergeSort Scored.before).take count).map Scored.text = _
  rw [← hsort, ← List.map_take, htext]

/-- The closest candidates are the same in whatever order the candidates come. -/
theorem closest_eq_of_perm {candidates candidates' : List String} (h : candidates.Perm candidates')
    (word : String) (count : Nat) (cutoff : Binary64) :
    closest word candidates count cutoff = closest word candidates' count cutoff := by
  rw [closest_eq, closest_eq]
  congr 1
  refine mergeSort_eq_of_perm ?_ ?_ ?_ (h.filter _)
  · intro a b c hab hbc
    rw [before_iff] at hab hbc ⊢
    rcases hab with hab | ⟨hab, hba⟩
    · rcases hbc with hbc | ⟨hbc, -⟩
      · exact .inl (hbc.trans hab)
      · exact .inl (hbc ▸ hab)
    · rcases hbc with hbc | ⟨hbc, hcb⟩
      · exact .inl (hab ▸ hbc)
      · exact .inr ⟨hbc.trans hab, String.le_trans hcb hba⟩
  · intro a b
    rw [Bool.or_eq_true, before_iff, before_iff]
    rcases lt_trichotomy (scoredFor word a).score.rank (scoredFor word b).score.rank with
      hlt | heq | hgt
    · exact .inr (.inl hlt)
    · exact (String.le_total b a).imp (fun hba => .inr ⟨heq.symm, hba⟩) fun hab => .inr ⟨heq, hab⟩
    · exact .inl (.inl hgt)
  · intro a b hab hba
    rw [before_iff] at hab hba
    rcases hab with hab | ⟨hab, hle⟩
    · rcases hba with hba | ⟨hba, -⟩
      · exact absurd hba hab.not_gt
      · exact absurd hba hab.ne'
    · rcases hba with hba | ⟨-, hle'⟩
      · exact absurd hab hba.ne'
      · exact String.le_antisymm hle' hle

end Text.Similarity

end RecordQuery
