import Mathlib.Data.List.Basic
import Mathlib.Data.List.TakeWhile
import RecordQuery.Text.Blank
/-!
# What trimming leaves

Trimming cuts off the characters of a class at both ends and no others. `TrimsTo` says so without the
way it is done, and `trimBy_eq_iff` that what it says is all there is to know.
-/

namespace RecordQuery.Text

/-- Of the first characters the second are left when a class is cut off at both ends. -/
structure TrimsTo (p : Char → Bool) (cs core : List Char) : Prop where
  around : ∃ before after, cs = before ++ core ++ after ∧ (∀ c ∈ before, p c = true) ∧
    ∀ c ∈ after, p c = true
  head : ∀ c ∈ core.head?, p c = false
  last : ∀ c ∈ core.getLast?, p c = false

variable {p q : Char → Bool} {cs core : List Char} {c : Char}

theorem toList_trim (s : String) : (trim s).toList = trimBy isBlank s.toList :=
  String.toList_ofList

/-- Nothing is cut off in front of a character that is not of the class. -/
theorem dropWhile_of_head (h : ∀ c ∈ cs.head?, p c = false) : cs.dropWhile p = cs := by
  cases cs with
  | nil => rfl
  | cons c rest => exact List.dropWhile_cons_of_neg (by simp [h c rfl])

/-- What stands at the front after cutting off a class is not of the class. -/
theorem not_of_mem_head?_dropWhile (h : c ∈ (cs.dropWhile p).head?) : p c = false := by
  have hhead := List.head?_dropWhile_not p cs
  rw [Option.mem_def.mp h] at hhead
  exact hhead

theorem trimsTo_trimBy (p : Char → Bool) (cs : List Char) : TrimsTo p cs (trimBy p cs) := by
  refine ⟨⟨_, _, trimBy_eq_append p cs, fun c hc => List.mem_takeWhile_imp hc, fun c hc =>
    List.mem_takeWhile_imp (List.mem_reverse.mp hc)⟩, fun c hc => ?_, fun c hc => ?_⟩
  · -- cutting off at the back does not change the front
    have hfront : trimBy p cs ++ ((cs.dropWhile p).reverse.takeWhile p).reverse = cs.dropWhile p := by
      rw [trimBy, ← List.reverse_append, List.takeWhile_append_dropWhile, List.reverse_reverse]
    have hhead : c ∈ (cs.dropWhile p).head? := by
      rw [← hfront]
      exact List.mem_head?_append_of_mem_head? hc
    exact not_of_mem_head?_dropWhile hhead
  · rw [trimBy, List.getLast?_reverse] at hc
    exact not_of_mem_head?_dropWhile hc

/-- Trimming leaves the characters that are left when the class is cut off at both ends. -/
theorem trimBy_eq_iff : trimBy p cs = core ↔ TrimsTo p cs core := by
  constructor
  · rintro rfl
    exact trimsTo_trimBy p cs
  · rintro ⟨⟨before, after, rfl, hbefore, hafter⟩, hhead, hlast⟩
    by_cases hcore : core = []
    · have hall : ∀ c ∈ before ++ core ++ after, p c = true := by
        intro c hc
        rw [hcore, List.append_nil, List.mem_append] at hc
        exact hc.elim (hbefore c) (hafter c)
      rw [trimBy, List.dropWhile_eq_nil_iff.mpr hall, hcore]
      rfl
    · have hfront : ∀ c ∈ (core ++ after).head?, p c = false := by
        rwa [List.head?_append_of_ne_nil _ hcore]
      have hback : ∀ c ∈ core.reverse.head?, p c = false := by
        rwa [List.head?_reverse]
      have hafter' : ∀ c ∈ after.reverse, p c = true := fun c hc => hafter c (List.mem_reverse.mp hc)
      rw [trimBy, List.append_assoc, List.dropWhile_append_of_pos hbefore, dropWhile_of_head hfront,
        List.reverse_append, List.dropWhile_append_of_pos hafter', dropWhile_of_head hback,
        List.reverse_reverse]

/-- Where nothing is of the class, nothing is cut off. -/
theorem trimBy_of_forall_not (h : ∀ c ∈ cs, p c = false) : trimBy p cs = cs :=
  trimBy_eq_iff.mpr ⟨⟨[], [], by simp, by simp, by simp⟩,
    fun c hc => h c (List.mem_of_mem_head? hc), fun c hc => h c (List.mem_of_mem_getLast? hc)⟩

/-- A character outside the class is not cut off. -/
theorem mem_trimBy_of_not (hc : c ∈ cs) (hp : p c = false) : c ∈ trimBy p cs := by
  obtain ⟨before, after, heq, hbefore, hafter⟩ := (trimsTo_trimBy p cs).around
  rw [heq, List.mem_append, List.mem_append] at hc
  rcases hc with (hc | hc) | hc
  · exact absurd (hbefore c hc) (by simp [hp])
  · exact hc
  · exact absurd (hafter c hc) (by simp [hp])

/-- Only what is there is left. -/
theorem mem_of_mem_trimBy (hc : c ∈ trimBy p cs) : c ∈ cs := by
  rw [trimBy_eq_append p cs]
  exact List.mem_append_left _ (List.mem_append_right _ hc)

/-- Trimming by a wider class cuts off no more when nothing that is left is of the wider class
only. -/
theorem trimBy_eq_of_forall (hpq : ∀ c, p c = true → q c = true)
    (h : ∀ c ∈ trimBy p cs, q c = true → p c = true) : trimBy q cs = trimBy p cs := by
  obtain ⟨⟨before, after, heq, hbefore, hafter⟩, hhead, hlast⟩ := trimsTo_trimBy p cs
  have hkept : ∀ c ∈ trimBy p cs, p c = false → q c = false := by
    intro c hc hp
    rw [← Bool.not_eq_true] at hp ⊢
    exact mt (h c hc) hp
  exact trimBy_eq_iff.mpr ⟨⟨before, after, heq, fun c hc => hpq c (hbefore c hc),
      fun c hc => hpq c (hafter c hc)⟩,
    fun c hc => hkept c (List.mem_of_mem_head? hc) (hhead c hc),
    fun c hc => hkept c (List.mem_of_mem_getLast? hc) (hlast c hc)⟩

end RecordQuery.Text
