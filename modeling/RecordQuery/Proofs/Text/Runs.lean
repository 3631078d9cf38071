import RecordQuery.Proofs.Text.Trimming
import RecordQuery.Value.Coercion
/-!
# Runs between delimiters

What is left of a text when it is split at delimiters. `RunAt` finds the longest runs of other
characters by their places, and `MaximalRuns` says of texts that they are all of these runs, in order.
The values of a text and the keywords of a search are such texts (`splits_keep_runs`).
-/

namespace RecordQuery

namespace Text

/-! ## Runs and their places -/

/-- The run stands at the place: it is not empty, holds no delimiter, and is as long as it can be, with
a delimiter or an end of the characters on either side. -/
def RunAt (delimiters cs : List Char) (start : Nat) (run : List Char) : Prop :=
  ∃ before after, cs = before ++ run ++ after ∧ before.length = start ∧ run ≠ [] ∧
    (∀ c ∈ run, c ∉ delimiters) ∧ (∀ c ∈ before.getLast?, c ∈ delimiters) ∧
    ∀ c ∈ after.head?, c ∈ delimiters

/-- The parts are the longest runs without delimiters of a text: in order all that stand somewhere in
it. So none is empty or holds a delimiter, and together they are the text without its delimiters. -/
structure MaximalRuns (delimiters : List Char) (s : String) (parts : List String) : Prop where
  placed : ∃ starts : List Nat, starts.length = parts.length ∧ starts.Pairwise (· < ·) ∧
    ∀ start part, (start, part) ∈ starts.zip parts ↔ RunAt delimiters s.toList start part.toList
  ne_empty : ∀ part ∈ parts, part ≠ ""
  not_delimiter : ∀ part ∈ parts, ∀ c ∈ part.toList, c ∉ delimiters
  toList_join : (String.join parts).toList = s.toList.filter fun c => c ∉ delimiters

/-- The longest runs are told by their places, and so there is one list of them. -/
theorem MaximalRuns.unique {delimiters : List Char} {s : String} {parts parts' : List String}
    (h : MaximalRuns delimiters s parts) (h' : MaximalRuns delimiters s parts') : parts = parts' := by
  obtain ⟨starts, hlength, hsorted, hruns⟩ := h.placed
  obtain ⟨starts', hlength', hsorted', hruns'⟩ := h'.placed
  have hascends : ∀ {starts : List Nat} {parts : List String}, starts.length = parts.length →
      starts.Pairwise (· < ·) → (starts.zip parts).Pairwise fun a b => a.1 < b.1 := by
    intro starts parts hlength hsorted
    rw [← List.map_fst_zip hlength.le] at hsorted
    exact List.pairwise_map.mp hsorted
  have hnodup : ∀ {entries : List (Nat × String)}, entries.Pairwise (fun a b => a.1 < b.1) →
      entries.Nodup := fun hentries =>
    hentries.imp fun hlt heq => absurd (congrArg Prod.fst heq) (Nat.ne_of_lt hlt)
  have hzip := hascends hlength hsorted
  have hzip' := hascends hlength' hsorted'
  have hperm : (starts.zip parts).Perm (starts'.zip parts') := by
    rw [List.perm_ext_iff_of_nodup (hnodup hzip) (hnodup hzip')]
    rintro ⟨start, part⟩
    rw [hruns, hruns']
  have heq : starts.zip parts = starts'.zip parts' :=
    hperm.eq_of_pairwise (fun _ _ _ _ hlt hgt => absurd hlt (Nat.lt_asymm hgt)) hzip hzip'
  calc parts = (starts.zip parts).map Prod.snd := (List.map_snd_zip hlength.ge).symm
    _ = (starts'.zip parts').map Prod.snd := by rw [heq]
    _ = parts' := List.map_snd_zip hlength'.ge

/-- The pieces with their places, when the first piece stands at `start` and one delimiter stands
between each two. -/
def placed (start : Nat) : List (List Char) → List (Nat × List Char)
  | [] => []
  | piece :: rest => (start, piece) :: placed (start + piece.length + 1) rest

theorem map_snd_placed (start : Nat) (pieces : List (List Char)) :
    (placed start pieces).map (·.2) = pieces := by
  induction pieces generalizing start with
  | nil => rfl
  | cons piece rest ih => rw [placed, List.map_cons, ih]

/-- No piece stands before the first one. -/
theorem le_of_mem_placed {start place : Nat} {pieces : List (List Char)} {run : List Char}
    (h : (place, run) ∈ placed start pieces) : start ≤ place := by
  induction pieces generalizing start with
  | nil => exact absurd h List.not_mem_nil
  | cons piece rest ih =>
      rcases List.mem_cons.mp h with heq | hrest
      · exact Nat.le_of_eq (Prod.mk.inj heq).1.symm
      · have := ih hrest
        omega

theorem pairwise_placed (start : Nat) (pieces : List (List Char)) :
    (placed start pieces).Pairwise fun a b => a.1 < b.1 := by
  induction pieces generalizing start with
  | nil => exact .nil
  | cons piece rest ih =>
      refine List.pairwise_cons.mpr ⟨?_, ih _⟩
      rintro ⟨place, run⟩ h
      have := le_of_mem_placed h
      dsimp only
      omega

/-- At the place of the first piece there is no other one. -/
theorem mem_placed_self {start : Nat} {pieces : List (List Char)} {run : List Char} :
    (start, run) ∈ placed start pieces ↔ pieces.head? = some run := by
  cases pieces with
  | nil => simp [placed]
  | cons piece rest =>
      have hlater : (start, run) ∉ placed (start + piece.length + 1) rest := by
        intro h
        have := le_of_mem_placed h
        omega
      rw [placed, List.mem_cons, or_iff_left hlater, Prod.mk.injEq, and_iff_right rfl, List.head?_cons,
        Option.some.injEq, eq_comm]

/-- When the first piece stands one place further on, so do all. -/
theorem mem_placed_succ {start place : Nat} {pieces : List (List Char)} {run : List Char} :
    (place + 1, run) ∈ placed (start + 1) pieces ↔ (place, run) ∈ placed start pieces := by
  induction pieces generalizing start with
  | nil => simp [placed]
  | cons piece rest ih =>
      have hnext : start + 1 + piece.length + 1 = start + piece.length + 1 + 1 := by omega
      rw [placed, placed, List.mem_cons, List.mem_cons, hnext, ih, Prod.mk.injEq, Prod.mk.injEq,
        Nat.add_right_cancel_iff]

/-! ## Splitting -/

section

variable {delimiters cs run : List Char} {sep : Char → Bool} {c : Char}

/-- The first piece is what stands before the first separator. -/
theorem head?_fields (sep : Char → Bool) (cs : List Char) :
    (fields sep cs).head? = some (cs.takeWhile fun c => !sep c) := by
  induction cs with
  | nil => rfl
  | cons c rest ih =>
      cases hc : sep c with
      | true => simp [fields, hc]
      | false => simp [fields, hc, List.head?_modifyHead, ih]

/-- A run stands at the front when it is what stands before the first delimiter. -/
theorem runAt_zero_iff (hsep : ∀ c, sep c = true ↔ c ∈ delimiters) :
    RunAt delimiters cs 0 run ↔ run ≠ [] ∧ cs.takeWhile (fun c => !sep c) = run := by
  constructor
  · rintro ⟨before, after, rfl, hlength, hne, hrun, -, hafter⟩
    obtain rfl := List.eq_nil_of_length_eq_zero hlength
    refine ⟨hne, ?_⟩
    have hfree : ∀ c ∈ run, (!sep c) = true := by
      intro c hc
      rw [Bool.not_eq_true', ← Bool.not_eq_true, hsep]
      exact hrun c hc
    have hstop : after.takeWhile (fun c => !sep c) = [] := by
      cases after with
      | nil => rfl
      | cons c rest => exact List.takeWhile_cons_of_neg (by simp [(hsep c).mpr (hafter c rfl)])
    rw [List.nil_append, List.takeWhile_append_of_pos hfree, hstop, List.append_nil]
  · rintro ⟨hne, rfl⟩
    refine ⟨[], cs.dropWhile fun c => !sep c, ?_, rfl, hne, fun c hc => ?_, by simp, fun c hc => ?_⟩
    · rw [List.nil_append, List.takeWhile_append_dropWhile]
    · have hfree := List.mem_takeWhile_imp hc
      rwa [Bool.not_eq_true', ← Bool.not_eq_true, hsep] at hfree
    · have hstop := not_of_mem_head?_dropWhile hc
      rwa [Bool.not_eq_false', hsep] at hstop

/-- A run that stands further on stands there without the first character too, which has to be a
delimiter when the run is next to it. -/
theorem runAt_cons_succ_iff {start : Nat} :
    RunAt delimiters (c :: cs) (start + 1) run ↔
      RunAt delimiters cs start run ∧ (start = 0 → c ∈ delimiters) := by
  constructor
  · rintro ⟨before, after, heq, hlength, hne, hrun, hbefore, hafter⟩
    cases before with
    | nil => exact absurd hlength (by simp)
    | cons first before =>
        obtain ⟨rfl, rfl⟩ := List.cons.inj heq
        rw [List.length_cons, Nat.add_right_cancel_iff] at hlength
        refine ⟨⟨before, after, rfl, hlength, hne, hrun, fun d hd => ?_, hafter⟩, ?_⟩
        · refine hbefore d ?_
          rw [List.getLast?_cons, Option.mem_def.mp hd]
          rfl
        · rintro rfl
          obtain rfl := List.eq_nil_of_length_eq_zero hlength
          exact hbefore c rfl
  · rintro ⟨⟨before, after, rfl, hlength, hne, hrun, hbefore, hafter⟩, hfirst⟩
    refine ⟨c :: before, after, rfl, by rw [List.length_cons, hlength], hne, hrun, fun d hd => ?_,
      hafter⟩
    cases before with
    | nil =>
        obtain rfl : c = d := by simpa using hd
        exact hfirst hlength.symm
    | cons first before => exact hbefore d (by simpa using hd)

/-- The pieces that are not empty stand where the runs do. -/
theorem mem_placed_fields_iff (hsep : ∀ c, sep c = true ↔ c ∈ delimiters) {start : Nat}
    (hne : run ≠ []) : (start, run) ∈ placed 0 (fields sep cs) ↔ RunAt delimiters cs start run := by
  induction cs generalizing start with
  | nil =>
      refine iff_of_false (by simp [fields, placed, hne]) ?_
      rintro ⟨before, after, heq, -⟩
      exact hne (List.append_eq_nil_iff.mp (List.append_eq_nil_iff.mp heq.symm).1).2
  | cons c rest ih =>
      cases start with
      | zero =>
          rw [mem_placed_self, head?_fields, runAt_zero_iff hsep, and_iff_right hne,
            Option.some.injEq]
      | succ start =>
          rw [runAt_cons_succ_iff, ← ih, ← hsep c]
          cases hc : sep c with
          | true => simp [fields, hc, placed, mem_placed_succ]
          | false =>
              obtain ⟨head, tail, hfields⟩ := List.exists_cons_of_ne_nil (fields_ne_nil sep rest)
              have hpieces : fields sep (c :: rest) = (c :: head) :: tail := by
                rw [fields, hc, if_neg Bool.false_ne_true, hfields, List.modifyHead_cons]
              -- the first piece is longer, and the others stand further on by one place
              have hlater : (start + 1, run) ∈ placed 0 ((c :: head) :: tail) ↔
                  (start, run) ∈ placed (head.length + 1) tail := by
                rw [placed, List.mem_cons, or_iff_right (by simp), List.length_cons, Nat.zero_add,
                  mem_placed_succ]
              rw [hpieces, hlater, hfields, placed, List.mem_cons, Nat.zero_add, Prod.mk.injEq]
              constructor
              · intro h
                have := le_of_mem_placed h
                exact ⟨.inr h, fun hstart => by omega⟩
              · rintro ⟨hfirst | h, hstart⟩
                · exact absurd (hstart hfirst.1) Bool.false_ne_true
                · exact h

/-- The pieces that are not empty, with their places. -/
def placedRuns (sep : Char → Bool) (cs : List Char) : List (Nat × List Char) :=
  (placed 0 (fields sep cs)).filter fun entry => !entry.2.isEmpty

theorem mem_placedRuns_iff (hsep : ∀ c, sep c = true ↔ c ∈ delimiters) {start : Nat} :
    (start, run) ∈ placedRuns sep cs ↔ RunAt delimiters cs start run := by
  rw [placedRuns, List.mem_filter]
  constructor
  · rintro ⟨hplaced, hne⟩
    exact (mem_placed_fields_iff hsep (by simpa using hne)).mp hplaced
  · intro hrun
    have hne : run ≠ [] := hrun.choose_spec.choose_spec.2.2.1
    exact ⟨(mem_placed_fields_iff hsep hne).mpr hrun, by simpa using hne⟩

theorem splitRuns_eq_map_placedRuns (sep : Char → Bool) (s : String) :
    splitRuns sep s = (placedRuns sep s.toList).map fun entry => String.ofList entry.2 := by
  rw [splitRuns, runs, ← map_snd_placed 0 (fields sep s.toList), List.filter_map, List.map_map]
  rfl

/-- Splitting leaves the runs without separators. -/
theorem maximalRuns_splitRuns (hsep : ∀ c, sep c = true ↔ c ∈ delimiters) (s : String) :
    MaximalRuns delimiters s (splitRuns sep s) := by
  have hmem : ∀ part ∈ splitRuns sep s, part.toList ∈ fields sep s.toList ∧ part.toList ≠ [] := by
    intro part hpart
    obtain ⟨piece, hpiece, rfl⟩ := List.mem_map.mp hpart
    obtain ⟨hfield, hne⟩ := List.mem_filter.mp hpiece
    rw [String.toList_ofList]
    exact ⟨hfield, by simpa using hne⟩
  refine ⟨?_, fun part hpart => ?_, fun part hpart c hc => ?_, ?_⟩
  · rw [splitRuns_eq_map_placedRuns]
    refine ⟨(placedRuns sep s.toList).map (·.1), by rw [List.length_map, List.length_map],
      List.pairwise_map.mpr ((pairwise_placed 0 _).filter _), fun start part => ?_⟩
    rw [List.zip_map', List.mem_map, ← mem_placedRuns_iff hsep]
    constructor
    · rintro ⟨⟨place, run⟩, hentry, heq⟩
      obtain ⟨rfl, rfl⟩ := Prod.mk.inj heq
      rwa [String.toList_ofList]
    · intro hentry
      exact ⟨(start, part.toList), hentry, by rw [String.ofList_toList]⟩
  · rintro rfl
    exact (hmem "" hpart).2 rfl
  · rw [← hsep, not_sep_of_mem_fields (hmem part hpart).1 c hc]
    exact Bool.false_ne_true
  · have hfree : ∀ c, (!sep c) = decide (c ∉ delimiters) := by
      intro c
      rw [Bool.eq_iff_iff, Bool.not_eq_true', ← Bool.not_eq_true, hsep, decide_eq_true_iff]
    rw [String.toList_join, splitRuns, List.flatMap_map, runs]
    simp only [String.toList_ofList, List.flatMap_id', List.flatten_filter_not_isEmpty,
      flatten_fields, hfree]

end

end Text

/-- **Splitting keeps the runs between delimiters.** The values of a text are the longest runs of it
without value delimiters, and the keywords of a search text are the longest runs without keyword
delimiters of what is left of it when the blanks at both ends are cut off: all of them, in order. -/
theorem splits_keep_runs (s : String) :
    Text.MaximalRuns ['&', ',', '+', ';', ':', '.'] s (splitValues s) ∧
      ∃ core parts, Text.TrimsTo Text.isBlank s.toList core ∧
        splitKeywords (.text s) = .ok (parts.map .text) ∧
        Text.MaximalRuns ['&', ' ', ',', '+'] (String.ofList core) parts := by
  have hvalue : ∀ c, isValueDelimiter c = true ↔ c ∈ ['&', ',', '+', ';', ':', '.'] := by
    intro c
    simp [isValueDelimiter, or_assoc]
  have hkeyword : ∀ c, isKeywordDelimiter c = true ↔ c ∈ ['&', ' ', ',', '+'] := by
    intro c
    simp [isKeywordDelimiter, or_assoc]
  refine ⟨Text.maximalRuns_splitRuns hvalue s, Text.trimBy Text.isBlank s.toList,
    splitKeywordText s, Text.trimsTo_trimBy _ _, ?_, Text.maximalRuns_splitRuns hkeyword _⟩
  by_cases hs : s = ""
  · rw [hs]
    rfl
  · have htruthy : (Value.text s).truthy = true := by simp [Value.truthy, hs]
    rw [splitKeywords, htruthy]
    rfl

example : splitValues ".a,;b c:" = ["a", "b c"] := by decide

end RecordQuery
