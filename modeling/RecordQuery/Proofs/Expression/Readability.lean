import RecordQuery.Proofs.Expression.Preservation
/-!
# Written expressions are read in one way

An expression is written as a row of words with a space between any two: its fragments, the keywords,
and the parentheses. Every join stands in parentheses, and a negation stands before the one operand
that it takes, so the words of an expression tell where it ends. From this `words_append_inj` reads
the whole expression off its words, and `render_inj` off its text, without any precedence between
keywords.
-/

namespace RecordQuery

/-! ## Words -/

/-- The words beside fragments that expressions are written with. -/
def reservedWords : List String :=
  ["(", ")", "NOT", Connective.and.keyword, Connective.or.keyword]

/-- The text holds no space and is no reserved word, so it can be told from all that is written
beside it. The empty text, which the blank expression is written as, can. -/
def IsWord (text : String) : Prop :=
  ' ' ∉ text.toList ∧ text ∉ reservedWords

instance (text : String) : Decidable (IsWord text) :=
  inferInstanceAs (Decidable (_ ∧ _))

namespace Expr

mutual

/-- The words that an expression is written with. -/
def words : Expr → List String
  | atom fragment => [fragment]
  | negation operand => "NOT" :: operand.words
  | join connective operands => "(" :: ((wordsAfter connective operands).tail ++ [")"])
termination_by structural e => e

/-- The words of the operands of a join, with the keyword of the join before each of them. -/
def wordsAfter (connective : Connective) : List Expr → List String
  | [] => []
  | operand :: rest => connective.keyword :: (operand.words ++ wordsAfter connective rest)
termination_by structural operands => operands

end

theorem wordsAfter_eq_flatMap (c : Connective) (operands : List Expr) :
    wordsAfter c operands = operands.flatMap fun operand => c.keyword :: operand.words := by
  induction operands with
  | nil => rfl
  | cons operand rest ih => rw [wordsAfter, ih, List.flatMap_cons, List.cons_append]

/-- A join begins with a parenthesis and the words of its first operand. -/
theorem words_join_cons (c : Connective) (operand : Expr) (rest : List Expr) :
    (join c (operand :: rest)).words =
      "(" :: (operand.words ++ (wordsAfter c rest ++ [")"])) := by
  rw [words, wordsAfter, List.tail_cons, List.append_assoc]

theorem words_ne_nil (e : Expr) : e.words ≠ [] := by
  cases e <;> simp [words]

/-- An expression that can be read back: its fragments are words, and it joins two or more operands
by `and` or by `or`. -/
inductive Readable : Expr → Prop
  | atom {fragment : String} : IsWord fragment → Readable (.atom fragment)
  | negation {operand : Expr} : Readable operand → Readable (.negation operand)
  | join {c : Connective} {operands : List Expr} : c ≠ .not → 2 ≤ operands.length →
      (∀ operand ∈ operands, Readable operand) → Readable (.join c operands)

/-! ## From texts to words -/

/-- Rows of words, written with a keyword between any two of them, are the row of all these words. -/
theorem intercalate_intercalate (word : String) {rows : List (List String)}
    (h : ∀ row ∈ rows, row ≠ []) :
    (" " ++ word ++ " ").intercalate (rows.map " ".intercalate) =
      " ".intercalate (rows.flatMap (word :: ·)).tail := by
  induction rows with
  | nil => rfl
  | cons row rest ih =>
      rw [List.forall_mem_cons] at h
      cases rest with
      | nil => simp
      | cons next later =>
          have hne : next ++ later.flatMap (word :: ·) ≠ [] := by
            simp [h.2 next List.mem_cons_self]
          rw [List.map_cons, String.intercalate_cons_of_ne_nil (by simp), ih h.2]
          show _ ++ _ ++ " ".intercalate (next ++ later.flatMap (word :: ·)) =
            " ".intercalate (row ++ word :: (next ++ later.flatMap (word :: ·)))
          rw [String.intercalate_append_of_ne_nil h.1 (by simp),
            String.intercalate_cons_of_ne_nil hne]
          simp only [String.append_assoc]

/-- An expression is written as its words with a space between any two. -/
theorem render_eq_intercalate_words {e : Expr} (h : e.Readable) :
    e.render = " ".intercalate e.words := by
  induction h with
  | atom _ => rw [render, words, String.intercalate_singleton]
  | @negation operand _ ih =>
      rw [render, words, String.intercalate_cons_of_ne_nil operand.words_ne_nil, ih]
      rfl
  | @join c operands _ hlen _ ih =>
      have hrows : operands.map render = (operands.map words).map " ".intercalate := by
        rw [List.map_map]
        exact List.map_congr_left ih
      have hne : (wordsAfter c operands).tail ≠ [] := by
        cases operands with
        | nil => exact absurd hlen (by simp)
        | cons operand rest => simp [wordsAfter, words_ne_nil]
      have hparentheses : (join c operands).render =
          "( " ++ (" " ++ c.keyword ++ " ").intercalate (operands.map render) ++ " )" := by
        rw [render, renderAll_eq_map]
        cases operands with
        | nil => exact absurd hlen (by simp)
        | cons operand rest =>
            cases rest with
            | nil => exact absurd hlen (by simp)
            | cons other later => rfl
      rw [hparentheses, hrows, intercalate_intercalate c.keyword (by simp [words_ne_nil]), words,
        String.intercalate_cons_of_ne_nil (by simp),
        String.intercalate_append_of_ne_nil hne (by simp), wordsAfter_eq_flatMap, List.flatMap_map,
        String.intercalate_singleton]
      simp only [String.append_assoc]
      rfl

/-- No word of a readable expression holds a space. -/
theorem not_space_mem_of_mem_words {e : Expr} (h : e.Readable) :
    ∀ word ∈ e.words, ' ' ∉ word.toList := by
  induction h with
  | atom hword =>
      rw [words, List.forall_mem_singleton]
      exact hword.1
  | negation _ ih =>
      rw [words, List.forall_mem_cons]
      exact ⟨by decide, ih⟩
  | @join c operands _ _ _ ih =>
      have hkeyword : ' ' ∉ c.keyword.toList := by cases c <;> decide
      have hafter : ∀ word ∈ wordsAfter c operands, ' ' ∉ word.toList := by
        rw [wordsAfter_eq_flatMap, List.forall_mem_flatMap]
        intro operand hoperand
        exact List.forall_mem_cons.mpr ⟨hkeyword, ih operand hoperand⟩
      rw [words, List.forall_mem_cons, List.forall_mem_append, List.forall_mem_singleton]
      exact ⟨by decide, fun word hword => hafter word (List.mem_of_mem_tail hword), by decide⟩

/-- The words of a readable expression are found between the spaces of its text. -/
theorem splitOn_render {e : Expr} (h : e.Readable) :
    e.render.toList.splitOn ' ' = e.words.map String.toList := by
  rw [render_eq_intercalate_words h, String.toList_intercalate]
  refine List.splitOn_intercalate ' ' (fun cs hcs => ?_) (by simp [words_ne_nil])
  obtain ⟨word, hword, rfl⟩ := List.mem_map.mp hcs
  exact not_space_mem_of_mem_words h word hword

/-! ## From words to expressions -/

/-- The keyword of a join closes no parenthesis. -/
theorem keyword_ne_close (c : Connective) : c.keyword ≠ ")" := by
  cases c <;> decide

theorem keyword_inj {c d : Connective} (h : c.keyword = d.keyword) : c = d := by
  revert h
  cases c <;> cases d <;> decide

/-- Words that begin with those of an expression tell the expression and where it ends. -/
def Delimited (e : Expr) : Prop :=
  ∀ {d : Expr}, d.Readable → ∀ {rest rest' : List String}, e.words ++ rest = d.words ++ rest' →
    e = d ∧ rest = rest'

/-- Operands that are delimited, up to the closing parenthesis, are delimited together. Some operand
tells the keyword too. -/
theorem operands_append_inj {c d : Connective} {operands : List Expr}
    (h : ∀ operand ∈ operands, Delimited operand) :
    ∀ {operands' : List Expr}, (∀ operand ∈ operands', operand.Readable) →
      ∀ {rest rest' : List String},
        wordsAfter c operands ++ ")" :: rest = wordsAfter d operands' ++ ")" :: rest' →
        operands = operands' ∧ rest = rest' ∧ (operands ≠ [] → c = d) := by
  induction operands with
  | nil =>
      intro operands' _ rest rest' heq
      cases operands' with
      | nil => exact ⟨rfl, (List.cons.inj heq).2, fun hne => absurd rfl hne⟩
      | cons operand' later' =>
          exact absurd (List.cons.inj heq).1.symm (keyword_ne_close d)
  | cons operand later ih =>
      intro operands' h' rest rest' heq
      rw [List.forall_mem_cons] at h
      cases operands' with
      | nil => exact absurd (List.cons.inj heq).1 (keyword_ne_close c)
      | cons operand' later' =>
          rw [List.forall_mem_cons] at h'
          rw [wordsAfter, wordsAfter, List.cons_append, List.cons_append, List.append_assoc,
            List.append_assoc] at heq
          obtain ⟨hkeyword, hwords⟩ := List.cons.inj heq
          obtain ⟨rfl, hafter⟩ := h.1 h'.1 hwords
          obtain ⟨rfl, rfl, -⟩ := ih h.2 h'.2 hafter
          exact ⟨rfl, rfl, fun _ => keyword_inj hkeyword⟩

/-- The first word tells what kind of expression follows: a fragment is a word of its own. -/
theorem atom_append_inj {fragment : String} (hword : IsWord fragment) :
    Delimited (.atom fragment) := by
  intro d hd rest rest' heq
  cases hd with
  | atom hword' =>
      obtain ⟨rfl, rfl⟩ := List.cons.inj heq
      exact ⟨rfl, rfl⟩
  | negation _ =>
      obtain ⟨rfl, -⟩ := List.cons.inj heq
      exact absurd hword.2 (by decide)
  | join _ _ _ =>
      obtain ⟨rfl, -⟩ := List.cons.inj heq
      exact absurd hword.2 (by decide)

/-- A readable expression is delimited by its words. -/
theorem words_append_inj {e : Expr} (h : e.Readable) : Delimited e := by
  induction h with
  | atom hword => exact atom_append_inj hword
  | negation _ ih =>
      intro d hd rest rest' heq
      cases hd with
      | atom hword' =>
          obtain ⟨rfl, -⟩ := List.cons.inj heq
          exact absurd hword'.2 (by decide)
      | negation hoperand' =>
          obtain ⟨rfl, rfl⟩ := ih hoperand' (List.cons.inj heq).2
          exact ⟨rfl, rfl⟩
      | join _ _ _ => exact absurd (List.cons.inj heq).1 (by decide)
  | @join c operands _ hlen _ ih =>
      intro d hd rest rest' heq
      cases hd with
      | atom hword' =>
          obtain ⟨rfl, -⟩ := List.cons.inj heq
          exact absurd hword'.2 (by decide)
      | negation _ => exact absurd (List.cons.inj heq).1 (by decide)
      | @join c' operands' _ hlen' hoperands' =>
          match operands, operands', hlen, hlen' with
          | operand :: later, operand' :: later', hlen, _ =>
              rw [List.forall_mem_cons] at ih hoperands'
              rw [words_join_cons, words_join_cons] at heq
              simp only [List.cons_append, List.append_assoc, List.nil_append, List.cons.injEq,
                true_and] at heq
              obtain ⟨rfl, hafter⟩ := ih.1 hoperands'.1 heq
              obtain ⟨rfl, rfl, hconnective⟩ := operands_append_inj ih.2 hoperands'.2 hafter
              -- there is a second operand, and the keyword stands before it
              have hlater : later ≠ [] := by
                rintro rfl
                simp at hlen
              obtain rfl := hconnective hlater
              exact ⟨rfl, rfl⟩

/-- Readable expressions with one text are one expression. -/
theorem render_inj {e d : Expr} (he : e.Readable) (hd : d.Readable) (h : e.render = d.render) :
    e = d := by
  have hwords : e.words = d.words := by
    have hsplit : e.words.map String.toList = d.words.map String.toList := by
      rw [← splitOn_render he, ← splitOn_render hd, h]
    exact List.map_injective_iff.mpr (fun _ _ => String.toList_inj.mp) hsplit
  have happend : e.words ++ [] = d.words ++ [] := by rw [hwords]
  exact (words_append_inj he hd happend).1

/-! ## Compiled expressions -/

/-- A join of readable expressions is readable; without operands it is the blank expression. -/
theorem readable_joined {c : Connective} (hc : c ≠ .not) {operands : List Expr}
    (h : ∀ operand ∈ operands, operand.Readable) : (joined c operands).Readable := by
  match operands with
  | [] => exact .atom (by decide)
  | [operand] => exact h operand List.mem_cons_self
  | _ :: _ :: _ => exact .join hc (by simp) h

theorem readable_joinDemands {c : Connective} (hc : c ≠ .not) {operands : List Expr}
    (h : ∀ operand ∈ operands, operand.Readable) : (joinDemands c operands).Readable :=
  readable_joined hc fun operand hoperand => h operand (List.mem_of_mem_filter hoperand)

theorem readable_refuseAll {operands : List Expr} (h : ∀ operand ∈ operands, operand.Readable) :
    (refuseAll operands).Readable := by
  refine readable_joined (by decide) fun e he => ?_
  obtain ⟨operand, hoperand, rfl⟩ := List.mem_map.mp he
  exact .negation (h operand (List.mem_of_mem_filter hoperand))

end Expr

/-- Every fragment that the surface returns for a criterion is a word. -/
def Surface.SpeaksWords (s : Surface) : Prop :=
  ∀ name op v, ∀ fragment ∈ s.fragments name op v, IsWord fragment

/-- A surface whose functions return words speaks words. -/
theorem Surface.speaksWords_of_returns {s : Surface}
    (h : ∀ entry ∈ s.operations, ∀ arguments, IsWord (entry.2 arguments)) : s.SpeaksWords := by
  intro name op v fragment hfragment
  rw [fragments] at hfragment
  cases hfound : s.referenceOf (.text name) >>= fun reference => s.fragmentsOf reference op v with
  | error e =>
      rw [hfound] at hfragment
      exact absurd hfragment List.not_mem_nil
  | ok texts =>
      rw [hfound] at hfragment
      obtain ⟨reference, -, htexts⟩ := bind_eq_ok_iff.mp hfound
      obtain ⟨entry, hentry, arguments, rfl⟩ := returned_of_mem_fragmentsOf htexts fragment hfragment
      exact h entry hentry arguments

/-- On a surface of words a compiled criterion is readable. -/
theorem readable_of_compileCriterion {s : Surface} (hs : s.SpeaksWords) {name : String}
    {reference : Value} (href : s.referenceOf (.text name) = .ok reference) {op : Operator}
    {v : Value} {e : Expr} (h : compileCriterion s reference op v = .ok e) : e.Readable := by
  rw [compileCriterion_eq] at h
  obtain ⟨texts, htexts, rfl⟩ := map_eq_ok_iff.mp h
  have hfragments : s.fragments name op v = texts := by
    rw [Surface.fragments, href, ok_bind, htexts]
  refine Expr.readable_joined op.quantifier_ne_not fun e he => ?_
  obtain ⟨text, htext, rfl⟩ := List.mem_map.mp he
  exact .atom (hs name op v text (by rw [hfragments]; exact htext))

/-- On a surface of words a compiled filter is readable. -/
theorem readable_of_compileNode {s : Surface} (hs : s.SpeaksWords) (n : Node) :
    (∀ l ∈ n.leaves, l.joiner ≠ .not) → ∀ e, compileNode s n = .ok e → e.Readable := by
  induction n using Node.memberInduction with
  | leaf name criteria joiner id label =>
      intro hjoin e h
      obtain ⟨reference, parts, href, hparts, rfl⟩ := compileLeaf_eq_ok_iff.mp h
      refine Expr.readable_joinDemands (hjoin _ List.mem_cons_self) ?_
      exact forall_mem_of_mapM (fun _ _ _ he => readable_of_compileCriterion hs href he) hparts
  | group ands ors nots id label hands hors hnots =>
      intro hjoin e h
      obtain ⟨jands, jors, jnots⟩ := Node.forall_leaves_group.mp hjoin
      obtain ⟨eands, eors, enots, ha, ho, hn, rfl⟩ := compileNode_group_eq_ok_iff.mp h
      have ra := forall_mem_of_mapM (fun n hmem e he => hands n hmem (jands n hmem) e he) ha
      have ro := forall_mem_of_mapM (fun n hmem e he => hors n hmem (jors n hmem) e he) ho
      have rn := forall_mem_of_mapM (fun n hmem e he => hnots n hmem (jnots n hmem) e he) hn
      refine Expr.readable_joinDemands (by decide) ?_
      rw [List.forall_mem_cons, List.forall_mem_cons, List.forall_mem_singleton]
      exact ⟨Expr.readable_joinDemands (by decide) ra, Expr.readable_joinDemands (by decide) ro,
        Expr.readable_refuseAll rn⟩

/-- **Compiled expressions are unambiguous.** When two filters whose leaves join by `and` or `or` are
compiled over a surface of words and their expressions are written alike, the expressions are the
same; and no other readable expression is written like them. -/
theorem compile_unambiguous {s : Surface} (hs : s.SpeaksWords) {n m : Node}
    (hn : ∀ l ∈ n.leaves, l.joiner ≠ .not) (hm : ∀ l ∈ m.leaves, l.joiner ≠ .not) {e d : Expr}
    (he : compile s (.node n) = .ok e) (hd : compile s (.node m) = .ok d)
    (h : e.render = d.render) :
    e = d ∧ ∀ r : Expr, r.Readable → r.render = e.render → r = e := by
  have hreadable : e.Readable := readable_of_compileNode hs n hn e he
  have hreadable' : d.Readable := readable_of_compileNode hs m hm d hd
  exact ⟨Expr.render_inj hreadable hreadable' h, fun r hr => Expr.render_inj hr hreadable⟩

/-- The filter for ages with its conditions one group further down. -/
def nestedAgeFilter : Node :=
  .group [.group [.leaf "age" [(.greater, .int 18)] .or .null (.text "adults")] []
    [.group [] [.leaf "age" [(.oneOf, .list [.int 30, .int 40])] .and .null .null] [] .null .null]
      .null .null] [] [] .null .null

/-- The expression of the filters for ages. -/
def ageExpr : Expr :=
  .join .and [.atom "adult", .negation (.join .or [.atom "thirty", .atom "other"])]

theorem ageSurface_speaksWords : ageSurface.SpeaksWords := by
  refine Surface.speaksWords_of_returns fun entry hentry arguments => ?_
  rcases List.mem_pair.mp hentry with rfl | rfl
  · show IsWord "adult"
    decide
  · dsimp only
    split
    · decide
    · decide

/-- The filters for ages differ and are written alike, and their text is that of one expression. -/
theorem ageExpr_unambiguous :
    ageSurface.SpeaksWords ∧ ageFilter ≠ nestedAgeFilter ∧
      (∀ l ∈ ageFilter.leaves, l.joiner ≠ .not) ∧ (∀ l ∈ nestedAgeFilter.leaves, l.joiner ≠ .not) ∧
      compile ageSurface (.node ageFilter) = .ok ageExpr ∧
      compile ageSurface (.node nestedAgeFilter) = .ok ageExpr ∧
      ∀ r : Expr, r.Readable → r.render = "( adult AND NOT ( thirty OR other ) )" → r = ageExpr := by
  have hn : ∀ l ∈ ageFilter.leaves, l.joiner ≠ .not := by decide
  have hm : ∀ l ∈ nestedAgeFilter.leaves, l.joiner ≠ .not := by decide
  exact ⟨ageSurface_speaksWords, by decide, hn, hm, rfl, rfl,
    (compile_unambiguous ageSurface_speaksWords hn hm rfl rfl rfl).2⟩

end RecordQuery
