import RecordQuery.Params.Key
import RecordQuery.Proofs.Outcome
/-!
# The grammar of parameter names

A parameter name begins with a plain name and goes on with tails: a plain name after a dot, or a text
in brackets, before which a dot may stand. `Spelling` is a parameter name taken apart in this way, and
no two spellings are written alike (`Spelling.written_injective`). The reader of parameter names finds
the spelling of every name that has one, and refuses all others.
-/

namespace RecordQuery.Params

open segmentsFrom (bracketFrom)

/-! ## Spellings -/

/-- The character may stand in a plain name. -/
def isPlain (c : Char) : Bool :=
  c != '.' && c != '[' && c != ']'

/-- A plain name: at least one character, and no dot or bracket among them. -/
abbrev PlainName := { cs : List Char // cs ≠ [] ∧ ∀ c ∈ cs, isPlain c = true }

/-- A text in brackets: any characters but the closing bracket. -/
abbrev BracketText := { cs : List Char // ']' ∉ cs }

/-- What may follow in a parameter name: a plain name after a dot, or a text in brackets with or
without a dot before them. -/
inductive Tail
  | dotted (name : PlainName)
  | bracketed (dot : Bool) (text : BracketText)

namespace Tail

/-- The characters of a tail. -/
def written : Tail → List Char
  | dotted name => '.' :: name.1
  | bracketed false text => '[' :: (text.1 ++ [']'])
  | bracketed true text => '.' :: '[' :: (text.1 ++ [']'])

/-- The segment that a tail spells. -/
def segment : Tail → List Char
  | dotted name => name.1
  | bracketed _ text => text.1

end Tail

/-- A parameter name taken apart: a plain name and its tails. -/
structure Spelling where
  name : PlainName
  tails : List Tail

namespace Spelling

/-- The parameter name. -/
def written (sp : Spelling) : String :=
  String.ofList (sp.name.1 ++ sp.tails.flatMap Tail.written)

/-- The names and bracket texts, in order. -/
def segments (sp : Spelling) : List String :=
  (sp.name.1 :: sp.tails.map Tail.segment).map String.ofList

end Spelling

/-! ## Spellings are unambiguous -/

/-- A row of characters of a class ends where the first other character stands. -/
theorem row_append_inj {p : Char → Bool} {as bs xs ys : List Char} (ha : ∀ c ∈ as, p c = true)
    (hb : ∀ c ∈ bs, p c = true) (hx : ∀ c ∈ xs.head?, p c = false)
    (hy : ∀ c ∈ ys.head?, p c = false) (h : as ++ xs = bs ++ ys) : as = bs ∧ xs = ys := by
  induction as generalizing bs with
  | nil =>
      cases bs with
      | nil => exact ⟨rfl, h⟩
      | cons b bs =>
          rw [List.nil_append] at h
          have hfalse := hx b (by rw [h]; rfl)
          rw [hb b List.mem_cons_self] at hfalse
          exact absurd hfalse (by simp)
  | cons a as ih =>
      cases bs with
      | nil =>
          rw [List.nil_append] at h
          have hfalse := hy a (by rw [← h]; rfl)
          rw [ha a List.mem_cons_self] at hfalse
          exact absurd hfalse (by simp)
      | cons b bs =>
          obtain ⟨rfl, hafter⟩ := List.cons.inj h
          rw [List.forall_mem_cons] at ha hb
          obtain ⟨rfl, hrest⟩ := ih ha.2 hb.2 hafter
          exact ⟨rfl, hrest⟩

/-- No tail begins with a character of a plain name. -/
theorem not_isPlain_of_head?_tails {tails : List Tail} :
    ∀ c ∈ (tails.flatMap Tail.written).head?, isPlain c = false := by
  intro c hc
  match tails with
  | [] => exact absurd hc (by simp)
  | .dotted name :: rest =>
      obtain rfl : '.' = c := by simpa [Tail.written] using hc
      rfl
  | .bracketed false text :: rest =>
      obtain rfl : '[' = c := by simpa [Tail.written] using hc
      rfl
  | .bracketed true text :: rest =>
      obtain rfl : '.' = c := by simpa [Tail.written] using hc
      rfl

/-- A text in brackets ends at the first closing bracket. -/
theorem bracketText_append_inj {text other : BracketText} {xs ys : List Char}
    (h : text.1 ++ ']' :: xs = other.1 ++ ']' :: ys) : text = other ∧ xs = ys := by
  have hin : ∀ text : BracketText, ∀ c ∈ text.1, (c != ']') = true := by
    intro text c hc
    exact bne_iff_ne.mpr fun heq => text.2 (heq ▸ hc)
  obtain ⟨htext, hrest⟩ := row_append_inj (hin text) (hin other) (by simp) (by simp) h
  exact ⟨Subtype.ext htext, (List.cons.inj hrest).2⟩

/-- A plain name before tails ends where the first tail begins. -/
theorem plainName_append_inj {name other : PlainName} {tails others : List Tail}
    (h : name.1 ++ tails.flatMap Tail.written = other.1 ++ others.flatMap Tail.written) :
    name = other ∧ tails.flatMap Tail.written = others.flatMap Tail.written := by
  obtain ⟨hname, hrest⟩ := row_append_inj name.2.2 other.2.2 not_isPlain_of_head?_tails
    not_isPlain_of_head?_tails h
  exact ⟨Subtype.ext hname, hrest⟩

/-- No plain name begins like a text in brackets. -/
theorem plainName_append_ne {name : PlainName} {xs ys : List Char} : name.1 ++ xs ≠ '[' :: ys := by
  obtain ⟨cs, hne, hplain⟩ := name
  match cs, hne with
  | c :: cs, _ =>
    intro h
    obtain rfl := (List.cons.inj h).1
    exact absurd (hplain '[' List.mem_cons_self) (by decide)

/-- Tails that are written alike are the same. -/
theorem tails_written_inj {tails others : List Tail}
    (h : tails.flatMap Tail.written = others.flatMap Tail.written) : tails = others := by
  induction tails generalizing others with
  | nil =>
      cases others with
      | nil => rfl
      | cons other others => cases other with
        | dotted name => exact absurd h (by simp [Tail.written])
        | bracketed dot text => cases dot <;> exact absurd h (by simp [Tail.written])
  | cons tail tails ih =>
      cases others with
      | nil => cases tail with
        | dotted name => exact absurd h (by simp [Tail.written])
        | bracketed dot text => cases dot <;> exact absurd h (by simp [Tail.written])
      | cons other others =>
          rw [List.flatMap_cons, List.flatMap_cons] at h
          -- the first two characters tell which kind of tail it is
          match tail, other with
          | .dotted name, .dotted name' =>
              obtain ⟨rfl, hrest⟩ := plainName_append_inj (List.cons.inj h).2
              rw [ih hrest]
          | .bracketed false text, .bracketed false text' =>
              obtain ⟨rfl, hrest⟩ := bracketText_append_inj
                (by simpa [Tail.written] using (List.cons.inj h).2)
              rw [ih hrest]
          | .bracketed true text, .bracketed true text' =>
              obtain ⟨rfl, hrest⟩ := bracketText_append_inj
                (by simpa [Tail.written] using (List.cons.inj h).2)
              rw [ih hrest]
          | .dotted name, .bracketed true text =>
              exact absurd (List.cons.inj h).2 plainName_append_ne
          | .bracketed true text, .dotted name =>
              exact absurd (List.cons.inj h).2.symm plainName_append_ne
          | .bracketed false text, .dotted name => exact absurd (List.cons.inj h).1 (by decide)
          | .bracketed false text, .bracketed true text' =>
              exact absurd (List.cons.inj h).1 (by decide)
          | .dotted name, .bracketed false text => exact absurd (List.cons.inj h).1 (by decide)
          | .bracketed true text, .bracketed false text' =>
              exact absurd (List.cons.inj h).1 (by decide)

/-- Spellings that are written alike are the same. -/
theorem Spelling.written_injective : Function.Injective Spelling.written := by
  rintro ⟨name, tails⟩ ⟨name', tails'⟩ h
  obtain ⟨hname, hrest⟩ := plainName_append_inj (String.ofList_injective h)
  rw [Spelling.mk.injEq]
  exact ⟨hname, tails_written_inj hrest⟩

/-! ## One step of the reader -/

/-- The segment whose characters have been read, if there are any. -/
def pending (read : List Char) : List (List Char) :=
  if read = [] then [] else [read.reverse]

/-- The places at which a tail may follow: behind a closing bracket, and inside a plain name. -/
inductive Between : Place → (started : Bool) → (read : List Char) → Prop
  | closed : Between .closed true []
  | named {started : Bool} {read : List Char} : read ≠ [] → Between .plain started read

theorem segmentsFrom_of_isPlain {place : Place} (hplace : place ≠ .closed) {c : Char}
    (hc : isPlain c = true) (started : Bool) (read rest : List Char) :
    segmentsFrom place started read (c :: rest) = segmentsFrom .plain started (c :: read) rest := by
  simp only [isPlain, Bool.and_eq_true, bne_iff_ne] at hc
  obtain ⟨⟨hdot, hopen⟩, hclose⟩ := hc
  rw [segmentsFrom, if_neg hopen, if_neg fun h => hplace h.2, if_neg hplace, if_neg hclose,
    if_neg hdot]

theorem segmentsFrom_open {place : Place} {started : Bool} {read : List Char}
    (hstart : started = true ∨ read ≠ []) (rest : List Char) :
    segmentsFrom place started read ('[' :: rest) =
      if ']' ∈ rest then (bracketFrom [] rest).map (pending read ++ ·) else .error .openBracket := by
  have hname : (read.isEmpty && !started) = false := by
    rcases hstart with rfl | hread
    · simp
    · simp [hread]
  rw [segmentsFrom, if_pos rfl]
  by_cases hclose : ']' ∈ rest
  · rw [if_pos hclose, if_neg (by simp [hclose]), hname, if_neg Bool.false_ne_true]
    cases bracketFrom [] rest with
    | error fault => rfl
    | ok later => cases read <;> rfl
  · rw [if_neg hclose, if_pos (by simp [hclose])]

theorem segmentsFrom_dot {place : Place} {started : Bool} {read : List Char}
    (h : Between place started read) (rest : List Char) :
    segmentsFrom place started read ('.' :: rest) =
      (segmentsFrom .dotted true [] rest).map (pending read ++ ·) := by
  cases h with
  | closed =>
      rw [segmentsFrom, if_neg (by decide), if_pos ⟨rfl, rfl⟩]
      cases segmentsFrom .dotted true [] rest <;> rfl
  | named hread =>
      rw [segmentsFrom, if_neg (by decide), if_neg (by simp), if_neg (by decide),
        if_neg (by decide), if_pos rfl, if_neg (by simpa using hread)]
      rw [pending, if_neg hread]
      cases segmentsFrom .dotted true [] rest <;> rfl

theorem segmentsFrom_nil {place : Place} {started : Bool} {read : List Char}
    (h : Between place started read) :
    segmentsFrom place started read [] = .ok (pending read) := by
  cases h with
  | closed => rfl
  | named hread =>
      rw [pending, if_neg hread]
      cases read with
      | nil => exact absurd rfl hread
      | cons c read => rfl

/-- Brackets are read up to the first closing one. -/
theorem bracketFrom_append {text : List Char} (htext : ']' ∉ text) (read rest : List Char) :
    bracketFrom read (text ++ ']' :: rest) =
      (segmentsFrom .closed true [] rest).map ((read.reverse ++ text) :: ·) := by
  induction text generalizing read with
  | nil =>
      rw [List.nil_append, bracketFrom, if_pos rfl, List.append_nil]
      cases segmentsFrom .closed true [] rest <;> rfl
  | cons c text ih =>
      have hc : c ≠ ']' := fun heq => htext (heq ▸ List.mem_cons_self)
      rw [List.cons_append, bracketFrom, if_neg hc,
        ih (fun hmem => htext (List.mem_cons_of_mem c hmem)), List.reverse_cons, List.append_assoc,
        List.singleton_append]

/-! ## Spellings are read -/

/-- The characters of a plain name are collected. -/
theorem segmentsFrom_append {name : List Char} (hname : ∀ c ∈ name, isPlain c = true)
    (started : Bool) (read rest : List Char) :
    segmentsFrom .plain started read (name ++ rest) =
      segmentsFrom .plain started (name.reverse ++ read) rest := by
  induction name generalizing read with
  | nil => rfl
  | cons c name ih =>
      rw [List.forall_mem_cons] at hname
      rw [List.cons_append, segmentsFrom_of_isPlain (by decide) hname.1, ih hname.2,
        List.reverse_cons, List.append_assoc, List.singleton_append]

theorem segmentsFrom_bracketed {place : Place} {started : Bool} {read : List Char}
    (hstart : started = true ∨ read ≠ []) (text : BracketText) (rest : List Char) :
    segmentsFrom place started read ('[' :: (text.1 ++ ']' :: rest)) =
      (segmentsFrom .closed true [] rest).map (pending read ++ text.1 :: ·) := by
  rw [segmentsFrom_open hstart, if_pos (by simp), bracketFrom_append text.2]
  cases segmentsFrom .closed true [] rest <;> rfl

/-- Tails are read as their segments wherever they may follow. -/
theorem segmentsFrom_tails {place : Place} {started : Bool} {read : List Char}
    (h : Between place started read) (tails : List Tail) :
    segmentsFrom place started read (tails.flatMap Tail.written) =
      .ok (pending read ++ tails.map Tail.segment) := by
  induction tails generalizing place started read with
  | nil => rw [List.flatMap_nil, segmentsFrom_nil h, List.map_nil, List.append_nil]
  | cons tail tails ih =>
      have hstart : started = true ∨ read ≠ [] := by
        cases h with
        | closed => exact .inl rfl
        | named hread => exact .inr hread
      rw [List.flatMap_cons]
      match tail with
      | .bracketed false text =>
          have hchars : (Tail.bracketed false text).written ++ tails.flatMap Tail.written =
              '[' :: (text.1 ++ ']' :: tails.flatMap Tail.written) := by simp [Tail.written]
          rw [hchars, segmentsFrom_bracketed hstart, ih .closed]
          rfl
      | .bracketed true text =>
          have hchars : (Tail.bracketed true text).written ++ tails.flatMap Tail.written =
              '.' :: '[' :: (text.1 ++ ']' :: tails.flatMap Tail.written) := by simp [Tail.written]
          rw [hchars, segmentsFrom_dot h, segmentsFrom_bracketed (.inl rfl), ih .closed]
          rfl
      | .dotted ⟨c :: cs, _, hplain⟩ =>
          rw [List.forall_mem_cons] at hplain
          have hread : cs.reverse ++ [c] ≠ [] := by simp
          rw [Tail.written, List.cons_append, segmentsFrom_dot h, List.cons_append,
            segmentsFrom_of_isPlain (by decide) hplain.1, segmentsFrom_append hplain.2,
            ih (.named hread)]
          simp [Except.map, pending, Tail.segment]

/-! ## What is read is a spelling -/

/-- What is read inside brackets is a text up to the first closing bracket. -/
theorem exists_of_bracketFrom {cs : List Char} {read : List Char} {segments : List (List Char)}
    (h : bracketFrom read cs = .ok segments) :
    ∃ (text : BracketText) (rest : List Char) (later : List (List Char)),
      cs = text.1 ++ ']' :: rest ∧ segmentsFrom .closed true [] rest = .ok later ∧
        segments = (read.reverse ++ text.1) :: later := by
  induction cs generalizing read with
  | nil => exact absurd h (by simp [bracketFrom])
  | cons c cs ih =>
      rw [bracketFrom] at h
      by_cases hclose : c = ']'
      · rw [if_pos hclose] at h
        obtain ⟨later, hlater, h⟩ := bind_eq_ok_iff.mp h
        obtain rfl := Except.ok.inj h
        exact ⟨⟨[], List.not_mem_nil⟩, cs, later, by rw [hclose]; rfl, hlater, by simp⟩
      · rw [if_neg hclose] at h
        obtain ⟨text, rest, later, rfl, hlater, rfl⟩ := ih h
        have htext : ']' ∉ c :: text.1 := by
          rw [List.mem_cons, not_or]
          exact ⟨fun heq => hclose heq.symm, text.2⟩
        exact ⟨⟨c :: text.1, htext⟩, rest, later, rfl, hlater, by simp⟩

/-- What is read from an opening bracket on is a text in brackets. -/
theorem exists_of_segmentsFrom_open {place : Place} {started : Bool} {read rest : List Char}
    {segments : List (List Char)} (hstart : started = true ∨ read ≠ [])
    (h : segmentsFrom place started read ('[' :: rest) = .ok segments) :
    ∃ (text : BracketText) (more : List Char) (later : List (List Char)),
      rest = text.1 ++ ']' :: more ∧ segmentsFrom .closed true [] more = .ok later ∧
        segments = pending read ++ text.1 :: later := by
  rw [segmentsFrom_open hstart] at h
  by_cases hclose : ']' ∈ rest
  · rw [if_pos hclose] at h
    obtain ⟨inside, hinside, rfl⟩ := map_eq_ok_iff.mp h
    obtain ⟨text, more, later, hrest, hlater, rfl⟩ := exists_of_bracketFrom hinside
    exact ⟨text, more, later, hrest, hlater, rfl⟩
  · rw [if_neg hclose] at h
    exact absurd h (by simp)

/-- Of the characters that are not plain, only a dot and an opening bracket may follow. -/
theorem segmentsFrom_ne_ok_of_close {place : Place} {started : Bool} {read rest : List Char}
    {segments : List (List Char)} :
    segmentsFrom place started read (']' :: rest) ≠ .ok segments := by
  rw [segmentsFrom, if_neg (by decide), if_neg (by simp)]
  by_cases hplace : place = .closed
  · rw [if_pos hplace]
    simp
  · rw [if_neg hplace, if_pos rfl]
    simp

/-- Every character is a dot, a bracket or plain. -/
theorem char_cases (c : Char) : c = '.' ∨ c = '[' ∨ c = ']' ∨ isPlain c = true := by
  by_cases hdot : c = '.'
  · exact .inl hdot
  by_cases hopen : c = '['
  · exact .inr (.inl hopen)
  by_cases hclose : c = ']'
  · exact .inr (.inr (.inl hclose))
  · simp [isPlain, hdot, hopen, hclose]

/-- What is read where a tail may follow is the rest of a plain name, if one has been begun, and
tails. The induction is on the number of characters, because a tail is read in several steps. -/
theorem exists_tails_of_segmentsFrom (bound : Nat) :
    ∀ {cs : List Char} {place : Place} {started : Bool} {read : List Char}
      {segments : List (List Char)}, cs.length < bound → Between place started read →
      segmentsFrom place started read cs = .ok segments →
      ∃ (name : List Char) (tails : List Tail), (∀ c ∈ name, isPlain c = true) ∧
        (place = .closed → name = []) ∧ cs = name ++ tails.flatMap Tail.written ∧
        segments = pending (name.reverse ++ read) ++ tails.map Tail.segment := by
  induction bound with
  | zero => exact fun hlt => absurd hlt (Nat.not_lt_zero _)
  | succ bound ih =>
      intro cs place started read segments hlt hbetween h
      -- a tail in brackets leads to a place where the next one may follow
      have hbracketed : ∀ {rest more : List Char} {text : BracketText} {later : List (List Char)},
          rest = text.1 ++ ']' :: more → rest.length < bound →
          segmentsFrom .closed true [] more = .ok later →
          ∃ tails : List Tail, rest = text.1 ++ ']' :: tails.flatMap Tail.written ∧
            later = tails.map Tail.segment := by
        intro rest more text later hrest hshort hlater
        have hmore : more.length < bound := by
          have hlength := congrArg List.length hrest
          rw [List.length_append, List.length_cons] at hlength
          omega
        obtain ⟨name, tails, -, hname, rfl, rfl⟩ := ih hmore .closed hlater
        obtain rfl := hname rfl
        exact ⟨tails, hrest, rfl⟩
      match cs with
      | [] =>
          rw [segmentsFrom_nil hbetween] at h
          exact ⟨[], [], by simp, fun _ => rfl, rfl, by simp [← Except.ok.inj h]⟩
      | c :: rest =>
          have hshort : rest.length < bound := Nat.lt_of_succ_lt_succ hlt
          have hstart : started = true ∨ read ≠ [] := by
            cases hbetween with
            | closed => exact .inl rfl
            | named hread => exact .inr hread
          rcases char_cases c with rfl | rfl | rfl | hc
          · rw [segmentsFrom_dot hbetween] at h
            obtain ⟨later, hlater, rfl⟩ := map_eq_ok_iff.mp h
            match rest with
            | [] => exact absurd hlater (by simp [segmentsFrom])
            | d :: rest =>
                have hshorter : rest.length < bound := Nat.lt_of_succ_lt hshort
                rcases char_cases d with rfl | rfl | rfl | hd
                · exact absurd hlater (by simp [segmentsFrom])
                · obtain ⟨text, more, last, hrest, hlast, rfl⟩ :=
                    exists_of_segmentsFrom_open (.inl rfl) hlater
                  obtain ⟨tails, rfl, rfl⟩ := hbracketed hrest hshorter hlast
                  exact ⟨[], .bracketed true text :: tails, by simp, fun _ => rfl,
                    by simp [Tail.written], rfl⟩
                · exact absurd hlater segmentsFrom_ne_ok_of_close
                · rw [segmentsFrom_of_isPlain (by decide) hd] at hlater
                  obtain ⟨name, tails, hname, -, rfl, rfl⟩ :=
                    ih hshorter (.named (by simp)) hlater
                  have hplain : ∀ c ∈ d :: name, isPlain c = true :=
                    List.forall_mem_cons.mpr ⟨hd, hname⟩
                  refine ⟨[], .dotted ⟨d :: name, by simp, hplain⟩ :: tails, by simp, fun _ => rfl,
                    rfl, ?_⟩
                  have hname : pending (name.reverse ++ [d]) = [d :: name] := by simp [pending]
                  rw [hname]
                  rfl
          · obtain ⟨text, more, last, hrest, hlast, rfl⟩ := exists_of_segmentsFrom_open hstart h
            obtain ⟨tails, rfl, rfl⟩ := hbracketed hrest hshort hlast
            exact ⟨[], .bracketed false text :: tails, by simp, fun _ => rfl,
              by simp [Tail.written], rfl⟩
          · exact absurd h segmentsFrom_ne_ok_of_close
          · cases hbetween with
            | closed =>
                simp only [isPlain, Bool.and_eq_true, bne_iff_ne] at hc
                rw [segmentsFrom, if_neg hc.1.2, if_neg fun h => hc.1.1 h.1, if_pos rfl] at h
                exact absurd h (by simp)
            | named hread =>
                rw [segmentsFrom_of_isPlain (by decide) hc] at h
                obtain ⟨name, tails, hname, -, rfl, rfl⟩ := ih hshort (.named (by simp)) h
                exact ⟨c :: name, tails, List.forall_mem_cons.mpr ⟨hc, hname⟩,
                  fun hplace => absurd hplace (by decide), rfl, by simp⟩

/-! ## Parameter names -/

theorem segments?_written (sp : Spelling) : segments? sp.written = .ok sp.segments := by
  obtain ⟨⟨cs, hne, hplain⟩, tails⟩ := sp
  have hchars : cs.reverse ++ [] ≠ [] := by simpa using hne
  rw [segments?, if_neg (by simp [Spelling.written, hne]), Spelling.written, String.toList_ofList,
    segmentsFrom_append hplain, segmentsFrom_tails (.named hchars), pending, if_neg hchars]
  simp [Except.map, Spelling.segments]

theorem exists_spelling_of_segments? {key : String} {segments : List String}
    (h : segments? key = .ok segments) : ∃ sp : Spelling, sp.written = key ∧ sp.segments = segments := by
  rw [segments?] at h
  by_cases hkey : key = ""
  · rw [if_pos hkey] at h
    exact absurd h (by simp)
  rw [if_neg hkey] at h
  obtain ⟨parts, hparts, rfl⟩ := map_eq_ok_iff.mp h
  match hcs : key.toList with
  | [] => exact absurd (String.toList_eq_nil_iff.mp hcs) hkey
  | c :: rest =>
      rw [hcs] at hparts
      rcases char_cases c with rfl | rfl | rfl | hc
      · exact absurd hparts (by simp [segmentsFrom])
      · rw [segmentsFrom, if_pos rfl] at hparts
        split at hparts <;> exact absurd hparts (by simp)
      · exact absurd hparts segmentsFrom_ne_ok_of_close
      · rw [segmentsFrom_of_isPlain (by decide) hc] at hparts
        obtain ⟨name, tails, hname, -, rfl, rfl⟩ :=
          exists_tails_of_segmentsFrom _ (Nat.lt_succ_self _) (.named (by simp)) hparts
        have hplain : ∀ d ∈ c :: name, isPlain d = true := List.forall_mem_cons.mpr ⟨hc, hname⟩
        refine ⟨⟨⟨c :: name, by simp, hplain⟩, tails⟩, ?_, by simp [Spelling.segments, pending]⟩
        rw [Spelling.written, ← @String.ofList_toList key, hcs]
        rfl

/-- **The grammar of parameter names.** A parameter name is split into a list of segments exactly when
it has a spelling with these segments, however its tails are written. No parameter name has two
spellings, and one that has none is refused with an error that carries it. -/
theorem splitKey_accepts_spellings (key : String) :
    (∀ segments, splitKey key = .ok segments ↔
      ∃ sp : Spelling, sp.written = key ∧ sp.segments = segments) ∧
    Function.Injective Spelling.written ∧
    ((∃ sp : Spelling, sp.written = key) ∨
      ∃ fault, splitKey key = .error (.parse fault (.text key))) := by
  refine ⟨fun segments => ⟨fun h => ?_, ?_⟩, Spelling.written_injective, ?_⟩
  · apply exists_spelling_of_segments?
    rw [splitKey] at h
    split at h
    · rename_i hread
      rw [hread, Except.ok.inj h]
    · exact absurd h (by simp)
  · rintro ⟨sp, rfl, rfl⟩
    rw [splitKey, segments?_written]
  · cases hread : segments? key with
    | ok segments =>
        obtain ⟨sp, hwritten, -⟩ := exists_spelling_of_segments? hread
        exact .inl ⟨sp, hwritten⟩
    | error fault => exact .inr ⟨fault, by rw [splitKey, hread]⟩

example : splitKey "or[0].name.[eq]" = .ok ["or", "0", "name", "eq"] := rfl

end RecordQuery.Params
