import RecordQuery.Number.Binary64
import RecordQuery.Text.CodePoint
/-!
# Similar texts

How alike two texts are, by the total length of the blocks they share, and the texts closest to a
word. Matching is greedy: the longest common block splits both texts, and both remainders are
matched in turn. In a long word the code points that occur too often start no block; a block may
still grow over them.
-/

namespace RecordQuery.Text.Similarity

/-! ## The longest common block -/

/-- A block of `size` code points found at `left` in one text and at `right` in the other. -/
structure Block where
  left : Nat
  right : Nat
  size : Nat
deriving Repr, DecidableEq

/-- The lengths of the common blocks that end with the code point `c` at each place of `word`, from
the lengths of those that end one place earlier in the other text. -/
def extendRow (crowded : List CodePoint) (c : CodePoint) :
    Nat → List Nat → List CodePoint → List Nat
  | _, _, [] => []
  | before, previous, d :: word =>
    (if c == d && !crowded.contains c then before + 1 else 0) ::
      extendRow crowded c (previous.headD 0) previous.tail word

/-- The better of a block and the longest block that ends at place `i` with the lengths of `row`. -/
def improve (i : Nat) : Nat → List Nat → Block → Block
  | _, [], best => best
  | j, size :: row, best =>
    improve i (j + 1) row (if best.size < size then ⟨i + 1 - size, j + 1 - size, size⟩ else best)

/-- The first of the longest common blocks free of crowded code points. -/
def longestSparse (crowded : List CodePoint) (word : List CodePoint) :
    Nat → List CodePoint → List Nat → Block → Block
  | _, [], _, best => best
  | i, c :: text, row, best =>
    -- a strictly longer block replaces the best one, so the first of equals stays
    let next := extendRow crowded c 0 row word
    longestSparse crowded word (i + 1) text next (improve i 0 next best)

/-- The number of places at which two texts agree from the start. -/
def agreement : List CodePoint → List CodePoint → Nat
  | a :: as, b :: bs => if a == b then agreement as bs + 1 else 0
  | _, _ => 0

/-- The longest common block of two texts, grown over the code points that start none. -/
def longestBlock (crowded : List CodePoint) (text word : List CodePoint) : Block :=
  let best := longestSparse crowded word 0 text [] ⟨0, 0, 0⟩
  -- crowded code points start no block, so the block may still grow at both ends
  let back := agreement (text.take best.left).reverse (word.take best.right).reverse
  let ahead := agreement (text.drop (best.left + best.size)) (word.drop (best.right + best.size))
  ⟨best.left - back, best.right - back, back + best.size + ahead⟩

/-! ## The matched length -/

/-- The total length of the common blocks of two texts. -/
def matched (crowded : List CodePoint) (text word : List CodePoint) : Nat :=
  let block := longestBlock crowded text word
  if block.size = 0 ∨ text.length < block.left + block.size then 0
  else
    matched crowded (text.take block.left) (word.take block.right) + block.size +
      matched crowded (text.drop (block.left + block.size)) (word.drop (block.right + block.size))
termination_by text.length
decreasing_by
  all_goals
    rename_i h
    simp +zetaDelta only [List.length_take, List.length_drop] at h ⊢
    omega

/-- The code points that start no block: in a word of two hundred or more, those that make up more
than a hundredth of it. -/
def crowdedIn (word : List CodePoint) : List CodePoint :=
  if word.length < 200 then []
  else word.eraseDups.filter fun c => word.length / 100 + 1 < word.count c

/-- Twice the matched length over the sum of the lengths; two empty texts are wholly alike. -/
def ratio (text word : List CodePoint) : Binary64 :=
  let total := text.length + word.length
  if total = 0 then .ofNat 1 else .ofRatio false (2 * matched (crowdedIn word) text word) total

/-! ## The closest texts -/

/-- A candidate and its likeness to the word. -/
structure Scored where
  score : Binary64
  text : String

/-- The first candidate ranks before the second: it is more alike, or as alike and not the smaller
text. -/
def Scored.before (a b : Scored) : Bool :=
  if b.score.lt a.score then true
  else if a.score.lt b.score then false
  else decide (b.text ≤ a.text)

/-- The at most `count` candidates most alike to the word whose likeness reaches the cutoff, best
first. -/
def closest (word : String) (candidates : List String) (count : Nat) (cutoff : Binary64) :
    List String :=
  let scored := candidates.map fun text =>
    (⟨ratio (toCodePoints text) (toCodePoints word), text⟩ : Scored)
  let close := scored.filter fun candidate => cutoff.le candidate.score
  ((close.mergeSort Scored.before).take count).map (·.text)

end RecordQuery.Text.Similarity
