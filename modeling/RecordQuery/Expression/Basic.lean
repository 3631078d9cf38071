import RecordQuery.Operator
import RecordQuery.Text.Uppercase
/-!
# Boolean expressions

The expressions that filters compile to: fragments of the persistence layer, negated and joined. An
expression is written with parentheses around every join of two or more operands, so it needs no
precedence between connectives. The blank expression makes no demand and is left out of joins.
-/

namespace RecordQuery

/-- A boolean expression over fragments of text. -/
inductive Expr
  | atom (fragment : String)
  | negation (operand : Expr)
  | join (connective : Connective) (operands : List Expr)

namespace Expr

/-- The expression that makes no demand. -/
def blank : Expr := .atom ""

/-- The expression makes no demand. -/
def isBlank : Expr → Bool
  | atom fragment => fragment.isEmpty
  | _ => false

/-- The join of expressions, for which a single one stands by itself. -/
def joined (connective : Connective) : List Expr → Expr
  | [] => blank
  | [operand] => operand
  | operands => .join connective operands

/-- The join of the expressions that make a demand. -/
def joinDemands (connective : Connective) (operands : List Expr) : Expr :=
  joined connective (operands.filter fun operand => !operand.isBlank)

/-- A single operand needs no join. -/
@[simp] theorem joined_singleton (connective : Connective) (operand : Expr) :
    joined connective [operand] = operand := rfl

/-- A join of nothing makes no demand. -/
@[simp] theorem joined_nil (connective : Connective) : joined connective [] = blank := rfl

/-! ## Writing -/

/-- Texts joined by a word and put into parentheses, unless there are fewer than two. -/
def parenthesize (word : String) : List String → String
  | [] => ""
  | [item] => item
  | items => "( " ++ (" " ++ word ++ " ").intercalate items ++ " )"

/-- Texts joined by a delimiter in capital letters and put into parentheses. -/
def parenthesizeBy (delimiter : String) (items : List String) : String :=
  parenthesize (Text.Uppercase.ofString delimiter) items

/-- The word of a connective delimits as its keyword does. -/
theorem parenthesizeBy_word (c : Connective) (items : List String) :
    parenthesizeBy c.word items = parenthesize c.keyword items := by
  have hcapital : Text.Uppercase.ofString c.word = c.keyword := by
    cases c <;> decide
  rw [parenthesizeBy, hcapital]

mutual

/-- The written form of an expression. -/
def render : Expr → String
  | atom fragment => fragment
  | negation operand => "NOT " ++ operand.render
  | join connective operands => parenthesize connective.keyword (renderAll operands)
termination_by structural expr => expr

/-- The written forms of the operands of a join. -/
def renderAll : List Expr → List String
  | [] => []
  | operand :: rest => operand.render :: renderAll rest
termination_by structural operands => operands

end

/-- The operands of a join are written one by one. -/
theorem renderAll_eq_map (operands : List Expr) : renderAll operands = operands.map render := by
  induction operands with
  | nil => rfl
  | cons operand rest ih => simp [renderAll, ih]

/-- A join of written expressions is the written join of the expressions. -/
theorem render_joined (connective : Connective) (operands : List Expr) :
    (joined connective operands).render =
      parenthesize connective.keyword (operands.map render) := by
  match operands with
  | [] => rfl
  | [_] => rfl
  | a :: b :: rest => simp [joined, render, renderAll_eq_map]

end Expr

end RecordQuery
