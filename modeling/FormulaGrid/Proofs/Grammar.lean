import FormulaGrid.Proofs.Lexemes

/-! # The grammar of formulas

    sum     ::= product (('+' | '-') product)*
    product ::= atom (('*' | '/') atom)*
    atom    ::= number | name | '(' sum ')'

The strength of a phrase is that of the weakest operators that it may show outside of parentheses:
one for a sum, two for a product, three for an atom.
-/

namespace FormulaGrid

structure Literal where
  text : String
  isNumber : Token.IsNumber text.toList

def Literal.value (n : Literal) : Float :=
  (Number.parse? n.text).get (Option.isSome_iff_exists.2 n.isNumber.exists_parse)

theorem Literal.parse?_text (n : Literal) : Number.parse? n.text = some n.value :=
  (Option.some_get _).symm

structure Identifier where
  text : String
  isIdentifier : Token.IsIdentifier text.toList

/-! ## Trees -/

/-- A formula without parentheses.  Each node knows where its token begins. -/
inductive Tree where
  | number (n : Literal) (offset : Nat)
  | name (i : Identifier) (offset : Nat)
  | binary (op : Operator) (offset : Nat) (left right : Tree)

namespace Tree

def postorder : Tree → List Token
  | number n offset => [⟨n.text, offset⟩]
  | name i offset => [⟨i.text, offset⟩]
  | binary op offset left right => left.postorder ++ right.postorder ++ [⟨op.text, offset⟩]

def names : Tree → List String
  | number _ _ => []
  | name i _ => [i.text]
  | binary _ _ left right => left.names ++ right.names

def expr (slot : String → Nat) : Tree → Expr
  | number n _ => .const n.value
  | name i _ => .var i.text (slot i.text)
  | binary op _ left right => .binary op (left.expr slot) (right.expr slot)

end Tree

/-! ## Phrases -/

mutual

/-- A derivation. -/
inductive Phrase : Nat → Type
  | number (n : Literal) : Phrase 3
  | name (i : Identifier) : Phrase 3
  | group (inner : Phrase 1) : Phrase 3
  | row {strength : Nat} (first : Phrase (strength + 1)) (rest : Rest strength) : Phrase strength

/-- A repetition: operators of one strength, each with the operand behind it. -/
inductive Rest : Nat → Type
  | done {strength : Nat} : Rest strength
  | more {strength : Nat} (op : Operator) (level : op.precedence = strength)
    (operand : Phrase (strength + 1)) (rest : Rest strength) : Rest strength

end

mutual

def Phrase.text {strength : Nat} : Phrase strength → String
  | .number n => n.text
  | .name i => i.text
  | .group inner => "(" ++ inner.text ++ ")"
  | .row first rest => first.text ++ rest.text

def Rest.text {strength : Nat} : Rest strength → String
  | .done => ""
  | .more op _ operand rest => op.text ++ operand.text ++ rest.text

end

def Phrase.width {strength : Nat} (p : Phrase strength) : Nat :=
  p.text.utf8ByteSize

def Rest.width {strength : Nat} (r : Rest strength) : Nat :=
  r.text.utf8ByteSize

mutual

def Phrase.tokens {strength : Nat} (offset : Nat) : Phrase strength → List Token
  | .number n => [⟨n.text, offset⟩]
  | .name i => [⟨i.text, offset⟩]
  | .group inner =>
    ⟨"(", offset⟩ :: (inner.tokens (offset + 1) ++ [⟨")", offset + 1 + inner.width⟩])
  | .row first rest => first.tokens offset ++ rest.tokens (offset + first.width)

def Rest.tokens {strength : Nat} (offset : Nat) : Rest strength → List Token
  | .done => []
  | .more op _ operand rest =>
    ⟨op.text, offset⟩ ::
      (operand.tokens (offset + 1) ++ rest.tokens (offset + 1 + operand.width))

end

mutual

def Phrase.tree {strength : Nat} (offset : Nat) : Phrase strength → Tree
  | .number n => .number n offset
  | .name i => .name i offset
  | .group inner => inner.tree (offset + 1)
  | .row first rest => rest.tree (offset + first.width) (first.tree offset)

def Rest.tree {strength : Nat} (offset : Nat) (left : Tree) : Rest strength → Tree
  | .done => left
  | .more op _ operand rest =>
    rest.tree (offset + 1 + operand.width)
      (.binary op offset left (operand.tree (offset + 1)))

end

mutual

def Phrase.names {strength : Nat} : Phrase strength → List String
  | .number _ => []
  | .name i => [i.text]
  | .group inner => inner.names
  | .row first rest => first.names ++ rest.names

def Rest.names {strength : Nat} : Rest strength → List String
  | .done => []
  | .more _ _ operand rest => operand.names ++ rest.names

end

mutual

def Phrase.value {strength : Nat} : Phrase strength → Float
  | .number n => n.value
  | .name _ => 0
  | .group inner => inner.value
  | .row first rest => rest.value first.value

def Rest.value {strength : Nat} (left : Float) : Rest strength → Float
  | .done => left
  | .more op _ operand rest => rest.value (op.apply left operand.value)

end

example (a b c : Phrase 2) :
    (Phrase.row a (.more .sub rfl b (.more .sub rfl c .done))).value =
      a.value - b.value - c.value :=
  rfl

/-- The slot of a name: how many different names appear before it does. -/
def Phrase.slot {strength : Nat} (p : Phrase strength) (name : String) : Nat :=
  p.names.eraseDups.idxOf name

/-! ## Trees of phrases -/

mutual

theorem Phrase.names_tree {strength : Nat} (offset : Nat) :
    ∀ p : Phrase strength, (p.tree offset).names = p.names
  | .number _ => rfl
  | .name _ => rfl
  | .group inner => inner.names_tree (offset + 1)
  | .row first rest => by
    rw [Phrase.tree, rest.names_tree, first.names_tree, Phrase.names]

theorem Rest.names_tree {strength : Nat} (offset : Nat) (left : Tree) :
    ∀ r : Rest strength, (r.tree offset left).names = left.names ++ r.names
  | .done => (List.append_nil left.names).symm
  | .more op _ operand rest => by
    rw [Rest.tree, rest.names_tree, Tree.names, operand.names_tree, Rest.names, List.append_assoc]

end

end FormulaGrid
