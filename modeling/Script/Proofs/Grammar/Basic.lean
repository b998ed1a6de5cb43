/-
# The grammar of programs

The rules by which a row of tokens is a program, one inductive reading for each
construct. They say what may stand where and how operators group, and nothing about
how a row is searched for a derivation.

The rules are context free but for one construct. The last branch of a conditional
may be a statement without braces, and what stands behind such a branch could also
be taken for a part of it. It belongs to the branch: an operation in this place is
followed by nothing that would carry it on, and a return without a value only by
what ends a statement. In every other place the enclosing brackets, commas and
separators tell where a construct ends.
-/

import Script.Proofs.Grammar.Repetition

namespace Script.Grammar

/-! ## Where a construct ends -/

/-- Whether a statement is the last branch of a conditional, without braces, or is
closed off by what encloses it. -/
inductive Place
  | enclosed
  | branch

/-- Whether a token opens a further selection, index or argument list of the operand
before it. -/
def trailsOperand (kind : Token.Kind) : Bool :=
  kind = .dot || kind = .leftBracket || kind = .leftParen

/-- Whether a token carries on the operation before it, as an operator between
operands, behind an operand, or as the sign of an assignment. -/
def carriesOn (kind : Token.Kind) : Bool :=
  trailsOperand kind || (BinaryOperator.ofFactorKind? kind).isSome ||
    (BinaryOperator.ofTermKind? kind).isSome || (BinaryOperator.ofComparisonKind? kind).isSome ||
    (BinaryOperator.ofLogicalKind? kind).isSome || kind = .equal

/-- What must hold of the tokens behind an operation. -/
def Place.EndsOperation : Place → List Token → Prop
  | enclosed, _ => True
  | branch, rest => carriesOn (nextKind rest) = false

/-- Whether a row begins with what ends a statement. -/
def EndsStatement (rest : List Token) : Prop :=
  nextKind rest = .separator ∨ nextKind rest = .rightBrace ∨ nextKind rest = .endOfInput

/-- What must hold of the tokens behind a return without a value. -/
def Place.EndsReturn : Place → List Token → Prop
  | enclosed, _ => True
  | branch, rest => EndsStatement rest

/-! ## Parameters -/

/-- A parameter's type and name. -/
inductive ParameterRule : Reading (Parameter Unit)
  | intro {typeName name : Token} {rest : List Token} :
      typeName.kind = .identifier → name.kind = .identifier →
      ParameterRule (typeName :: name :: rest) rest ⟨(), typeName.lexeme, name.lexeme⟩

/-- Any number of parameters with commas between them. -/
inductive Parameters : Reading (List (Parameter Unit))
  | none {tokens : List Token} : Parameters tokens tokens []
  | some {tokens rest : List Token} {parameters : List (Parameter Unit)} :
      CommaSeparated ParameterRule tokens rest parameters → Parameters tokens rest parameters

/-! ## Statements and expressions -/

mutual

/-- A row of statements in braces. -/
inductive Block : Reading (Tree Unit)
  | intro {opening closing : Token} {tokens rest : List Token} {statements : List (Tree Unit)} :
      opening.kind = .leftBrace → Row (Statement .enclosed) tokens (closing :: rest) statements →
      closing.kind = .rightBrace → Block (opening :: tokens) rest (.block () statements)

/-- An early exit or an expression. -/
inductive Statement : Place → Reading (Tree Unit)
  | returnNothing {place : Place} {keyword : Token} {rest : List Token} :
      keyword.kind = .keyword .returnWord → place.EndsReturn rest →
      Statement place (keyword :: rest) rest (.returnNothing ())
  | returnValue {place : Place} {keyword : Token} {tokens rest : List Token}
      {value : Tree Unit} :
      keyword.kind = .keyword .returnWord → Expression place tokens rest value →
      Statement place (keyword :: tokens) rest (.returnValue () value)
  | breakLoop {place : Place} {keyword : Token} {rest : List Token} :
      keyword.kind = .keyword .breakWord →
      Statement place (keyword :: rest) rest (.breakLoop ())
  | continueLoop {place : Place} {keyword : Token} {rest : List Token} :
      keyword.kind = .keyword .continueWord →
      Statement place (keyword :: rest) rest (.continueLoop ())
  | expression {place : Place} {tokens rest : List Token} {tree : Tree Unit} :
      Expression place tokens rest tree → Statement place tokens rest tree

/-- A definition, an operation, or an assignment to what an operation denotes. -/
inductive Expression : Place → Reading (Tree Unit)
  | declaration {place : Place} {typeName name equal : Token} {tokens rest : List Token}
      {value : Tree Unit} :
      typeName.kind = .identifier → name.kind = .identifier → equal.kind = .equal →
      Expression place tokens rest value →
      Expression place (typeName :: name :: equal :: tokens) rest
        (.declare () typeName.lexeme name.lexeme value)
  | functionBlock {place : Place} {returnType name opening closing : Token}
      {tokens middle rest : List Token} {parameters : List (Parameter Unit)}
      {body : Tree Unit} :
      returnType.kind = .identifier → name.kind = .identifier → opening.kind = .leftParen →
      Parameters tokens (closing :: middle) parameters → closing.kind = .rightParen →
      Block middle rest body →
      Expression place (returnType :: name :: opening :: tokens) rest
        (.functionDef () returnType.lexeme name.lexeme parameters false body)
  | functionValue {place : Place} {returnType name opening closing equal : Token}
      {tokens middle inner rest : List Token} {parameters : List (Parameter Unit)}
      {body : Tree Unit} :
      returnType.kind = .identifier → name.kind = .identifier → opening.kind = .leftParen →
      Parameters tokens (closing :: equal :: middle) parameters → closing.kind = .rightParen →
      equal.kind = .equal → Separators middle inner → Expression place inner rest body →
      Expression place (returnType :: name :: opening :: tokens) rest
        (.functionDef () returnType.lexeme name.lexeme parameters true body)
  | operation {place : Place} {tokens rest : List Token} {tree : Tree Unit} :
      Logical tokens rest tree → place.EndsOperation rest → Expression place tokens rest tree
  | assignment {place : Place} {equal : Token} {tokens middle rest : List Token}
      {target value : Tree Unit} :
      Logical tokens (equal :: middle) target → equal.kind = .equal → target.isAssignable →
      Expression place middle rest value →
      Expression place tokens rest (.assign () target value)

/-- Conjunctions and disjunctions, on one level. -/
inductive Logical : Reading (Tree Unit)
  | intro {tokens rest : List Token} {tree : Tree Unit} :
      LeftAssociative BinaryOperator.ofLogicalKind? Comparison tokens rest tree →
      Logical tokens rest tree

/-- Comparisons of sums, and negations of comparisons. -/
inductive Comparison : Reading (Tree Unit)
  | intro {tokens rest : List Token} {tree : Tree Unit} :
      Prefixed UnaryOperator.ofNotKind?
        (LeftAssociative BinaryOperator.ofComparisonKind? Sum) tokens rest tree →
      Comparison tokens rest tree

/-- Sums and differences of products. -/
inductive Sum : Reading (Tree Unit)
  | intro {tokens rest : List Token} {tree : Tree Unit} :
      LeftAssociative BinaryOperator.ofTermKind? Product tokens rest tree →
      Sum tokens rest tree

/-- Products, quotients and remainders of operands with signs. -/
inductive Product : Reading (Tree Unit)
  | intro {tokens rest : List Token} {tree : Tree Unit} :
      LeftAssociative BinaryOperator.ofFactorKind? (Prefixed UnaryOperator.ofSignKind? Operand)
        tokens rest tree →
      Product tokens rest tree

/-- A primary operand and what follows it. -/
inductive Operand : Reading (Tree Unit)
  | intro {tokens middle rest : List Token} {object result : Tree Unit} :
      Primary tokens middle object → Trailers (Expression .enclosed) middle rest object result →
      Operand tokens rest result

/-- Literals, names, brackets, lists, conditionals, loops and namespaces. -/
inductive Primary : Reading (Tree Unit)
  | number {token : Token} {rest : List Token} {value : Number} :
      (token.kind = .int ∨ token.kind = .long ∨ token.kind = .double) →
      token.literal = some (.number value) → Primary (token :: rest) rest (.number () value)
  | string {token : Token} {rest : List Token} {value : String} :
      token.kind = .string → token.literal = some (.string value) →
      Primary (token :: rest) rest (.string () value)
  | identifier {token : Token} {rest : List Token} :
      token.kind = .identifier → Primary (token :: rest) rest (.identifier () token.lexeme)
  | parenthesized {opening closing : Token} {tokens rest : List Token} {tree : Tree Unit} :
      opening.kind = .leftParen → Spaced (Expression .enclosed) tokens (closing :: rest) tree →
      closing.kind = .rightParen → Primary (opening :: tokens) rest tree
  | list {opening closing : Token} {tokens rest : List Token} {items : List (Tree Unit)} :
      opening.kind = .leftBrace → Items (Expression .enclosed) tokens (closing :: rest) items →
      closing.kind = .rightBrace → Primary (opening :: tokens) rest (.list () items)
  | conditional {keyword : Token} {tokens middle next rest : List Token}
      {condition body : Tree Unit} {branches : Branches Unit} :
      keyword.kind = .keyword .ifWord → Expression .enclosed tokens middle condition →
      Block middle next body → BranchRow next rest branches →
      Primary (keyword :: tokens) rest (.conditional () condition body branches)
  | whileLoop {keyword : Token} {tokens middle rest : List Token} {condition body : Tree Unit} :
      keyword.kind = .keyword .whileWord → Expression .enclosed tokens middle condition →
      Block middle rest body → Primary (keyword :: tokens) rest (.whileLoop () condition body)
  | namespaceDef {keyword name : Token} {tokens rest : List Token} {body : Tree Unit} :
      keyword.kind = .keyword .namespaceWord → name.kind = .identifier →
      Block tokens rest body →
      Primary (keyword :: name :: tokens) rest (.namespaceDef () name.lexeme body)

/-- Any number of further conditions with their blocks, and a last branch if there is
one. Separators may stand before the keyword of each. A brace behind the last
keyword opens a block. -/
inductive BranchRow : Reading (Branches Unit)
  | none {tokens : List Token} : BranchRow tokens tokens .none
  | orIf {keyword : Token} {tokens inner middle next rest : List Token}
      {condition body : Tree Unit} {branches : Branches Unit} :
      Separators tokens (keyword :: inner) → keyword.kind = .keyword .elifWord →
      Expression .enclosed inner middle condition → Block middle next body →
      BranchRow next rest branches → BranchRow tokens rest (.orIf condition body branches)
  | otherwiseBlock {keyword : Token} {tokens inner rest : List Token} {body : Tree Unit} :
      Separators tokens (keyword :: inner) → keyword.kind = .keyword .elseWord →
      Block inner rest body → BranchRow tokens rest (.otherwise body)
  | otherwise {keyword : Token} {tokens inner rest : List Token} {body : Tree Unit} :
      Separators tokens (keyword :: inner) → keyword.kind = .keyword .elseWord →
      nextKind inner ≠ .leftBrace → Statement .branch inner rest body →
      BranchRow tokens rest (.otherwise body)

end

/-- A whole row of tokens as the statements of a program. -/
inductive Program : List Token → Tree Unit → Prop
  | intro {tokens : List Token} {statements : List (Tree Unit)} :
      Row (Statement .enclosed) tokens [] statements → Program tokens (.block () statements)

end Script.Grammar
