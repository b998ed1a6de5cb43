/-
# The text of a tree tells the tree

From the form of a tree the tree can be read back, all but its sites: the words in front tell
the nodes apart, and where nodes share a word the number of their parts does. No name is taken
for such a word or for another part of a node, because no keyword is an identifier. So trees
with one text are one tree.
-/

import Script.Proofs.Parser.Depth
import Script.Proofs.Syntax.Form
import Script.Proofs.Syntax.Shape
import Script.Proofs.Token.Name

namespace Script

variable {σ τ : Type}

/-! ## Reading back -/

/-- The operator before one operand that is written in a given way, if one is. -/
def UnaryOperator.ofSymbol? (symbol : String) : Option UnaryOperator :=
  [negate, plus, not].find? (·.symbol = symbol)

/-- The parameter that a form is written for, if there is one. -/
def Form.parameter? : Form → Option (Parameter Unit)
  | .row (.word typeName) [.word name] => some ⟨(), typeName, name⟩
  | _ => none

mutual

/-- The tree that a form is written for, if there is one. -/
def Form.tree? : Form → Option (Tree Unit)
  | .number value => some (.number () (.int value))
  | .quoted text => some (.string () text)
  | .word "break" => some (.breakLoop ())
  | .word "continue" => some (.continueLoop ())
  | .word name => some (.identifier () name)
  | .row (.word "=") [target, value] => return .assign () (← target.tree?) (← value.tree?)
  | .row (.word "declare") [.word typeName, .word name, value] =>
    return .declare () typeName name (← value.tree?)
  | .row (.word "list") items => return .list () (← Form.trees? items)
  | .row (.word ".") [object, .word name] => return .member () (← object.tree?) name
  | .row (.word "[]") [object, key] => return .index () (← object.tree?) (← key.tree?)
  | .row (.word "call") (callee :: arguments) =>
    return .call () (← callee.tree?) (← Form.trees? arguments)
  | .row (.word "fn") (.word returnType :: .word name :: others) => do
    let (parameters, givesBody, body) ← Form.definition? others
    return .functionDef () returnType name parameters givesBody body
  | .row (.word "if") (.row condition [body] :: rest) =>
    return .conditional () (← condition.tree?) (← body.tree?) (← Form.branches? rest)
  | .row (.word "while") [condition, body] =>
    return .whileLoop () (← condition.tree?) (← body.tree?)
  | .row (.word "namespace") [.word name, body] => return .namespaceDef () name (← body.tree?)
  | .row (.word "return") [] => some (.returnNothing ())
  | .row (.word "return") [value] => return .returnValue () (← value.tree?)
  | .row (.word "block") statements => return .block () (← Form.trees? statements)
  | .row (.word symbol) [operand] =>
    return .unary () (← UnaryOperator.ofSymbol? symbol) (← operand.tree?)
  | .row (.word symbol) [left, right] =>
    return .binary () (← BinaryOperator.ofSymbol? symbol) (← left.tree?) (← right.tree?)
  | _ => none

/-- The trees that some forms are written for, if each has one. -/
def Form.trees? : List Form → Option (List (Tree Unit))
  | [] => some []
  | form :: others => return (← form.tree?) :: (← Form.trees? others)

/-- The parameters and the body of a function, and whether there is an equals sign between
them. -/
def Form.definition? : List Form → Option (List (Parameter Unit) × Bool × Tree Unit)
  | [] => none
  | [body] => return ([], false, ← body.tree?)
  | [.word "=", body] => return ([], true, ← body.tree?)
  | first :: others => do
    let parameter ← first.parameter?
    let (parameters, givesBody, body) ← Form.definition? others
    return (parameter :: parameters, givesBody, body)

/-- The branches that some forms are written for, if each has one. -/
def Form.branches? : List Form → Option (Branches Unit)
  | [] => some .none
  | [.row (.word "else") [body]] => return .otherwise (← body.tree?)
  | .row condition [body] :: rest =>
    return .orIf (← condition.tree?) (← body.tree?) (← Form.branches? rest)
  | _ => none

end

theorem Token.IsIdentifier.ne_spelling {name : String} (h : IsIdentifier name.toList)
    (word : Keyword) : name ≠ word.spelling := by
  rintro rfl
  exact h.ne_keyword word String.ofList_toList.symm

theorem Form.definition?_append (parameters : List (Parameter σ)) (givesBody : Bool) (body : Form)
    (tree : Tree Unit) (h : body.tree? = some tree) :
    Form.definition? (parameters.map Parameter.form ++ (Form.marker givesBody ++ [body])) =
      some (parameters.map Parameter.shape, givesBody, tree) := by
  induction parameters with
  | nil => cases givesBody <;> simp [Form.marker, Form.definition?, h]
  | cons parameter parameters ih =>
      rw [List.map_cons, List.cons_append, Form.definition?, ih]
      · rfl
      · simp
      · nofun

/-- No condition looks like the word in front of the last branch. -/
theorem Tree.Readable.form_ne_else {tree : Tree σ} (h : tree.Readable) :
    tree.form ≠ .word "else" := by
  cases tree with
  | number _ value =>
      cases value with
      | int value => nofun
      | _ => exact h.parts.1.elim
  | identifier _ name =>
      have hname := (Tree.readable_iff.mp h).1.2 name (.head _)
      exact fun heq => hname.ne_spelling .elseWord (Form.word.inj heq)
  | breakLoop _ => simp [Tree.form]
  | continueLoop _ => simp [Tree.form]
  | _ => nofun

mutual

/-- From the form of a readable tree its shape is read back. -/
theorem Tree.Readable.tree?_form : ∀ {tree : Tree σ}, tree.Readable →
    tree.form.tree? = some tree.shape
  | .number _ value, h => by
    cases value with
    | int value => simp [Tree.form, Number.form, Form.tree?, Tree.shape]
    | _ => exact h.parts.1.elim
  | .string _ _, _ => by simp [Tree.form, Form.tree?, Tree.shape]
  | .identifier _ name, h => by
    have hname := (Tree.readable_iff.mp h).1.2 name (.head _)
    rw [Tree.form, Form.tree?, Tree.shape]
    · exact hname.ne_spelling .breakWord
    · exact hname.ne_spelling .continueWord
  | .binary _ operator left right, h => by
    obtain ⟨-, -, hleft, hright⟩ := h.parts
    have hleft := hleft.tree?_form
    have hright := hright.tree?_form
    cases operator <;>
      simp [Tree.form, Form.node, Form.tree?, Tree.shape, BinaryOperator.symbol,
        BinaryOperator.ofSymbol?, BinaryOperator.all, hleft, hright]
  | .unary _ operator operand, h => by
    have hoperand := h.parts.2.2.tree?_form
    cases operator <;>
      simp [Tree.form, Form.node, Form.tree?, Tree.shape, UnaryOperator.symbol,
        UnaryOperator.ofSymbol?, hoperand]
  | .assign _ target value, h => by
    obtain ⟨-, -, htarget, hvalue⟩ := h.parts
    simp [Tree.form, Form.node, Form.tree?, Tree.shape, htarget.tree?_form, hvalue.tree?_form]
  | .declare _ typeName name value, h => by
    simp [Tree.form, Form.node, Form.tree?, Tree.shape, h.parts.2.2.tree?_form]
  | .list _ items, h => by
    have hitems : Form.trees? (Tree.formEach items) = some (Tree.shapeEach items) :=
      Tree.trees?_formEach h.children
    simp [Tree.form, Form.node, Form.tree?, Tree.shape, hitems]
  | .member _ object name, h => by
    simp [Tree.form, Form.node, Form.tree?, Tree.shape, h.parts.2.2.tree?_form]
  | .index _ object key, h => by
    obtain ⟨-, -, hobject, hkey⟩ := h.parts
    simp [Tree.form, Form.node, Form.tree?, Tree.shape, hobject.tree?_form, hkey.tree?_form]
  | .call _ callee arguments, h => by
    obtain ⟨hcallee, harguments⟩ := List.forall_mem_cons.mp h.children
    simp [Tree.form, Form.node, Form.tree?, Tree.shape, hcallee.tree?_form,
      Tree.trees?_formEach harguments]
  | .functionDef _ returnType name parameters givesBody body, h => by
    have hbody := (h.children body (.head _)).tree?_form
    simp [Tree.form, Form.node, Form.tree?, Tree.shape,
      Form.definition?_append parameters givesBody body.form _ hbody]
  | .conditional _ condition body rest, h => by
    obtain ⟨hcondition, hchildren⟩ := List.forall_mem_cons.mp h.children
    obtain ⟨hbody, hrest⟩ := List.forall_mem_cons.mp hchildren
    simp [Tree.form, Form.node, Form.tree?, Tree.shape, hcondition.tree?_form, hbody.tree?_form,
      Branches.branches?_forms hrest]
  | .whileLoop _ condition body, h => by
    obtain ⟨-, -, hcondition, hbody⟩ := h.parts
    simp [Tree.form, Form.node, Form.tree?, Tree.shape, hcondition.tree?_form, hbody.tree?_form]
  | .namespaceDef _ name body, h => by
    simp [Tree.form, Form.node, Form.tree?, Tree.shape, h.parts.2.2.tree?_form]
  | .returnNothing _, _ => by simp [Tree.form, Form.node, Form.tree?, Tree.shape]
  | .returnValue _ value, h => by
    simp [Tree.form, Form.node, Form.tree?, Tree.shape, h.parts.2.2.tree?_form]
  | .breakLoop _, _ => by simp [Tree.form, Form.tree?, Tree.shape]
  | .continueLoop _, _ => by simp [Tree.form, Form.tree?, Tree.shape]
  | .block _ statements, h => by
    have hstatements : Form.trees? (Tree.formEach statements) = some (Tree.shapeEach statements) :=
      Tree.trees?_formEach h.children
    simp [Tree.form, Form.node, Form.tree?, Tree.shape, hstatements]

theorem Tree.trees?_formEach : ∀ {trees : List (Tree σ)}, (∀ tree ∈ trees, tree.Readable) →
    Form.trees? (Tree.formEach trees) = some (Tree.shapeEach trees)
  | [], _ => by simp [Tree.formEach, Form.trees?, Tree.shapeEach]
  | tree :: others, h => by
    obtain ⟨htree, hothers⟩ := List.forall_mem_cons.mp h
    simp [Tree.formEach, Form.trees?, Tree.shapeEach, htree.tree?_form,
      Tree.trees?_formEach hothers]

theorem Branches.branches?_forms : ∀ {branches : Branches σ},
    (∀ part ∈ branches.parts, part.Readable) → Form.branches? branches.forms = some branches.shape
  | .none, _ => by simp [Branches.forms, Form.branches?, Branches.shape]
  | .otherwise body, h => by
    simp [Branches.forms, Form.node, Form.branches?, Branches.shape,
      (h body (.head _)).tree?_form]
  | .orIf condition body rest, h => by
    obtain ⟨hcondition, hparts⟩ := List.forall_mem_cons.mp h
    obtain ⟨hbody, hrest⟩ := List.forall_mem_cons.mp hparts
    rw [Branches.forms, Form.branches?, hcondition.tree?_form, hbody.tree?_form,
      Branches.branches?_forms hrest]
    · rfl
    · exact fun _ helse => (hcondition.form_ne_else helse).elim

end

/-- Readable trees with one text are one tree. -/
theorem Tree.shape_eq_of_print_eq {tree : Tree σ} {tree' : Tree τ} (h : tree.Readable)
    (h' : tree'.Readable) (hprint : tree.print = tree'.print) : tree.shape = tree'.shape := by
  have htext : tree.form.text = tree'.form.text := by
    rw [← tree.toList_print, hprint, tree'.toList_print]
  have hform : tree.form = tree'.form := Form.text_injOn h.proper_form h'.proper_form htext
  have hshape : some tree.shape = some tree'.shape := by
    rw [← h.tree?_form, hform, h'.tree?_form]
  exact Option.some.inj hshape

/-! ## Programs -/

/-- A tree in which there is a number of 64 bits or a double. -/
def Tree.HasWideNumber (tree : Tree σ) : Prop :=
  ∃ site, (∃ value, tree.Has (.number site (.long value))) ∨
    ∃ value, tree.Has (.number site (.double value))

/-- The identifiers in a row of tokens are spelt as such. -/
def Token.AreSpelt (tokens : List Token) : Prop :=
  ∀ token ∈ tokens, token.kind = .identifier → IsIdentifier token.lexeme.toList

theorem Tree.readable_of_ofTokens {tokens : List Token} {tree : Tree Span}
    (hspelt : Token.AreSpelt tokens) (h : Tree.ofTokens tokens = .ok tree)
    (hnarrow : ¬tree.HasWideNumber) : tree.Readable := by
  intro node hnode
  constructor
  · cases node with
    | number site value =>
        cases value with
        | int value => trivial
        | long value => exact hnarrow ⟨site, .inl ⟨value, hnode⟩⟩
        | double value => exact hnarrow ⟨site, .inr ⟨value, hnode⟩⟩
    | _ => trivial
  · intro name hname
    obtain ⟨token, htoken, hkind, rfl⟩ := Tree.named_of_ofTokens h node hnode name hname
    exact hspelt token htoken hkind

/-- Two programs without numbers of 64 bits and doubles are the same up to their sites if they
have the same text. Of the tokens it is asked that their identifiers are spelt as such, which
those of every source are. -/
theorem Tree.print_determines_shape :
    (∀ {tokens tokens' : List Token} {tree tree' : Tree Span}, Token.AreSpelt tokens →
      Token.AreSpelt tokens' → Tree.ofTokens tokens = .ok tree → Tree.ofTokens tokens' = .ok tree' →
      ¬tree.HasWideNumber → ¬tree'.HasWideNumber → tree.print = tree'.print →
      tree.shape = tree'.shape) ∧
    ∀ {source : Source} {tokens : List Token}, Token.scan source = .ok tokens →
      Token.AreSpelt tokens := by
  refine ⟨fun hspelt hspelt' h h' hnarrow hnarrow' hprint => ?_, Token.isIdentifier_of_scan⟩
  exact Tree.shape_eq_of_print_eq (Tree.readable_of_ofTokens hspelt h hnarrow)
    (Tree.readable_of_ofTokens hspelt' h' hnarrow') hprint

/-- A name by itself and the same name in parentheses: one program, with different sites. -/
theorem Tree.print_determines_shape_of_parentheses :
    let source : Source := ⟨"a;(a)", "names"⟩
    let span (start : Nat) : Span := ⟨source, ⟨start, 1, start⟩, ⟨start + 1, 1, start + 1⟩⟩
    let name (start : Nat) : Token := ⟨.identifier, "a", none, span start⟩
    let bare := [name 0]
    let inside := [⟨.leftParen, "(", none, span 2⟩, name 3, ⟨.rightParen, ")", none, span 4⟩]
    let program (site : Span) : Tree Span := .block site [.identifier site "a"]
    let whole := (span 2).through (span 4)
    Token.AreSpelt bare ∧ Token.AreSpelt inside ∧
      Tree.ofTokens bare = .ok (program (span 0)) ∧
      Tree.ofTokens inside = .ok (program whole) ∧
      ¬(program (span 0)).HasWideNumber ∧ ¬(program whole).HasWideNumber ∧
      (program (span 0)).print = (program whole).print ∧
      (program (span 0)).shape = (program whole).shape := by
  intro source span name bare inside program whole
  have hname : Token.IsIdentifier "a".toList :=
    ⟨by rintro _ ⟨⟩; rfl, List.all_eq_true.mp rfl, List.cons_ne_nil _ _,
      fun word => by cases word <;> decide⟩
  have hbare : Token.AreSpelt bare := List.forall_mem_singleton.mpr fun _ => hname
  have hinside : Token.AreSpelt inside :=
    List.forall_mem_cons.mpr ⟨nofun, List.forall_mem_cons.mpr
      ⟨fun _ => hname, List.forall_mem_singleton.mpr nofun⟩⟩
  have hnarrow (site : Span) : ¬(program site).HasWideNumber := by
    have hnone (number : Number) (place : Span) : ¬(program site).Has (.number place number) := by
      intro h
      cases h with
      | inside hchild hnode =>
          cases List.mem_singleton.mp hchild
          cases hnode with
          | inside hchild _ => cases hchild
    rintro ⟨place, ⟨value, h⟩ | ⟨value, h⟩⟩
    · exact hnone _ place h
    · exact hnone _ place h
  have htree : Tree.ofTokens bare = .ok (program (span 0)) := rfl
  have htree' : Tree.ofTokens inside = .ok (program whole) := rfl
  exact ⟨hbare, hinside, htree, htree', hnarrow _, hnarrow _, rfl,
    Tree.print_determines_shape.1 hbare hinside htree htree' (hnarrow _) (hnarrow _) rfl⟩

end Script
