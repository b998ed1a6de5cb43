/-
# Trees as forms

A tree is written as a form whose first word names the kind of the node. Numbers of 32 bits
and quotations are forms of their own. The names in a tree are words where they are
identifiers, so the form of such a tree is one that can be read from its text.
-/

import Script.Proofs.Syntax.Names
import Script.Proofs.Text.Form
import Script.Proofs.Token.Member
import Script.Syntax.Printer

namespace Script

variable {σ : Type}

/-! ## Trees as forms -/

/-- The form of a node with a word in front of its parts. -/
def Form.node (word : String) (parts : List Form) : Form := .row (.word word) parts

/-- A parameter as a form. -/
def Parameter.form (parameter : Parameter σ) : Form :=
  .node parameter.typeName [.word parameter.name]

/-- What stands between the parameters of a function and its body. -/
def Form.marker (givesBody : Bool) : List Form := if givesBody then [.word "="] else []

/-- A number as a form. Only numbers of 32 bits are told from words. -/
def Number.form : Number → Form
  | .int value => .number value
  | value => .word value.display

mutual

/-- A tree as a form. -/
def Tree.form : Tree σ → Form
  | .number _ value => value.form
  | .string _ value => .quoted value
  | .identifier _ name => .word name
  | .binary _ operator left right => .node operator.symbol [left.form, right.form]
  | .unary _ operator operand => .node operator.symbol [operand.form]
  | .assign _ target value => .node "=" [target.form, value.form]
  | .declare _ typeName name value => .node "declare" [.word typeName, .word name, value.form]
  | .list _ items => .node "list" (Tree.formEach items)
  | .member _ object name => .node "." [object.form, .word name]
  | .index _ object key => .node "[]" [object.form, key.form]
  | .call _ callee arguments => .node "call" (callee.form :: Tree.formEach arguments)
  | .functionDef _ returnType name parameters givesBody body =>
    .node "fn" (.word returnType :: .word name ::
      (parameters.map Parameter.form ++ (Form.marker givesBody ++ [body.form])))
  | .conditional _ condition body rest =>
    .node "if" (.row condition.form [body.form] :: rest.forms)
  | .whileLoop _ condition body => .node "while" [condition.form, body.form]
  | .namespaceDef _ name body => .node "namespace" [.word name, body.form]
  | .returnNothing _ => .node "return" []
  | .returnValue _ value => .node "return" [value.form]
  | .breakLoop _ => .word "break"
  | .continueLoop _ => .word "continue"
  | .block _ statements => .node "block" (Tree.formEach statements)

/-- Trees in order as forms. -/
def Tree.formEach : List (Tree σ) → List Form
  | [] => []
  | tree :: others => tree.form :: Tree.formEach others

/-- Branches in order as forms. -/
def Branches.forms : Branches σ → List Form
  | .none => []
  | .otherwise body => [.node "else" [body.form]]
  | .orIf condition body rest => .row condition.form [body.form] :: rest.forms

end

theorem Number.toList_display (value : Number) : value.display.toList = value.form.text := by
  cases value <;> rfl

theorem Parameter.toList_print (parameter : Parameter σ) :
    parameter.print.toList = Form.textEach [parameter.form] := by
  simp [Parameter.print, Parameter.form, Form.node]

theorem flatMap_toList_print (parameters : List (Parameter σ)) :
    (parameters.map Parameter.print).flatMap String.toList =
      Form.textEach (parameters.map Parameter.form) := by
  induction parameters with
  | nil => rfl
  | cons parameter parameters ih =>
      rw [List.map_cons, List.flatMap_cons, ih, Parameter.toList_print]
      exact (Form.textEach_append [parameter.form] _).symm

mutual

/-- A tree is written as its form is. -/
theorem Tree.toList_print : ∀ tree : Tree σ, tree.print.toList = tree.form.text
  | .number _ value => value.toList_display
  | .string _ value => rfl
  | .identifier _ name => rfl
  | .binary _ operator left right => by
    simp [Tree.print, Tree.form, Form.node, left.toList_print,
      right.toList_print]
  | .unary _ operator operand => by
    simp [Tree.print, Tree.form, Form.node, operand.toList_print]
  | .assign _ target value => by
    simp [Tree.print, Tree.form, Form.node, target.toList_print,
      value.toList_print]
  | .declare _ typeName name value => by
    simp [Tree.print, Tree.form, Form.node, value.toList_print]
  | .list _ items => by
    simp [Tree.print, Tree.form, Form.node, Tree.toList_printEach items]
  | .member _ object name => by
    simp [Tree.print, Tree.form, Form.node, object.toList_print]
  | .index _ object key => by
    simp [Tree.print, Tree.form, Form.node, object.toList_print,
      key.toList_print]
  | .call _ callee arguments => by
    simp [Tree.print, Tree.form, Form.node, callee.toList_print,
      Tree.toList_printEach arguments]
  | .functionDef _ returnType name parameters givesBody body => by
    cases givesBody <;>
      simp [Tree.print, Tree.form, Form.node,
        Form.marker, flatMap_toList_print, body.toList_print]
  | .conditional _ condition body rest => by
    simp [Tree.print, Tree.form, Form.node, condition.toList_print,
      body.toList_print, rest.toList_print]
  | .whileLoop _ condition body => by
    simp [Tree.print, Tree.form, Form.node, condition.toList_print,
      body.toList_print]
  | .namespaceDef _ name body => by
    simp [Tree.print, Tree.form, Form.node, body.toList_print]
  | .returnNothing _ => by
    simp [Tree.print, Tree.form, Form.node]
  | .returnValue _ value => by
    simp [Tree.print, Tree.form, Form.node, value.toList_print]
  | .breakLoop _ => rfl
  | .continueLoop _ => rfl
  | .block _ statements => by
    simp [Tree.print, Tree.form, Form.node,
      Tree.toList_printEach statements]

theorem Tree.toList_printEach : ∀ trees : List (Tree σ),
    (Tree.printEach trees).toList = Form.textEach (Tree.formEach trees)
  | [] => rfl
  | tree :: others => by
    simp [Tree.printEach, Tree.formEach, tree.toList_print,
      Tree.toList_printEach others]

theorem Branches.toList_print : ∀ branches : Branches σ,
    branches.print.toList = Form.textEach branches.forms
  | .none => rfl
  | .otherwise body => by
    simp [Branches.print, Branches.forms, Form.node, body.toList_print]
  | .orIf condition body rest => by
    simp [Branches.print, Branches.forms, condition.toList_print,
      body.toList_print, rest.toList_print]

end

/-! ## Readable trees -/

/-- A node that is not a number of 64 bits and not a double. -/
def Tree.IsNarrow : Tree σ → Prop
  | .number _ (.long _) | .number _ (.double _) => False
  | _ => True

/-- The names in a tree are identifiers, and its numbers have 32 bits. -/
def Tree.Readable (tree : Tree σ) : Prop :=
  tree.Everywhere fun node => node.IsNarrow ∧ ∀ name ∈ node.names, Token.IsIdentifier name.toList

theorem Tree.readable_iff {tree : Tree σ} :
    tree.Readable ↔ (tree.IsNarrow ∧ ∀ name ∈ tree.names, Token.IsIdentifier name.toList) ∧
      ∀ child ∈ tree.children, child.Readable :=
  everywhere_iff

theorem Tree.Readable.children {tree : Tree σ} (h : tree.Readable) :
    ∀ child ∈ tree.children, child.Readable :=
  (readable_iff.mp h).2

theorem Token.IsIdentifier.isWord {text : List Char} (h : IsIdentifier text) :
    Form.IsWord text := by
  obtain ⟨first, others, rfl⟩ := List.exists_cons_of_ne_nil h.ne_nil
  have hfirst : isNameStart first = true := h.begins first rfl
  refine Form.isWord_of_first (List.forall_mem_cons.mpr ⟨?_, fun character hcharacter => ?_⟩)
    (isDigit_of_isNameStart hfirst) ?_
  · exact Form.isAtomic_of_kind rfl hfirst
  · exact Form.isAtomic_of_kind rfl (h.goesOn character hcharacter)
  · rintro rfl
    cases hfirst

theorem BinaryOperator.isWord_symbol (operator : BinaryOperator) :
    Form.IsWord operator.symbol.toList :=
  Form.isWord_of_looksLikeWord (by cases operator <;> rfl)

theorem UnaryOperator.isWord_symbol (operator : UnaryOperator) :
    Form.IsWord operator.symbol.toList :=
  Form.isWord_of_looksLikeWord (by cases operator <;> rfl)

theorem Form.properEach_append {front behind : List Form} :
    ProperEach (front ++ behind) ↔ ProperEach front ∧ ProperEach behind := by
  simp only [properEach_iff, List.forall_mem_append]

/-- What is known of a readable tree, its names and its children one by one. -/
theorem Tree.Readable.parts {tree : Tree σ} (h : tree.Readable) :
    tree.IsNarrow ∧ tree.names.Forall (fun name => Form.IsWord name.toList) ∧
      tree.children.Forall Readable := by
  obtain ⟨⟨hnarrow, hnames⟩, hchildren⟩ := readable_iff.mp h
  rw [List.forall_iff_forall_mem, List.forall_iff_forall_mem]
  exact ⟨hnarrow, fun name hname => (hnames name hname).isWord, hchildren⟩

theorem properEach_forms {parameters : List (Parameter σ)}
    (h : ∀ parameter ∈ parameters, parameter.Named fun name => Token.IsIdentifier name.toList) :
    Form.ProperEach (parameters.map Parameter.form) := by
  refine Form.properEach_iff.mpr (List.forall_mem_map.mpr fun parameter hparameter => ?_)
  obtain ⟨htype, hname⟩ := h parameter hparameter
  exact ⟨htype.isWord, hname.isWord, trivial⟩

mutual

/-- The form of a readable tree is one that can be read back. -/
theorem Tree.Readable.proper_form : ∀ {tree : Tree σ}, tree.Readable → tree.form.Proper
  | .number _ value, h => by
    cases value with
    | int value => trivial
    | _ => exact h.parts.1.elim
  | .string _ _, _ => trivial
  | .identifier _ _, h => h.parts.2.1
  | .binary _ operator left right, h => by
    obtain ⟨-, -, hleft, hright⟩ := h.parts
    exact ⟨operator.isWord_symbol, hleft.proper_form, hright.proper_form, trivial⟩
  | .unary _ operator operand, h => ⟨operator.isWord_symbol, h.parts.2.2.proper_form, trivial⟩
  | .assign _ target value, h => by
    obtain ⟨-, -, htarget, hvalue⟩ := h.parts
    exact ⟨Form.isWord_of_looksLikeWord rfl, htarget.proper_form, hvalue.proper_form, trivial⟩
  | .declare _ typeName name value, h => by
    obtain ⟨-, ⟨htype, hname⟩, hvalue⟩ := h.parts
    exact ⟨Form.isWord_of_looksLikeWord rfl, htype, hname, hvalue.proper_form, trivial⟩
  | .list _ items, h =>
    ⟨Form.isWord_of_looksLikeWord rfl, Tree.properEach_formEach h.children⟩
  | .member _ object name, h => by
    obtain ⟨-, hname, hobject⟩ := h.parts
    exact ⟨Form.isWord_of_looksLikeWord rfl, hobject.proper_form, hname, trivial⟩
  | .index _ object key, h => by
    obtain ⟨-, -, hobject, hkey⟩ := h.parts
    exact ⟨Form.isWord_of_looksLikeWord rfl, hobject.proper_form, hkey.proper_form, trivial⟩
  | .call _ callee arguments, h => by
    obtain ⟨hcallee, harguments⟩ := List.forall_mem_cons.mp h.children
    exact ⟨Form.isWord_of_looksLikeWord rfl, hcallee.proper_form,
      Tree.properEach_formEach harguments⟩
  | .functionDef _ returnType name parameters givesBody body, h => by
    obtain ⟨⟨-, hnames⟩, hbody⟩ := Tree.readable_iff.mp h
    simp only [Tree.names, List.forall_mem_cons, List.forall_mem_flatMap] at hnames
    obtain ⟨htype, hname, hparameters⟩ := hnames
    have hmarker : Form.ProperEach (Form.marker givesBody) := by
      cases givesBody
      · trivial
      · exact ⟨Form.isWord_of_looksLikeWord rfl, trivial⟩
    have hforms : Form.ProperEach (parameters.map Parameter.form) :=
      properEach_forms fun parameter hparameter =>
        ⟨(hparameters parameter hparameter).1, (hparameters parameter hparameter).2.1⟩
    refine ⟨Form.isWord_of_looksLikeWord rfl, htype.isWord, hname.isWord, ?_⟩
    rw [Form.properEach_append, Form.properEach_append]
    exact ⟨hforms, hmarker, (hbody body (.head _)).proper_form, trivial⟩
  | .conditional _ condition body rest, h => by
    obtain ⟨hcondition, hchildren⟩ := List.forall_mem_cons.mp h.children
    obtain ⟨hbody, hrest⟩ := List.forall_mem_cons.mp hchildren
    exact ⟨Form.isWord_of_looksLikeWord rfl, ⟨hcondition.proper_form, hbody.proper_form, trivial⟩,
      Branches.properEach_forms hrest⟩
  | .whileLoop _ condition body, h => by
    obtain ⟨-, -, hcondition, hbody⟩ := h.parts
    exact ⟨Form.isWord_of_looksLikeWord rfl, hcondition.proper_form, hbody.proper_form, trivial⟩
  | .namespaceDef _ name body, h => by
    obtain ⟨-, hname, hbody⟩ := h.parts
    exact ⟨Form.isWord_of_looksLikeWord rfl, hname, hbody.proper_form, trivial⟩
  | .returnNothing _, _ => ⟨Form.isWord_of_looksLikeWord rfl, trivial⟩
  | .returnValue _ value, h =>
    ⟨Form.isWord_of_looksLikeWord rfl, h.parts.2.2.proper_form, trivial⟩
  | .breakLoop _, _ => Form.isWord_of_looksLikeWord rfl
  | .continueLoop _, _ => Form.isWord_of_looksLikeWord rfl
  | .block _ statements, h =>
    ⟨Form.isWord_of_looksLikeWord rfl, Tree.properEach_formEach h.children⟩

theorem Tree.properEach_formEach : ∀ {trees : List (Tree σ)}, (∀ tree ∈ trees, tree.Readable) →
    Form.ProperEach (Tree.formEach trees)
  | [], _ => trivial
  | tree :: others, h => by
    obtain ⟨htree, hothers⟩ := List.forall_mem_cons.mp h
    exact ⟨htree.proper_form, Tree.properEach_formEach hothers⟩

theorem Branches.properEach_forms : ∀ {branches : Branches σ},
    (∀ part ∈ branches.parts, part.Readable) → Form.ProperEach branches.forms
  | .none, _ => trivial
  | .otherwise body, h =>
    ⟨⟨Form.isWord_of_looksLikeWord rfl, (h body (.head _)).proper_form, trivial⟩, trivial⟩
  | .orIf condition body rest, h => by
    obtain ⟨hcondition, hparts⟩ := List.forall_mem_cons.mp h
    obtain ⟨hbody, hrest⟩ := List.forall_mem_cons.mp hparts
    exact ⟨⟨hcondition.proper_form, hbody.proper_form, trivial⟩, Branches.properEach_forms hrest⟩

end

end Script
