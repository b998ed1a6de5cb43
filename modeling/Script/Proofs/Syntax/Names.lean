/-
# Names in trees

What holds everywhere in a tree holds at its topmost node and everywhere in its children.
One such thing is that the names at each node are of some kind: those of what the node looks
up or binds, and those of the types that it mentions.
-/

import Script.Proofs.Syntax.Children

namespace Script

variable {σ : Type} {p : Tree σ → Prop} {good : String → Prop} {tree : Tree σ}

namespace Tree

/-- Every node of a tree has a property. -/
def Everywhere (p : Tree σ → Prop) (tree : Tree σ) : Prop := ∀ node, tree.Has node → p node

theorem everywhere_iff :
    tree.Everywhere p ↔ p tree ∧ ∀ child ∈ tree.children, child.Everywhere p := by
  constructor
  · exact fun h => ⟨h tree .self, fun child hchild node hnode => h node (.inside hchild hnode)⟩
  · rintro ⟨htree, hchildren⟩ node hnode
    cases hnode with
    | self => exact htree
    | inside hchild hnode => exact hchildren _ hchild node hnode

/-- The names at the topmost node of a tree, those of its parameters included. -/
def names : Tree σ → List String
  | .identifier _ name | .member _ _ name | .namespaceDef _ name _ => [name]
  | .declare _ typeName name _ => [typeName, name]
  | .functionDef _ returnType name parameters _ _ =>
    returnType :: name :: parameters.flatMap fun parameter => [parameter.typeName, parameter.name]
  | _ => []

theorem names_withSite (site : σ) (tree : Tree σ) : (tree.withSite site).names = tree.names := by
  cases tree <;> rfl

/-- All names in a tree are of some kind. -/
def Named (good : String → Prop) (tree : Tree σ) : Prop :=
  tree.Everywhere fun node => ∀ name ∈ node.names, good name

theorem named_iff :
    tree.Named good ↔
      (∀ name ∈ tree.names, good name) ∧ ∀ child ∈ tree.children, child.Named good :=
  everywhere_iff

/-- A tree without names at its topmost node. -/
theorem Named.of_children (hnames : tree.names = [])
    (h : ∀ child ∈ tree.children, child.Named good) : tree.Named good :=
  named_iff.mpr ⟨hnames ▸ List.forall_mem_nil _, h⟩

/-- A tree without names and children. -/
theorem Named.of_nil (hnames : tree.names = []) (hchildren : tree.children = []) :
    tree.Named good :=
  .of_children hnames (hchildren ▸ List.forall_mem_nil _)

theorem Named.withSite (h : tree.Named good) (site : σ) : (tree.withSite site).Named good := by
  rw [named_iff] at h ⊢
  rwa [names_withSite, children_withSite]

end Tree

/-- The type and the name of a parameter are of some kind. -/
def Parameter.Named (good : String → Prop) (parameter : Parameter σ) : Prop :=
  good parameter.typeName ∧ good parameter.name

end Script
