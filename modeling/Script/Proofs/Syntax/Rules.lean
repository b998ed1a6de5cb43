/-
# Rules for trees

What may be asked of a tree before it runs: that every site in it is of some kind, and
that every early exit lies inside what ends it. A loop ends a break or continue in its
body but not in its condition; a function ends a return in its body, and no loop
around a function's definition reaches into the function.
-/

import Script.Syntax.Tree

namespace Script

variable {σ : Type}

/-- What encloses a tree: whether it is inside the body of a loop, without a function's
definition in between, and whether it is inside the body of a function. -/
structure Enclosure where
  inLoop : Bool
  inFunction : Bool

namespace Enclosure

/-- What encloses a program. -/
def program : Enclosure := ⟨false, false⟩

/-- What encloses the body of a function. -/
def function : Enclosure := ⟨false, true⟩

/-- What encloses the body of a loop. -/
def loop (enclosure : Enclosure) : Enclosure := { enclosure with inLoop := true }

end Enclosure

/-- What is asked of the sites in a tree, and whether anything is asked of its early
exits. -/
structure Rules (σ : Type) where
  site : σ → Prop
  exits : Prop

namespace Rules

/-- Whether a return may stand somewhere. -/
def MayReturn (rules : Rules σ) (enclosure : Enclosure) : Prop :=
  rules.exits → enclosure.inFunction = true

/-- Whether a break or continue may stand somewhere. -/
def MayLeaveLoop (rules : Rules σ) (enclosure : Enclosure) : Prop :=
  rules.exits → enclosure.inLoop = true

end Rules

mutual

/-- A tree obeys rules where it stands. -/
def Tree.Obeys (rules : Rules σ) (enclosure : Enclosure) : Tree σ → Prop
  | .number site _ | .string site _ | .identifier site _ => rules.site site
  | .binary site _ left right =>
    rules.site site ∧ left.Obeys rules enclosure ∧ right.Obeys rules enclosure
  | .unary site _ operand => rules.site site ∧ operand.Obeys rules enclosure
  | .assign site target value =>
    rules.site site ∧ target.Obeys rules enclosure ∧ value.Obeys rules enclosure
  | .declare site _ _ value => rules.site site ∧ value.Obeys rules enclosure
  | .list site items => rules.site site ∧ Tree.ObeyEach rules enclosure items
  | .member site object _ => rules.site site ∧ object.Obeys rules enclosure
  | .index site object key =>
    rules.site site ∧ object.Obeys rules enclosure ∧ key.Obeys rules enclosure
  | .call site callee arguments =>
    rules.site site ∧ callee.Obeys rules enclosure ∧ Tree.ObeyEach rules enclosure arguments
  | .functionDef site _ _ parameters _ body =>
    rules.site site ∧ (∀ parameter ∈ parameters, rules.site parameter.site) ∧
      body.Obeys rules .function
  | .conditional site condition body rest =>
    rules.site site ∧ condition.Obeys rules enclosure ∧ body.Obeys rules enclosure ∧
      rest.Obey rules enclosure
  | .whileLoop site condition body =>
    rules.site site ∧ condition.Obeys rules enclosure ∧ body.Obeys rules enclosure.loop
  | .namespaceDef site _ body => rules.site site ∧ body.Obeys rules enclosure
  | .returnNothing site => rules.site site ∧ rules.MayReturn enclosure
  | .returnValue site value =>
    rules.site site ∧ rules.MayReturn enclosure ∧ value.Obeys rules enclosure
  | .breakLoop site | .continueLoop site => rules.site site ∧ rules.MayLeaveLoop enclosure
  | .block site statements => rules.site site ∧ Tree.ObeyEach rules enclosure statements

/-- Each of some trees obeys rules. -/
def Tree.ObeyEach (rules : Rules σ) (enclosure : Enclosure) : List (Tree σ) → Prop
  | [] => True
  | tree :: rest => tree.Obeys rules enclosure ∧ Tree.ObeyEach rules enclosure rest

/-- Branches obey rules. -/
def Branches.Obey (rules : Rules σ) (enclosure : Enclosure) : Branches σ → Prop
  | .none => True
  | .otherwise body => body.Obeys rules enclosure
  | .orIf condition body rest =>
    condition.Obeys rules enclosure ∧ body.Obeys rules enclosure ∧ rest.Obey rules enclosure

end

theorem Tree.Obeys.site {rules : Rules σ} {enclosure : Enclosure} {tree : Tree σ}
    (h : tree.Obeys rules enclosure) : rules.site tree.site := by
  cases tree with
  | number site value | string site value | identifier site name => exact h
  | _ => exact h.1

theorem Tree.obeyEach_iff {rules : Rules σ} {enclosure : Enclosure} {trees : List (Tree σ)} :
    Tree.ObeyEach rules enclosure trees ↔ ∀ tree ∈ trees, tree.Obeys rules enclosure := by
  induction trees with
  | nil => simp [Tree.ObeyEach]
  | cons tree trees ih => rw [Tree.ObeyEach, ih, List.forall_mem_cons]

theorem Tree.Obeys.withSite {rules : Rules σ} {enclosure : Enclosure} {tree : Tree σ} {site : σ}
    (h : tree.Obeys rules enclosure) (hsite : rules.site site) :
    (tree.withSite site).Obeys rules enclosure := by
  cases tree with
  | number _ _ | string _ _ | identifier _ _ => exact hsite
  | _ => exact ⟨hsite, h.2⟩

/-! ## Weaker rules -/

/-- Some rules ask for no more than others. -/
structure Rules.Weaker (weaker rules : Rules σ) : Prop where
  site : ∀ site, rules.site site → weaker.site site
  exits : weaker.exits → rules.exits

section Weaker

variable {rules weaker : Rules σ}

theorem Rules.MayReturn.weaken {enclosure : Enclosure} (hweaker : weaker.Weaker rules)
    (h : rules.MayReturn enclosure) : weaker.MayReturn enclosure :=
  fun hexits => h (hweaker.exits hexits)

theorem Rules.MayLeaveLoop.weaken {enclosure : Enclosure} (hweaker : weaker.Weaker rules)
    (h : rules.MayLeaveLoop enclosure) : weaker.MayLeaveLoop enclosure :=
  fun hexits => h (hweaker.exits hexits)

mutual

/-- A tree that obeys rules obeys weaker ones. -/
theorem Tree.Obeys.weaken {enclosure : Enclosure} (hweaker : weaker.Weaker rules) :
    ∀ {tree : Tree σ}, tree.Obeys rules enclosure → tree.Obeys weaker enclosure
  | .number _ _, h | .string _ _, h | .identifier _ _, h => hweaker.site _ h
  | .binary .., ⟨hsite, hleft, hright⟩ =>
    ⟨hweaker.site _ hsite, hleft.weaken hweaker, hright.weaken hweaker⟩
  | .unary .., ⟨hsite, h⟩ | .declare .., ⟨hsite, h⟩ | .member .., ⟨hsite, h⟩
  | .namespaceDef .., ⟨hsite, h⟩ => ⟨hweaker.site _ hsite, h.weaken hweaker⟩
  | .assign .., ⟨hsite, htarget, hvalue⟩ =>
    ⟨hweaker.site _ hsite, htarget.weaken hweaker, hvalue.weaken hweaker⟩
  | .list .., ⟨hsite, hitems⟩ => ⟨hweaker.site _ hsite, hitems.weaken hweaker⟩
  | .index .., ⟨hsite, hobject, hkey⟩ =>
    ⟨hweaker.site _ hsite, hobject.weaken hweaker, hkey.weaken hweaker⟩
  | .call .., ⟨hsite, hcallee, harguments⟩ =>
    ⟨hweaker.site _ hsite, hcallee.weaken hweaker, harguments.weaken hweaker⟩
  | .functionDef .., ⟨hsite, hparameters, hbody⟩ =>
    ⟨hweaker.site _ hsite, fun parameter h => hweaker.site _ (hparameters parameter h),
      hbody.weaken hweaker⟩
  | .conditional .., ⟨hsite, hcondition, hbody, hrest⟩ =>
    ⟨hweaker.site _ hsite, hcondition.weaken hweaker, hbody.weaken hweaker,
      hrest.weaken hweaker⟩
  | .whileLoop .., ⟨hsite, hcondition, hbody⟩ =>
    ⟨hweaker.site _ hsite, hcondition.weaken hweaker, hbody.weaken hweaker⟩
  | .returnNothing _, ⟨hsite, h⟩ => ⟨hweaker.site _ hsite, h.weaken hweaker⟩
  | .returnValue .., ⟨hsite, h, hvalue⟩ =>
    ⟨hweaker.site _ hsite, h.weaken hweaker, hvalue.weaken hweaker⟩
  | .breakLoop _, ⟨hsite, h⟩ | .continueLoop _, ⟨hsite, h⟩ =>
    ⟨hweaker.site _ hsite, h.weaken hweaker⟩
  | .block .., ⟨hsite, hstatements⟩ => ⟨hweaker.site _ hsite, hstatements.weaken hweaker⟩

theorem Tree.ObeyEach.weaken {enclosure : Enclosure} (hweaker : weaker.Weaker rules) :
    ∀ {trees : List (Tree σ)}, Tree.ObeyEach rules enclosure trees →
      Tree.ObeyEach weaker enclosure trees
  | [], _ => trivial
  | _ :: _, ⟨hfirst, hrest⟩ => ⟨hfirst.weaken hweaker, hrest.weaken hweaker⟩

theorem Branches.Obey.weaken {enclosure : Enclosure} (hweaker : weaker.Weaker rules) :
    ∀ {branches : Branches σ}, branches.Obey rules enclosure → branches.Obey weaker enclosure
  | .none, _ => trivial
  | .otherwise _, h => Tree.Obeys.weaken hweaker h
  | .orIf .., ⟨hcondition, hbody, hrest⟩ =>
    ⟨hcondition.weaken hweaker, hbody.weaken hweaker, hrest.weaken hweaker⟩

end

end Weaker

/-! ## No rules -/

/-- The rules that ask for nothing. -/
def Rules.free : Rules σ := ⟨fun _ => True, False⟩

mutual

/-- Every tree obeys the rules that ask for nothing. -/
theorem Tree.obeys_free (enclosure : Enclosure) : ∀ tree : Tree σ, tree.Obeys .free enclosure
  | .number _ _ | .string _ _ | .identifier _ _ => trivial
  | .binary _ _ left right => ⟨trivial, left.obeys_free enclosure, right.obeys_free enclosure⟩
  | .unary _ _ operand => ⟨trivial, operand.obeys_free enclosure⟩
  | .assign _ target value => ⟨trivial, target.obeys_free enclosure, value.obeys_free enclosure⟩
  | .declare _ _ _ value => ⟨trivial, value.obeys_free enclosure⟩
  | .list _ items => ⟨trivial, Tree.obeyEach_free enclosure items⟩
  | .member _ object _ => ⟨trivial, object.obeys_free enclosure⟩
  | .index _ object key => ⟨trivial, object.obeys_free enclosure, key.obeys_free enclosure⟩
  | .call _ callee arguments =>
    ⟨trivial, callee.obeys_free enclosure, Tree.obeyEach_free enclosure arguments⟩
  | .functionDef _ _ _ _ _ body => ⟨trivial, fun _ _ => trivial, body.obeys_free .function⟩
  | .conditional _ condition body rest =>
    ⟨trivial, condition.obeys_free enclosure, body.obeys_free enclosure,
      rest.obey_free enclosure⟩
  | .whileLoop _ condition body =>
    ⟨trivial, condition.obeys_free enclosure, body.obeys_free enclosure.loop⟩
  | .namespaceDef _ _ body => ⟨trivial, body.obeys_free enclosure⟩
  | .returnNothing _ => ⟨trivial, False.elim⟩
  | .returnValue _ value => ⟨trivial, False.elim, value.obeys_free enclosure⟩
  | .breakLoop _ | .continueLoop _ => ⟨trivial, False.elim⟩
  | .block _ statements => ⟨trivial, Tree.obeyEach_free enclosure statements⟩

theorem Tree.obeyEach_free (enclosure : Enclosure) :
    ∀ trees : List (Tree σ), Tree.ObeyEach .free enclosure trees
  | [] => trivial
  | tree :: rest => ⟨tree.obeys_free enclosure, Tree.obeyEach_free enclosure rest⟩

theorem Branches.obey_free (enclosure : Enclosure) :
    ∀ branches : Branches σ, branches.Obey .free enclosure
  | .none => trivial
  | .otherwise body => body.obeys_free enclosure
  | .orIf condition body rest =>
    ⟨condition.obeys_free enclosure, body.obeys_free enclosure, rest.obey_free enclosure⟩

end

end Script
