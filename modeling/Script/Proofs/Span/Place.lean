/-
# Where nodes stand

A node stands from one place in a row of tokens up to another, if its span covers exactly
the tokens from there to there, its children and parameters stand one behind the other
between them, and those tokens by themselves are a statement that is read as the node. The
last does not hold of blocks, since braces alone are a list.
-/

import Script.Proofs.Span.Cut
import Script.Proofs.Syntax.Children

namespace Script.Parser

open Grammar

variable {α β : Type} {row : List Token} {start middle stop : Nat} {token : Token} {site : Span}

/-! ## Spans -/

/-- A span ends where the token before a place does. -/
def EndsAt (row : List Token) (stop : Nat) (site : Span) : Prop :=
  ∃ last, row[stop - 1]? = some last ∧ site.sources.stop = last.span.sources.stop ∧
    site.stop = last.span.stop

/-- The span of a token ends where the token does. -/
theorem EndsAt.of_token (htoken : row[start]? = some token) :
    EndsAt row (start + 1) token.span :=
  ⟨token, htoken, rfl, rfl⟩

/-- A span covers exactly the tokens from one place up to another, of which there is at
least one. -/
structure Covers (row : List Token) (start stop : Nat) (site : Span) : Prop where
  lt : start < stop
  first : ∃ token, row[start]? = some token ∧
    site.sources.start = token.span.sources.start ∧ site.start = token.span.start
  last : EndsAt row stop site

namespace Covers

theorem of_token (htoken : row[start]? = some token) : Covers row start (start + 1) token.span :=
  ⟨Nat.lt_succ_self _, ⟨token, htoken, rfl, rfl⟩, .of_token htoken⟩

theorem through (htoken : row[start]? = some token) (h : start < stop)
    (hlast : EndsAt row stop site) : Covers row start stop (token.span.through site) :=
  ⟨h, ⟨token, htoken, rfl, rfl⟩, hlast⟩

theorem lt_length (h : Covers row start stop site) : start < row.length := by
  obtain ⟨token, htoken, _⟩ := h.first
  exact lt_length_of_getElem? htoken

theorem extend {first : Span} (h : Covers row start middle first) (hle : middle ≤ stop)
    (hlast : EndsAt row stop site) : Covers row start stop (first.through site) :=
  ⟨Nat.lt_of_lt_of_le h.lt hle, h.first, hlast⟩

end Covers

/-! ## Rows -/

/-- Things stand one behind the other between two places. -/
inductive Lined (stands : Nat → Nat → α → Prop) : Nat → Nat → List α → Prop
  | nil {start stop : Nat} : start ≤ stop → Lined stands start stop []
  | cons {start first middle stop : Nat} {a : α} {rest : List α} :
      start ≤ first → stands first middle a → Lined stands middle stop rest →
      Lined stands start stop (a :: rest)

namespace Lined

variable {stands : Nat → Nat → α → Prop} {items others : List α}

theorem mono_start (h : Lined stands middle stop items) (hle : start ≤ middle) :
    Lined stands start stop items := by
  cases h with
  | nil hstop => exact .nil (Nat.le_trans hle hstop)
  | cons hfirst ha hrest => exact .cons (Nat.le_trans hle hfirst) ha hrest

theorem mono_stop (h : Lined stands start middle items) (hle : middle ≤ stop) :
    Lined stands start stop items := by
  induction h with
  | nil hstop => exact .nil (Nat.le_trans hstop hle)
  | cons hfirst ha _ ih => exact .cons hfirst ha (ih hle)

theorem append (h : Lined stands start middle items) (hothers : Lined stands middle stop others) :
    Lined stands start stop (items ++ others) := by
  induction h with
  | nil hle => exact hothers.mono_start hle
  | cons hfirst ha _ ih => exact .cons hfirst ha (ih hothers)

theorem map {stands' : Nat → Nat → β → Prop} {f : α → β}
    (h : Lined stands start stop items)
    (hf : ∀ {start stop a}, stands start stop a → stands' start stop (f a)) :
    Lined stands' start stop (items.map f) := by
  induction h with
  | nil hle => exact .nil hle
  | cons hfirst ha _ ih => exact .cons hfirst (hf ha) ih

theorem single {first last : Nat} {a : α} (hfirst : start ≤ first) (h : stands first last a)
    (hlast : last ≤ stop) : Lined stands start stop [a] :=
  .cons hfirst h (.nil hlast)

theorem exists_of_single {a : α} (h : Lined stands start stop [a]) :
    ∃ first last, start ≤ first ∧ stands first last a ∧ last ≤ stop := by
  obtain _ | ⟨hfirst, ha, hlast | _⟩ := h
  exact ⟨_, _, hfirst, ha, hlast⟩

variable (hle : ∀ {start stop a}, stands start stop a → start ≤ stop)

include hle

theorem le (h : Lined stands start stop items) : start ≤ stop := by
  induction h with
  | nil hstop => exact hstop
  | cons hfirst ha _ ih => exact Nat.le_trans hfirst (Nat.le_trans (hle ha) ih)

theorem exists_of_mem {a : α} (h : Lined stands start stop items) (ha : a ∈ items) :
    ∃ first last, start ≤ first ∧ stands first last a ∧ last ≤ stop := by
  induction h with
  | nil _ => cases ha
  | cons hfirst hstands hrest ih =>
      obtain rfl | ha := List.mem_cons.mp ha
      · exact ⟨_, _, hfirst, hstands, hrest.le hle⟩
      · obtain ⟨first, last, hbehind, hstands', hlast⟩ := ih ha
        exact ⟨first, last, Nat.le_trans hfirst (Nat.le_trans (hle hstands) hbehind), hstands',
          hlast⟩

omit hle in
/-- The things stand up to the end of the last of them. -/
theorem exists_last {last : α} (h : Lined stands start stop items)
    (hlast : last ∈ items.getLast?) :
    ∃ first middle, stands first middle last ∧ Lined stands start middle items := by
  induction h with
  | nil _ => cases hlast
  | @cons start first middle stop a rest hfirst hstands hrest ih =>
      cases hrest with
      | nil _ =>
          cases hlast
          exact ⟨first, middle, hstands, .single hfirst hstands (Nat.le_refl _)⟩
      | cons hsecond hstands' hothers =>
          obtain ⟨place, other, hplace, hlined⟩ := ih hlast
          exact ⟨place, other, hplace, .cons hfirst hstands hlined⟩

end Lined

/-! ## Nodes -/

/-- A row is a statement, which is read as a node. -/
def Whole (part : List Token) (node : Node) : Prop :=
  ∀ bound : Nat, ∀ ending, ending.kind = .endOfInput → part.length < bound →
    (statement (expression bound)).run ⟨part, ending⟩ = .ok (node, ⟨[], ending⟩)

/-- The span of a node covers the tokens from one place up to another, and what is inside
the node stands one behind the other between them. -/
structure Framed (row : List Token) (start stop : Nat) (node : Node) : Prop where
  covers : Covers row start stop node.site
  lined : Lined (Covers row) start stop node.childSites

/-- The tokens that a node covers are also read as the node by themselves. -/
structure Stands (row : List Token) (start stop : Nat) (node : Node) : Prop
    extends Framed row start stop node where
  whole : node.isBlock = false → Whole (between row start stop) node

/-- Every node of a tree stands somewhere in a row. -/
def Grounded (row : List Token) (tree : Node) : Prop :=
  ∀ node, tree.Has node → ∃ start stop, Stands row start stop node

/-- The spans of a tree are right, and the nodes below it stand somewhere. -/
structure Built (row : List Token) (start stop : Nat) (node : Node) : Prop
    extends Framed row start stop node where
  grounded : ∀ child ∈ node.children, Grounded row child

/-- A tree stands between two places with all its nodes. -/
structure Rooted (row : List Token) (start stop : Nat) (node : Node) : Prop
    extends Built row start stop node, Stands row start stop node

variable {node : Node}

theorem Rooted.all (h : Rooted row start stop node) : Grounded row node := by
  intro inner hinner
  cases hinner with
  | self => exact ⟨start, stop, h.toStands⟩
  | inside hchild hinner => exact h.grounded _ hchild inner hinner

theorem Built.rooted (h : Built row start stop node)
    (hwhole : Whole (between row start stop) node) : Rooted row start stop node :=
  ⟨h, fun _ => hwhole⟩

theorem Built.rooted_of_isBlock (h : Built row start stop node) (hblock : node.isBlock = true) :
    Rooted row start stop node :=
  ⟨h, fun hnot => absurd (hblock.symm.trans hnot) (by decide)⟩

theorem Yields.built_lt {ι : Type} {size : ι → Nat} {parser : ι → Parser Node}
    (h : Yields row size parser start (Built row start)) :
    Yields row size parser start fun stop node => start < stop ∧ Built row start stop node :=
  h.imp fun _ hbuilt => ⟨hbuilt.covers.lt, hbuilt⟩

/-- A tree is built from what is inside it. -/
theorem Built.of_children (hcovers : Covers row start stop node.site)
    (hparameters : Lined (Covers row) start middle node.parameterSites)
    (hchildren : Lined (Rooted row) middle stop node.children) : Built row start stop node where
  covers := hcovers
  lined := hparameters.append (hchildren.map fun h => h.covers)
  grounded child hchild := by
    obtain ⟨_, _, _, h, _⟩ := hchildren.exists_of_mem (fun h => Nat.le_of_lt h.covers.lt) hchild
    exact h.all

/-- Most trees have no parameters. -/
theorem Built.of_trees (hcovers : Covers row start stop node.site)
    (hparameters : node.parameterSites = [])
    (hchildren : Lined (Rooted row) start stop node.children) : Built row start stop node := by
  have hnone : Lined (Covers row) start start node.parameterSites :=
    hparameters ▸ .nil (Nat.le_refl _)
  exact .of_children hcovers hnone hchildren

/-- Parentheses around a tree widen its span. -/
theorem Built.withSite {first last : Nat} (h : Built row first last node)
    (hcovers : Covers row start stop site) (hfirst : start ≤ first) (hlast : last ≤ stop) :
    Built row start stop (node.withSite site) where
  covers := by rwa [Tree.site_withSite]
  lined := by
    rw [Tree.childSites_withSite]
    exact (h.lined.mono_start hfirst).mono_stop hlast
  grounded := by
    rw [Tree.children_withSite]
    exact h.grounded

end Script.Parser
