/-
# Nodes cover the tokens they were read from

The span of a node begins where the first token inside it begins, and it ends where the last
one ends. What is directly inside the node lies inside its span, in order and without
overlap. The tokens inside the span, read by themselves, are the node again with all its
spans, unless the node is a block: a row of statements is also read without the braces
around it.

A span is a range of characters, and nodes were placed in a row of tokens. Between the two
stands that no token is empty, and that each begins behind the one before.
-/

import Script.Proofs.Grammar.Lines
import Script.Proofs.Span.Program
import Script.Proofs.Token.Layout

namespace Script

/-! ## Tokens inside a span -/

/-- A span lies inside another. -/
def Span.Within (inner outer : Span) : Prop :=
  inner.sources = outer.sources ∧ outer.start.offset ≤ inner.start.offset ∧
    inner.stop.offset ≤ outer.stop.offset

instance (inner outer : Span) : Decidable (inner.Within outer) :=
  inferInstanceAs (Decidable (_ ∧ _ ∧ _))

/-- The tokens inside a span, but for the one that stands for the end of a source. -/
def Token.inside (site : Span) (tokens : List Token) : List Token :=
  tokens.filter fun token => token.kind ≠ .endOfInput ∧ token.span.Within site

@[simp]
theorem Token.inside_append_atEnd (site span : Span) (tokens : List Token) :
    inside site (tokens ++ [atEnd span]) = inside site tokens := by
  simp [inside, atEnd]

/-! ## Rows of tokens in a source -/

namespace Parser

/-- A row of tokens as it is read from a source: none of them is empty, and each begins
behind the one before. -/
structure Laid (source : Source) (row : List Token) : Prop where
  source : ∀ token ∈ row, token.span.sources = source
  lt : ∀ token ∈ row, token.span.start.offset < token.span.stop.offset
  ordered : row.Pairwise fun earlier later =>
    earlier.span.stop.offset ≤ later.span.start.offset

variable {source : Source} {row tokens : List Token} {start middle place stop i j : Nat}
  {token other : Token} {site inner outer : Span} {sites : List Span}

namespace Laid

theorem stop_le_start (h : Laid source row) (htoken : row[i]? = some token)
    (hother : row[j]? = some other) (hlt : i < j) :
    token.span.stop.offset ≤ other.span.start.offset := by
  obtain ⟨hi, rfl⟩ := List.getElem?_eq_some_iff.mp htoken
  obtain ⟨hj, rfl⟩ := List.getElem?_eq_some_iff.mp hother
  exact List.pairwise_iff_getElem.mp h.ordered i j hi hj hlt

theorem lt_of_getElem? (h : Laid source row) (htoken : row[i]? = some token) :
    token.span.start.offset < token.span.stop.offset :=
  h.lt token (List.mem_of_getElem? htoken)

theorem start_le_start (h : Laid source row) (htoken : row[i]? = some token)
    (hother : row[j]? = some other) (hle : i ≤ j) :
    token.span.start.offset ≤ other.span.start.offset := by
  obtain rfl | hlt := Nat.eq_or_lt_of_le hle
  · cases htoken.symm.trans hother
    exact Nat.le_refl _
  · have hstop := h.stop_le_start htoken hother hlt
    have hwide := h.lt_of_getElem? htoken
    omega

theorem stop_le_stop (h : Laid source row) (htoken : row[i]? = some token)
    (hother : row[j]? = some other) (hle : i ≤ j) :
    token.span.stop.offset ≤ other.span.stop.offset := by
  obtain rfl | hlt := Nat.eq_or_lt_of_le hle
  · cases htoken.symm.trans hother
    exact Nat.le_refl _
  · have hstop := h.stop_le_start htoken hother hlt
    have hwide := h.lt_of_getElem? hother
    omega

end Laid

namespace Covers

theorem stop_le_start (hlaid : Laid source row) (h : Covers row start middle inner)
    (hbehind : Covers row place stop outer) (hle : middle ≤ place) :
    inner.stop.offset ≤ outer.start.offset := by
  obtain ⟨last, hlast, _, hstop⟩ := h.last
  obtain ⟨first, hfirst, _, hstart⟩ := hbehind.first
  have hlt := h.lt
  rw [hstop, hstart]
  exact hlaid.stop_le_start hlast hfirst (by omega)

/-- A span that covers tokens of a source has both ends in this source. -/
theorem sources_eq (hlaid : Laid source row) (h : Covers row start stop site) :
    site.sources = source := by
  obtain ⟨first, hfirst, hstart, -⟩ := h.first
  obtain ⟨last, hlast, hstop, -⟩ := h.last
  rw [hlaid.source first (List.mem_of_getElem? hfirst)] at hstart
  rw [hlaid.source last (List.mem_of_getElem? hlast)] at hstop
  exact congrArg₂ Span.Sources.mk hstart hstop

theorem within (hlaid : Laid source row) (h : Covers row i j inner)
    (houter : Covers row start stop outer) (hstart : start ≤ i) (hstop : j ≤ stop) :
    inner.Within outer := by
  obtain ⟨first', hfirst', _, hbegin'⟩ := houter.first
  obtain ⟨last', hlast', _, hend'⟩ := houter.last
  obtain ⟨first, hfirst, _, hbegin⟩ := h.first
  obtain ⟨last, hlast, _, hend⟩ := h.last
  refine ⟨(h.sources_eq hlaid).trans (houter.sources_eq hlaid).symm, ?_, ?_⟩
  · rw [hbegin, hbegin']
    exact hlaid.start_le_start hfirst' hfirst hstart
  · rw [hend, hend']
    exact hlaid.stop_le_stop hlast hlast' (by omega)

/-- The tokens inside a span are those that it covers. -/
theorem within_iff (hlaid : Laid source row) (h : Covers row start stop site)
    (htoken : row[i]? = some token) : token.span.Within site ↔ start ≤ i ∧ i < stop := by
  constructor
  · rintro ⟨-, hbegin, hend⟩
    obtain ⟨first, hfirst, _, hstart⟩ := h.first
    obtain ⟨last, hlast, _, hstop⟩ := h.last
    have hwide := hlaid.lt_of_getElem? htoken
    rw [hstart] at hbegin
    rw [hstop] at hend
    constructor
    · by_contra hbefore
      have hle := hlaid.stop_le_start htoken hfirst (Nat.lt_of_not_le hbefore)
      omega
    · by_contra hbehind
      have hlt := h.lt
      have hle := hlaid.stop_le_start hlast htoken (by omega)
      omega
  · rintro ⟨hstart, hstop⟩
    exact (of_token htoken).within hlaid h hstart hstop

end Covers

/-- To keep the tokens from one place up to another is to cut them out. -/
theorem filter_eq_between {keep : Token → Bool}
    (h : ∀ {i token}, row[i]? = some token → (keep token = true ↔ start ≤ i ∧ i < stop)) :
    row.filter keep = between row start stop := by
  induction row generalizing start stop with
  | nil => simp [between]
  | cons first row ih =>
      have hfirst : keep first = true ↔ start ≤ 0 ∧ 0 < stop := h (List.getElem?_cons_zero ..)
      have hrest : row.filter keep = between row (start - 1) (stop - 1) :=
        ih fun {i token} htoken => by
          rw [h (List.getElem?_cons_succ.trans htoken)]
          omega
      rw [List.filter_cons, hrest, between, between]
      cases stop with
      | zero => simp [hfirst]
      | succ stop => cases start <;> simp [hfirst]

/-- What stands one behind the other lies in order without overlap. -/
theorem Lined.pairwise (hlaid : Laid source row) (h : Lined (Covers row) start stop sites) :
    sites.Pairwise fun earlier later => earlier.stop.offset ≤ later.start.offset := by
  induction h with
  | nil _ => exact .nil
  | cons _ hcovers hrest ih =>
      refine .cons (fun later hlater => ?_) ih
      obtain ⟨_, _, hbehind, hlater, _⟩ :=
        hrest.exists_of_mem (fun h => Nat.le_of_lt h.lt) hlater
      exact hcovers.stop_le_start hlaid hlater hbehind

theorem Lined.within (hlaid : Laid source row) (h : Lined (Covers row) start stop sites)
    (houter : Covers row start stop outer) : ∀ site ∈ sites, site.Within outer := by
  intro site hsite
  obtain ⟨_, _, hstart, hinner, hstop⟩ := h.exists_of_mem (fun h => Nat.le_of_lt h.lt) hsite
  exact hinner.within hlaid houter hstart hstop

/-- The body of what is read from a source is a row. -/
theorem exists_laid (h : Token.scan source = .ok tokens) :
    ∃ body span, tokens = body ++ [Token.atEnd span] ∧
      (∀ token ∈ body, token.kind ≠ .endOfInput) ∧ Laid source body := by
  have hcut : Token.Cut source [] source.text.toList tokens := .of_scanFrom h
  obtain ⟨body, rfl, hlexemes⟩ := hcut.exists_body
  have hplaces (token : Token) (htoken : token ∈ body) :=
    hcut.exists_place (List.mem_append_left _ htoken)
  refine ⟨body, _, rfl, fun token htoken => (hlexemes token htoken).kind_ne, ?_, ?_, ?_⟩
  · intro token htoken
    obtain ⟨_, _, _, _, _, hspan⟩ := hplaces token htoken
    rw [hspan]
  · intro token htoken
    obtain ⟨before, lexeme, behind, _, hlexeme, hspan⟩ := hplaces token htoken
    have hne := (hlexemes token htoken).ne_nil
    rw [hlexeme, String.toList_ofList, ← List.length_pos_iff] at hne
    rw [hspan]
    simpa using hne
  · exact (List.pairwise_append.mp hcut.pairwise.2).1

end Parser

/-! ## The theorem -/

/-- A node covers the tokens that it was read from. -/
structure Tree.Spanned (tokens : List Token) (node : Tree Span) : Prop where
  /-- Children and parameters lie inside the node. -/
  within : ∀ site ∈ node.childSites, site.Within node.site
  /-- Children and parameters lie in order, without overlap. -/
  ordered : node.childSites.Pairwise fun earlier later =>
    earlier.stop.offset ≤ later.start.offset
  /-- The node begins where the first token inside it does. -/
  first : ∀ token ∈ (Token.inside node.site tokens).head?, node.site.start = token.span.start
  /-- The node ends where the last token inside it does. -/
  last : ∀ token ∈ (Token.inside node.site tokens).getLast?, node.site.stop = token.span.stop
  /-- The tokens inside a node that is no block are a program of that node alone. -/
  reread : node.isBlock = false →
    ∃ site, Tree.ofTokens (Token.inside node.site tokens) = .ok (.block site [node])

namespace Parser

theorem Stands.spanned {span : Span} {node : Node} (hlaid : Laid source row)
    (hkinds : ∀ token ∈ row, token.kind ≠ .endOfInput) (h : Stands row start stop node) :
    node.Spanned (row ++ [Token.atEnd span]) := by
  have hinside : Token.inside node.site (row ++ [Token.atEnd span]) = between row start stop := by
    rw [Token.inside_append_atEnd]
    refine filter_eq_between fun {i token} htoken => ?_
    have hkind := hkinds token (List.mem_of_getElem? htoken)
    rw [decide_eq_true_iff, and_iff_right hkind, h.covers.within_iff hlaid htoken]
  have hlt := h.covers.lt
  constructor
  case within => exact h.lined.within hlaid h.covers
  case ordered => exact h.lined.pairwise hlaid
  case first =>
    intro token htoken
    obtain ⟨first, hfirst, _, hstart⟩ := h.covers.first
    rw [hinside] at htoken
    cases hfirst.symm.trans (mem_of_mem_head?_between htoken)
    exact hstart
  case last =>
    intro token htoken
    obtain ⟨last, hlast, _, hstop⟩ := h.covers.last
    rw [hinside, getLast?_between hlast hlt] at htoken
    cases htoken
    exact hstop
  case reread =>
    intro hblock
    rw [hinside]
    refine ofTokens_of_whole (h.whole hblock) fun token htoken => ?_
    exact hkinds token (List.mem_of_mem_take (List.mem_of_mem_drop htoken))

end Parser

/-- Every node of a program covers exactly the tokens that it was read from. -/
theorem Tree.spanned_of_ofSource {source : Source} {tree : Tree Span}
    (h : Tree.ofSource source = .ok tree) :
    ∃ tokens, Token.scan source = .ok tokens ∧ ∀ node, tree.Has node → node.Spanned tokens := by
  obtain ⟨tokens, hscan, htree⟩ := ofSource_eq_ok_iff.mp h
  refine ⟨tokens, hscan, ?_⟩
  obtain ⟨row, span, rfl, hkinds, hlaid⟩ := Parser.exists_laid hscan
  obtain hgrounded | ⟨hnone, site, rfl⟩ := Parser.grounded_of_ofTokens htree
  · rw [Token.programTokens_append_atEnd span hkinds] at hgrounded
    intro node hnode
    obtain ⟨_, _, hstands⟩ := hgrounded node hnode
    exact hstands.spanned hlaid hkinds
  · rw [Token.programTokens_append_atEnd span hkinds] at hnone
    subst hnone
    have hempty : Token.inside site ([] ++ [Token.atEnd span]) = [] :=
      Token.inside_append_atEnd site span []
    rintro _ (_ | ⟨hchild, _⟩)
    · constructor
      case within => exact List.forall_mem_nil _
      case ordered => exact .nil
      case first =>
        rw [Tree.site, hempty]
        simp
      case last =>
        rw [Tree.site, hempty]
        simp
      case reread =>
        intro hblock
        cases hblock
    · cases hchild

/-- A function with a parameter, and parentheses that widen a sum. -/
theorem Tree.spanned_of_ofSource_of_parentheses :
    ∃ tree tokens, Tree.ofSource ⟨"int f(int n) = -(n + 1)", "spans"⟩ = .ok tree ∧
      Token.scan ⟨"int f(int n) = -(n + 1)", "spans"⟩ = .ok tokens ∧
      ∀ node, tree.Has node → node.Spanned tokens := by
  have hreads : (Tree.ofSource ⟨"int f(int n) = -(n + 1)", "spans"⟩).isOk = true := by
    decide +kernel
  cases h : Tree.ofSource ⟨"int f(int n) = -(n + 1)", "spans"⟩ with
  | error error =>
      rw [h] at hreads
      cases hreads
  | ok tree =>
      obtain ⟨tokens, hscan, hspanned⟩ := Tree.spanned_of_ofSource h
      exact ⟨tree, tokens, rfl, hscan, hspanned⟩

end Script
