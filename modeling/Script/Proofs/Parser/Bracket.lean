/-
# What stands in brackets is read steadily

Items with commas in between up to a closing token, and expressions with separators around
them. A closing bracket is the one thing that completes what was opened, behind an item if
one is missing.
-/

import Script.Proofs.Parser.Statement

namespace Script.Parser

open Grammar

variable {ι α : Type} {limit : Nat} {size bound count : ι → Nat} {expression : ι → Parser Node}
  {name : Token} {follow : Token.Kind → Prop} {further tokens : List Token} {close : Token.Kind}

/-! ## Commas -/

section Commas

variable {item : ι → Parser α}

theorem run_commaSeparated_of_ne {parser : Parser α} {stream : TokenStream} {ending : Token}
    {a : α} (hending : ending.kind = .endOfInput)
    (hrun : parser.run stream = .ok (a, ⟨tokens, ending⟩)) (hnext : nextKind tokens ≠ .comma)
    {count : Nat} (hcount : 0 < count) :
    (commaSeparated parser count).run stream = .ok ([a], ⟨tokens, ending⟩) := by
  have haccept : (accept .comma).run ⟨tokens, ending⟩ = .ok (false, ⟨tokens, ending⟩) :=
    (run_accept_eq_ok_iff hending (by decide)).mpr (.inr ⟨hnext, rfl, rfl⟩)
  obtain ⟨less, rfl⟩ := Nat.exists_eq_succ_of_ne_zero (Nat.ne_of_gt hcount)
  rw [Rounds.ofCount_succ, commaSeparated, run_bind_of_ok hrun, run_bind_of_ok haccept]
  rfl

theorem completes_commaSeparated (hitem : Completes size item follow [] further)
    (hclose : follow close) (hcomma : close ≠ .comma) (hcount : ∀ i, size i ≤ count i) :
    Completes size (fun i => commaSeparated (item i) (count i)) (· = close) [] further where
  noEnding := hitem.noEnding
  plain rest hrest := hitem.plain rest (hrest ▸ hclose)
  accepts rest hrest := by
    intro i ending hending hlength
    obtain ⟨a, hrun⟩ := hitem.accepts rest (hrest ▸ hclose) i ending hending hlength
    have hpos : 0 < count i := Nat.zero_lt_of_lt (Nat.lt_of_lt_of_le hlength (hcount i))
    exact ⟨[a], run_commaSeparated_of_ne hending hrun (hrest ▸ hcomma) hpos⟩

theorem steady_commaSeparated [Nonempty α] (hitem : Steady limit size item follow 1 further)
    (hclose : follow close) (hplain : isPlain close = true) (hcomma : close ≠ .comma)
    (hcount : ∀ i, size i ≤ count i) :
    Steady limit size (fun i => commaSeparated (item i) (count i)) (· = close) 1 further := by
  have hplains (kind : Token.Kind) (hkind : kind = close) : isPlain kind = true := hkind ▸ hplain
  induction limit generalizing size count with
  | zero =>
      exact .zero (completes_commaSeparated hitem.completes hclose hcomma hcount) hitem.least_le
  | succ limit ih =>
      have hothers := ih hitem.shorter fun i => Nat.sub_le_sub_right (hcount i) 1
      have hnext (first : α) :
          Steady limit (fun i => size i - 1)
            (fun i => do
              if ← accept .comma then
                return first :: (← commaSeparated (item i) (count i - 1 : Nat))
              else return [first])
            (· = close) 0 [] :=
        .accept (hothers.map (first :: ·) hplains) (.pure [first] hplains) (by decide)
          fun rest hrest => hrest ▸ hcomma
      refine .of_count (fun i => commaSeparated (item i)) ?_ hcount
      rw [← List.append_nil further]
      exact hitem.bind_shorter hnext fun rest hrest => hrest ▸ hclose

theorem steady_itemsBefore [Nonempty α] (hitem : Steady limit size item follow 1 further)
    (hclose : follow close) (hplain : isPlain close = true) (hcomma : close ≠ .comma)
    (hcount : ∀ i, size i ≤ count i) :
    Steady limit size (fun i => itemsBefore close (item i) (count i)) (· = close) 0 [] := by
  have hsome := steady_commaSeparated hitem hclose hplain hcomma hcount
  refine ⟨fun tokens htokens => .peekKind ?_, .peekKind close ?_ fun _ => id, Nat.le_refl 0⟩
  · split
    · exact .pure _ tokens
    · exact (hsome.steadyAt tokens htokens).atLeast (Nat.zero_le 1)
  · simp only [↓reduceIte]
    exact .nil (fun kind hkind => hkind ▸ hplain) fun _ _ _ _ _ _ => ⟨[], rfl⟩

end Commas

/-! ## Brackets -/

section Bracket

variable (hexpression : Steady limit size expression (isQuiet ·) 1 [name])

include hexpression

theorem steady_spaced :
    Steady limit size (fun i => spaced (expression i)) (isQuiet ·) 1 [name] := by
  have hskip := @Steady.skipSeparators _ size limit
  have hbehind (node : Node) := (hskip.map (fun _ => node) fun _ => id).before isPlain_of_isQuiet
  have hnode :
      Steady limit size
        (fun i => do
          let node ← expression i
          skipSeparators
          return node)
        (isQuiet ·) 1 [name] :=
    hexpression.bind hbehind fun _ => id
  exact hskip.bind (fun _ => hnode) hnode.completes.plain

theorem steady_items (hbound : ∀ i, size i ≤ bound i) (problem : SyntaxProblem)
    (hclose : isQuiet close = true) (hending : close ≠ .endOfInput) :
    Steady limit size (fun i => items close problem (bound i) (expression i)) (isPlain ·) 1
      [mark close] := by
  have hplain := isPlain_of_isQuiet close hclose
  have hcomma : close ≠ .comma := by
    rintro rfl
    cases hclose
  have hitems := steady_itemsBefore (steady_spaced hexpression) hclose hplain hcomma hbound
  have hclosing := @Steady.expect _ size limit close problem hending hplain
  have hbehind (nodes : List Node) := hclosing.map (fun closing => (nodes, closing)) fun _ => id
  have hlist :
      Steady limit size
        (fun i => do
          let nodes ← itemsBefore close (spaced (expression i)) (bound i)
          let closing ← expect close problem
          return (nodes, closing))
        (isPlain ·) 1 [mark close] :=
    hitems.bind hbehind fun _ _ => rfl
  exact Steady.skipSeparators.bind (fun _ => hlist) hlist.completes.plain

/-- What stands behind an opening parenthesis. -/
theorem steady_inParentheses (opening : Token) :
    Steady limit size
      (fun i => do
        let node ← spaced (expression i)
        let closing ← expect .rightParen .expectedRightParen
        return node.withSite (opening.span.through closing.span))
      (isPlain ·) 2 [name, mark .rightParen] := by
  have hclosing := @Steady.expect _ size limit .rightParen .expectedRightParen (by decide) rfl
  have hbehind (node : Node) := hclosing.map
    (fun closing => node.withSite (opening.span.through closing.span)) fun _ => id
  exact (steady_spaced hexpression).bind hbehind fun _ _ => rfl

/-- What stands behind the opening brace of a list. -/
theorem steady_inBraces (hbound : ∀ i, size i ≤ bound i) (opening : Token) :
    Steady limit size
      (fun i => do
        let (nodes, closing) ←
          items .rightBrace .expectedCommaOrRightBrace (bound i) (expression i)
        return Tree.list (opening.span.through closing.span) nodes)
      (isPlain ·) 1 [mark .rightBrace] :=
  (steady_items hexpression hbound _ rfl (by decide)).map
    (fun items => Tree.list (opening.span.through items.2.span) items.1) fun _ => id

end Bracket

end Script.Parser
