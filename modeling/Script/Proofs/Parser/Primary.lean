/-
# Operands are read steadily

What operators apply to. A conditional is the one construct that looks further than the next
token: past separators, for the keyword of a further branch.
-/

import Mathlib.Data.List.TakeWhile
import Script.Proofs.Parser.Bracket

namespace Script.Parser

open Grammar

variable {ι α : Type} {limit : Nat} {size bound count : ι → Nat} {expression : ι → Parser Node}
  {name : Token} {follow : Token.Kind → Prop} {further tokens : List Token}

instance : Nonempty (Branches Span) := ⟨.none⟩

/-! ## Conditionals -/

theorem pastSeparators_append {front : List Token} (h : pastSeparators front ≠ [])
    (others : List Token) : pastSeparators (front ++ others) = pastSeparators front ++ others := by
  rw [pastSeparators] at h
  rw [pastSeparators, pastSeparators, List.dropWhile_append, if_neg (by rwa [List.isEmpty_iff])]

/-- A parser that looks past separators for a token, takes them with it, and then runs as
another one. -/
theorem SteadyAt.afterSeparators {parser inner : ι → Parser α} {least : Nat} {keyword : Token}
    {others : List Token} (hbehind : pastSeparators tokens = keyword :: others)
    (hinner : Steady limit size inner follow least further)
    (hrun : ∀ i taken row ending, ending.kind = .endOfInput →
      pastSeparators (taken ++ keyword :: row) = keyword :: row →
      (parser i).run ⟨taken ++ keyword :: row, ending⟩ = (inner i).run ⟨row, ending⟩)
    (htokens : Within limit tokens) : SteadyAt size parser follow 0 tokens := by
  obtain ⟨taken, htaken, hpast⟩ := exists_pastSeparators tokens
  have hkeyword := hbehind ▸ nextKind_pastSeparators_ne tokens
  rw [hbehind, List.append_cons] at htaken
  subst htaken
  have hkeyword' (i : ι) (row : List Token) (ending : Token) (hending : ending.kind = .endOfInput) :
      (parser i).run ⟨taken ++ [keyword] ++ row, ending⟩ = (inner i).run ⟨row, ending⟩ := by
    rw [← List.append_cons]
    exact hrun i taken row ending hending (hpast _ hkeyword)
  exact (SteadyAt.lead (List.concat_ne_nil keyword taken) hkeyword' hinner htokens).atLeast
    (Nat.zero_le 1)

/-- The first token behind the separators of a row is still the same where the row goes on
differently, or it is plain. -/
theorem nextKind_pastSeparators_append {front others : List Token} (hhides : Hides front others)
    (hne : front ≠ []) (behind : List Token) :
    nextKind (pastSeparators (front ++ others)) = nextKind (pastSeparators (front ++ behind)) ∨
      isPlain (nextKind (pastSeparators (front ++ others))) = true := by
  by_cases hpast : pastSeparators front = []
  · have hall := List.dropWhile_eq_nil_iff.mp hpast
    have hplain : isPlain (nextKind others) = true := by
      refine hhides.resolve_left fun hlast => ?_
      have hmem := List.getLast_mem hne
      exact hlast _ (List.getLast?_eq_some_getLast hne) (by simpa using hall _ hmem)
    refine .inr ?_
    rwa [pastSeparators, List.dropWhile_append_of_pos hall, ← pastSeparators,
      pastSeparators_eq_self (ne_separator_of_isPlain hplain)]
  · refine .inl (nextKind_eq_of_head? ?_)
    rw [pastSeparators_append hpast, pastSeparators_append hpast]
    exact @head?_append_of_ne_nil [] (pastSeparators front) behind others hpast

theorem run_branches_of_none {ending : Token} {bound : Nat} {expression : Parser Node}
    (hending : ending.kind = .endOfInput)
    (helif : nextKind (pastSeparators tokens) ≠ .keyword .elifWord)
    (helse : nextKind (pastSeparators tokens) ≠ .keyword .elseWord) {count : Nat}
    (hcount : 0 < count) :
    (branches bound expression count).run ⟨tokens, ending⟩ = .ok (.none, ⟨tokens, ending⟩) := by
  obtain ⟨less, rfl⟩ := Nat.exists_eq_succ_of_ne_zero (Nat.ne_of_gt hcount)
  rw [Rounds.ofCount_succ, branches, run_bind_of_ok (run_kindPastSeparators hending)]
  split
  · next hkind => exact absurd hkind helif
  · next hkind => exact absurd hkind helse
  · rfl

theorem steadyAt_branches_of_none (hcount : ∀ i, size i ≤ count i)
    (helif : nextKind (pastSeparators tokens) ≠ .keyword .elifWord)
    (helse : nextKind (pastSeparators tokens) ≠ .keyword .elseWord) :
    SteadyAt size (fun i => branches (bound i) (expression i) (count i)) follow 0 tokens := by
  have hpos (i : ι) {row : List Token} (hlength : row.length < size i) : 0 < count i :=
    Nat.lt_of_lt_of_le (Nat.zero_lt_of_lt hlength) (hcount i)
  intro i ending hending hlength
  refine ⟨[], tokens, .ok .none, rfl,
    run_branches_of_none hending helif helse (hpos i hlength), fun _ _ => Nat.zero_le _, ?_, ?_, ?_⟩
  · rintro error ⟨⟩
  · intro front behind others j ending' htokens hne hhides hending' hlength'
    have hkind (word : Keyword) (hword : isPlain (.keyword word) = false)
        (hnot : nextKind (pastSeparators tokens) ≠ .keyword word) :
        nextKind (pastSeparators (front ++ others)) ≠ .keyword word := by
      intro heq
      obtain hsame | hplain := nextKind_pastSeparators_append hhides hne behind
      · rw [htokens, ← hsame] at hnot
        exact hnot heq
      · rw [heq, hword] at hplain
        cases hplain
    exact run_branches_of_none hending' (hkind .elifWord rfl helif) (hkind .elseWord rfl helse)
      (hpos j hlength')
  · exact fun hne => absurd rfl hne

theorem completes_branches (hcount : ∀ i, size i ≤ count i) :
    Completes size (fun i => branches (bound i) (expression i) (count i)) (isQuiet ·) [] [] := by
  refine .nil isPlain_of_isQuiet fun i rest ending hpos hrest hending => ⟨.none, ?_⟩
  have hpast := pastSeparators_eq_self (ne_separator_of_isPlain (isPlain_of_isQuiet _ hrest))
  refine run_branches_of_none hending ?_ ?_ (Nat.lt_of_lt_of_le hpos (hcount i)) <;>
  · rw [hpast]
    intro hkind
    rw [hkind] at hrest
    cases hrest

/-- A further condition or a last branch behind some separators. -/
theorem run_branches_of_elif {ending keyword : Token} {row : List Token} {bound count : Nat}
    {expression : Parser Node} (hending : ending.kind = .endOfInput)
    (hpast : pastSeparators tokens = keyword :: row) (hkind : keyword.kind = .keyword .elifWord) :
    (branches bound expression (count + 1 : Nat)).run ⟨tokens, ending⟩ =
      (do
        let condition ← expression
        let body ← block bound expression
        return Branches.orIf condition body (← branches bound expression count) :
          Parser (Branches Span)).run ⟨row, ending⟩ := by
  rw [Rounds.ofCount_succ, branches, run_bind_of_ok (run_kindPastSeparators hending), hpast,
    nextKind_cons, hkind]
  dsimp only
  rw [run_bind_of_ok (run_skipSeparators _ _), hpast, run_bind_of_ok (run_advance_cons _ _ _)]

theorem run_branches_of_else {ending keyword : Token} {row : List Token} {bound count : Nat}
    {expression : Parser Node} (hending : ending.kind = .endOfInput)
    (hpast : pastSeparators tokens = keyword :: row) (hkind : keyword.kind = .keyword .elseWord) :
    (branches bound expression (count + 1 : Nat)).run ⟨tokens, ending⟩ =
      (do
        if (← peekKind) = .leftBrace then
          return Branches.otherwise (← block bound expression)
        else return Branches.otherwise (← statement expression) :
          Parser (Branches Span)).run ⟨row, ending⟩ := by
  rw [Rounds.ofCount_succ, branches, run_bind_of_ok (run_kindPastSeparators hending), hpast,
    nextKind_cons, hkind]
  dsimp only
  rw [run_bind_of_ok (run_skipSeparators _ _), hpast, run_bind_of_ok (run_advance_cons _ _ _)]

/-- What stands behind the keyword of a further condition. -/
theorem steady_orIf (hname : name.kind = .identifier)
    (hexpression : Steady (limit + 1) size expression (isQuiet ·) 1 [name])
    (hbound : ∀ i, size i ≤ bound i) {others : ι → Parser (Branches Span)}
    (hothers : Steady limit (fun i => size i - 1) others (isQuiet ·) 0 []) :
    Steady (limit + 1) size
      (fun i => do
        let condition ← expression i
        let body ← block (bound i) (expression i)
        return Branches.orIf condition body (← others i))
      (isQuiet ·) 1 [name, mark .leftBrace, mark .rightBrace] := by
  have hblock := steady_block hname hexpression hbound
  have hrest (condition body : Node) :=
    hothers.map (Branches.orIf condition body) isPlain_of_isQuiet
  have hbehind (condition : Node) :=
    hblock.bind_shorter (hrest condition) fun _ => isPlain_of_isQuiet _
  exact (hexpression.bind hbehind fun _ _ => rfl).atLeast (Nat.le_add_right 1 _)

section Branch

variable (hname : name.kind = .identifier)
  (hexpression : Steady limit size expression (isQuiet ·) 1 [name])
  (hbound : ∀ i, size i ≤ bound i)

include hname hexpression hbound

/-- What stands behind the keyword of a last branch. -/
theorem steady_otherwise :
    Steady limit size
      (fun i => do
        if (← peekKind) = .leftBrace then
          return Branches.otherwise (← block (bound i) (expression i))
        else return Branches.otherwise (← statement (expression i)))
      (isQuiet ·) 1 [name] := by
  have hblock := (steady_block hname hexpression hbound).before isPlain_of_isQuiet
  have hstatement := (steady_statement hname hexpression).map Branches.otherwise isPlain_of_isQuiet
  refine ⟨fun tokens htokens => .peekKind ?_, .peekKind .identifier ?_ fun _ _ => hname,
    Nat.le_refl 1⟩
  · split
    · exact (hblock.map Branches.otherwise isPlain_of_isQuiet).steadyAt tokens htokens
    · exact hstatement.steadyAt tokens htokens
  · exact hstatement.completes

theorem steady_branches (hcount : ∀ i, size i ≤ count i) :
    Steady limit size (fun i => branches (bound i) (expression i) (count i)) (isQuiet ·) 0 [] := by
  induction limit generalizing size count with
  | zero => exact .zero (completes_branches hcount) (Nat.le_refl 0)
  | succ limit ih =>
      have hless (i : ι) := Nat.sub_le_sub_right (hcount i) 1
      have hcount' (i : ι) := Nat.le_add_of_sub_le (hless i)
      have hothers := ih hexpression.shorter (fun i => Nat.le_trans (Nat.sub_le _ _) (hbound i))
        hless
      refine .of_count (fun i => branches (bound i) (expression i))
        ⟨fun tokens htokens => ?_, completes_branches hcount', Nat.le_refl 0⟩ hcount
      cases hbehind : pastSeparators tokens with
      | nil => exact steadyAt_branches_of_none hcount' (by simp [hbehind]) (by simp [hbehind])
      | cons keyword others =>
          by_cases helif : keyword.kind = .keyword .elifWord
          · exact .afterSeparators hbehind (steady_orIf hname hexpression hbound hothers)
              (fun i taken row ending hending hpast => run_branches_of_elif hending hpast helif)
              htokens
          · by_cases helse : keyword.kind = .keyword .elseWord
            · exact .afterSeparators hbehind (steady_otherwise hname hexpression hbound)
                (fun i taken row ending hending hpast => run_branches_of_else hending hpast helse)
                htokens
            · exact steadyAt_branches_of_none hcount' (by rwa [hbehind]) (by rwa [hbehind])

theorem steady_inConditional (opening : Token) :
    Steady limit size
      (fun i => do
        let condition ← expression i
        let body ← block (bound i) (expression i)
        let rest ← branches (bound i) (expression i) (bound i)
        return Tree.conditional (opening.span.through (rest.lastSite body.site)) condition body
          rest)
      (isQuiet ·) 1 [name, mark .leftBrace, mark .rightBrace] := by
  have hblock := steady_block hname hexpression hbound
  have hbranches := steady_branches hname hexpression hbound hbound
  have hrest (condition body : Node) := hbranches.map
    (fun rest => Tree.conditional (opening.span.through (rest.lastSite body.site)) condition body
      rest) isPlain_of_isQuiet
  have hbehind (condition : Node) := hblock.bind (hrest condition) fun _ => isPlain_of_isQuiet _
  exact (hexpression.bind hbehind fun _ _ => rfl).atLeast (Nat.le_add_right 1 _)

theorem steady_inLoop (opening : Token) :
    Steady limit size
      (fun i => do
        let condition ← expression i
        let body ← block (bound i) (expression i)
        return Tree.whileLoop (opening.span.through body.site) condition body)
      (isPlain ·) 1 [name, mark .leftBrace, mark .rightBrace] := by
  have hblock := steady_block hname hexpression hbound
  exact (hexpression.bind (fun condition => hblock.map
    (fun body => Tree.whileLoop (opening.span.through body.site) condition body) fun _ => id)
    fun _ _ => rfl).atLeast (Nat.le_add_right 1 _)

theorem steady_inNamespace (opening : Token) :
    Steady limit size
      (fun i => do
        let name ← expect .identifier .expectedNamespaceName
        let body ← block (bound i) (expression i)
        return Tree.namespaceDef (opening.span.through body.site) name.lexeme body)
      (isPlain ·) 1 [mark .identifier, mark .leftBrace, mark .rightBrace] := by
  have hlabel := @Steady.expect _ size limit .identifier .expectedNamespaceName (by decide) rfl
  have hblock := steady_block hname hexpression hbound
  exact (hlabel.bind (fun label => hblock.map
    (fun body => Tree.namespaceDef (opening.span.through body.site) label.lexeme body) fun _ => id)
    fun _ _ => rfl).atLeast (Nat.le_add_right 1 _)

end Branch

/-! ## All operands -/

/-- An operand of one token. -/
theorem steadyAt_single {parser : Parser Node} {token : Token} (node : Node)
    (hrun : ∀ row ending, parser.run ⟨token :: row, ending⟩ = .ok (node, ⟨row, ending⟩))
    (htokens : Within (limit + 1) (token :: tokens)) :
    SteadyAt (fun i => size i + 1) (fun _ => parser) (isQuiet ·) 1 (token :: tokens) :=
  .cons_nested (fun _ row ending _ => (hrun row ending).trans (run_pure node _).symm)
    (@Steady.pure _ _ size limit _ node isPlain_of_isQuiet) htokens

theorem steadyAt_numberLiteral {token : Token} {value : Number}
    (hliteral : token.literal = some (.number value))
    (htokens : Within (limit + 1) (token :: tokens)) :
    SteadyAt (fun i => size i + 1) (fun _ => numberLiteral) (isQuiet ·) 1 (token :: tokens) := by
  refine steadyAt_single (.number token.span value) (fun row ending => ?_) htokens
  rw [numberLiteral, run_bind_of_ok (run_advance_cons _ _ _), hliteral]
  rfl

theorem steadyAt_stringLiteral {token : Token} {value : String}
    (hliteral : token.literal = some (.string value))
    (htokens : Within (limit + 1) (token :: tokens)) :
    SteadyAt (fun i => size i + 1) (fun _ => stringLiteral) (isQuiet ·) 1 (token :: tokens) := by
  refine steadyAt_single (.string token.span value) (fun row ending => ?_) htokens
  rw [stringLiteral, run_bind_of_ok (run_advance_cons _ _ _), hliteral]
  rfl

section Primary

variable (hname : name.kind = .identifier)
  (hexpression : Steady limit size expression (isQuiet ·) 1 [name])
  (hbound : ∀ i, size i ≤ bound i)

include hname hexpression hbound

/-- The first token of an operand decides what is read. -/
theorem steadyAt_primary_cons {token : Token} (htokens : Within (limit + 1) (token :: tokens)) :
    SteadyAt (fun i => size i + 1) (fun i => primary (bound i) (expression i)) (isQuiet ·) 1
      (token :: tokens) := by
  have hvalue := htokens.carriesValue token List.mem_cons_self
  refine .peekKind ?_
  rw [nextKind_cons]
  cases hkind : token.kind with
  | int | long | double =>
      obtain ⟨value, hliteral⟩ := hvalue.number (by simp [hkind])
      exact steadyAt_numberLiteral hliteral htokens
  | string =>
      obtain ⟨value, hliteral⟩ := hvalue.string hkind
      exact steadyAt_stringLiteral hliteral htokens
  | identifier =>
      exact steadyAt_single (.identifier token.span token.lexeme) (fun _ _ => rfl) htokens
  | leftParen =>
      exact .cons_nested (fun _ _ _ _ => rfl)
        ((steady_inParentheses hexpression token).before isPlain_of_isQuiet) htokens
  | leftBrace =>
      exact .cons_nested (fun _ _ _ _ => rfl)
        ((steady_inBraces hexpression hbound token).before isPlain_of_isQuiet) htokens
  | keyword word =>
      cases word with
      | ifWord =>
          exact .cons_nested (fun _ _ _ _ => rfl)
            (steady_inConditional hname hexpression hbound token) htokens
      | whileWord =>
          exact .cons_nested (fun _ _ _ _ => rfl)
            ((steady_inLoop hname hexpression hbound token).before isPlain_of_isQuiet) htokens
      | namespaceWord =>
          exact .cons_nested (fun _ _ _ _ => rfl)
            ((steady_inNamespace hname hexpression hbound token).before isPlain_of_isQuiet) htokens
      | _ => exact .fail .expectedExpression _
  | _ => exact .fail .expectedExpression _

theorem steady_primary :
    Steady (limit + 1) (fun i => size i + 1) (fun i => primary (bound i) (expression i))
      (isQuiet ·) 1 [name] where
  steadyAt tokens htokens := by
    cases tokens with
    | nil => exact .peekKind (.fail .expectedExpression [])
    | cons token tokens => exact steadyAt_primary_cons hname hexpression hbound htokens
  completes := by
    refine ⟨hexpression.completes.noEnding, hexpression.completes.plain, fun rest _ => ?_⟩
    refine .peekKind fun i ending hending _ => ⟨.identifier name.span name.lexeme, ?_⟩
    rw [List.nil_append, List.cons_append, nextKind_cons, hname]
    rfl
  least_le := Nat.le_refl 1

end Primary

end Script.Parser
