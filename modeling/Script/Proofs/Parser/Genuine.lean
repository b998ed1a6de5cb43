/-
# A parsed program has genuine sites

Every parser of the grammar hands on where the tokens begin that it leaves. A node's site
reaches from the first token of the node to its last token or to the site of its last child,
which were read later, so that it is genuine where the tokens' spans are. So is the span that
a syntax error reports, which is a token's or that of a node.
-/

import Script.Proofs.Grammar.Combination
import Script.Proofs.Parser.Offence
import Script.Proofs.Parser.Sites
import Script.Proofs.Syntax.Children

namespace Script

variable {source : Source} {lo mid hi : Nat}

/-! ## Trees with genuine sites -/

/-- A tree whose sites are genuine, the topmost beginning in a range of offsets. -/
structure Tree.SitedIn (source : Source) (lo hi : Nat) (tree : Tree Span) : Prop where
  site : tree.site.OpensIn source lo hi
  obeys : ∀ enclosure, tree.Obeys (.genuineIn source) enclosure

namespace Tree.SitedIn

variable {tree : Tree Span}

theorem mono {lo' hi' : Nat} (h : tree.SitedIn source lo hi) (hlo : lo' ≤ lo) (hhi : hi ≤ hi') :
    tree.SitedIn source lo' hi' :=
  ⟨h.site.mono hlo hhi, h.obeys⟩

theorem withSite {site : Span} {lo' hi' : Nat} (h : tree.SitedIn source lo hi)
    (hsite : site.OpensIn source lo' hi') : (tree.withSite site).SitedIn source lo' hi' :=
  ⟨(Tree.site_withSite site tree).symm ▸ hsite,
    fun enclosure => (h.obeys enclosure).withSite hsite.genuine⟩

end Tree.SitedIn

namespace Parser

/-- A parser that gives nodes with genuine sites wherever it begins. -/
def Sites (source : Source) (parser : Parser Node) : Prop :=
  ∀ lo, Places source lo parser fun hi node => node.SitedIn source lo hi

section Nested

variable {expression : Parser Node} (hexpression : Sites source expression)

include hexpression

/-! ## Statements -/

theorem sites_statement : Sites source (statement expression) := by
  intro lo
  refine places_peek.bind fun mid first _ hfirst => ?_
  split
  · refine places_advance.bind fun mid' _ hle _ => places_byKind fun _ => places_ite ?_ ?_
    · refine fun _ => places_pure ⟨hfirst.mono (Nat.le_refl lo) hle, fun _ => ?_⟩
      exact ⟨hfirst.genuine, False.elim⟩
    · refine fun _ => (hexpression mid').bind fun hi value hle' hvalue => places_pure ?_
      have hsite := (hfirst.mono (Nat.le_refl lo) hle).through hvalue.site
      exact ⟨hsite, fun enclosure => ⟨hsite.genuine, False.elim, hvalue.obeys enclosure⟩⟩
  · refine places_advance.bind fun _ _ hle _ => places_pure ?_
    exact ⟨hfirst.mono (Nat.le_refl lo) hle, fun _ => ⟨hfirst.genuine, False.elim⟩⟩
  · refine places_advance.bind fun _ _ hle _ => places_pure ?_
    exact ⟨hfirst.mono (Nat.le_refl lo) hle, fun _ => ⟨hfirst.genuine, False.elim⟩⟩
  · refine (hexpression mid).imp fun hi node hle hnode => ?_
    exact hnode.mono (Nat.le_trans hfirst.lo_le hfirst.le_hi) (Nat.le_refl hi)

omit hexpression in
theorem places_statementsBefore {item : Parser Node} (hitem : Sites source item)
    (close : Token.Kind) (bound : Nat) :
    Places source lo (statementsBefore close item bound) fun hi statements =>
      ∀ statement ∈ statements, statement.SitedIn source lo hi := by
  induction bound generalizing lo with
  | zero => exact places_fail _
  | succ bound ih =>
      refine places_skipSeparators.bind fun mid _ hle _ => places_byKind fun _ => places_ite ?_ ?_
      · exact fun _ => places_pure fun statement h => absurd h List.not_mem_nil
      refine fun _ => (hitem mid).bind fun mid' first hle' hfirst => places_byKind fun _ => ?_
      refine places_ite (fun _ => places_pure ?_) fun _ => ?_
      · exact List.forall_mem_singleton.mpr (hfirst.mono hle (Nat.le_refl _))
      have hothers (lo' : Nat) (hlo : mid' ≤ lo') :
          Places source lo' (return first :: (← statementsBefore close item bound))
            fun hi statements => ∀ statement ∈ statements, statement.SitedIn source lo hi := by
        refine ih.bind fun hi others hle'' hothers => places_pure ?_
        have hlower := Nat.le_trans (Nat.le_trans hle hle') hlo
        exact List.forall_mem_cons.mpr ⟨hfirst.mono hle (Nat.le_trans hlo hle''),
          fun statement h => (hothers statement h).mono hlower (Nat.le_refl hi)⟩
      refine places_ite (fun _ => ?_) fun _ => hothers mid' (Nat.le_refl _)
      have hfail : Places source mid' (fail .expectedSeparator : Parser PUnit) fun _ _ => True :=
        places_fail _
      exact hfail.bind fun lo' _ hlo _ => hothers lo' hlo

theorem sites_statementRow (close : Token.Kind) (bound : Nat) :
    Sites source (statementRow close bound expression) := by
  intro lo
  refine places_peek.bind fun mid first _ hfirst => ?_
  refine (places_statementsBefore (sites_statement hexpression) close bound).bind ?_
  intro hi statements hle hstatements
  have hspan : (rowSpan first statements).OpensIn source lo hi := by
    rw [rowSpan]
    cases hlast : statements.getLast? with
    | none => exact hfirst.mono (Nat.le_refl lo) hle
    | some last =>
        exact hfirst.through (hstatements last (List.mem_of_getLast? hlast)).site
  refine places_pure ⟨hspan, fun enclosure => ⟨hspan.genuine, Tree.obeyEach_iff.mpr ?_⟩⟩
  exact fun statement h => (hstatements statement h).obeys enclosure

theorem sites_block (bound : Nat) : Sites source (block bound expression) := by
  intro lo
  refine (places_expect _ _).bind fun mid opening _ hopening => ?_
  refine (sites_statementRow hexpression _ bound mid).bind fun mid' body hle hbody => ?_
  refine (places_expect _ _).bind fun hi closing hle' hclosing => places_pure ?_
  exact hbody.withSite (hopening.through (hclosing.mono hle (Nat.le_refl hi)))

/-! ## Operands -/

theorem sites_spaced : Sites source (spaced expression) := by
  intro lo
  refine places_skipSeparators.bind fun mid _ hle _ => ?_
  refine (hexpression mid).bind fun mid' node _ hnode => ?_
  refine places_skipSeparators.bind fun _ _ hle' _ => places_pure ?_
  exact hnode.mono hle hle'

theorem places_items (close : Token.Kind) (problem : SyntaxProblem) (bound : Nat) :
    Places source lo (items close problem bound expression) fun hi result =>
      (∀ enclosure, Tree.ObeyEach (.genuineIn source) enclosure result.1) ∧
        result.2.span.OpensIn source lo hi := by
  have hitem (lo : Nat) : Places source lo (spaced expression) fun _ node =>
      ∀ enclosure, node.Obeys (.genuineIn source) enclosure :=
    (sites_spaced hexpression lo).imp fun _ _ _ hnode => hnode.obeys
  refine places_skipSeparators.bind fun _ _ hle _ => ?_
  refine (places_itemsBefore hitem close bound).bind fun _ nodes hle' hnodes => ?_
  refine (places_expect close problem).bind fun hi closing _ hclosing => places_pure ⟨?_, ?_⟩
  · exact fun enclosure => Tree.obeyEach_iff.mpr fun node h => hnodes node h enclosure
  · exact hclosing.mono (Nat.le_trans hle hle') (Nat.le_refl hi)

omit hexpression in
theorem sites_numberLiteral : Sites source numberLiteral := by
  intro lo
  refine places_advance.bind fun _ token _ htoken => ?_
  split
  · exact places_pure ⟨htoken, fun _ => htoken.genuine⟩
  · exact places_throw htoken.genuine

omit hexpression in
theorem sites_stringLiteral : Sites source stringLiteral := by
  intro lo
  refine places_advance.bind fun _ token _ htoken => ?_
  split
  · exact places_pure ⟨htoken, fun _ => htoken.genuine⟩
  · exact places_throw htoken.genuine

theorem sites_parenthesized : Sites source (parenthesized expression) := by
  intro lo
  refine places_advance.bind fun mid opening _ hopening => ?_
  refine (sites_spaced hexpression mid).bind fun _ node hle hnode => ?_
  refine (places_expect _ _).bind fun hi closing _ hclosing => places_pure ?_
  exact hnode.withSite (hopening.through (hclosing.mono hle (Nat.le_refl hi)))

theorem sites_listLiteral (bound : Nat) : Sites source (listLiteral bound expression) := by
  intro lo
  refine places_advance.bind fun mid opening _ hopening => ?_
  refine (places_items hexpression _ _ bound).bind fun hi result _ hresult => places_pure ?_
  have hsite := hopening.through hresult.2
  exact ⟨hsite, fun enclosure => ⟨hsite.genuine, hresult.1 enclosure⟩⟩

/-- Branches have genuine sites, and the last begins behind whatever stands before them. -/
theorem places_branches (bound count : Nat) :
    Places source lo (branches bound expression count) fun hi rest =>
      (∀ enclosure, rest.Obey (.genuineIn source) enclosure) ∧
        ∀ start site, start ≤ lo → site.OpensIn source start lo →
          (rest.lastSite site).OpensIn source start hi := by
  induction count generalizing lo with
  | zero => exact places_fail _
  | succ count ih =>
      refine places_byKindPastSeparators fun kind => ?_
      split
      · refine places_skipSeparators.bind fun _ _ hle _ => ?_
        refine places_advance.bind fun mid _ hle' _ => ?_
        refine (hexpression mid).bind fun _ condition hle'' hcondition => ?_
        refine (sites_block hexpression bound _).bind fun _ body hbelow hbody => ?_
        refine ih.bind fun hi rest _ hrest => places_pure ⟨fun enclosure => ?_, ?_⟩
        · exact ⟨hcondition.obeys enclosure, hbody.obeys enclosure, hrest.1 enclosure⟩
        · intro start site hstart _
          have hlower := Nat.le_trans hstart (Nat.le_trans hle (Nat.le_trans hle' hle''))
          exact hrest.2 start body.site (Nat.le_trans hlower hbelow)
            (hbody.site.mono hlower (Nat.le_refl _))
      · refine places_skipSeparators.bind fun _ _ hle _ => ?_
        refine places_advance.bind fun mid _ hle' _ => ?_
        refine places_byKind fun _ => places_ite ?_ ?_
        · refine fun _ => (sites_block hexpression bound mid).bind fun hi body _ hbody => ?_
          refine places_pure ⟨hbody.obeys, fun start _ hstart _ => ?_⟩
          exact hbody.site.mono (Nat.le_trans hstart (Nat.le_trans hle hle')) (Nat.le_refl hi)
        · refine fun _ => (sites_statement hexpression mid).bind fun hi body _ hbody => ?_
          refine places_pure ⟨hbody.obeys, fun start _ hstart _ => ?_⟩
          exact hbody.site.mono (Nat.le_trans hstart (Nat.le_trans hle hle')) (Nat.le_refl hi)
      · exact places_pure ⟨fun _ => trivial, fun _ _ _ hsite => hsite⟩

theorem sites_conditional (bound : Nat) : Sites source (conditional bound expression) := by
  intro lo
  refine places_advance.bind fun mid opening _ hopening => ?_
  refine (hexpression mid).bind fun mid' condition hle hcondition => ?_
  refine (sites_block hexpression bound mid').bind fun mid'' body hle' hbody => ?_
  refine (places_branches hexpression bound bound).bind fun hi rest _ hrest => places_pure ?_
  have hlast := hrest.2 mid body.site (Nat.le_trans hle hle')
    (hbody.site.mono hle (Nat.le_refl mid''))
  have hsite := hopening.through hlast
  exact ⟨hsite, fun enclosure =>
    ⟨hsite.genuine, hcondition.obeys enclosure, hbody.obeys enclosure, hrest.1 enclosure⟩⟩

theorem sites_whileLoop (bound : Nat) : Sites source (whileLoop bound expression) := by
  intro lo
  refine places_advance.bind fun mid opening _ hopening => ?_
  refine (hexpression mid).bind fun mid' condition hle hcondition => ?_
  refine (sites_block hexpression bound mid').bind fun hi body _ hbody => places_pure ?_
  have hsite := hopening.through (hbody.site.mono hle (Nat.le_refl hi))
  exact ⟨hsite, fun enclosure =>
    ⟨hsite.genuine, hcondition.obeys enclosure, hbody.obeys enclosure.loop⟩⟩

theorem sites_namespaceDef (bound : Nat) : Sites source (namespaceDef bound expression) := by
  intro lo
  refine places_advance.bind fun mid opening _ hopening => ?_
  refine (places_expect _ _).bind fun mid' name hle _ => ?_
  refine (sites_block hexpression bound mid').bind fun hi body _ hbody => places_pure ?_
  have hsite := hopening.through (hbody.site.mono hle (Nat.le_refl hi))
  exact ⟨hsite, fun enclosure => ⟨hsite.genuine, hbody.obeys enclosure⟩⟩

theorem sites_primary (bound : Nat) : Sites source (primary bound expression) := by
  intro lo
  refine places_byKind fun kind => ?_
  split
  · exact sites_numberLiteral lo
  · exact sites_numberLiteral lo
  · exact sites_numberLiteral lo
  · exact sites_stringLiteral lo
  · refine places_advance.bind fun _ token _ htoken => places_pure ?_
    exact ⟨htoken, fun _ => htoken.genuine⟩
  · exact sites_parenthesized hexpression lo
  · exact sites_listLiteral hexpression bound lo
  · exact sites_conditional hexpression bound lo
  · exact sites_whileLoop hexpression bound lo
  · exact sites_namespaceDef hexpression bound lo
  · exact places_fail _

theorem places_trailers (bound count : Nat) {object : Node}
    (hobject : object.SitedIn source lo mid) :
    Places source mid (trailers bound expression count object) fun hi node =>
      node.SitedIn source lo hi := by
  induction count generalizing mid object with
  | zero => exact places_fail _
  | succ count ih =>
      refine places_byKind fun kind => ?_
      split
      · refine places_advance.bind fun _ _ hle _ => (places_expect _ _).bind ?_
        intro hi name _ hname
        have hsite := hobject.site.through (hname.mono hle (Nat.le_refl hi))
        exact ih ⟨hsite, fun enclosure => ⟨hsite.genuine, hobject.obeys enclosure⟩⟩
      · refine places_advance.bind fun mid' _ hle _ => ?_
        refine (sites_spaced hexpression mid').bind fun _ key hle' hkey => ?_
        refine (places_expect _ _).bind fun hi closing _ hclosing => ih ?_
        have hsite := hobject.site.through
          (hclosing.mono (Nat.le_trans hle hle') (Nat.le_refl hi))
        exact ⟨hsite, fun enclosure =>
          ⟨hsite.genuine, hobject.obeys enclosure, hkey.obeys enclosure⟩⟩
      · refine places_advance.bind fun mid' _ hle _ => ?_
        refine (places_items hexpression _ _ bound).bind fun hi result _ hresult => ih ?_
        have hsite := hobject.site.through (hresult.2.mono hle (Nat.le_refl hi))
        exact ⟨hsite, fun enclosure =>
          ⟨hsite.genuine, hobject.obeys enclosure, hresult.1 enclosure⟩⟩
      · exact places_pure hobject

theorem sites_operand (bound : Nat) : Sites source (operand bound expression) := fun lo =>
  (sites_primary hexpression bound lo).bind fun _ _ _ hobject =>
    places_trailers hexpression bound bound hobject

/-! ## Operations -/

section Operators

omit hexpression

variable {inner : Parser Node} (hinner : Sites source inner)

include hinner

theorem places_operations (operator? : Token.Kind → Option BinaryOperator) (bound : Nat)
    {left : Node} (hleft : left.SitedIn source lo mid) :
    Places source mid (operations operator? inner bound left) fun hi node =>
      node.SitedIn source lo hi := by
  induction bound generalizing mid left with
  | zero => exact places_fail _
  | succ bound ih =>
      refine places_byKind fun kind => ?_
      split
      · exact places_pure hleft
      · refine places_advance.bind fun mid' _ hle _ => ?_
        refine (hinner mid').bind fun hi right _ hright => ih ?_
        have hsite := hleft.site.through (hright.site.mono hle (Nat.le_refl hi))
        exact ⟨hsite, fun enclosure =>
          ⟨hsite.genuine, hleft.obeys enclosure, hright.obeys enclosure⟩⟩

theorem sites_leftAssociative (operator? : Token.Kind → Option BinaryOperator) (bound : Nat) :
    Sites source (leftAssociative operator? bound inner) := fun lo =>
  (hinner lo).bind fun _ _ _ hfirst => places_operations hinner operator? bound hfirst

omit hinner in
/-- The tokens behind the operators at the front, and a tree under these operators. -/
theorem fits_takeOperators (operator? : Token.Kind → Option UnaryOperator) {ending : Token} :
    ∀ {tokens : List Token} {lo : Nat}, TokenStream.Fits source lo ⟨tokens, ending⟩ →
      ∃ mid, lo ≤ mid ∧ TokenStream.Fits source mid ⟨(takeOperators operator? tokens).2, ending⟩ ∧
        ∀ {hi : Nat} {node : Node}, node.SitedIn source mid hi →
          ((takeOperators operator? tokens).1.foldr applyOperator node).SitedIn source lo hi
  | [], lo, hfits => ⟨lo, Nat.le_refl lo, hfits, fun hnode => hnode⟩
  | token :: tokens, lo, hfits => by
    rw [takeOperators]
    split
    · exact ⟨lo, Nat.le_refl lo, hfits, fun hnode => hnode⟩
    · next operator _ =>
      obtain ⟨mid, hle, hrest, hfold⟩ := fits_takeOperators operator? hfits.tail
      have hfirst := hfits.peek_opensIn
      refine ⟨mid, Nat.le_trans hfirst.lo_le hle, hrest, fun {hi node} hnode => ?_⟩
      have hinner := hfold hnode
      have hsite := hfirst.through hinner.site
      exact ⟨hsite, fun enclosure => ⟨hsite.genuine, hinner.obeys enclosure⟩⟩

theorem sites_rightAssociative (operator? : Token.Kind → Option UnaryOperator) :
    Sites source (rightAssociative operator? inner) := by
  intro lo
  have hfold {stream : TokenStream} (hfits : stream.Fits source lo) :
      ∃ mid, lo ≤ mid ∧
        TokenStream.Fits source mid ⟨(takeOperators operator? stream.rest).2, stream.ending⟩ ∧
        Places source mid
          (do return (takeOperators operator? stream.rest).1.foldr applyOperator (← inner))
          fun hi node => node.SitedIn source lo hi := by
    obtain ⟨mid, hle, hrest, hnode⟩ := fits_takeOperators operator? hfits
    refine ⟨mid, hle, hrest, ?_⟩
    exact (hinner mid).bind fun hi node _ hsited => places_pure (hnode hsited)
  refine ⟨fun hfits herror => ?_, fun hfits hok => ?_⟩
  · obtain ⟨mid, _, hrest, hplaces⟩ := hfold hfits
    rw [Grammar.run_rightAssociative] at herror
    exact hplaces.error hrest herror
  · obtain ⟨mid, hle, hrest, hplaces⟩ := hfold hfits
    rw [Grammar.run_rightAssociative] at hok
    obtain ⟨hi, hle', hafter, hsited⟩ := hplaces.ok hrest hok
    exact ⟨hi, Nat.le_trans hle hle', hafter, hsited⟩

end Operators

theorem sites_logical (bound : Nat) : Sites source (logical bound expression) := by
  have hsigned :=
    sites_rightAssociative (sites_operand hexpression bound) UnaryOperator.ofSignKind?
  have hproduct := sites_leftAssociative hsigned BinaryOperator.ofFactorKind? bound
  have hsum := sites_leftAssociative hproduct BinaryOperator.ofTermKind? bound
  have hcomparison := sites_rightAssociative
    (sites_leftAssociative hsum BinaryOperator.ofComparisonKind? bound) UnaryOperator.ofNotKind?
  exact sites_leftAssociative hcomparison BinaryOperator.ofLogicalKind? bound

theorem sites_assignment (bound : Nat) : Sites source (assignment bound expression) := by
  intro lo
  refine (sites_logical hexpression bound lo).bind fun mid target _ htarget => ?_
  refine (places_accept _).bind fun mid' taken hle _ => places_ite (fun _ => ?_) fun _ => ?_
  · refine places_ite (fun _ => ?_) fun _ => places_throw htarget.site.genuine
    refine (hexpression mid').bind fun hi value _ hvalue => places_pure ?_
    have hsite := htarget.site.through (hvalue.site.mono hle (Nat.le_refl hi))
    exact ⟨hsite, fun enclosure =>
      ⟨hsite.genuine, htarget.obeys enclosure, hvalue.obeys enclosure⟩⟩
  · exact places_pure (htarget.mono (Nat.le_refl lo) hle)

/-! ## Definitions -/

theorem sites_declaration : Sites source (declaration expression) := by
  intro lo
  refine places_advance.bind fun mid typeName _ htypeName => ?_
  refine places_advance.bind fun _ name hle _ => (places_expect _ _).bind fun mid' _ hle' _ => ?_
  refine (hexpression mid').bind fun hi value _ hvalue => places_pure ?_
  have hsite := htypeName.through (hvalue.site.mono (Nat.le_trans hle hle') (Nat.le_refl hi))
  exact ⟨hsite, fun enclosure => ⟨hsite.genuine, hvalue.obeys enclosure⟩⟩

omit hexpression in
theorem places_parameter :
    Places source lo parameter fun _ result => result.site.GenuineIn source := by
  refine (places_expect _ _).bind fun mid typeName _ htypeName => ?_
  refine (places_expect _ _).bind fun hi name _ hname => places_pure ?_
  exact (htypeName.through hname).genuine

theorem places_functionBody (bound : Nat) :
    Places source lo (functionBody bound expression) fun hi result =>
      result.2.SitedIn source lo hi := by
  refine places_byKind fun kind => ?_
  split
  · exact (sites_block hexpression bound lo).bind fun _ _ _ hbody => places_pure hbody
  · refine places_advance.bind fun _ _ hle _ => places_skipSeparators.bind fun mid _ hle' _ => ?_
    refine (hexpression mid).bind fun hi body _ hbody => places_pure ?_
    exact hbody.mono (Nat.le_trans hle hle') (Nat.le_refl hi)
  · exact places_fail _

theorem sites_functionDef (bound : Nat) : Sites source (functionDef bound expression) := by
  intro lo
  refine places_advance.bind fun mid returnType _ hreturnType => ?_
  refine places_advance.bind fun _ name hle _ => (places_expect _ _).bind fun _ _ hle' _ => ?_
  refine (places_itemsBefore (fun _ => places_parameter) _ bound).bind ?_
  refine fun _ parameters hle'' hparameters => (places_expect _ _).bind fun _ _ hbelow _ => ?_
  refine (places_functionBody hexpression bound).bind fun hi result _ hbody => places_pure ?_
  have hlower := Nat.le_trans (Nat.le_trans hle hle') (Nat.le_trans hle'' hbelow)
  have hsite := hreturnType.through (hbody.site.mono hlower (Nat.le_refl hi))
  exact ⟨hsite, fun _ => ⟨hsite.genuine, hparameters, hbody.obeys .function⟩⟩

/-! ## All expressions -/

theorem sites_expressionWith (bound : Nat) : Sites source (expressionWith bound expression) := by
  refine fun lo => places_get fun stream hfits => places_ite (fun _ => ?_) fun _ => ?_
  · split
    · exact sites_functionDef hexpression bound lo
    · exact sites_declaration hexpression lo
    · exact places_throw (hfits.genuine _ (stream.peekAt_mem 2))
  · exact sites_assignment hexpression bound lo

end Nested

theorem sites_expression (bound : Nat) : Sites source (expression bound) := by
  induction bound with
  | zero => exact fun lo => places_fail _
  | succ bound ih => exact sites_expressionWith ih bound

theorem sites_program : Sites source program := fun lo =>
  places_get fun _ _ => sites_statementRow (sites_expression _) _ _ lo

end Parser

/-! ## Programs -/

section Programs

variable {tokens : List Token}

/-- The tokens of a source fit it. -/
theorem TokenStream.fits_ofTokens (h : Token.scan source = .ok tokens) :
    (TokenStream.ofTokens tokens).Fits source 0 := by
  have hcut : Token.Cut source [] source.text.toList tokens := .of_scanFrom h
  have hgenuine (token : Token) (htoken : token ∈ tokens) : token.span.GenuineIn source :=
    Token.genuineIn_of_scan h htoken
  have hordered : tokens.Pairwise fun earlier later =>
      earlier.span.start.offset ≤ later.span.start.offset :=
    hcut.pairwise.2.imp_of_mem fun hearlier _ hle =>
      Nat.le_trans (hgenuine _ hearlier).start_le_stop hle
  obtain ⟨body, rfl, hlexemes⟩ := hcut.exists_body
  have hkinds (token : Token) (htoken : token ∈ body) := (hlexemes token htoken).kind_ne
  have hrow (span : Span) : (ofTokens (body ++ [.atEnd span])).row = body ++ [.atEnd span] := by
    rw [row, Parser.ofTokens_append hkinds, Parser.ending_ofTokens_append_atEnd hkinds,
      List.append_assoc]
    rfl
  refine ⟨?_, fun _ _ => Nat.zero_le _, ?_⟩
  · rw [hrow]
    exact hgenuine
  · rw [hrow]
    exact hordered

/-- In a program that was read from a source all sites are genuine. -/
theorem Tree.genuineIn_of_ofTokens {tree : Tree Span} (h : Token.scan source = .ok tokens)
    (htree : Tree.ofTokens tokens = .ok tree) (enclosure : Enclosure) :
    tree.Obeys (.genuineIn source) enclosure := by
  rw [ofTokens] at htree
  cases hrun : Parser.program.run (TokenStream.ofTokens tokens) with
  | error error =>
      rw [hrun] at htree
      cases htree
  | ok result =>
      rw [hrun] at htree
      cases htree
      obtain ⟨_, _, _, hsited⟩ := (Parser.sites_program 0).ok (TokenStream.fits_ofTokens h) hrun
      exact hsited.obeys enclosure

/-- The span of a syntax error is genuine. -/
theorem Tree.genuineIn_of_ofTokens_error {error : SyntaxError} (h : Token.scan source = .ok tokens)
    (herror : Tree.ofTokens tokens = .error error) : error.span.GenuineIn source := by
  rw [ofTokens] at herror
  cases hrun : Parser.program.run (TokenStream.ofTokens tokens) with
  | error first =>
      rw [hrun] at herror
      cases herror
      exact (Parser.sites_program 0).error (TokenStream.fits_ofTokens h) hrun
  | ok result =>
      rw [hrun] at herror
      cases herror

end Programs

end Script
