/-
# Expressions are read steadily

Assignments and definitions on top of operations, and with them all expressions, however
deep they nest. Two names in a row begin a definition: here two tokens are looked at, but
an operation that begins with a name takes it, so it never stops in front of both.
-/

import Script.Proofs.Grammar.Expression
import Script.Proofs.Parser.Operation

namespace Script.Parser

open Grammar

variable {ι : Type} {limit : Nat} {size bound : ι → Nat} {expression : ι → Parser Node}
  {name : Token} {tokens : List Token}

/-! ## Assignments -/

/-- Behind what cannot be assigned to, the sign of an assignment is taken, and the target
is at fault. -/
theorem steady_refused (target : Node) :
    Steady limit size
      (fun _ : ι => do
        if ← accept .equal then throw ⟨.invalidTarget, target.site⟩
        else return target)
      (isQuiet ·) 0 [] where
  steadyAt tokens _ := by
    by_cases hnext : nextKind tokens = .equal
    · obtain _ | ⟨token, tokens⟩ := tokens
      · cases hnext
      intro i ending _ _
      have hrun (row : List Token) (ending : Token) :
          (do
            if ← accept .equal then throw ⟨.invalidTarget, target.site⟩
            else return target : Parser Node).run ⟨token :: row, ending⟩ =
              .error ⟨.invalidTarget, target.site⟩ := by
        rw [run_accept_bind, run_bind_of_ok (run_peekKind _)]
        exact congrArg (StateT.run · _) (if_pos hnext)
      refine ⟨[token], tokens, .error ⟨.invalidTarget, target.site⟩, rfl, hrun _ _, ?_, ?_, ?_, ?_⟩
      · rintro a ⟨⟩
      · rintro error ⟨⟩ hvalid
        exact absurd rfl hvalid
      · exact fun _ _ _ _ _ _ _ _ _ _ => hrun _ _
      · exact fun _ hvalid => absurd rfl (hvalid _ rfl)
    · refine (SteadyAt.pure target tokens).of_run fun i row ending hending _ hhead => ?_
      rw [run_accept_bind, run_bind_of_ok (run_peekKind_eq hending), nextKind_eq_of_head? hhead,
        if_neg hnext]
      rfl
  completes := by
    refine .nil isPlain_of_isQuiet fun i rest ending _ hquiet hending => ⟨target, ?_⟩
    have hnext : nextKind rest ≠ .equal := by
      intro hkind
      rw [hkind] at hquiet
      cases hquiet
    rw [run_accept_bind, run_bind_of_ok (run_peekKind_eq hending), if_neg hnext]
    rfl
  least_le := Nat.le_refl 0

theorem steady_assigned (hexpression : Steady limit size expression (isQuiet ·) 1 [name])
    (target : Node) :
    Steady limit size
      (fun i => do
        if ← accept .equal then
          if target.isAssignable then
            let value ← expression i
            return Tree.assign (target.site.through value.site) target value
          else throw ⟨.invalidTarget, target.site⟩
        else return target)
      (isQuiet ·) 0 [] := by
  cases hassignable : target.isAssignable with
  | false => exact steady_refused target
  | true =>
      have hvalue := hexpression.map
        (fun value => Tree.assign (target.site.through value.site) target value)
        isPlain_of_isQuiet
      refine .accept hvalue (.pure target isPlain_of_isQuiet) (by decide)
        fun rest hquiet hkind => ?_
      rw [List.nil_append] at hkind
      rw [hkind] at hquiet
      cases hquiet

/-! ## Definitions -/

instance : Nonempty (Parameter Span) := ⟨⟨default, "", ""⟩⟩

theorem steady_parameter :
    Steady limit size (fun _ => parameter) (isPlain ·) 1 [mark .identifier, mark .identifier] := by
  have htype := @Steady.expect _ size limit .identifier .expectedParameterType (by decide) rfl
  have hlabel := @Steady.expect _ size limit .identifier .expectedParameterName (by decide) rfl
  have hbehind (typeName : Token) := hlabel.map
    (fun name => Parameter.mk (typeName.span.through name.span) typeName.lexeme name.lexeme)
    fun _ => id
  exact (htype.bind hbehind fun _ _ => rfl).atLeast (Nat.le_add_right 1 _)

section Expression

variable (hname : name.kind = .identifier)
  (hexpression : Steady limit size expression (isQuiet ·) 1 [name])
  (hbound : ∀ i, size i ≤ bound i)

include hexpression

/-- What stands behind the equals sign of a function that gives a value. -/
theorem steady_inResult :
    Steady limit size
      (fun i => do
        skipSeparators
        return (true, ← expression i))
      (isQuiet ·) 1 [name] := by
  have hvalue := hexpression.map (fun value => (true, value)) isPlain_of_isQuiet
  exact Steady.skipSeparators.bind (fun _ => hvalue) hvalue.completes.plain

/-- What stands behind the two names of a declaration. -/
theorem steady_inDeclaration (typeName label : Token) :
    Steady limit size
      (fun i => do
        let _ ← expect .equal .expectedEqual
        let value ← expression i
        return Tree.declare (typeName.span.through value.site) typeName.lexeme label.lexeme value)
      (isQuiet ·) 1 [mark .equal, name] := by
  have hequal := @Steady.expect _ size limit .equal .expectedEqual (by decide) rfl
  have hvalue := hexpression.map
    (fun value =>
      Tree.declare (typeName.span.through value.site) typeName.lexeme label.lexeme value)
    isPlain_of_isQuiet
  exact (hequal.bind (fun _ => hvalue) hvalue.completes.plain).atLeast (Nat.le_add_right 1 _)

include hname hbound

theorem steady_functionBody :
    Steady limit size (fun i => functionBody (bound i) (expression i)) (isQuiet ·) 1
      [mark .leftBrace, mark .rightBrace] := by
  have hblock := ((steady_block hname hexpression hbound).before isPlain_of_isQuiet).map
    (fun body => (false, body)) isPlain_of_isQuiet
  refine ⟨fun tokens htokens => .peekKind ?_, .peekKind .leftBrace ?_ fun _ _ => rfl,
    Nat.le_succ 1⟩
  · obtain _ | ⟨token, tokens⟩ := tokens
    · exact .fail .expectedLeftBraceOrEqual []
    rw [nextKind_cons]
    cases token.kind with
    | leftBrace => exact hblock.steadyAt (token :: tokens) htokens
    | equal =>
        exact .cons (fun _ _ _ _ => rfl) (steady_inResult hexpression) htokens
    | _ => exact .fail .expectedLeftBraceOrEqual _
  · exact hblock.completes

/-- What stands behind the two names of a function's definition. -/
theorem steady_inFunction (returnType label : Token) :
    Steady limit size
      (fun i => do
        let _ ← expect .leftParen .expectedLeftParen
        let parameters ← itemsBefore .rightParen parameter (bound i)
        let _ ← expect .rightParen .expectedCommaOrRightParen
        let (givesBody, body) ← functionBody (bound i) (expression i)
        return Tree.functionDef (returnType.span.through body.site) returnType.lexeme label.lexeme
          parameters givesBody body)
      (isQuiet ·) 1 [mark .leftParen, mark .rightParen, mark .leftBrace, mark .rightBrace] := by
  have hopening := @Steady.expect _ size limit .leftParen .expectedLeftParen (by decide) rfl
  have hclosing :=
    @Steady.expect _ size limit .rightParen .expectedCommaOrRightParen (by decide) rfl
  have hparameters :
      Steady limit size (fun i => itemsBefore .rightParen parameter (bound i)) _ 0 [] :=
    steady_itemsBefore steady_parameter rfl rfl (by decide) hbound
  have hbody (parameters : List (Parameter Span)) :=
    (steady_functionBody hname hexpression hbound).map
      (fun body => Tree.functionDef (returnType.span.through body.2.site) returnType.lexeme
        label.lexeme parameters body.1 body.2) isPlain_of_isQuiet
  have hbehind (parameters : List (Parameter Span)) :=
    hclosing.bind (fun _ => hbody parameters) fun _ _ => rfl
  have hlist := hparameters.bind hbehind fun _ _ => rfl
  exact (hopening.bind (fun _ => hlist) fun _ _ => rfl).atLeast (Nat.le_add_right 1 _)

/-- What stands behind two names. The next token tells whether they are those of a function
or of a declaration. -/
theorem steady_definition (first second : Token) :
    Steady limit size
      (fun i => do
        match ← peekKind with
        | .leftParen =>
          let _ ← expect .leftParen .expectedLeftParen
          let parameters ← itemsBefore .rightParen parameter (bound i)
          let _ ← expect .rightParen .expectedCommaOrRightParen
          let (givesBody, body) ← functionBody (bound i) (expression i)
          return Tree.functionDef (first.span.through body.site) first.lexeme second.lexeme
            parameters givesBody body
        | .equal =>
          let _ ← expect .equal .expectedEqual
          let value ← expression i
          return Tree.declare (first.span.through value.site) first.lexeme second.lexeme value
        | _ => fail .expectedEqualOrParen)
      (isQuiet ·) 1 [mark .equal, name] := by
  have hfunction := steady_inFunction hname hexpression hbound first second
  have hdeclaration := steady_inDeclaration hexpression first second
  refine ⟨fun tokens htokens => .peekKind ?_, .peekKind .equal ?_ fun _ _ => rfl,
    Nat.le_succ 1⟩
  · cases nextKind tokens with
    | leftParen => exact hfunction.steadyAt tokens htokens
    | equal => exact hdeclaration.steadyAt tokens htokens
    | _ => exact .fail .expectedEqualOrParen tokens
  · exact hdeclaration.completes

theorem steady_assignment :
    Steady (limit + 1) (fun i => size i + 1) (fun i => assignment (bound i) (expression i))
      (isQuiet ·) 1 [name] :=
  (steady_logical hname hexpression hbound).bind_shorter
    (fun target => steady_assigned hexpression target) fun _ => id

end Expression

/-! ## All expressions -/

/-- Two tokens decide whether a row begins with two names, and one that is no name does. -/
theorem beginsDefinition_append_iff {front : List Token} (hne : front ≠ [])
    (htwo : nextKind front = .identifier → 2 ≤ front.length) (behind others : List Token) :
    BeginsDefinition (front ++ behind) ↔ BeginsDefinition (front ++ others) := by
  obtain _ | ⟨first, _ | ⟨second, front⟩⟩ := front
  · exact absurd rfl hne
  · have hkind : first.kind ≠ .identifier := fun hkind => absurd (htwo hkind) (by simp)
    constructor <;> exact fun h => absurd h.1 hkind
  · exact Iff.rfl

theorem run_expressionWith_append {bound : Nat} {expression : Parser Node}
    {front behind : List Token} {ending : Token} (hne : front ≠ [])
    (htwo : nextKind front = .identifier → 2 ≤ front.length)
    (hnames : ¬ BeginsDefinition (front ++ behind)) (others : List Token)
    (hending : ending.kind = .endOfInput) :
    (expressionWith bound expression).run ⟨front ++ others, ending⟩ =
      (assignment bound expression).run ⟨front ++ others, ending⟩ :=
  run_expressionWith_of_not hending
    fun h => hnames ((beginsDefinition_append_iff hne htwo others behind).mp h)

section Nested

variable (hexpression : ∀ name : Token, name.kind = .identifier →
    Steady limit size expression (isQuiet ·) 1 [name])
  (hbound : ∀ i, size i ≤ bound i)

include hexpression hbound

/-- A definition is taken with its two names. -/
theorem steadyAt_expressionWith_of_names {first second : Token}
    (hfirst : first.kind = .identifier) (hsecond : second.kind = .identifier)
    (htokens : Within (limit + 1) (first :: second :: tokens)) :
    SteadyAt (fun i => size i + 1) (fun i => expressionWith (bound i) (expression i)) (isQuiet ·) 1
      (first :: second :: tokens) := by
  have hdefinition := steady_definition hfirst (hexpression first hfirst) hbound first second
  have hne : [first, second] ≠ [] := List.cons_ne_nil _ _
  refine .nested hne (fun i row ending hending => ?_) hdefinition htokens
  rw [List.cons_append, List.cons_append, List.nil_append,
    run_expressionWith_of_names hending hfirst hsecond, run_bind_of_ok (run_peekKind_eq hending)]
  cases row with
  | nil => rfl
  | cons token row =>
      rw [nextKind_cons]
      cases token.kind <;> rfl

/-- An operation that begins with a name takes it. -/
theorem ne_nil_of_stopsAt {ending : Token} {taken rest : List Token}
    {result : Except SyntaxError Node} (hnext : nextKind (taken ++ rest) = .identifier)
    (h : StopsAt (fun i => size i + 1) (fun i => assignment (bound i) (expression i)) (isQuiet ·)
      ending taken rest result) {i : ι} (hlength : (taken ++ rest).length < size i + 1) :
    taken ≠ [] := by
  rintro rfl
  obtain _ | ⟨first, rest⟩ := rest
  · cases hnext
  have hcompletes := (steady_assignment hnext (hexpression first hnext) hbound).completes
  have hone : [first].length < size i + 1 :=
    Nat.lt_of_le_of_lt (Nat.le_add_left 1 rest.length) hlength
  have hhides : Hides [first] [] := .inr rfl
  have hstays := h.stable [first] rest [] i (mark .endOfInput) rfl (List.cons_ne_nil _ _) hhides rfl
    hone
  obtain ⟨node, hnode⟩ := hcompletes.accepts [] rfl i (mark .endOfInput) rfl hone
  have hsame := hnode.symm.trans hstays
  cases result <;> cases hsame

theorem completes_expressionWith {name : Token} (hname : name.kind = .identifier) :
    Completes (fun i => size i + 1) (fun i => expressionWith (bound i) (expression i))
      (isQuiet ·) [] [name] := by
  have hassignment := (steady_assignment hname (hexpression name hname) hbound).completes
  refine ⟨hassignment.noEnding, hassignment.plain, fun rest hrest => ?_⟩
  refine (hassignment.accepts rest hrest).of_run fun i ending hending _ => ?_
  refine run_expressionWith_of_not hending fun hnames => ?_
  have hsecond : nextKind rest = .identifier := hnames.2
  rw [hsecond] at hrest
  cases hrest

theorem steadyAt_expressionWith_of_not (hnames : ¬ BeginsDefinition tokens)
    (htokens : Within (limit + 1) tokens) :
    SteadyAt (fun i => size i + 1) (fun i => expressionWith (bound i) (expression i)) (isQuiet ·) 1
      tokens := by
  intro i ending hending hlength
  have hsample : (mark .identifier).kind = .identifier := rfl
  obtain ⟨taken, rest, result, rfl, hrun, htaken, hstops⟩ :=
    (steady_assignment hsample (hexpression _ hsample) hbound).steadyAt tokens htokens i ending
      hending hlength
  refine ⟨taken, rest, result, rfl, ?_, htaken, hstops.located, ?_, ?_⟩
  · rw [run_expressionWith_of_not hending hnames, hrun]
  · intro front behind others j ending' hrest hne hhides hending' hlength'
    subst hrest
    have hne' : taken ++ front ≠ [] := List.append_ne_nil_of_right_ne_nil _ hne
    have hstable := hstops.stable front behind others j ending' rfl hne hhides hending' hlength'
    have htwo (hnext : nextKind (taken ++ front) = .identifier) : 2 ≤ (taken ++ front).length := by
      rw [← nextKind_append_of_ne_nil hne' behind, List.append_assoc] at hnext
      have hpos := List.length_pos_iff.mpr
        (ne_nil_of_stopsAt hexpression hbound hnext hstops hlength)
      have hpos' := List.length_pos_iff.mpr hne
      rw [List.length_append]
      omega
    rw [← List.append_assoc] at hnames hstable ⊢
    rw [run_expressionWith_append hne' htwo hnames others hending', hstable]
  · intro hne hvalid
    by_cases htwo : nextKind taken = .identifier → 2 ≤ taken.length
    · obtain ⟨further, hfurther⟩ := hstops.viable hne hvalid
      refine ⟨further, hfurther.noEnding, hfurther.plain, fun rest' hrest => ?_⟩
      exact (hfurther.accepts rest' hrest).of_run fun j ending' hending' _ =>
        run_expressionWith_append hne htwo hnames _ hending'
    · -- Behind a name alone, some tokens would make it the type of a definition.
      obtain _ | ⟨first, _ | ⟨second, taken⟩⟩ := taken
      · exact absurd rfl hne
      · obtain ⟨hfirst, _⟩ := Classical.not_imp.mp htwo
        have hcompletes := completes_expressionWith hexpression hbound hfirst
        exact ⟨[], List.forall_mem_nil _, fun _ => isPlain_of_isQuiet _, hcompletes.accepts⟩
      · exact absurd (fun _ => Nat.le_add_left 2 _) htwo

theorem steady_expressionWith {name : Token} (hname : name.kind = .identifier) :
    Steady (limit + 1) (fun i => size i + 1) (fun i => expressionWith (bound i) (expression i))
      (isQuiet ·) 1 [name] where
  steadyAt tokens htokens := by
    by_cases hnames : BeginsDefinition tokens
    · obtain ⟨hfirst, hsecond⟩ := hnames
      obtain _ | ⟨first, _ | ⟨second, tokens⟩⟩ := tokens
      · cases hfirst
      · cases hsecond
      · exact steadyAt_expressionWith_of_names hexpression hbound hfirst hsecond htokens
    · exact steadyAt_expressionWith_of_not hexpression hbound hnames htokens
  completes := completes_expressionWith hexpression hbound hname
  least_le := Nat.le_refl 1

end Nested

/-! ## However deep they nest -/

/-- A name is an expression. -/
theorem completes_expression (hname : name.kind = .identifier) :
    Completes (fun n : Nat => n) (fun n => Parser.expression n) (isQuiet ·) [] [name] where
  noEnding := by
    rintro token htoken hending
    rw [List.mem_singleton.mp htoken, hname] at hending
    cases hending
  plain rest _ := by
    rw [List.cons_append, nextKind_cons, hname]
    rfl
  accepts rest hrest n ending hending hlength := by
    have hoperand : Operand (name :: rest) rest (.identifier () name.lexeme) :=
      .intro (.identifier hname) .none
    have hproduct : Product (name :: rest) rest _ := .intro (.intro (.none hoperand) .none)
    have hsum : Sum (name :: rest) rest _ := .intro (.intro hproduct .none)
    have hcomparison : Comparison (name :: rest) rest _ := .intro (.none (.intro hsum .none))
    have hlogical : Logical (name :: rest) rest _ := .intro (.intro hcomparison .none)
    have hclear : isClear (nextKind rest) = true ∧ EndsExpression rest := by
      rw [EndsExpression]
      cases hkind : nextKind rest <;>
        first | exact ⟨rfl, rfl⟩ | (rw [hkind] at hrest; cases hrest)
    obtain ⟨node, hrun, _⟩ := (recognizes_expression n).complete hending hlength
      (.operation hlogical trivial : Expression .enclosed (name :: rest) rest _)
      (.of_nextKind hclear.1) fun _ => hclear.2
    exact ⟨node, hrun⟩

/-- Without a round no row is short enough, so each expression has one. -/
theorem steadyAt_expression_of_succ {least : Nat} {follow : Token.Kind → Prop}
    (h : SteadyAt (fun n => n + 1) (fun n => Parser.expression (n + 1 : Nat)) follow least
      tokens) :
    SteadyAt (fun n : Nat => n) (fun n => Parser.expression n) follow least tokens := by
  intro n ending hending hlength
  cases n with
  | zero => exact absurd hlength (Nat.not_lt_zero _)
  | succ n =>
      obtain ⟨taken, rest, result, htokens, hrun, htaken, hstops⟩ := h n ending hending hlength
      refine ⟨taken, rest, result, htokens, hrun, htaken, hstops.located, ?_, ?_⟩
      · intro front behind others j ending' hrest hne hhides hending' hlength'
        cases j with
        | zero => exact absurd hlength' (Nat.not_lt_zero _)
        | succ j =>
            exact hstops.stable front behind others j ending' hrest hne hhides hending' hlength'
      · intro hne hvalid
        obtain ⟨further, hfurther⟩ := hstops.viable hne hvalid
        refine ⟨further, hfurther.noEnding, hfurther.plain, fun rest' hrest j => ?_⟩
        intro ending' hending' hlength'
        cases j with
        | zero => exact absurd hlength' (Nat.not_lt_zero _)
        | succ j => exact hfurther.accepts rest' hrest j ending' hending' hlength'

/-- Expressions are read steadily: each that is nested in another stands behind a token of
it. -/
theorem steady_expression (hname : name.kind = .identifier) :
    Steady limit (fun n : Nat => n) (fun n => Parser.expression n) (isQuiet ·) 1 [name] := by
  induction limit generalizing name with
  | zero => exact .zero (completes_expression hname) (Nat.le_refl 1)
  | succ limit ih =>
      have hsteady := steady_expressionWith (fun _ hkind => ih hkind) (fun _ => Nat.le_refl _) hname
      exact ⟨fun tokens htokens => steadyAt_expression_of_succ (hsteady.steadyAt tokens htokens),
        completes_expression hname, Nat.le_refl 1⟩

end Script.Parser
