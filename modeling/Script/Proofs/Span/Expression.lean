/-
# Expressions stand where they were read

Assignments and definitions, and with them all expressions, however deep they nest: each
that is nested in another is read from a later place on.
-/

import Script.Proofs.Span.Operation

namespace Script.Parser

open Grammar

variable {row : List Token} {start : Nat} {first second : Token}

/-! ## Assignments -/

theorem yields_assignment (h : Nested row (start + 1)) :
    Yields row (fun bound => bound + 1) (fun bound => assignment bound (expression bound)) start
      (Rooted row start) := by
  suffices hbuilt : Yields row (fun bound => bound + 1)
      (fun bound => assignment bound (expression bound)) start (Built row start) from
    hbuilt.imp fun hreads hbuilt =>
      hbuilt.rooted (.of_assignment (.of_reads hreads (Nat.le_refl _)))
  refine (yields_logical h).bind_shorter (fun htarget => htarget.covers.lt)
    fun {middle target} hlt htarget => ?_
  refine (yields_accept (by decide)).bind fun {next taken} _ haccept => ?_
  obtain ⟨rfl, rfl, _⟩ | ⟨rfl, rfl⟩ := haccept
  · simp only [↓reduceIte]
    split
    · refine (h (middle + 1) (by omega)).map _ fun _ hvalue => ?_
      have hvalue' := hvalue.covers.lt
      exact .of_trees (htarget.covers.extend (by omega) hvalue.covers.last) rfl
        (.cons (Nat.le_refl _) htarget (.single (Nat.le_succ _) hvalue (Nat.le_refl _)))
    · exact .throw _
  · exact .pure htarget.toBuilt

/-! ## Definitions -/

theorem yields_parameter {ι : Type} {size : ι → Nat} (place : Nat) :
    Yields row size (fun _ => parameter) place fun stop parameter => place < stop ∧
      Lined (fun first last (parameter : Parameter Span) => Covers row first last parameter.site)
        place stop [parameter] := by
  refine (yields_expect .expectedParameterType (by decide)).bind ?_
  rintro _ typeName _ ⟨rfl, htype, _⟩
  refine (yields_expect .expectedParameterName (by decide)).map _ ?_
  rintro _ name _ ⟨rfl, hname, _⟩
  have hcovers : Covers row place (place + 2) (typeName.span.through name.span) :=
    .through htype (by omega) (.of_token hname)
  exact ⟨by omega, .single (Nat.le_refl _) hcovers (Nat.le_refl _)⟩

/-- What stands behind the equals sign before a result. -/
theorem yields_inResult (h : Nested row start) :
    Yields row (fun bound => bound - 1)
      (fun bound => do
        skipSeparators
        return (true, ← expression bound))
      (start + 1) fun stop result =>
        start < stop ∧ ∃ first, start ≤ first ∧ Rooted row first stop result.2 := by
  refine yields_skipSeparators.bind fun {inner _} hinner _ => ?_
  have hvalue := (h inner (by omega)).mono fun bound => Nat.sub_le bound 1
  refine hvalue.map (true, ·) fun _ hbody => ?_
  have hlt := hbody.covers.lt
  exact ⟨by omega, inner, by omega, hbody⟩

/-- A body stands at the end of what is read. -/
theorem yields_functionBody (h : Nested row start) :
    Yields row (fun bound => bound) (fun bound => functionBody bound (expression bound)) start
      fun stop result => ∃ first, start ≤ first ∧ Rooted row first stop result.2 := by
  refine .peekKind ?_
  cases hkind : nextKind (row.drop start) with
  | leftBrace =>
      have hblock := (yields_block (h.mono (Nat.le_succ start))).mono Nat.le_succ
      exact hblock.map (false, ·) fun _ hbody => ⟨hbody.covers.lt, start, Nat.le_refl _, hbody⟩
  | equal =>
      obtain ⟨token, htoken, _⟩ := exists_getElem?_of_nextKind hkind (by decide)
      exact .cons htoken (yields_inResult h) fun _ _ => rfl
  | _ => exact .fail .expectedLeftBraceOrEqual

/-- What is read behind the two names of a definition. -/
def definition (first second : Token) (bound : Nat) (expression : Parser Node) : Parser Node := do
  match ← peekKind with
  | .leftParen =>
    let _ ← expect .leftParen .expectedLeftParen
    let parameters ← itemsBefore .rightParen parameter bound
    let _ ← expect .rightParen .expectedCommaOrRightParen
    let (givesBody, body) ← functionBody bound expression
    return .functionDef (first.span.through body.site) first.lexeme second.lexeme parameters
      givesBody body
  | .equal =>
    let _ ← expect .equal .expectedEqual
    let value ← expression
    return .declare (first.span.through value.site) first.lexeme second.lexeme value
  | _ => fail .expectedEqualOrParen

theorem run_expressionWith_of_definition {bound : Nat} {expression : Parser Node}
    {tokens : List Token} {ending : Token} (hending : ending.kind = .endOfInput)
    (hfirst : first.kind = .identifier) (hsecond : second.kind = .identifier) :
    (expressionWith bound expression).run ⟨first :: second :: tokens, ending⟩ =
      (definition first second bound expression).run ⟨tokens, ending⟩ := by
  rw [run_expressionWith_of_names hending hfirst hsecond, definition,
    run_bind_of_ok (run_peekKind_eq hending)]
  cases tokens with
  | nil => rfl
  | cons token tokens =>
      rw [nextKind_cons]
      cases token.kind <;> rfl

section Definition

variable (h : Nested row (start + 1)) (hfirst : row[start]? = some first)

include h hfirst

/-- What stands behind the two names of a function's definition. -/
theorem yields_inFunction :
    Yields row (fun bound => bound)
      (fun bound => do
        let _ ← expect .leftParen .expectedLeftParen
        let parameters ← itemsBefore .rightParen parameter bound
        let _ ← expect .rightParen .expectedCommaOrRightParen
        let (givesBody, body) ← functionBody bound (expression bound)
        return Tree.functionDef (first.span.through body.site) first.lexeme second.lexeme
          parameters givesBody body)
      (start + 2) fun stop node => start + 2 < stop ∧ Built row start stop node := by
  refine (yields_expect .expectedLeftParen (by decide)).bind ?_
  rintro _ opening _ ⟨rfl, _⟩
  refine yields_closed (by decide) (fun _ => Nat.le_refl _)
    (fun place _ => yields_parameter place) ?_
  intro last parameters closing hle hparameters _
  have hbody := yields_functionBody (h.mono (by omega : start + 1 ≤ last + 1))
  refine hbody.map (fun result => Tree.functionDef (first.span.through result.2.site) first.lexeme
    second.lexeme parameters result.1 result.2) ?_
  rintro stop ⟨givesBody, body⟩ _ ⟨place, hplace, hbody⟩
  have hlt := hbody.covers.lt
  refine ⟨by omega, .of_children (.through hfirst (by omega) hbody.covers.last) ?_
    (.single hplace hbody (Nat.le_refl _))⟩
  exact ((hparameters.map id).mono_start (by omega)).mono_stop (Nat.le_succ last)

/-- What stands behind the two names of a declaration. -/
theorem yields_inDeclaration :
    Yields row (fun bound => bound)
      (fun bound => do
        let _ ← expect .equal .expectedEqual
        let value ← expression bound
        return Tree.declare (first.span.through value.site) first.lexeme second.lexeme value)
      (start + 2) fun stop node => start + 2 < stop ∧ Built row start stop node := by
  refine (yields_expect .expectedEqual (by decide)).bind ?_
  rintro _ equal _ ⟨rfl, _⟩
  refine (h (start + 3) (by omega)).map _ fun _ hvalue => ?_
  have hlt := hvalue.covers.lt
  exact ⟨by omega, .of_trees (.through hfirst (by omega) hvalue.covers.last) rfl
    (.single (by omega) hvalue (Nat.le_refl _))⟩

theorem yields_definition (second : Token) :
    Yields row (fun bound => bound)
      (fun bound => definition first second bound (expression bound)) (start + 2)
      (Built row start) := by
  refine .peekKind ?_
  cases nextKind (row.drop (start + 2)) with
  | leftParen => exact yields_inFunction h hfirst
  | equal => exact yields_inDeclaration h hfirst
  | _ => exact .fail .expectedEqualOrParen

/-- A definition is taken with its two names. -/
theorem yields_expressionWith_of_names (hsecond : row[start + 1]? = some second)
    (hnames : first.kind = .identifier ∧ second.kind = .identifier) :
    Yields row (fun bound => bound + 1) (fun bound => expressionWith bound (expression bound))
      start (Built row start) := by
  have hlength := lt_length_of_getElem? hsecond
  have hdefinition := ((yields_definition h hfirst second).mono fun bound => Nat.sub_le bound 1).imp
    fun hreads hbuilt => And.intro hreads.start_le hbuilt
  have hname : Yields row (fun bound => bound)
      (fun bound => advance >>= fun _ => definition first second bound (expression bound))
      (start + 1) fun stop node => start + 2 ≤ stop ∧ Built row start stop node :=
    .cons hsecond hdefinition fun _ _ => rfl
  have hboth : Yields row (fun bound => bound + 1)
      (fun bound => advance >>= fun _ => advance >>= fun _ =>
        definition first second bound (expression bound))
      start fun stop node => start + 2 ≤ stop ∧ Built row start stop node :=
    .cons hfirst hname fun _ _ => rfl
  refine (hboth.of_run_behind (start + 2) (fun _ hpost => hpost.1) ?_).imp fun _ hpost => hpost.2
  intro bound cut ending hending hcut hle _
  have hlt : start + 1 < cut := by omega
  rw [between_eq_cons hfirst (Nat.lt_of_succ_lt hlt), between_eq_cons hsecond hlt]
  exact run_expressionWith_of_definition hending hnames.1 hnames.2

end Definition

/-! ## All expressions -/

theorem not_beginsDefinition_between (hnames : ¬ BeginsDefinition (row.drop start)) (cut : Nat) :
    ¬ BeginsDefinition (between row start cut) := by
  rintro ⟨hfirst, hsecond⟩
  have htail : (between row start cut).tail = between row (start + 1) cut := by
    rw [between, List.tail_drop, between]
  rw [htail] at hsecond
  refine hnames ⟨?_, ?_⟩
  · obtain hkind | hkind := nextKind_between_cases row start cut
    · rw [← hkind, hfirst]
    · rw [hkind] at hfirst
      cases hfirst
  · rw [List.tail_drop]
    obtain hkind | hkind := nextKind_between_cases row (start + 1) cut
    · rw [← hkind, hsecond]
    · rw [hkind] at hsecond
      cases hsecond

theorem yields_expressionWith (h : Nested row (start + 1)) :
    Yields row (fun bound => bound + 1) (fun bound => expressionWith bound (expression bound))
      start (Rooted row start) := by
  by_cases hnames : BeginsDefinition (row.drop start)
  · obtain ⟨hfirst, hsecond⟩ := hnames
    rw [List.tail_drop] at hsecond
    obtain ⟨first, hget, hfirst⟩ := exists_getElem?_of_nextKind hfirst (by decide)
    obtain ⟨second, hget', hsecond⟩ := exists_getElem?_of_nextKind hsecond (by decide)
    exact (yields_expressionWith_of_names h hget hget' ⟨hfirst, hsecond⟩).imp
      fun hreads hbuilt => hbuilt.rooted (ReadsAll.of_reads hreads (Nat.le_refl _)).whole
  · exact (yields_assignment h).of_run fun hending _ _ =>
      run_expressionWith_of_not hending (not_beginsDefinition_between hnames _)

/-- Whatever is read as an expression stands where it was read. -/
theorem yields_expression (row : List Token) (start : Nat) :
    Yields row (fun bound : Nat => bound) (fun bound => expression bound) start
      (Rooted row start) := by
  refine .of_start_le fun hstart => ?_
  have hnested : Nested row (start + 1) := fun place hplace =>
    .of_start_le fun hle => yields_expression row place
  constructor
  intro bound ending node after hending _ hlength hrun
  cases bound with
  | zero => exact absurd hrun run_fail_ne_ok
  | succ bound =>
      obtain ⟨stop, hafter, hreads, hnode⟩ :=
        (yields_expressionWith hnested).exists_stop hending hstart hlength hrun
      refine ⟨stop, hafter, ⟨hreads.start_le, hreads.stop_le, ?_⟩, hnode⟩
      intro bound' cut ending' hending' hstop hcut hlength'
      have hlt := hnode.covers.lt
      cases bound' with
      | zero => exact absurd hlength' (by omega)
      | succ bound' => exact hreads.run hending' hstop hcut hlength'
termination_by row.length - start

theorem nested (row : List Token) (least : Nat) : Nested row least :=
  fun start _ => yields_expression row start

end Script.Parser
