/-
# Syntax errors point at the first token that offends

An error of a program, other than a target that cannot be assigned to, is reported at one
of its tokens. The tokens in front of that token can be completed to a program. The token
itself is wrong where it stands, whatever follows, unless it is a separator or the end: a
separator may stand in front of a further branch.
-/

import Script.Proofs.Grammar.Program
import Script.Proofs.Parser.Expression
import Script.Proofs.Token.Layout

namespace Script

/-! ## The tokens of literals -/

namespace Token

theorem carriesValue_of_plain {token : Token} {kind : Kind} {length length' : Nat}
    (hkind : kind.isMark = true)
    (h : Piece.plain kind length = ⟨.token token.kind token.literal, length'⟩) :
    token.CarriesValue := by
  obtain ⟨kind', lexeme, literal, span⟩ := token
  cases h
  constructor
  · rintro (rfl | rfl | rfl) <;> cases hkind
  · rintro rfl
    cases hkind

theorem carriesValue_of_readNumber {token : Token} {first : Char} {after : List Char}
    {length : Nat} (h : readNumber first after = ⟨.token token.kind token.literal, length⟩) :
    token.CarriesValue := by
  obtain ⟨kind, lexeme, literal, span⟩ := token
  rw [readNumber_eq] at h
  cases h
  exact ⟨fun _ => ⟨_, rfl⟩, fun hkind => absurd hkind (numberKind_ne (by decide) _)⟩

theorem carriesValue_of_readString {token : Token} {after : List Char} {length : Nat}
    (h : readString after = ⟨.token token.kind token.literal, length⟩) : token.CarriesValue := by
  obtain ⟨kind, lexeme, literal, span⟩ := token
  rw [readString] at h
  split at h <;> cases h
  exact ⟨(by rintro (hkind | hkind | hkind) <;> cases hkind), fun _ => ⟨_, rfl⟩⟩

/-- A token that was read carries what it denotes. -/
theorem carriesValue_of_isLexeme {token : Token} {text : List Char}
    (h : IsLexeme token.kind token.literal text) : token.CarriesValue := by
  obtain ⟨first, after, rfl, hread⟩ := h
  generalize hreader : Piece.read first = reader at hread
  cases hreader ▸ Piece.reader_read first with
  | sign hkind => exact carriesValue_of_plain hkind hread
  | relation halone hwithEqual =>
      dsimp only at hread
      split at hread
      · exact carriesValue_of_plain hwithEqual hread
      · exact carriesValue_of_plain halone hread
  | blank hblank => cases hread
  | bang =>
      dsimp only at hread
      split at hread
      · exact carriesValue_of_plain rfl hread
      · cases hread
  | slash hslash =>
      dsimp only at hread
      split at hread
      · rw [readComment] at hread
        split at hread <;> cases hread
      · exact carriesValue_of_plain rfl hread
  | point =>
      dsimp only at hread
      split at hread
      · exact carriesValue_of_readNumber hread
      · exact carriesValue_of_plain rfl hread
  | string => exact carriesValue_of_readString hread
  | number => exact carriesValue_of_readNumber hread
  | name =>
      rw [readName] at hread
      refine carriesValue_of_plain ?_ hread
      split <;> rfl
  | illegal => cases hread

end Token

namespace Parser

open Grammar

/-! ## Programs -/

theorem steady_program {limit : Nat} :
    Steady limit (fun n : Nat => n) (fun n => statementRow .endOfInput n (Parser.expression n))
      (· = .endOfInput) 0 [] :=
  have hname : (mark .identifier).kind = .identifier := rfl
  steady_statementRow hname (steady_expression hname) (fun _ => Nat.le_refl _) (.inr rfl)

theorem isEnding_eq_false {body : List Token} (h : ∀ token ∈ body, token.kind ≠ .endOfInput) :
    ∀ token ∈ body, (!TokenStream.isEnding token) = true := by
  intro token htoken
  rw [Bool.not_eq_true', ← Bool.not_eq_true, isEnding_eq_true_iff]
  exact h token htoken

theorem ofTokens_append {body : List Token} (h : ∀ token ∈ body, token.kind ≠ .endOfInput)
    (others : List Token) :
    (TokenStream.ofTokens (body ++ others)).rest = body ++ (TokenStream.ofTokens others).rest :=
  List.takeWhile_append_of_pos (isEnding_eq_false h)

theorem ending_ofTokens_append_atEnd {body : List Token}
    (h : ∀ token ∈ body, token.kind ≠ .endOfInput) (span : Span) :
    (TokenStream.ofTokens (body ++ [.atEnd span])).ending = .atEnd span := by
  have hnone : body.find? TokenStream.isEnding = none :=
    List.find?_eq_none.mpr fun token htoken => by simpa using isEnding_eq_false h token htoken
  rw [TokenStream.ofTokens, List.find?_append, hnone]
  rfl

/-- What a program is read as when its parser stops at some place. -/
theorem ofTokens_eq_of_run {tokens row rest : List Token} {result : Except SyntaxError Node}
    (hrow : (TokenStream.ofTokens tokens).rest = row)
    (hrun : (statementRow .endOfInput (row.length + 1 : Nat)
          (Parser.expression (row.length + 1 : Nat))).run
        ⟨row, (TokenStream.ofTokens tokens).ending⟩ =
      ended result rest (TokenStream.ofTokens tokens).ending) :
    Tree.ofTokens tokens = result := by
  subst hrow
  rw [Tree.ofTokens, run_program, hrun]
  cases result <;> rfl

/-! ## The theorem -/

/-- An error is reported at the first token that offends. -/
structure OffendsFirst (before : List Token) (token : Token) (error : SyntaxError) : Prop where
  /-- The error points at the token. -/
  located : error.span = token.span
  /-- The tokens in front of it begin a program. -/
  viable : ∃ others span tree, (∀ token ∈ others, token.kind ≠ .endOfInput) ∧
    Tree.ofTokens (before ++ others ++ [.atEnd span]) = .ok tree
  /-- With the token they begin none. -/
  hopeless : token.kind ≠ .separator → token.kind ≠ .endOfInput →
    ∀ others, Tree.ofTokens (before ++ token :: others) = .error error

section Stop

variable {taken rest : List Token} {ending : Token} {error : SyntaxError}
  (hkinds : ∀ token ∈ taken, token.kind ≠ .endOfInput)
  (hstops : StopsAt (fun n : Nat => n)
    (fun n => statementRow .endOfInput n (Parser.expression n)) (· = .endOfInput) ending taken rest
    (.error error))

include hkinds hstops

theorem exists_program_of_stopsAt (hproblem : error.problem ≠ .invalidTarget) :
    ∃ others span tree, (∀ token ∈ others, token.kind ≠ .endOfInput) ∧
      Tree.ofTokens (taken ++ others ++ [.atEnd span]) = .ok tree := by
  by_cases hne : taken = []
  · subst hne
    exact ⟨[], default, .block _ [], List.forall_mem_nil _, rfl⟩
  · obtain ⟨further, hfurther⟩ := hstops.viable hne (by rintro _ ⟨⟩; exact hproblem)
    have hnoEnding : ∀ token ∈ taken ++ further, token.kind ≠ .endOfInput := fun token htoken =>
      (List.mem_append.mp htoken).elim (hkinds token) (hfurther.noEnding token)
    have hrow : (TokenStream.ofTokens (taken ++ further ++ [.atEnd default])).rest =
        taken ++ (further ++ []) :=
      (ofTokens_append hnoEnding [.atEnd default]).trans (List.append_assoc _ _ _)
    obtain ⟨tree, hrun⟩ := hfurther.accepts [] rfl _ _
      (ofTokens_ending_kind (taken ++ further ++ [.atEnd default])) (Nat.lt_succ_self _)
    exact ⟨further, default, tree, hfurther.noEnding,
      @ofTokens_eq_of_run _ _ [] (.ok tree) hrow hrun⟩

theorem ofTokens_eq_error_of_stopsAt {token : Token} {behind : List Token}
    (hrest : rest = token :: behind) (hseparator : token.kind ≠ .separator)
    (hending : token.kind ≠ .endOfInput) (others : List Token) :
    Tree.ofTokens (taken ++ token :: others) = .error error := by
  have hnoEnding : ∀ token' ∈ taken ++ [token], token'.kind ≠ .endOfInput := by
    intro token' htoken'
    obtain htaken | hlast := List.mem_append.mp htoken'
    · exact hkinds token' htaken
    · rwa [List.mem_singleton.mp hlast]
  have hrow : (TokenStream.ofTokens (taken ++ token :: others)).rest =
      taken ++ ([token] ++ (TokenStream.ofTokens others).rest) := by
    rw [List.append_cons, ofTokens_append hnoEnding, List.append_assoc]
  have hhides : Hides [token] (TokenStream.ofTokens others).rest := by
    refine .inl fun last hlast => ?_
    cases hlast
    exact hseparator
  exact ofTokens_eq_of_run hrow (hstops.stable [token] behind _ _ _ hrest (List.cons_ne_nil _ _)
    hhides (ofTokens_ending_kind _) (Nat.lt_succ_self _))

end Stop

theorem offendsFirst_of_kinds {body : List Token} {span : Span} {error : SyntaxError}
    (hkinds : ∀ token ∈ body, token.kind ≠ .endOfInput)
    (hvalues : ∀ token ∈ body, token.CarriesValue)
    (herror : Tree.ofTokens (body ++ [.atEnd span]) = .error error)
    (hproblem : error.problem ≠ .invalidTarget) :
    ∃ before token behind, body ++ [.atEnd span] = before ++ token :: behind ∧
      OffendsFirst before token error := by
  have hrow : (TokenStream.ofTokens (body ++ [.atEnd span])).rest = body :=
    (ofTokens_append hkinds [.atEnd span]).trans (List.append_nil body)
  have hwithin : Within (body.length + 1) body := ⟨Nat.lt_succ_self _, hvalues⟩
  obtain ⟨taken, rest, result, hbody, hrun, -, hstops⟩ :=
    steady_program.steadyAt body hwithin (body.length + 1) (.atEnd span) rfl (Nat.lt_succ_self _)
  rw [← ending_ofTokens_append_atEnd hkinds span] at hrun
  obtain rfl : result = .error error := (ofTokens_eq_of_run hrow hrun).symm.trans herror
  have htaken (token : Token) (htoken : token ∈ taken) : token.kind ≠ .endOfInput :=
    hkinds token (hbody ▸ List.mem_append_left rest htoken)
  have hlocated := hstops.located error rfl hproblem
  have hviable := exists_program_of_stopsAt htaken hstops hproblem
  cases rest with
  | nil =>
      refine ⟨taken, .atEnd span, [], by rw [hbody, List.append_nil], hlocated, hviable, ?_⟩
      exact fun _ hending => absurd rfl hending
  | cons token behind =>
      refine ⟨taken, token, behind ++ [.atEnd span], by rw [hbody, List.append_assoc]; rfl,
        hlocated, hviable, ?_⟩
      exact ofTokens_eq_error_of_stopsAt htaken hstops rfl

/-- A source that can be read and is no program has a token at which its error points, unless
the error is a target that cannot be assigned to. That token is the first that offends. -/
theorem offendsFirst_of_error {source : Source} {tokens : List Token} {error : SyntaxError}
    (hscan : Token.scan source = .ok tokens) (herror : Tree.ofTokens tokens = .error error)
    (hproblem : error.problem ≠ .invalidTarget) :
    ∃ before token behind, tokens = before ++ token :: behind ∧
      OffendsFirst before token error := by
  have hcut : Token.Cut source [] source.text.toList tokens := .of_scanFrom hscan
  obtain ⟨body, rfl, hlexemes⟩ := hcut.exists_body
  exact offendsFirst_of_kinds (fun token htoken => (hlexemes token htoken).kind_ne)
    (fun token htoken => Token.carriesValue_of_isLexeme (hlexemes token htoken)) herror hproblem

/-- A comma is missing between two arguments. -/
theorem offendsFirst_of_error_of_missingComma :
    ∃ tokens error, Token.scan ⟨"f(1 2)", "offence"⟩ = .ok tokens ∧
      Tree.ofTokens tokens = .error error ∧ error.problem ≠ .invalidTarget ∧
      ∃ before token behind, tokens = before ++ token :: behind ∧
        OffendsFirst before token error := by
  have hchecks : ((Token.scan ⟨"f(1 2)", "offence"⟩).toOption.map fun tokens =>
      ((Tree.ofTokens tokens).map fun _ => SyntaxProblem.invalidTarget).tryCatch
        (fun error => .ok error.problem) |>.toOption) = some (some .expectedCommaOrRightParen) := by
    decide +kernel
  cases hscan : Token.scan ⟨"f(1 2)", "offence"⟩ with
  | error error =>
      rw [hscan] at hchecks
      cases hchecks
  | ok tokens =>
      rw [hscan] at hchecks
      have hproblem := Option.some.inj hchecks
      dsimp only at hproblem
      cases htree : Tree.ofTokens tokens with
      | ok tree =>
          rw [htree] at hproblem
          cases hproblem
      | error error =>
          rw [htree] at hproblem
          have hkind : error.problem ≠ .invalidTarget := by
            rw [Option.some.inj hproblem]
            decide
          exact ⟨tokens, error, rfl, htree, hkind, offendsFirst_of_error hscan htree hkind⟩

end Parser

end Script
