/-
# Lexemes with spaces in between

A token does not depend on what stands around it. Its characters alone are read as the same
token again, and so are the lexemes of a source with a space between one and the next: no
lexeme is cut at another place, and none grows together with its neighbour.
-/

import Script.Proofs.Token.Layout

namespace Script.Token

/-- A token without its place. -/
def bare (token : Token) : Kind × String × Option Literal :=
  (token.kind, token.lexeme, token.literal)

variable {source : Source} {position : Position} {extra lexeme : List Char} {kind : Kind}
  {literal : Option Literal} {tokens body : List Token}

/-- A lexeme is read as its token in front of a space and at the end. -/
theorem scanFrom_lexeme (h : IsLexeme kind literal lexeme) (hextra : Interrupts extra) :
    scanFrom source position (lexeme ++ extra) =
      (⟨kind, String.ofList lexeme, literal,
          ⟨source, position, position.advanceOver lexeme⟩⟩ :: ·) <$>
        scanFrom source (position.advanceOver lexeme) extra := by
  obtain ⟨first, after, rfl, hread⟩ := h
  have hsettled := Piece.settles_read hextra first after (by rw [hread]; exact nofun)
  exact scanFrom_of_read (hsettled.same.trans hread)

theorem scanFrom_space (source : Source) (position : Position) (text : List Char) :
    scanFrom source position (' ' :: text) = scanFrom source (position.advance ' ') text :=
  scanFrom_of_gap rfl

/-- A lexeme alone is read as its token. -/
theorem scanFrom_alone (source : Source) (position : Position) (token : Token)
    (h : IsLexeme token.kind token.literal token.lexeme.toList) :
    ∃ alone span, scanFrom source position token.lexeme.toList = .ok [alone, atEnd span] ∧
      alone.bare = token.bare := by
  have hread : scanFrom source position (token.lexeme.toList ++ []) = _ :=
    scanFrom_lexeme h Interrupts.nil
  rw [List.append_nil, scanFrom] at hread
  refine ⟨_, _, hread, ?_⟩
  rw [bare, String.ofList_toList, bare]

/-- Lexemes with spaces in between are read as their tokens. -/
theorem scanFrom_spaced (source : Source) (position : Position)
    (h : ∀ token ∈ body, IsLexeme token.kind token.literal token.lexeme.toList) :
    ∃ others span,
      scanFrom source position ([' '].intercalate (body.map (·.lexeme.toList))) =
        .ok (others ++ [atEnd span]) ∧ others.map bare = body.map bare := by
  induction body generalizing position with
  | nil =>
      refine ⟨[], ⟨source, position, position⟩, ?_, rfl⟩
      rw [List.map_nil, List.intercalate_nil, scanFrom, List.nil_append]
  | cons token body ih =>
      obtain ⟨htoken, hbody⟩ := List.forall_mem_cons.mp h
      cases body with
      | nil =>
          obtain ⟨alone, span, hread, hsame⟩ := scanFrom_alone source position token htoken
          rw [List.map_singleton, List.intercalate_singleton]
          exact ⟨[alone], span, hread, congrArg (· :: []) hsame⟩
      | cons next body =>
          have hread : scanFrom source position (token.lexeme.toList ++ ' ' :: _) = _ :=
            scanFrom_lexeme htoken
              (.space ([' '].intercalate ((next :: body).map (·.lexeme.toList))))
          obtain ⟨others, span, hothers, hsame⟩ :=
            ih ((position.advanceOver token.lexeme.toList).advance ' ') hbody
          rw [scanFrom_space, hothers] at hread
          rw [List.map_cons, List.map_cons, List.intercalate_cons_cons, List.append_assoc]
          refine ⟨_ :: others, span, hread, ?_⟩
          rw [List.map_cons, hsame, bare, String.ofList_toList]
          rfl

theorem filter_body {ending : Token} (hending : ending.kind = .endOfInput)
    (h : ∀ token ∈ body, IsLexeme token.kind token.literal token.lexeme.toList) :
    (body ++ [ending]).filter (·.kind ≠ .endOfInput) = body := by
  rw [List.filter_append, List.filter_eq_self.mpr]
  · simp [hending]
  · exact fun token htoken => decide_eq_true (h token htoken).kind_ne

/-- Tokens survive new spaces. Where a source can be read, the lexemes of its tokens with a
space between one and the next are read as the same kinds, lexemes and values, and each
lexeme alone is read as that token, and then the end. -/
theorem scan_spaced (h : scan source = .ok tokens) (file : String) :
    let proper := tokens.filter (·.kind ≠ .endOfInput)
    (∃ others, scan ⟨" ".intercalate (proper.map (·.lexeme)), file⟩ = .ok others ∧
      others.map bare = tokens.map bare) ∧
    ∀ token ∈ proper, ∃ alone span,
      scan ⟨token.lexeme, file⟩ = .ok [alone, atEnd span] ∧ alone.bare = token.bare := by
  have hcut : Cut source [] source.text.toList tokens := .of_scanFrom h
  obtain ⟨body, rfl, hlexemes⟩ := hcut.exists_body
  intro proper
  have hproper : proper = body := filter_body rfl hlexemes
  rw [hproper]
  constructor
  · obtain ⟨others, span, hread, hsame⟩ :=
      scanFrom_spaced ⟨" ".intercalate (body.map (·.lexeme)), file⟩ .start hlexemes
    refine ⟨others ++ [atEnd span], ?_, ?_⟩
    · rw [scan, String.toList_intercalate, List.map_map]
      exact hread
    · rw [List.map_append, List.map_append, hsame]
      rfl
  · intro token htoken
    exact scanFrom_alone ⟨token.lexeme, file⟩ .start token (hlexemes token htoken)

/-- A point behind a number and one in front of a name, and signs that may grow together. -/
theorem scan_spaced_of_points :
    ∃ tokens, scan ⟨"1.(2.x)<= =/ *3.L.5", "spacing"⟩ = .ok tokens ∧
      ∃ others, scan ⟨" ".intercalate ((tokens.filter (·.kind ≠ .endOfInput)).map (·.lexeme)),
        "spaced"⟩ = .ok others ∧ others.map bare = tokens.map bare := by
  have hreads : (scan ⟨"1.(2.x)<= =/ *3.L.5", "spacing"⟩).isOk = true := by
    decide +kernel
  cases hscan : scan ⟨"1.(2.x)<= =/ *3.L.5", "spacing"⟩ with
  | error error =>
      rw [hscan] at hreads
      cases hreads
  | ok tokens => exact ⟨tokens, rfl, (scan_spaced hscan "spaced").1⟩

end Script.Token
