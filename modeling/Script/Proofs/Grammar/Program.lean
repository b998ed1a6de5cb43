/-
# The parser accepts exactly its grammar

The parser of programs is bounded by the number of tokens it is given, which is
enough to recognize every program. It reads one tree at most, so a row of tokens is
one program at most.
-/

import Script.Proofs.Grammar.Expression

namespace Script.Grammar

open Script.Parser

variable {tokens : List Token} {ending : Token} {tree : Tree Unit}

theorem sound_program (hending : ending.kind = .endOfInput)
    (htokens : ∀ token ∈ tokens, token.kind ≠ .endOfInput) {node : Node} {after : TokenStream}
    (hrun : program.run ⟨tokens, ending⟩ = .ok (node, after)) : Program tokens node.shape := by
  rw [run_program] at hrun
  obtain ⟨rest, trees, rfl, hsuffix, hends, hshape, hrow⟩ :=
    sound_statementRow (recognizes_expression _) hending (Nat.le_refl _) hrun
  have hkind : nextKind rest = .endOfInput := by simpa [endsRow] using hends
  have hrest : rest = [] := by
    cases rest with
    | nil => rfl
    | cons token rest => exact absurd hkind (htokens token (hsuffix.subset List.mem_cons_self))
  subst hrest
  rw [hshape]
  exact .intro hrow

theorem complete_program (hending : ending.kind = .endOfInput) (h : Program tokens tree) :
    ∃ node, program.run ⟨tokens, ending⟩ = .ok (node, ⟨[], ending⟩) ∧ node.shape = tree := by
  obtain ⟨hrow⟩ := h
  rw [run_program]
  exact complete_statementRow (recognizes_expression _) (.inr rfl) hending (Nat.le_refl _) hrow rfl

/-- No row of tokens is two programs. -/
theorem Program.unique {other : Tree Unit} (h : Program tokens tree)
    (hother : Program tokens other) : tree = other := by
  have hending : (Token.atEnd default).kind = .endOfInput := rfl
  obtain ⟨node, hrun, rfl⟩ := complete_program hending h
  obtain ⟨node', hrun', rfl⟩ := complete_program hending hother
  rw [hrun] at hrun'
  cases hrun'
  rfl

theorem isEnding_eq_true_iff {token : Token} :
    TokenStream.isEnding token = true ↔ token.kind = .endOfInput := by
  rw [TokenStream.isEnding, decide_eq_true_iff]

theorem ofTokens_ending_kind (tokens : List Token) :
    (TokenStream.ofTokens tokens).ending.kind = .endOfInput := by
  rw [TokenStream.ofTokens]
  cases hfind : tokens.find? TokenStream.isEnding with
  | some token => exact isEnding_eq_true_iff.mp (List.find?_some hfind)
  | none =>
      rw [Option.getD_none, TokenStream.missingEnding]
      split <;> rfl

theorem ofTokens_rest_kind (tokens : List Token) :
    ∀ token ∈ (TokenStream.ofTokens tokens).rest, token.kind ≠ .endOfInput := by
  intro token hmem hkind
  have hnot := List.all_eq_true.mp List.all_takeWhile token hmem
  rw [isEnding_eq_true_iff.mpr hkind] at hnot
  cases hnot

/-- The tokens before the first that ends a row. -/
def programTokens (tokens : List Token) : List Token :=
  tokens.takeWhile fun token => !TokenStream.isEnding token

theorem program_of_ofTokens {node : Node} (h : Tree.ofTokens tokens = .ok node) :
    Program (programTokens tokens) node.shape := by
  cases hrun : program.run (TokenStream.ofTokens tokens) with
  | error error =>
      rw [Tree.ofTokens, hrun] at h
      cases h
  | ok result =>
      rw [Tree.ofTokens, hrun] at h
      cases h
      exact sound_program (ofTokens_ending_kind tokens) (ofTokens_rest_kind tokens) hrun

theorem exists_ofTokens_of_program (h : Program (programTokens tokens) tree) :
    ∃ node, Tree.ofTokens tokens = .ok node ∧ node.shape = tree := by
  obtain ⟨node, hrun, hshape⟩ := complete_program (ofTokens_ending_kind tokens) h
  refine ⟨node, ?_, hshape⟩
  rw [Tree.ofTokens]
  exact congrArg (Except.map Prod.fst) hrun

end Script.Grammar
