/-
# The nodes of a program stand where they were read

A program is a row of statements whose span ends where the last of them does. In turn the
tokens of a node that is no block are a program of one statement, which is that node.
-/

import Script.Proofs.Grammar.Program
import Script.Proofs.Span.Expression

namespace Script.Parser

open Grammar

variable {tokens row part : List Token} {tree node : Node} {stop : Nat}

/-- A row of statements stands from the first token on up to the end of the last
statement. -/
theorem exists_rooted_block {first : Token} {statements : List Node}
    (hfirst : row[0]? = some first) (h : Lined (Rooted row) 0 stop statements) :
    ∃ stop, Rooted row 0 stop (.block (rowSpan first statements) statements) := by
  cases hlast : statements.getLast? with
  | none =>
      obtain rfl := List.getLast?_eq_none_iff.mp hlast
      have hcovers : Covers row 0 1 (rowSpan first []) := .of_token hfirst
      have hbuilt : Built row 0 1 (.block (rowSpan first []) []) :=
        .of_trees hcovers rfl (.nil (Nat.zero_le _))
      exact ⟨1, hbuilt.rooted_of_isBlock rfl⟩
  | some last =>
      obtain ⟨place, middle, hstands, hlined⟩ := h.exists_last hlast
      have hlt := hstands.covers.lt
      have hcovers : Covers row 0 middle (rowSpan first statements) := by
        rw [rowSpan, hlast]
        exact .through hfirst (by omega) hstands.covers.last
      have hbuilt : Built row 0 middle (.block (rowSpan first statements) statements) :=
        .of_trees hcovers rfl hlined
      exact ⟨middle, hbuilt.rooted_of_isBlock rfl⟩

/-- What is read from a row of tokens is a row of statements. -/
theorem exists_statements_of_ofTokens (h : Tree.ofTokens tokens = .ok tree) :
    ∃ statements after ending, ending.kind = .endOfInput ∧
      (statementsBefore .endOfInput
          (statement (expression ((programTokens tokens).length + 1 : Nat)))
          ((programTokens tokens).length + 1 : Nat)).run ⟨programTokens tokens, ending⟩ =
        .ok (statements, after) ∧
      tree = .block (rowSpan ((programTokens tokens).headD ending) statements) statements := by
  cases hrun : program.run (TokenStream.ofTokens tokens) with
  | error error =>
      rw [Tree.ofTokens, hrun] at h
      cases h
  | ok result =>
      obtain ⟨read, rest⟩ := result
      rw [Tree.ofTokens, hrun] at h
      cases h
      rw [run_program] at hrun
      obtain ⟨first, _, hpeek, hrun⟩ := run_bind_eq_ok_iff.mp hrun
      cases hpeek
      obtain ⟨statements, after, hstatements, hpure⟩ := run_bind_eq_ok_iff.mp hrun
      cases hpure
      exact ⟨statements, rest, _, ofTokens_ending_kind tokens, hstatements, rfl⟩

/-- In what is read from a row of tokens every node stands somewhere. A row without tokens
is read as a block that stands nowhere. -/
theorem grounded_of_ofTokens (h : Tree.ofTokens tokens = .ok tree) :
    Grounded (programTokens tokens) tree ∨
      programTokens tokens = [] ∧ ∃ site, tree = .block site [] := by
  obtain ⟨statements, after, ending, hending, hrun, rfl⟩ := exists_statements_of_ofTokens h
  obtain ⟨stop, _, _, hlined⟩ :=
    (yields_statements (nested (programTokens tokens) 0)).exists_stop hending (Nat.zero_le _)
      (Nat.lt_succ_self _) hrun
  rw [List.headD_eq_head?_getD, List.head?_eq_getElem?]
  cases hfirst : (programTokens tokens)[0]? with
  | some first =>
      obtain ⟨_, hrooted⟩ := exists_rooted_block hfirst hlined
      exact .inl hrooted.all
  | none =>
      have hnone : (programTokens tokens).length ≤ 0 := List.getElem?_eq_none_iff.mp hfirst
      refine .inr ⟨List.length_eq_zero_iff.mp (Nat.le_zero.mp hnone), ?_⟩
      cases hlined with
      | nil _ => exact ⟨_, rfl⟩
      | cons _ hstands _ => exact absurd hstands.covers.lt_length (by omega)

/-- Tokens that are read as a statement are a program of that statement. -/
theorem ofTokens_of_whole (h : Whole part node)
    (hkinds : ∀ token ∈ part, token.kind ≠ .endOfInput) :
    ∃ site, Tree.ofTokens part = .ok (.block site [node]) := by
  have hpart : programTokens part = part :=
    List.takeWhile_eq_self_iff.mpr fun token htoken => by
      simpa [TokenStream.isEnding] using hkinds token htoken
  let ending := (TokenStream.ofTokens part).ending
  have hending : ending.kind = .endOfInput := ofTokens_ending_kind part
  have hrun := h (part.length + 1) ending hending (Nat.lt_succ_self _)
  obtain ⟨_, _, _, hread⟩ := (recognizes_statement (recognizes_expression _)).sound hending
    (Nat.lt_succ_self part.length) hrun
  have hstart := (hread .enclosed).starts
  have hpast := pastSeparators_eq_self (startsStatement_ne_separator hstart)
  have hends : ¬ endsRow .endOfInput (nextKind part) = true :=
    not_endsRow_of_starts (.inr rfl) hstart
  have hstatements : (statementsBefore .endOfInput (statement (expression (part.length + 1 : Nat)))
      (part.length + 1 : Nat)).run ⟨part, ending⟩ = .ok ([node], ⟨[], ending⟩) := by
    rw [statementsBefore_of_pos _ _ (Nat.succ_pos part.length),
      run_bind_of_ok (run_skipSeparators _ _), hpast, run_bind_of_ok (run_peekKind_eq hending),
      if_neg hends, run_bind_of_ok hrun, run_bind_of_ok (run_peekKind_eq hending)]
    rfl
  have hrow : program.run (TokenStream.ofTokens part) =
      .ok (.block (rowSpan (part.headD ending) [node]) [node], ⟨[], ending⟩) := by
    have hstream : TokenStream.ofTokens part = ⟨part, ending⟩ :=
      congrArg (TokenStream.mk · ending) hpart
    rw [hstream, run_program, statementRow,
      run_bind_of_ok (rfl : peek.run ⟨part, ending⟩ = .ok (part.headD ending, ⟨part, ending⟩)),
      run_bind_of_ok hstatements]
    rfl
  exact ⟨_, congrArg (Except.map Prod.fst) hrow⟩

end Script.Parser
