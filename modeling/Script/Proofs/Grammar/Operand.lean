/-
# Operands are recognized

Given a parser that recognizes expressions, the parser of selections, index brackets
and argument lists recognizes what follows a primary operand, and takes all of it: no
token that would open a further one is left.
-/

import Script.Proofs.Grammar.Primary

namespace Script.Grammar

open Script.Parser

variable {bound : Nat} {ending : Token} {tokens : List Token} {expression : Parser Node}

theorem trailsOperand_eq_true_iff {kind : Token.Kind} :
    trailsOperand kind = true ↔ kind = .dot ∨ kind = .leftBracket ∨ kind = .leftParen := by
  simp only [trailsOperand, Bool.or_eq_true, decide_eq_true_eq, or_assoc]

theorem Trailers.nextKind_middle {read : Reading (Tree Unit)} {rest : List Token}
    {object result : Tree Unit} (h : Trailers read tokens rest object result) :
    tokens = rest ∨ trailsOperand (nextKind tokens) = true := by
  cases h with
  | none => exact .inl rfl
  | member hkind _ _ => exact .inr (trailsOperand_eq_true_iff.mpr (.inl hkind))
  | index hkind _ _ _ => exact .inr (trailsOperand_eq_true_iff.mpr (.inr (.inl hkind)))
  | call hkind _ _ _ => exact .inr (trailsOperand_eq_true_iff.mpr (.inr (.inr hkind)))

theorem Clear.of_trailsOperand (h : trailsOperand (nextKind tokens) = true) : Clear tokens := by
  apply Clear.of_nextKind
  rcases trailsOperand_eq_true_iff.mp h with h | h | h <;> rw [h] <;> rfl

theorem sound_trailers
    (hexpression : RecognizesPlaced bound expression Expression EndsExpression)
    (hending : ending.kind = .endOfInput) {count : Nat} (hcount : count ≤ bound) :
    ∀ {tokens : List Token} {object node : Node} {after : TokenStream}, tokens.length < count →
      (trailers bound expression count object).run ⟨tokens, ending⟩ = .ok (node, after) →
      ∃ rest, after = ⟨rest, ending⟩ ∧ rest <:+ tokens ∧
        Trailers (Expression .enclosed) tokens rest object.shape node.shape ∧
        trailsOperand (nextKind rest) = false := by
  induction count with
  | zero =>
      intro tokens object node after hlength
      exact absurd hlength (Nat.not_lt_zero _)
  | succ count ih =>
      intro tokens object node after hlength hrun
      rw [Rounds.ofCount_succ, trailers, run_bind_of_ok (run_peekKind_eq hending)] at hrun
      cases tokens with
      | nil =>
          cases hrun
          exact ⟨[], rfl, List.suffix_refl _, .none, rfl⟩
      | cons token tokens =>
          rw [List.length_cons] at hlength
          have htoken := List.suffix_cons token tokens
          split at hrun
          · next hkind =>
            rw [run_bind_of_ok (run_advance_cons _ _ _)] at hrun
            obtain ⟨name, _, hname, hrun⟩ := run_bind_eq_ok_iff.mp hrun
            obtain ⟨inner, rfl, hidentifier, rfl⟩ :=
              (run_expect_eq_ok_iff hending (by decide)).mp hname
            rw [List.length_cons] at hlength
            obtain ⟨rest, rfl, hrest, htrailers, hstop⟩ := ih (by omega) (by omega) hrun
            have hinner := (List.suffix_cons name inner).trans htoken
            exact ⟨rest, rfl, hrest.trans hinner, .member hkind hidentifier htrailers, hstop⟩
          · next hkind =>
            rw [run_bind_of_ok (run_advance_cons _ _ _)] at hrun
            obtain ⟨key, _, hkey, hrun⟩ := run_bind_eq_ok_iff.mp hrun
            obtain ⟨closing, _, hclosing, hrun⟩ := run_bind_eq_ok_iff.mp hrun
            obtain ⟨middle, rfl, hbehind, hread⟩ :=
              (recognizes_spaced_expression hexpression).sound hending (by omega) hkey
            obtain ⟨inner, rfl, hclose, rfl⟩ :=
              (run_expect_eq_ok_iff hending (by decide)).mp hclosing
            have hshort := hbehind.2
            rw [List.length_cons] at hshort
            obtain ⟨rest, rfl, hrest, htrailers, hstop⟩ := ih (by omega) (by omega) hrun
            have hinner := (List.suffix_cons closing inner).trans (hbehind.1.trans htoken)
            exact ⟨rest, rfl, hrest.trans hinner, .index hkind hread hclose htrailers, hstop⟩
          · next hkind =>
            have hcloses : ClosesBracket .rightParen := .inl rfl
            rw [run_bind_of_ok (run_advance_cons _ _ _)] at hrun
            obtain ⟨⟨nodes, closing⟩, _, hitems, hrun⟩ := run_bind_eq_ok_iff.mp hrun
            obtain ⟨inner, rfl, hclose, hbehind, hread⟩ := sound_items hexpression.enclosed
              hcloses.closes hending (Nat.le_trans (by omega) hcount) hitems
            have hshort := hbehind.2
            obtain ⟨rest, rfl, hrest, htrailers, hstop⟩ := ih (by omega) (by omega) hrun
            rw [Tree.shape, Tree.shapeEach_eq_map] at htrailers
            exact ⟨rest, rfl, hrest.trans (hbehind.1.trans htoken),
              .call hkind hread hclose htrailers, hstop⟩
          · next hdot hbracket hparen =>
            cases hrun
            refine ⟨token :: tokens, rfl, List.suffix_refl _, .none, ?_⟩
            rw [Bool.eq_false_iff, Ne, trailsOperand_eq_true_iff]
            exact fun h => h.elim hdot (Or.elim · hbracket hparen)

theorem complete_trailers
    (hexpression : RecognizesPlaced bound expression Expression EndsExpression)
    (hending : ending.kind = .endOfInput) {count : Nat} (hcount : count ≤ bound) :
    ∀ {tokens rest : List Token} {object : Node} {tree : Tree Unit}, tokens.length < count →
      Trailers (Expression .enclosed) tokens rest object.shape tree →
      trailsOperand (nextKind rest) = false →
      ∃ node, (trailers bound expression count object).run ⟨tokens, ending⟩ =
        .ok (node, ⟨rest, ending⟩) ∧ node.shape = tree := by
  induction count with
  | zero =>
      intro tokens rest object tree hlength
      exact absurd hlength (Nat.not_lt_zero _)
  | succ count ih =>
      intro tokens rest object tree hlength hread hstop
      rw [Rounds.ofCount_succ, trailers, run_bind_of_ok (run_peekKind_eq hending)]
      generalize hobject : object.shape = shape at hread
      cases hread with
      | none =>
          rw [Bool.eq_false_iff, Ne, trailsOperand_eq_true_iff, not_or, not_or] at hstop
          refine ⟨object, ?_, hobject⟩
          split
          · next hkind => exact absurd hkind hstop.1
          · next hkind => exact absurd hkind hstop.2.1
          · next hkind => exact absurd hkind hstop.2.2
          · rfl
      | @member dot name inner _ _ _ hkind hname htrailers =>
          simp only [List.length_cons] at hlength
          subst hobject
          rw [nextKind_cons, hkind]
          dsimp only
          rw [run_bind_of_ok (run_advance_cons _ _ _), run_bind_of_ok (run_expect_cons hname)]
          exact ih (by omega) (by omega) htrailers hstop
      | @index opening closing inner middle _ _ key _ hkind hkey hclose htrailers =>
          have hcloses : ClosesBracket .rightBracket := .inr (.inl rfl)
          have hspaced := recognizes_spaced_expression hexpression
          have hstops := hcloses.stopsSpaced hclose middle
          rw [List.length_cons] at hlength
          obtain ⟨node, hnode, rfl⟩ := hspaced.complete hending (by omega) hkey hstops
          have hshort := (hspaced.behind (by omega) hkey hstops).2
          rw [List.length_cons] at hshort
          subst hobject
          rw [nextKind_cons, hkind]
          dsimp only
          rw [run_bind_of_ok (run_advance_cons _ _ _), run_bind_of_ok hnode,
            run_bind_of_ok (run_expect_cons hclose)]
          exact ih (by omega) (by omega) htrailers hstop
      | @call opening closing inner middle _ _ _ arguments hkind hitems hclose htrailers =>
          have hcloses : ClosesBracket .rightParen := .inl rfl
          rw [List.length_cons] at hlength
          have hshort := Nat.le_trans (Nat.le_of_succ_le_succ hlength) (Nat.le_of_succ_le hcount)
          obtain ⟨nodes, hnodes, rfl⟩ := complete_items hexpression.enclosed hcloses.closes
            hending .expectedCommaOrRightParen hshort hitems hclose
          obtain ⟨_, hafter, _, hbehind, _⟩ := sound_items hexpression.enclosed hcloses.closes
            hending (by omega) hnodes
          cases hafter
          have hshort := hbehind.2
          subst hobject
          rw [nextKind_cons, hkind]
          dsimp only
          rw [run_bind_of_ok (run_advance_cons _ _ _), run_bind_of_ok hnodes]
          rw [← Tree.shapeEach_eq_map] at htrailers
          exact ih (by omega) (by omega) htrailers hstop

theorem recognizes_operand
    (hexpression : RecognizesPlaced bound expression Expression EndsExpression) :
    RecognizesLevel (bound + 1) (operand bound expression) Operand trailsOperand where
  sound := by
    intro ending tokens node after hending hlength hrun
    obtain ⟨object, _, hobject, hrun⟩ := run_bind_eq_ok_iff.mp hrun
    obtain ⟨middle, rfl, hbehind, hread⟩ :=
      (recognizes_primary hexpression).sound hending hlength hobject
    have hshort := hbehind.2
    obtain ⟨rest, rfl, hsuffix, htrailers, hstop⟩ :=
      sound_trailers hexpression hending (Nat.le_refl _) (by omega) hrun
    exact ⟨rest, rfl, hbehind.trans_suffix hsuffix, .intro hread htrailers, hstop⟩
  complete := by
    intro ending tokens rest tree hending hlength hread hclear hstop
    cases hread with
    | @intro _ middle _ object _ hprimary htrailers =>
        have hmiddle : Clear middle := by
          rcases htrailers.nextKind_middle with rfl | htrails
          · exact hclear
          · exact .of_trailsOperand htrails
        have hrecognizes := recognizes_primary hexpression
        obtain ⟨node, hnode, rfl⟩ := hrecognizes.complete hending hlength hprimary hmiddle
        have hshort := (hrecognizes.behind hlength hprimary hmiddle).2
        rw [operand, run_bind_of_ok hnode]
        exact complete_trailers hexpression hending (Nat.le_refl _) (by omega) htrailers hstop

end Script.Grammar
