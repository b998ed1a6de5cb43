/-
# The depth of expressions is never used up

Operations, assignments and definitions proceed alike as their operands do. An expression
takes a token before it reads one that it contains, so it proceeds alike from all rows with
any two readings of nested expressions that do so from shorter rows.
-/

import Script.Proofs.Grammar.Program
import Script.Proofs.Parser.Bounds

namespace Script

namespace Parser

open Grammar

variable {good : String → Prop} {limit : Nat} {rounds rounds' : Rounds}

/-! ## Operations -/

theorem named_foldr_applyOperator {node : Node} (h : node.Named good)
    (operators : List (UnaryOperator × Span)) :
    (operators.foldr applyOperator node).Named good := by
  induction operators with
  | nil => exact h
  | cons operator operators ih =>
      exact Tree.Named.of_children rfl (List.forall_mem_singleton.mpr ih)

section Operators

variable {inner inner' : Parser Node}

theorem proceed_operations {operator? : Token.Kind → Option BinaryOperator}
    (hnone : operator? .endOfInput = none) (hrounds : Suffice limit rounds rounds')
    (hinner : Proceed good limit 1 inner inner' (Tree.Named good)) {left : Node}
    (hleft : left.Named good) :
    Proceed good limit 0 (operations operator? inner rounds left)
      (operations operator? inner' rounds' left) (Tree.Named good) := by
  induction hrounds generalizing left with
  | failing => exact fun _ _ _ => .fail _
  | past => exact .zero
  | @more limit rounds rounds' _ ih =>
      intro stream hsound hlength
      have hshorter := hinner.shorter (Nat.sub_le limit 1)
      refine .byKind ?_
      split
      · exact .pure hleft
      · next operator hoperator =>
        have hfront : stream.peek.kind ≠ .endOfInput := by
          intro hkind
          rw [hkind, hnone] at hoperator
          cases hoperator
        refine (ProceedAt.advance_shorter hsound hlength hfront ?_).any
        refine (hshorter.andThen fun right hright => ?_).any
        refine (ih hshorter (Tree.Named.of_children rfl ?_)).shorter (Nat.sub_le _ 1)
        exact List.forall_mem_cons.mpr ⟨hleft, List.forall_mem_singleton.mpr hright⟩

theorem proceed_leftAssociative {operator? : Token.Kind → Option BinaryOperator}
    (hnone : operator? .endOfInput = none) (hrounds : Suffice limit rounds rounds')
    (hinner : Proceed good (limit + 1) 1 inner inner' (Tree.Named good)) :
    Proceed good (limit + 1) 1 (leftAssociative operator? rounds inner)
      (leftAssociative operator? rounds' inner') (Tree.Named good) :=
  hinner.andThen fun _ hfirst =>
    proceed_operations hnone hrounds (hinner.shorter (Nat.le_succ limit)) hfirst

theorem proceed_rightAssociative {operator? : Token.Kind → Option UnaryOperator}
    (hinner : Proceed good limit 1 inner inner' (Tree.Named good)) :
    Proceed good limit 1 (rightAssociative operator? inner) (rightAssociative operator? inner')
      (Tree.Named good) := by
  intro stream hsound hlength
  obtain ⟨count, hcount, hdrop⟩ :=
    TokenStream.exists_drop_of_suffix (@takeOperators_suffix operator? stream.rest)
  have hrest : (stream.drop count).rest.length < limit := by
    rw [TokenStream.rest_drop, List.length_drop]
    omega
  have hnode := hinner.map fun node hnode => named_foldr_applyOperator hnode
    (takeOperators operator? stream.rest).1
  refine (ProceedAt.of_drop hcount (hnode _ (hsound.drop count) hrest) ?_ ?_).atLeast
    (Nat.le_add_left 1 count)
  · exact hdrop ▸ run_rightAssociative
  · exact hdrop ▸ run_rightAssociative

end Operators

section Nested

variable {expression expression' : Parser Node}
  (hexpression : Proceed good limit 1 expression expression' (Tree.Named good))
  (hrounds : Suffice limit rounds rounds')

include hexpression hrounds

theorem proceed_signed :
    Proceed good (limit + 1) 1 (signed rounds expression) (signed rounds' expression')
      (Tree.Named good) :=
  proceed_rightAssociative (proceed_operand hexpression hrounds)

theorem proceed_product :
    Proceed good (limit + 1) 1 (product rounds expression) (product rounds' expression')
      (Tree.Named good) :=
  proceed_leftAssociative rfl hrounds (proceed_signed hexpression hrounds)

theorem proceed_sum :
    Proceed good (limit + 1) 1 (sum rounds expression) (sum rounds' expression')
      (Tree.Named good) :=
  proceed_leftAssociative rfl hrounds (proceed_product hexpression hrounds)

theorem proceed_comparison :
    Proceed good (limit + 1) 1 (comparison rounds expression) (comparison rounds' expression')
      (Tree.Named good) :=
  proceed_rightAssociative (proceed_leftAssociative rfl hrounds (proceed_sum hexpression hrounds))

theorem proceed_logical :
    Proceed good (limit + 1) 1 (logical rounds expression) (logical rounds' expression')
      (Tree.Named good) :=
  proceed_leftAssociative rfl hrounds (proceed_comparison hexpression hrounds)

theorem proceed_assignment :
    Proceed good (limit + 1) 1 (assignment rounds expression) (assignment rounds' expression')
      (Tree.Named good) := by
  refine (proceed_logical hexpression hrounds).andThen fun target htarget => ?_
  refine (proceed_accept _).andThen fun taken _ => .ite (fun _ => ?_) fun _ => .pure htarget
  refine .ite (fun _ => ?_) fun _ _ _ _ => .throw _
  refine (hexpression.map fun value hvalue => ?_).any
  refine Tree.Named.of_children rfl ?_
  exact List.forall_mem_cons.mpr ⟨htarget, List.forall_mem_singleton.mpr hvalue⟩

/-! ## Definitions -/

omit hexpression hrounds in
theorem proceed_parameter :
    Proceed good limit 1 parameter parameter (Parameter.Named good) := by
  refine (proceed_expect _ (by decide)).andThen fun typeName htypeName => ?_
  refine ((proceed_expect _ (by decide)).map fun name hname => ?_).any
  exact ⟨htypeName rfl, hname rfl⟩

theorem proceed_functionBody :
    Proceed good limit 1 (functionBody rounds expression) (functionBody rounds' expression')
      fun result => result.2.Named good := by
  intro stream hsound hlength
  have hpair {limit : Nat} {parser parser' : Parser Node} (givesBody : Bool)
      (h : Proceed good limit 1 parser parser' (Tree.Named good)) :
      Proceed good limit 1 (do return (givesBody, ← parser)) (do return (givesBody, ← parser'))
        fun result => result.2.Named good :=
    h.map fun _ => id
  refine .byKind ?_
  split
  · exact hpair false (proceed_block hexpression hrounds) stream hsound hlength
  · next hkind =>
    refine .advance_shorter hsound hlength (by rw [hkind]; decide) ?_
    refine proceed_skipSeparators.andThen fun _ _ => ?_
    exact (hpair true (hexpression.shorter (Nat.sub_le limit 1))).any
  · exact .fail _

section Definition

variable {stream : TokenStream} (hsound : stream.Sound good)
  (htail : stream.tail.rest.length < limit)

include hsound htail

omit hexpression hrounds in
/-- What follows two tokens need only be known at the row behind the first. -/
theorem ProceedAt.advance_twice {next next' : Token → Token → Parser Node} {post : Node → Prop}
    (h : Proceed good limit 1 (next stream.peek (stream.peekAt 1))
      (next' stream.peek (stream.peekAt 1)) post) :
    ProceedAt stream 1 (Parser.advance >>= fun typeName => Parser.advance >>= next typeName)
      (Parser.advance >>= fun typeName => Parser.advance >>= next' typeName) post := by
  have htail' : stream.tail.tail.rest.length < limit :=
    Nat.lt_of_le_of_lt (List.tail_suffix _).length_le htail
  exact .advance (.advance_tail hsound.tail htail' (stream.peek_tail ▸ h))

omit hrounds in
theorem proceedAt_declaration :
    ProceedAt stream 1 (declaration expression) (declaration expression') fun node =>
      good stream.peek.lexeme → good (stream.peekAt 1).lexeme → node.Named good := by
  refine .advance_twice hsound htail ((proceed_expect _ (by decide)).andThen fun _ _ => ?_)
  refine ((hexpression.shorter (Nat.sub_le limit 1)).map fun value hvalue => ?_).any
  intro htypeName hname
  refine Tree.named_iff.mpr ⟨?_, List.forall_mem_singleton.mpr hvalue⟩
  exact List.forall_mem_cons.mpr ⟨htypeName, List.forall_mem_singleton.mpr hname⟩

theorem proceedAt_functionDef :
    ProceedAt stream 1 (functionDef rounds expression) (functionDef rounds' expression') fun node =>
      good stream.peek.lexeme → good (stream.peekAt 1).lexeme → node.Named good := by
  refine .advance_twice hsound htail ((proceed_expect _ (by decide)).andThen fun _ _ => ?_)
  have hitems := proceed_itemsBefore (@proceed_parameter good _)
    (hrounds.shorter (Nat.sub_le limit 1)) .rightParen
  refine hitems.andThen fun parameters hparameters => ?_
  refine ((proceed_expect _ (by decide)).andThen fun _ _ => ?_).any
  have hbody := proceed_functionBody hexpression hrounds
  refine ((hbody.shorter (by omega)).map fun result hresult => ?_).any
  intro hreturnType hname
  refine Tree.named_iff.mpr ⟨?_, List.forall_mem_singleton.mpr hresult⟩
  refine List.forall_mem_cons.mpr ⟨hreturnType, List.forall_mem_cons.mpr ⟨hname, ?_⟩⟩
  intro written hwritten
  obtain ⟨parameter, hparameter, hwritten⟩ := List.mem_flatMap.mp hwritten
  obtain ⟨htypeName, hname⟩ := hparameters parameter hparameter
  exact List.forall_mem_cons.mpr ⟨htypeName, List.forall_mem_singleton.mpr hname⟩ written hwritten

end Definition

/-! ## Expressions -/

theorem proceed_expressionWith :
    Proceed good (limit + 1) 1 (expressionWith rounds expression)
      (expressionWith rounds' expression') (Tree.Named good) := by
  intro stream hsound hlength
  refine .get ?_
  split
  · next hdefinition =>
    obtain ⟨htype, hname⟩ := hdefinition
    have htail : stream.tail.rest.length < limit :=
      hsound.tail_length_lt (by rw [htype]; decide) hlength
    have hnamed {node : Node} (h : good stream.peek.lexeme → good (stream.peekAt 1).lexeme →
        node.Named good) : node.Named good :=
      h (hsound.good_peek htype)
        (stream.peek_tail ▸ hsound.tail.good_peek (stream.peek_tail ▸ hname))
    split
    · refine (proceedAt_functionDef hexpression hrounds hsound htail).mono (Nat.le_refl 1) ?_
      exact fun _ => hnamed
    · refine (proceedAt_declaration hexpression hsound htail).mono (Nat.le_refl 1) ?_
      exact fun _ => hnamed
    · exact .throw _
  · exact proceed_assignment hexpression hrounds stream hsound hlength

end Nested

/-- Expressions that nest to a number of levels, with rounds for the loops in them. What is
nested deeper is left to some other parser. -/
def limited (rounds : Rounds) (deepest : Parser Node) : Nat → Parser Node
  | 0 => deepest
  | levels + 1 => expressionWith rounds (limited rounds deepest levels)

/-- With enough rounds and levels, it does not matter how many, nor what is left to the other
parsers. -/
theorem proceed_limited {levels : Nat} (deepest : Parser Node) (hrounds : limit ≤ rounds.count)
    (hrounds' : limit ≤ rounds'.count) (hlevels : limit ≤ levels) :
    Proceed good limit 1 (expression rounds) (limited rounds' deepest levels)
      (Tree.Named good) := by
  induction limit generalizing rounds levels with
  | zero => exact .zero
  | succ limit ih =>
      obtain ⟨levels, rfl⟩ : ∃ less, levels = less + 1 := ⟨levels - 1, by omega⟩
      cases rounds with
      | spent beyond => exact absurd hrounds (Nat.not_succ_le_zero limit)
      | more rounds =>
          have hless := Nat.le_of_succ_le_succ hrounds
          have hless' := Nat.le_of_succ_le hrounds'
          have hinner := ih hless hless' (Nat.le_of_succ_le_succ hlevels)
          exact proceed_expressionWith hinner (.of_le hless hless')

theorem proceed_expression (limit count : Nat) :
    Proceed good limit 1 (expression count) (expression count) (Tree.Named good) := by
  induction count with
  | zero => exact fun _ _ _ => .fail _
  | succ count ih =>
      exact (proceed_expressionWith ih (.refl limit count)).shorter (Nat.le_succ limit)

end Parser

/-! ## Programs -/

theorem TokenStream.sound_ofTokens (tokens : List Token) :
    (TokenStream.ofTokens tokens).Sound fun name =>
      ∃ token ∈ tokens, token.kind = .identifier ∧ token.lexeme = name where
  ending := Grammar.ofTokens_ending_kind tokens
  named token htoken hkind :=
    ⟨token, (List.takeWhile_prefix _).subset htoken, hkind, rfl⟩

/-- The names in a program are spelt as identifiers among its tokens are. -/
theorem Tree.named_of_ofTokens {tokens : List Token} {tree : Tree Span}
    (h : Tree.ofTokens tokens = .ok tree) :
    tree.Named fun name => ∃ token ∈ tokens, token.kind = .identifier ∧ token.lexeme = name := by
  have hsound := TokenStream.sound_ofTokens tokens
  rw [Tree.ofTokens] at h
  generalize TokenStream.ofTokens tokens = stream at h hsound
  cases hrun : Parser.program.run stream with
  | error error =>
      rw [hrun] at h
      cases h
  | ok result =>
      rw [hrun] at h
      cases h
      rw [Parser.run_program] at hrun
      have hprogram := Parser.proceed_statementRow
        (Parser.proceed_expression _ (stream.rest.length + 1)) (.refl _ (stream.rest.length + 1))
        .endOfInput stream hsound (Nat.lt_succ_self _)
      exact hprogram.post hrun

end Script
