/-
# Operations are read steadily

An operand with what follows it, and operators on their levels. What takes any number of
operators or brackets stops at the first token that is none.
-/

import Script.Proofs.Parser.Primary

namespace Script.Parser

open Grammar

variable {ι : Type} {limit : Nat} {size bound count : ι → Nat} {expression : ι → Parser Node}
  {name : Token}

/-! ## Trailers -/

theorem run_trailers_of_isQuiet {tokens : List Token} {ending : Token} {bound : Nat}
    {expression : Parser Node} (hending : ending.kind = .endOfInput)
    (hquiet : isQuiet (nextKind tokens) = true) {count : Nat} (hcount : 0 < count)
    (object : Node) :
    (trailers bound expression count object).run ⟨tokens, ending⟩ =
      .ok (object, ⟨tokens, ending⟩) := by
  obtain ⟨less, rfl⟩ := Nat.exists_eq_succ_of_ne_zero (Nat.ne_of_gt hcount)
  rw [Rounds.ofCount_succ, trailers, run_bind_of_ok (run_peekKind_eq hending)]
  cases hkind : nextKind tokens <;> first | rfl | (rw [hkind] at hquiet; cases hquiet)

theorem completes_trailers (hcount : ∀ i, size i ≤ count i) (object : Node) :
    Completes size (fun i => trailers (bound i) (expression i) (count i) object) (isQuiet ·)
      [] [] :=
  .nil isPlain_of_isQuiet fun i _ _ hpos hquiet hending =>
    ⟨object, run_trailers_of_isQuiet hending hquiet (Nat.lt_of_lt_of_le hpos (hcount i)) object⟩

section Trailer

variable (hexpression : Steady (limit + 1) size expression (isQuiet ·) 1 [name])
  {others : ι → Node → Parser Node}
  (hothers : ∀ object, Steady limit (fun i => size i - 1) (others · object) (isQuiet ·) 0 [])
  (object : Node)

include hothers

theorem steady_inMember :
    Steady (limit + 1) size
      (fun i => do
        let name ← expect .identifier .expectedMemberName
        others i (.member (object.site.through name.span) object name.lexeme))
      (isQuiet ·) 1 [mark .identifier] := by
  have hlabel := @Steady.expect _ size (limit + 1) .identifier .expectedMemberName (by decide) rfl
  exact hlabel.bind_shorter (fun label => hothers _) fun _ => isPlain_of_isQuiet _

include hexpression

theorem steady_inIndex :
    Steady (limit + 1) size
      (fun i => do
        let key ← spaced (expression i)
        let closing ← expect .rightBracket .expectedRightBracket
        others i (.index (object.site.through closing.span) object key))
      (isQuiet ·) 2 [name, mark .rightBracket] := by
  have hclosing :=
    @Steady.expect _ size (limit + 1) .rightBracket .expectedRightBracket (by decide) rfl
  have hbehind (key : Node) := hclosing.bind_shorter
    (fun closing => hothers (.index (object.site.through closing.span) object key))
    fun _ => isPlain_of_isQuiet _
  exact (steady_spaced hexpression).bind hbehind fun _ _ => rfl

theorem steady_inCall (hbound : ∀ i, size i ≤ bound i) :
    Steady (limit + 1) size
      (fun i => do
        let (arguments, closing) ←
          items .rightParen .expectedCommaOrRightParen (bound i) (expression i)
        others i (.call (object.site.through closing.span) object arguments))
      (isQuiet ·) 1 [mark .rightParen] :=
  (steady_items hexpression hbound _ rfl (by decide)).bind_shorter
    (fun items => hothers (.call (object.site.through items.2.span) object items.1))
    fun _ => isPlain_of_isQuiet _

end Trailer

theorem steady_trailers (hexpression : Steady limit size expression (isQuiet ·) 1 [name])
    (hbound : ∀ i, size i ≤ bound i) (hcount : ∀ i, size i ≤ count i) (object : Node) :
    Steady limit size (fun i => trailers (bound i) (expression i) (count i) object) (isQuiet ·) 0
      [] := by
  induction limit generalizing size count object with
  | zero => exact .zero (completes_trailers hcount object) (Nat.le_refl 0)
  | succ limit ih =>
      have hless (i : ι) := Nat.sub_le_sub_right (hcount i) 1
      have hothers := ih hexpression.shorter (fun i => Nat.le_trans (Nat.sub_le _ _) (hbound i))
        hless
      refine .of_count (fun i left => trailers (bound i) (expression i) left object)
        ⟨fun tokens htokens => .peekKind ?_,
          completes_trailers (fun i => Nat.le_add_of_sub_le (hless i)) object, Nat.le_refl 0⟩ hcount
      obtain _ | ⟨token, tokens⟩ := tokens
      · exact .pure object []
      rw [nextKind_cons]
      cases hkind : token.kind with
      | dot =>
          exact .atLeast (.cons (fun _ _ _ _ => rfl) (steady_inMember hothers object) htokens)
            (Nat.zero_le 1)
      | leftBracket =>
          exact .atLeast (.cons (fun _ _ _ _ => rfl)
            (steady_inIndex hexpression hothers object) htokens) (Nat.zero_le 1)
      | leftParen =>
          exact .atLeast (.cons (fun _ _ _ _ => rfl)
            (steady_inCall hexpression hothers object hbound) htokens) (Nat.zero_le 1)
      | _ => exact .pure object _

/-! ## Operators -/

section Operators

variable {binary? : Token.Kind → Option BinaryOperator} {unary? : Token.Kind → Option UnaryOperator}
  {operand : ι → Parser Node}

theorem run_operations_of_none {tokens : List Token} {ending : Token} {operand : Parser Node}
    (hending : ending.kind = .endOfInput) (hnone : binary? (nextKind tokens) = none)
    {count : Nat} (hcount : 0 < count) (left : Node) :
    (operations binary? operand count left).run ⟨tokens, ending⟩ =
      .ok (left, ⟨tokens, ending⟩) := by
  obtain ⟨less, rfl⟩ := Nat.exists_eq_succ_of_ne_zero (Nat.ne_of_gt hcount)
  rw [Rounds.ofCount_succ, operations, run_bind_of_ok (run_peekKind_eq hending), hnone]
  rfl

theorem completes_operations (hquiet : ∀ kind, isQuiet kind = true → binary? kind = none)
    (hcount : ∀ i, size i ≤ count i) (left : Node) :
    Completes size (fun i => operations binary? (operand i) (count i) left) (isQuiet ·) [] [] :=
  .nil isPlain_of_isQuiet fun i _ _ hpos hnext hending =>
    ⟨left, run_operations_of_none hending (hquiet _ hnext) (Nat.lt_of_lt_of_le hpos (hcount i))
      left⟩

theorem steady_operations (hoperand : Steady limit size operand (isQuiet ·) 1 [name])
    (hquiet : ∀ kind, isQuiet kind = true → binary? kind = none)
    (hcount : ∀ i, size i ≤ count i) (left : Node) :
    Steady limit size (fun i => operations binary? (operand i) (count i) left) (isQuiet ·) 0
      [] := by
  induction limit generalizing size count left with
  | zero => exact .zero (completes_operations hquiet hcount left) (Nat.le_refl 0)
  | succ limit ih =>
      have hless (i : ι) := Nat.sub_le_sub_right (hcount i) 1
      have hothers := ih hoperand.shorter hless
      refine .of_count (fun i rounds => operations binary? (operand i) rounds left)
        ⟨fun tokens htokens => .peekKind ?_,
          completes_operations hquiet (fun i => Nat.le_add_of_sub_le (hless i)) left,
          Nat.le_refl 0⟩ hcount
      obtain _ | ⟨token, tokens⟩ := tokens
      · rw [nextKind_nil, hquiet _ rfl]
        exact .pure left []
      rw [nextKind_cons]
      cases hkind : binary? token.kind with
      | none => exact .pure left _
      | some operator =>
          have hinner := hoperand.bind_shorter
            (fun right => hothers (.binary (left.site.through right.site) operator left right))
            fun _ => id
          exact .atLeast (.cons (fun _ _ _ _ => rfl) hinner htokens) (Nat.zero_le 1)

theorem steady_leftAssociative (hoperand : Steady (limit + 1) size operand (isQuiet ·) 1 [name])
    (hquiet : ∀ kind, isQuiet kind = true → binary? kind = none)
    (hbound : ∀ i, size i ≤ bound i + 1) :
    Steady (limit + 1) size (fun i => leftAssociative binary? (bound i) (operand i)) (isQuiet ·) 1
      [name] :=
  hoperand.bind_shorter (fun first => steady_operations hoperand.shorter hquiet
    (fun i => Nat.sub_le_of_le_add (hbound i)) first) fun _ => id

/-- The operators at the front of a row are in front of any row that begins with none. -/
theorem exists_takeOperators (tokens : List Token) :
    ∃ taken, tokens = taken ++ (takeOperators unary? tokens).2 ∧
      (unary? .endOfInput = none → unary? (nextKind (takeOperators unary? tokens).2) = none) ∧
      ∀ row, unary? (nextKind row) = none →
        takeOperators unary? (taken ++ row) = ((takeOperators unary? tokens).1, row) := by
  induction tokens with
  | nil => exact ⟨[], rfl, id, fun _ => takeOperators_eq_self⟩
  | cons token tokens ih =>
      cases hkind : unary? token.kind with
      | none =>
          have hself : takeOperators unary? (token :: tokens) = ([], token :: tokens) :=
            takeOperators_eq_self hkind
          rw [hself]
          exact ⟨[], rfl, fun _ => hkind, fun _ => takeOperators_eq_self⟩
      | some operator =>
          obtain ⟨taken, htokens, hnext, hrow⟩ := ih
          simp only [takeOperators, hkind]
          refine ⟨token :: taken, congrArg (token :: ·) htokens, hnext, fun row hnone => ?_⟩
          rw [List.cons_append, takeOperators, hkind, hrow row hnone]

theorem run_takeOperators {tokens rest : List Token} {operators : List (UnaryOperator × Span)}
    (h : takeOperators unary? tokens = (operators, rest)) (ending : Token) :
    (modifyGet fun stream =>
      let (operators, rest) := takeOperators unary? stream.rest
      (operators, { stream with rest }) : Parser (List (UnaryOperator × Span))).run
        ⟨tokens, ending⟩ = .ok (operators, ⟨rest, ending⟩) := by
  change Except.ok ((takeOperators unary? tokens).1,
    TokenStream.mk (takeOperators unary? tokens).2 ending) = _
  rw [h]

theorem steady_takeOperators (hend : unary? .endOfInput = none) :
    Steady limit size
      (fun _ => (modifyGet fun stream =>
        let (operators, rest) := takeOperators unary? stream.rest
        (operators, { stream with rest }) : Parser (List (UnaryOperator × Span))))
      (fun kind => unary? kind = none ∧ isPlain kind = true) 0 [] where
  steadyAt tokens _ := by
    obtain ⟨taken, htokens, hnext, hrow⟩ := @exists_takeOperators unary? tokens
    exact .takes (unary? · = none) taken (takeOperators unary? tokens).1 htokens (hnext hend)
      (fun _ row ending _ hnone => run_takeOperators (hrow row hnone) ending) (fun _ _ h => h)
      (Nat.zero_le _)
  completes := by
    refine .nil (fun _ h => h.2) fun i rest ending _ hrest _ => ⟨[], ?_⟩
    exact run_takeOperators (takeOperators_eq_self hrest.1) ending
  least_le := Nat.le_refl 0

theorem steady_rightAssociative (hoperand : Steady limit size operand (isQuiet ·) 1 [name])
    (hname : name.kind = .identifier) (hend : unary? .endOfInput = none)
    (hidentifier : unary? .identifier = none) :
    Steady limit size (fun i => rightAssociative unary? (operand i)) (isQuiet ·) 1 [name] := by
  have hnode (operators : List (UnaryOperator × Span)) :=
    hoperand.map (fun node => operators.foldr applyOperator node) isPlain_of_isQuiet
  refine (steady_takeOperators hend).bind hnode fun rest hrest => ⟨?_, ?_⟩
  · rw [List.cons_append, nextKind_cons, hname, hidentifier]
  · exact hoperand.completes.plain rest hrest

end Operators

/-! ## Levels -/

section Level

variable (hname : name.kind = .identifier)
  (hexpression : Steady limit size expression (isQuiet ·) 1 [name])
  (hbound : ∀ i, size i ≤ bound i)

include hname hexpression hbound

theorem steady_operand :
    Steady (limit + 1) (fun i => size i + 1) (fun i => operand (bound i) (expression i))
      (isQuiet ·) 1 [name] :=
  (steady_primary hname hexpression hbound).bind_shorter
    (fun object => steady_trailers hexpression hbound hbound object) fun _ => id

theorem steady_product :
    Steady (limit + 1) (fun i => size i + 1) (fun i => product (bound i) (expression i))
      (isQuiet ·) 1 [name] := by
  have hsigned :
      Steady (limit + 1) (fun i => size i + 1) (fun i => signed (bound i) (expression i))
        (isQuiet ·) 1 [name] :=
    steady_rightAssociative (steady_operand hname hexpression hbound) hname rfl rfl
  refine steady_leftAssociative hsigned (fun kind hkind => ?_) fun i => Nat.succ_le_succ (hbound i)
  cases kind <;> first | rfl | cases hkind

theorem steady_sum :
    Steady (limit + 1) (fun i => size i + 1) (fun i => sum (bound i) (expression i))
      (isQuiet ·) 1 [name] := by
  refine steady_leftAssociative (steady_product hname hexpression hbound) (fun kind hkind => ?_)
    fun i => Nat.succ_le_succ (hbound i)
  cases kind <;> first | rfl | cases hkind

theorem steady_comparison :
    Steady (limit + 1) (fun i => size i + 1) (fun i => comparison (bound i) (expression i))
      (isQuiet ·) 1 [name] := by
  refine steady_rightAssociative (steady_leftAssociative (steady_sum hname hexpression hbound)
    (fun kind hkind => ?_) fun i => Nat.succ_le_succ (hbound i)) hname rfl rfl
  cases kind <;> first | rfl | cases hkind

theorem steady_logical :
    Steady (limit + 1) (fun i => size i + 1) (fun i => logical (bound i) (expression i))
      (isQuiet ·) 1 [name] := by
  refine steady_leftAssociative (steady_comparison hname hexpression hbound) (fun kind hkind => ?_)
    fun i => Nat.succ_le_succ (hbound i)
  cases kind <;> first | rfl | cases hkind

end Level

end Script.Parser
