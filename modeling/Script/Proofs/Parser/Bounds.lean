/-
# The rounds of the parser are never used up

Every parser of the grammar proceeds alike with any rounds for its loops that suffice for the
tokens behind its first one, and with any two parsers for nested expressions that proceed
alike from shorter rows. Each round of a loop takes a token, or it is the last. So where
there are more rounds than tokens it does not matter how many, nor what stands behind them.
-/

import Script.Proofs.Parser.Progress

namespace Script.Parser

open Grammar

variable {α : Type} {good : String → Prop} {limit limit' : Nat} {rounds rounds' : Rounds}

/-- The rounds of two loops suffice for rows shorter than a limit, if every round but the last
takes a token: before either are spent the row is, or both are spent together and fail. -/
inductive Suffice : Nat → Rounds → Rounds → Prop
  | failing {limit : Nat} : Suffice limit (Rounds.ofCount 0) (Rounds.ofCount 0)
  | past {rounds rounds' : Rounds} : Suffice 0 rounds rounds'
  | more {limit : Nat} {rounds rounds' : Rounds} (hless : Suffice (limit - 1) rounds rounds') :
      Suffice limit (.more rounds) (.more rounds')

theorem Suffice.refl (limit count : Nat) : Suffice limit count count := by
  induction count generalizing limit with
  | zero => exact .failing
  | succ count ih => exact .more (ih (limit - 1))

theorem Suffice.of_le (h : limit ≤ rounds.count) (h' : limit ≤ rounds'.count) :
    Suffice limit rounds rounds' := by
  induction limit generalizing rounds rounds' with
  | zero => exact .past
  | succ limit ih =>
      cases rounds with
      | spent beyond => exact absurd h (Nat.not_succ_le_zero limit)
      | more rounds =>
          cases rounds' with
          | spent beyond => exact absurd h' (Nat.not_succ_le_zero limit)
          | more rounds' =>
              exact .more (ih (Nat.le_of_succ_le_succ h) (Nat.le_of_succ_le_succ h'))

theorem Suffice.shorter (h : Suffice limit rounds rounds') (hlimit : limit' ≤ limit) :
    Suffice limit' rounds rounds' := by
  induction h generalizing limit' with
  | failing => exact .failing
  | past =>
      obtain rfl : limit' = 0 := Nat.le_zero.mp hlimit
      exact .past
  | more _ ih => exact .more (ih (Nat.sub_le_sub_right hlimit 1))

/-! ## Rows of items -/

section Items

variable {item item' : Parser α} {post : α → Prop}

theorem proceed_commaSeparated (hitem : Proceed good limit 1 item item' post)
    (hrounds : Suffice limit rounds rounds') :
    Proceed good limit 1 (commaSeparated item rounds) (commaSeparated item' rounds')
      fun items => ∀ a ∈ items, post a := by
  induction hrounds with
  | failing => exact fun _ _ _ => .fail _
  | past => exact .zero
  | @more limit rounds rounds' _ ih =>
      have hothers := ih (hitem.shorter (Nat.sub_le limit 1))
      refine hitem.andThen fun first hfirst => .accept nofun ?_ (.pure ?_)
      · refine ((hothers.shorter (Nat.sub_le _ 1)).map fun others hothers => ?_).any
        exact List.forall_mem_cons.mpr ⟨hfirst, hothers⟩
      · exact List.forall_mem_singleton.mpr hfirst

theorem proceed_itemsBefore (hitem : Proceed good limit 1 item item' post)
    (hrounds : Suffice limit rounds rounds') (close : Token.Kind) :
    Proceed good limit 0 (itemsBefore close item rounds) (itemsBefore close item' rounds')
      fun items => ∀ a ∈ items, post a :=
  .byKind fun _ => .ite (fun _ => .pure (List.forall_mem_nil _))
    fun _ => (proceed_commaSeparated hitem hrounds).any

end Items

theorem proceed_statementsBefore {item item' : Parser Node}
    (hitem : Proceed good limit 1 item item' (Tree.Named good))
    (hrounds : Suffice limit rounds rounds') (close : Token.Kind) :
    Proceed good limit 0 (statementsBefore close item rounds) (statementsBefore close item' rounds')
      fun statements => ∀ statement ∈ statements, statement.Named good := by
  induction hrounds with
  | failing => exact fun _ _ _ => .fail _
  | past => exact .zero
  | @more limit rounds rounds' _ ih =>
      refine proceed_skipSeparators.andThen fun _ _ => .byKind fun _ => ?_
      refine .ite (fun _ => .pure (List.forall_mem_nil _)) fun _ => ?_
      refine (hitem.andThen fun first hfirst => .byKind fun _ => ?_).any
      have hothers : Proceed good (limit - 1) 0
          (return first :: (← statementsBefore close item rounds))
          (return first :: (← statementsBefore close item' rounds'))
          fun statements => ∀ statement ∈ statements, statement.Named good :=
        (ih (hitem.shorter (Nat.sub_le limit 1))).map fun others hothers =>
          List.forall_mem_cons.mpr ⟨hfirst, hothers⟩
      refine .ite (fun _ => .pure (List.forall_mem_singleton.mpr hfirst)) fun _ => ?_
      refine .ite (fun _ => ?_) fun _ => hothers
      have hfail : Proceed good (limit - 1) 0 (fail .expectedSeparator : Parser PUnit)
          (fail .expectedSeparator) fun _ => True := fun _ _ _ => .fail _
      exact hfail.andThen fun _ _ => hothers

/-- A parser that gives one tree behind the token in front. -/
theorem ProceedAt.leaf {stream : TokenStream} {node : Node} (hsound : stream.Sound good)
    (hkind : stream.peek.kind ≠ .endOfInput) (h : node.Named good) :
    ProceedAt stream 1 (Parser.advance >>= fun _ => Pure.pure node)
      (Parser.advance >>= fun _ => Pure.pure node) (Tree.Named good) :=
  .advance_shorter hsound (Nat.lt_succ_self _) hkind (.pure h)

section Nested

variable {expression expression' : Parser Node}
  (hexpression : Proceed good limit 1 expression expression' (Tree.Named good))
  (hrounds : Suffice limit rounds rounds')

include hexpression

/-! ## Statements -/

theorem proceed_statement :
    Proceed good limit 1 (statement expression) (statement expression') (Tree.Named good) := by
  intro stream hsound hlength
  refine .peek ?_
  split
  · next hkind =>
    have hfront : stream.peek.kind ≠ .endOfInput := by rw [hkind]; decide
    refine .advance_shorter hsound hlength hfront (.byKind fun _ => ?_)
    refine .ite (fun _ => .pure (.of_nil rfl rfl)) fun _ => ?_
    refine ((hexpression.shorter (Nat.sub_le limit 1)).map fun value hvalue => ?_).any
    exact Tree.Named.of_children rfl (List.forall_mem_singleton.mpr hvalue)
  · next hkind => exact .leaf hsound (by rw [hkind]; decide) (.of_nil rfl rfl)
  · next hkind => exact .leaf hsound (by rw [hkind]; decide) (.of_nil rfl rfl)
  · exact hexpression stream hsound hlength

include hrounds

theorem proceed_statementRow (close : Token.Kind) :
    Proceed good limit 0 (statementRow close rounds expression)
      (statementRow close rounds' expression') (Tree.Named good) := by
  intro stream hsound hlength
  refine .peek ?_
  refine (proceed_statementsBefore (proceed_statement hexpression) hrounds close).map
    (fun statements hstatements => ?_) stream hsound hlength
  exact Tree.Named.of_children rfl hstatements

theorem proceed_block :
    Proceed good limit 1 (block rounds expression) (block rounds' expression')
      (Tree.Named good) := by
  refine (proceed_expect _ (by decide)).andThen fun _ _ => ?_
  have hrow := proceed_statementRow hexpression hrounds .rightBrace
  refine (hrow.shorter (Nat.sub_le limit 1)).andThen fun body hbody => ?_
  exact ((proceed_expect _ (by decide)).map fun _ _ => hbody.withSite _).any

/-! ## Brackets -/

omit hrounds in
theorem proceed_spaced :
    Proceed good limit 1 (spaced expression) (spaced expression') (Tree.Named good) := by
  refine proceed_skipSeparators.before fun _ _ => hexpression.andThen fun node hnode => ?_
  exact proceed_skipSeparators.map fun _ _ => hnode

theorem proceed_items (close : Token.Kind) (problem : SyntaxProblem)
    (hclose : close ≠ .endOfInput) :
    Proceed good limit 1 (items close problem rounds expression)
      (items close problem rounds' expression')
      fun result => ∀ node ∈ result.1, node.Named good := by
  refine proceed_skipSeparators.before fun _ _ => ?_
  refine (proceed_itemsBefore (proceed_spaced hexpression) hrounds close).before ?_
  exact fun nodes hnodes => (proceed_expect problem hclose).map fun _ _ => hnodes

/-! ## Literals, parentheses and lists -/

omit hexpression hrounds in
theorem proceedAt_numberLiteral {stream : TokenStream} (hsound : stream.Sound good)
    (hkind : stream.peek.kind ≠ .endOfInput) :
    ProceedAt stream 1 numberLiteral numberLiteral (Tree.Named good) := by
  refine .advance_shorter hsound (Nat.lt_succ_self _) hkind fun _ _ _ => ?_
  split
  · exact .pure (.of_nil rfl rfl)
  · exact .throw _

omit hexpression hrounds in
theorem proceedAt_stringLiteral {stream : TokenStream} (hsound : stream.Sound good)
    (hkind : stream.peek.kind ≠ .endOfInput) :
    ProceedAt stream 1 stringLiteral stringLiteral (Tree.Named good) := by
  refine .advance_shorter hsound (Nat.lt_succ_self _) hkind fun _ _ _ => ?_
  split
  · exact .pure (.of_nil rfl rfl)
  · exact .throw _

section Keyword

variable {stream : TokenStream} (hsound : stream.Sound good)
  (htail : stream.tail.rest.length < limit)

include hsound htail

omit hrounds in
theorem proceedAt_parenthesized :
    ProceedAt stream 1 (parenthesized expression) (parenthesized expression')
      (Tree.Named good) := by
  refine .advance_tail hsound htail ((proceed_spaced hexpression).andThen fun node hnode => ?_)
  exact ((proceed_expect _ (by decide)).map fun _ _ => hnode.withSite _).any

theorem proceedAt_listLiteral :
    ProceedAt stream 1 (listLiteral rounds expression) (listLiteral rounds' expression')
      (Tree.Named good) := by
  have hitems := proceed_items hexpression hrounds .rightBrace .expectedCommaOrRightBrace
    (by decide)
  refine .advance_tail hsound htail (hitems.map fun result hresult => ?_)
  exact Tree.Named.of_children rfl hresult

end Keyword

/-! ## Conditionals, loops and namespaces -/

theorem proceed_branches {left left' : Rounds} (hleft : Suffice limit left left') :
    Proceed good limit 0 (branches rounds expression left) (branches rounds' expression' left')
      fun rest => ∀ part ∈ rest.parts, part.Named good := by
  induction hleft with
  | failing => exact fun _ _ _ => .fail _
  | past => exact .zero
  | @more limit left left' _ ih =>
      intro stream hsound hlength
      have hless : limit - 1 ≤ limit := Nat.sub_le limit 1
      have hinner := hexpression.shorter hless
      have hblock := proceed_block hinner (hrounds.shorter hless)
      have hstatement := proceed_statement hinner
      have hrest := ih hinner (hrounds.shorter hless)
      refine .byKindPastSeparators ?_
      split
      · next hkind =>
        refine (ProceedAt.skipSeparators_advance hsound hlength (by rw [hkind]; decide) ?_).any
        refine (hinner.andThen fun condition hcondition => ?_).any
        refine ((hblock.shorter (Nat.sub_le _ 1)).andThen fun body hbody => ?_).any
        refine (hrest.shorter (by omega)).map fun rest hrest => ?_
        exact List.forall_mem_cons.mpr ⟨hcondition, List.forall_mem_cons.mpr ⟨hbody, hrest⟩⟩
      · next hkind =>
        refine (ProceedAt.skipSeparators_advance hsound hlength (by rw [hkind]; decide) ?_).any
        have hbody {body : Node} (hbody : body.Named good) :
            ∀ part ∈ (Branches.otherwise body).parts, part.Named good :=
          List.forall_mem_singleton.mpr hbody
        refine .byKind fun _ => .ite (fun _ => ?_) fun _ => ?_
        · exact (hblock.map fun _ => hbody).any
        · exact (hstatement.map fun _ => hbody).any
      · exact .pure (List.forall_mem_nil _)

section Keyword

variable {stream : TokenStream} (hsound : stream.Sound good)
  (htail : stream.tail.rest.length < limit)

include hsound htail

theorem proceedAt_conditional :
    ProceedAt stream 1 (conditional rounds expression) (conditional rounds' expression')
      (Tree.Named good) := by
  refine .advance_tail hsound htail (hexpression.andThen fun condition hcondition => ?_)
  have hblock := proceed_block hexpression hrounds
  refine ((hblock.shorter (Nat.sub_le limit 1)).andThen fun body hbody => ?_).any
  have hrest := proceed_branches hexpression hrounds hrounds
  refine (hrest.shorter (by omega)).map fun rest hrest => ?_
  refine Tree.Named.of_children rfl ?_
  exact List.forall_mem_cons.mpr ⟨hcondition, List.forall_mem_cons.mpr ⟨hbody, hrest⟩⟩

theorem proceedAt_whileLoop :
    ProceedAt stream 1 (whileLoop rounds expression) (whileLoop rounds' expression')
      (Tree.Named good) := by
  refine .advance_tail hsound htail (hexpression.andThen fun condition hcondition => ?_)
  have hblock := proceed_block hexpression hrounds
  refine ((hblock.shorter (Nat.sub_le limit 1)).map fun body hbody => ?_).any
  refine Tree.Named.of_children rfl ?_
  exact List.forall_mem_cons.mpr ⟨hcondition, List.forall_mem_singleton.mpr hbody⟩

theorem proceedAt_namespaceDef :
    ProceedAt stream 1 (namespaceDef rounds expression) (namespaceDef rounds' expression')
      (Tree.Named good) := by
  refine .advance_tail hsound htail ((proceed_expect _ (by decide)).andThen fun name hname => ?_)
  have hblock := proceed_block hexpression hrounds
  refine ((hblock.shorter (Nat.sub_le limit 1)).map fun body hbody => ?_).any
  refine Tree.named_iff.mpr ⟨?_, List.forall_mem_singleton.mpr hbody⟩
  exact List.forall_mem_singleton.mpr (hname rfl)

end Keyword

/-! ## Operands -/

theorem proceed_primary :
    Proceed good (limit + 1) 1 (primary rounds expression) (primary rounds' expression')
      (Tree.Named good) := by
  intro stream hsound hlength
  have htail (hkind : stream.peek.kind ≠ .endOfInput) : stream.tail.rest.length < limit :=
    hsound.tail_length_lt hkind hlength
  refine .byKind ?_
  split
  · next hkind => exact proceedAt_numberLiteral hsound (by rw [hkind]; decide)
  · next hkind => exact proceedAt_numberLiteral hsound (by rw [hkind]; decide)
  · next hkind => exact proceedAt_numberLiteral hsound (by rw [hkind]; decide)
  · next hkind => exact proceedAt_stringLiteral hsound (by rw [hkind]; decide)
  · next hkind =>
    have hname := List.forall_mem_singleton.mpr (hsound.good_peek hkind)
    refine .advance_shorter hsound hlength (by rw [hkind]; decide) (.pure ?_)
    exact Tree.named_iff.mpr ⟨hname, List.forall_mem_nil _⟩
  · next hkind =>
    exact proceedAt_parenthesized hexpression hsound (htail (by rw [hkind]; decide))
  · next hkind =>
    exact proceedAt_listLiteral hexpression hrounds hsound (htail (by rw [hkind]; decide))
  · next hkind =>
    exact proceedAt_conditional hexpression hrounds hsound (htail (by rw [hkind]; decide))
  · next hkind =>
    exact proceedAt_whileLoop hexpression hrounds hsound (htail (by rw [hkind]; decide))
  · next hkind =>
    exact proceedAt_namespaceDef hexpression hrounds hsound (htail (by rw [hkind]; decide))
  · exact .fail _

theorem proceed_trailers {left left' : Rounds} (hleft : Suffice limit left left')
    {object : Node} (hobject : object.Named good) :
    Proceed good limit 0 (trailers rounds expression left object)
      (trailers rounds' expression' left' object) (Tree.Named good) := by
  induction hleft generalizing object with
  | failing => exact fun _ _ _ => .fail _
  | past => exact .zero
  | @more limit left left' _ ih =>
      intro stream hsound hlength
      have hless : limit - 1 ≤ limit := Nat.sub_le limit 1
      have hinner := hexpression.shorter hless
      have hrest {object : Node} (hobject : object.Named good) :=
        ih hinner (hrounds.shorter hless) hobject
      refine .byKind ?_
      split
      · next hkind =>
        refine (ProceedAt.advance_shorter hsound hlength (by rw [hkind]; decide) ?_).any
        refine ((proceed_expect _ (by decide)).andThen fun name hname => ?_).any
        refine (hrest (Tree.named_iff.mpr ⟨?_, ?_⟩)).shorter (Nat.sub_le _ 1)
        · exact List.forall_mem_singleton.mpr (hname rfl)
        · exact List.forall_mem_singleton.mpr hobject
      · next hkind =>
        refine (ProceedAt.advance_shorter hsound hlength (by rw [hkind]; decide) ?_).any
        refine ((proceed_spaced hinner).andThen fun key hkey => ?_).any
        refine ((proceed_expect _ (by decide)).andThen fun _ _ => ?_).any
        refine (hrest (Tree.Named.of_children rfl ?_)).shorter (by omega)
        exact List.forall_mem_cons.mpr ⟨hobject, List.forall_mem_singleton.mpr hkey⟩
      · next hkind =>
        refine (ProceedAt.advance_shorter hsound hlength (by rw [hkind]; decide) ?_).any
        have hitems := proceed_items hinner (hrounds.shorter hless) .rightParen
          .expectedCommaOrRightParen (by decide)
        refine (hitems.andThen fun result hresult => ?_).any
        refine (hrest (Tree.Named.of_children rfl ?_)).shorter (Nat.sub_le _ 1)
        exact List.forall_mem_cons.mpr ⟨hobject, hresult⟩
      · exact .pure hobject

theorem proceed_operand :
    Proceed good (limit + 1) 1 (operand rounds expression) (operand rounds' expression')
      (Tree.Named good) :=
  (proceed_primary hexpression hrounds).andThen fun _ hobject =>
    proceed_trailers hexpression hrounds hrounds hobject

end Nested

end Script.Parser
