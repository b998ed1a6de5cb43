/-
# Parsers for levels of operators and for rows of items

What the parsers that repeat another parser recognize, given what that parser
recognizes: separators around a construct, items up to a closing token, operators
before an operand, and operators between operands. The parsers of operators take as
many tokens as they can, so a level of operators is never followed by a token that
would carry it on.
-/

import Script.Proofs.Grammar.Recognition

namespace Script.Grammar

open Script.Parser

variable {bound : Nat} {ending : Token} {tokens : List Token}

/-! ## Separators around a construct -/

section Spaced

variable {parser : Parser Node} {read : Reading (Tree Unit)} {stops : List Token → Prop}

/-- What may stand behind a construct and the separators behind it. -/
def StopsSpaced (stops : List Token → Prop) (rest : List Token) : Prop :=
  nextKind rest ≠ .separator ∧ ∀ tokens, Separators tokens rest → stops tokens

theorem Separators.trans {first middle last : List Token} (h : Separators first middle)
    (hlast : Separators middle last) : Separators first last := by
  induction h with
  | none => exact hlast
  | more hkind _ ih => exact .more hkind (ih hlast)

theorem Spaced.of_separators {α : Type} {read : Reading α} {first rest : List Token} {x : α}
    (hfirst : Separators tokens first) (h : Spaced read first rest x) :
    Spaced read tokens rest x := by
  obtain ⟨hbefore, hx, hbehind⟩ := h
  exact .intro (hfirst.trans hbefore) hx hbehind

/-- Separators before a construct that begins with none make no difference. -/
theorem Spaced.pastSeparators {α : Type} {read : Reading α} {rest : List Token} {x : α}
    (hstart : ∀ {tokens rest x}, read tokens rest x → nextKind tokens ≠ .separator)
    (h : Spaced read tokens rest x) : Spaced read (pastSeparators tokens) rest x := by
  obtain ⟨hbefore, hx, hbehind⟩ := h
  rw [← hbefore.eq_pastSeparators (hstart hx)]
  exact .intro .none hx hbehind

theorem recognizes_spaced (hparser : Recognizes bound parser Tree.shape read stops)
    (hstart : ∀ {tokens rest tree}, read tokens rest tree → nextKind tokens ≠ .separator) :
    Recognizes bound (spaced parser) Tree.shape (Spaced read) (StopsSpaced stops) where
  sound := by
    intro ending tokens node after hending hlength hrun
    rw [spaced, run_bind_of_ok (run_skipSeparators _ _)] at hrun
    obtain ⟨node', _, hnode, hrun⟩ := run_bind_eq_ok_iff.mp hrun
    have hsuffix := pastSeparators_suffix tokens
    obtain ⟨rest, rfl, hbehind, hread⟩ :=
      hparser.sound hending (Nat.lt_of_le_of_lt hsuffix.length_le hlength) hnode
    rw [run_bind_of_ok (run_skipSeparators _ _), run_pure] at hrun
    cases hrun
    exact ⟨pastSeparators rest, rfl,
      (Behind.of_suffix hsuffix hbehind).trans_suffix (pastSeparators_suffix rest),
      .intro (separators_pastSeparators tokens) hread (separators_pastSeparators rest)⟩
  complete := by
    rintro ending tokens rest tree hending hlength ⟨hbefore, hread, hbehind⟩ ⟨hrest, hstops⟩
    rw [hbefore.eq_pastSeparators (hstart hread)] at hread
    have hsuffix := pastSeparators_suffix tokens
    obtain ⟨node, hrun, hshape⟩ := hparser.complete hending
      (Nat.lt_of_le_of_lt hsuffix.length_le hlength) hread (hstops _ hbehind)
    refine ⟨node, ?_, hshape⟩
    rw [spaced, run_bind_of_ok (run_skipSeparators _ _), run_bind_of_ok hrun,
      run_bind_of_ok (run_skipSeparators _ _), run_pure, hbehind.eq_pastSeparators hrest]

end Spaced

/-! ## Items up to a closing token -/

section Items

variable {parser : Parser Node} {read : Reading (Tree Unit)} {stops : List Token → Prop}
  {close : Token.Kind}

theorem CommaSeparated.of_separators {α : Type} {read : Reading α} {first rest : List Token}
    {xs : List α} (hfirst : Separators tokens first)
    (h : CommaSeparated (Spaced read) first rest xs) :
    CommaSeparated (Spaced read) tokens rest xs := by
  cases h with
  | one hx => exact .one (hx.of_separators hfirst)
  | more hx hcomma hxs => exact .more (hx.of_separators hfirst) hcomma hxs

theorem CommaSeparated.pastSeparators {α : Type} {read : Reading α} {rest : List Token}
    {xs : List α}
    (hstart : ∀ {tokens rest x}, read tokens rest x → nextKind tokens ≠ .separator)
    (h : CommaSeparated (Spaced read) tokens rest xs) :
    CommaSeparated (Spaced read) (pastSeparators tokens) rest xs := by
  cases h with
  | one hx => exact .one (hx.pastSeparators hstart)
  | more hx hcomma hxs => exact .more (hx.pastSeparators hstart) hcomma hxs

/-- What a closing token must be for items to end at it and nowhere else. -/
structure Closes (read : Reading (Tree Unit)) (stops : List Token → Prop)
    (close : Token.Kind) : Prop where
  ne_separator : close ≠ .separator
  ne_comma : close ≠ .comma
  ne_ending : close ≠ .endOfInput
  starts : ∀ {tokens rest tree}, read tokens rest tree →
    nextKind tokens ≠ .separator ∧ nextKind tokens ≠ close
  stops : ∀ {tokens token rest}, token.kind = close ∨ token.kind = .comma →
    Separators tokens (token :: rest) → stops tokens

theorem Closes.stopsSpaced (hclose : Closes read stops close) {token : Token}
    {rest : List Token} (hkind : token.kind = close ∨ token.kind = .comma) :
    StopsSpaced stops (token :: rest) := by
  refine ⟨?_, fun tokens hseparators => hclose.stops hkind hseparators⟩
  rw [nextKind_cons]
  rcases hkind with hkind | hkind
  · rw [hkind]
    exact hclose.ne_separator
  · simp [hkind]

theorem sound_items (hparser : Recognizes bound parser Tree.shape read stops)
    (hclose : Closes read stops close) (hending : ending.kind = .endOfInput)
    {problem : SyntaxProblem} {nodes : List Node} {closing : Token} {after : TokenStream}
    (hlength : tokens.length < bound)
    (hrun : (items close problem bound parser).run ⟨tokens, ending⟩ =
      .ok ((nodes, closing), after)) :
    ∃ rest, after = ⟨rest, ending⟩ ∧ closing.kind = close ∧ Behind rest tokens ∧
      Items read tokens (closing :: rest) (nodes.map Tree.shape) := by
  have hspaced := recognizes_spaced hparser fun hread => (hclose.starts hread).1
  have hsuffix := pastSeparators_suffix tokens
  have hseparators := separators_pastSeparators tokens
  rw [items, run_bind_of_ok (run_skipSeparators _ _)] at hrun
  obtain ⟨nodes', _, hitems, hrun⟩ := run_bind_eq_ok_iff.mp hrun
  obtain ⟨closing', _, hexpect, hpure⟩ := run_bind_eq_ok_iff.mp hrun
  cases hpure
  by_cases hnext : nextKind (pastSeparators tokens) = close
  · rw [run_itemsBefore_of_eq hending hnext] at hitems
    cases hitems
    obtain ⟨rest, hrest, hkind, rfl⟩ :=
      (run_expect_eq_ok_iff hending hclose.ne_ending).mp hexpect
    rw [hrest] at hsuffix hseparators
    exact ⟨rest, rfl, hkind, Behind.of_suffix hsuffix (.of_cons _ _), .none hseparators⟩
  · rw [run_itemsBefore_of_ne hending hnext] at hitems
    obtain ⟨middle, rfl, hbehind, hread⟩ := sound_commaSeparated hspaced hending (Nat.le_refl _)
      (Nat.lt_of_le_of_lt hsuffix.length_le hlength) hitems
    obtain ⟨rest, rfl, hkind, rfl⟩ :=
      (run_expect_eq_ok_iff hending hclose.ne_ending).mp hexpect
    exact ⟨rest, rfl, hkind, (Behind.of_suffix hsuffix hbehind).trans (.of_cons _ _),
      .some (hread.of_separators hseparators)⟩

/-- The first of some items is not the closing token. -/
theorem Closes.nextKind_ne (hclose : Closes read stops close) {rest : List Token}
    {xs : List (Tree Unit)} (h : CommaSeparated (Spaced read) (pastSeparators tokens) rest xs) :
    nextKind (pastSeparators tokens) ≠ close := by
  have hfirst {rest tree} (h : Spaced read (pastSeparators tokens) rest tree) :
      nextKind (pastSeparators tokens) ≠ close := by
    obtain ⟨hbefore, htree, _⟩ := h
    rw [hbefore.eq_pastSeparators (hclose.starts htree).1,
      pastSeparators_eq_self (nextKind_pastSeparators_ne tokens)] at htree
    exact (hclose.starts htree).2
  cases h with
  | one htree => exact hfirst htree
  | more htree _ _ => exact hfirst htree

theorem complete_items (hparser : Recognizes bound parser Tree.shape read stops)
    (hclose : Closes read stops close) (hending : ending.kind = .endOfInput)
    (problem : SyntaxProblem) {closing : Token} {rest : List Token} {xs : List (Tree Unit)}
    (hlength : tokens.length < bound) (hread : Items read tokens (closing :: rest) xs)
    (hkind : closing.kind = close) :
    ∃ nodes, (items close problem bound parser).run ⟨tokens, ending⟩ =
        .ok ((nodes, closing), ⟨rest, ending⟩) ∧ nodes.map Tree.shape = xs := by
  have hstart {tokens rest tree} (h : read tokens rest tree) := (hclose.starts h).1
  have hspaced := recognizes_spaced hparser hstart
  have hexpect : (expect close problem).run ⟨closing :: rest, ending⟩ =
      .ok (closing, ⟨rest, ending⟩) := run_expect_cons hkind
  have hlength' := Nat.lt_of_le_of_lt (pastSeparators_suffix tokens).length_le hlength
  rw [items, run_bind_of_ok (run_skipSeparators _ _)]
  cases hread with
  | none hseparators =>
      have hpast : closing :: rest = pastSeparators tokens :=
        hseparators.eq_pastSeparators (by simpa [hkind] using hclose.ne_separator)
      have hnext : nextKind (closing :: rest) = close := hkind
      refine ⟨[], ?_, rfl⟩
      rw [← hpast, run_bind_of_ok (run_itemsBefore_of_eq hending hnext), run_bind_of_ok hexpect]
      rfl
  | some hxs =>
      have hpast := hxs.pastSeparators hstart
      obtain ⟨nodes, hnodes, hshape⟩ := complete_commaSeparated hspaced
        (fun comma rest hcomma => hclose.stopsSpaced (.inr hcomma)) hending (Nat.le_refl _)
        hlength' hpast (hclose.stopsSpaced (.inl hkind)) (by simpa [hkind] using hclose.ne_comma)
      rw [← run_itemsBefore_of_ne hending (hclose.nextKind_ne hpast)] at hnodes
      refine ⟨nodes, ?_, hshape⟩
      rw [run_bind_of_ok hnodes, run_bind_of_ok hexpect]
      rfl

end Items

/-! ## Operators -/

/-- A parser takes a whole operation of some level: it recognizes the level, and no
token that would carry the operation on is left behind it. -/
structure RecognizesLevel (bound : Nat) (parser : Parser Node) (read : Reading (Tree Unit))
    (carries : Token.Kind → Bool) : Prop where
  sound : ∀ {ending : Token} {tokens : List Token} {node : Node} {after : TokenStream},
    ending.kind = .endOfInput → tokens.length < bound →
    parser.run ⟨tokens, ending⟩ = .ok (node, after) →
    ∃ rest, after = ⟨rest, ending⟩ ∧ Behind rest tokens ∧ read tokens rest node.shape ∧
      carries (nextKind rest) = false
  complete : ∀ {ending : Token} {tokens rest : List Token} {tree : Tree Unit},
    ending.kind = .endOfInput → tokens.length < bound → read tokens rest tree →
    Clear rest → carries (nextKind rest) = false →
    ∃ node, parser.run ⟨tokens, ending⟩ = .ok (node, ⟨rest, ending⟩) ∧ node.shape = tree

theorem RecognizesLevel.behind {parser : Parser Node} {read : Reading (Tree Unit)}
    {carries : Token.Kind → Bool} (h : RecognizesLevel bound parser read carries)
    {rest : List Token} {tree : Tree Unit} (hlength : tokens.length < bound)
    (hread : read tokens rest tree) (hclear : Clear rest)
    (hcarries : carries (nextKind rest) = false) : Behind rest tokens := by
  have hending : (Token.atEnd default).kind = .endOfInput := rfl
  obtain ⟨node, hrun, _⟩ := h.complete hending hlength hread hclear hcarries
  obtain ⟨rest', hafter, hbehind, _⟩ := h.sound hending hlength hrun
  cases hafter
  exact hbehind

section BinaryOperators

variable {operator? : Token.Kind → Option BinaryOperator} {operand : Parser Node}
  {read : Reading (Tree Unit)} {carries : Token.Kind → Bool}

/-- What may carry on an operation of a level: what carries on its operands, and its
operators. -/
def carriesLevel (carries : Token.Kind → Bool) (operator? : Token.Kind → Option BinaryOperator)
    (kind : Token.Kind) : Bool :=
  carries kind || (operator? kind).isSome

theorem carriesLevel_eq_false_iff {kind : Token.Kind} :
    carriesLevel carries operator? kind = false ↔
      carries kind = false ∧ operator? kind = none := by
  simp [carriesLevel]

theorem sound_operations (hoperand : RecognizesLevel (bound + 1) operand read carries)
    (hnone : operator? .endOfInput = none) (hending : ending.kind = .endOfInput)
    {count : Nat} (hcount : count ≤ bound) :
    ∀ {tokens : List Token} {left node : Node} {after : TokenStream}, tokens.length < count →
      carries (nextKind tokens) = false →
      (operations operator? operand count left).run ⟨tokens, ending⟩ = .ok (node, after) →
      ∃ rest, after = ⟨rest, ending⟩ ∧ rest <:+ tokens ∧
        Operations operator? read tokens rest left.shape node.shape ∧
        carriesLevel carries operator? (nextKind rest) = false := by
  induction count with
  | zero =>
      intro tokens left node after hlength
      exact absurd hlength (Nat.not_lt_zero _)
  | succ count ih =>
      intro tokens left node after hlength hcarries hrun
      rw [Rounds.ofCount_succ, operations, run_bind_of_ok (run_peekKind_eq hending)] at hrun
      split at hrun
      · next hoperator =>
        cases hrun
        exact ⟨tokens, rfl, List.suffix_refl _, .none,
          carriesLevel_eq_false_iff.mpr ⟨hcarries, hoperator⟩⟩
      · next operator hoperator =>
        cases tokens with
        | nil =>
            rw [nextKind_nil, hnone] at hoperator
            cases hoperator
        | cons token tokens =>
            rw [List.length_cons] at hlength
            rw [run_bind_of_ok (run_advance_cons _ _ _)] at hrun
            obtain ⟨right, _, hright, hrun⟩ := run_bind_eq_ok_iff.mp hrun
            obtain ⟨middle, rfl, hbehind, hread, hstop⟩ :=
              hoperand.sound hending (by omega) hright
            have hshort := hbehind.2
            obtain ⟨rest, rfl, hsuffix, hoperations, hrest⟩ :=
              ih (by omega) (by omega) hstop hrun
            have hmiddle := hbehind.1.trans (List.suffix_cons token tokens)
            exact ⟨rest, rfl, hsuffix.trans hmiddle, .more hoperator hread hoperations, hrest⟩

/-- Behind an operand stands either the next operator or the end of the operation. -/
theorem Operations.stops {rest : List Token} {left result : Tree Unit}
    (h : Operations operator? read tokens rest left result)
    (hoperator : ∀ {kind operator}, operator? kind = some operator →
      isClear kind = true ∧ carries kind = false)
    (hclear : Clear rest) (hrest : carriesLevel carries operator? (nextKind rest) = false) :
    Clear tokens ∧ carries (nextKind tokens) = false := by
  cases h with
  | none => exact ⟨hclear, (carriesLevel_eq_false_iff.mp hrest).1⟩
  | more hkind _ _ =>
      obtain ⟨hclear, hcarries⟩ := hoperator hkind
      exact ⟨.of_nextKind hclear, hcarries⟩

theorem complete_operations (hoperand : RecognizesLevel (bound + 1) operand read carries)
    (hoperator : ∀ {kind operator}, operator? kind = some operator →
      isClear kind = true ∧ carries kind = false)
    (hending : ending.kind = .endOfInput) {count : Nat} (hcount : count ≤ bound) :
    ∀ {tokens rest : List Token} {left : Node} {tree : Tree Unit}, tokens.length < count →
      Operations operator? read tokens rest left.shape tree → Clear rest →
      carriesLevel carries operator? (nextKind rest) = false →
      ∃ node, (operations operator? operand count left).run ⟨tokens, ending⟩ =
        .ok (node, ⟨rest, ending⟩) ∧ node.shape = tree := by
  induction count with
  | zero =>
      intro tokens rest left tree hlength
      exact absurd hlength (Nat.not_lt_zero _)
  | succ count ih =>
      intro tokens rest left tree hlength hread hclear hrest
      have hnext := carriesLevel_eq_false_iff.mp hrest
      rw [Rounds.ofCount_succ, operations, run_bind_of_ok (run_peekKind_eq hending)]
      generalize hleft : left.shape = shape at hread
      cases hread with
      | none =>
          rw [hnext.2]
          exact ⟨left, rfl, hleft⟩
      | @more token tokens middle _ operator _ right _ hkind hright hmore =>
          rw [List.length_cons] at hlength
          have hmiddle := hmore.stops hoperator hclear hrest
          obtain ⟨node, hnode, rfl⟩ :=
            hoperand.complete hending (by omega) hright hmiddle.1 hmiddle.2
          have hshort := (hoperand.behind (by omega) hright hmiddle.1 hmiddle.2).2
          subst hleft
          rw [nextKind_cons, hkind]
          dsimp only
          rw [run_bind_of_ok (run_advance_cons _ _ _), run_bind_of_ok hnode]
          exact ih (by omega) (by omega) hmore hclear hrest

theorem recognizes_leftAssociative
    (hoperand : RecognizesLevel (bound + 1) operand read carries)
    (hnone : operator? .endOfInput = none)
    (hoperator : ∀ {kind operator}, operator? kind = some operator →
      isClear kind = true ∧ carries kind = false) :
    RecognizesLevel (bound + 1) (leftAssociative operator? bound operand)
      (LeftAssociative operator? read) (carriesLevel carries operator?) where
  sound := by
    intro ending tokens node after hending hlength hrun
    obtain ⟨first, _, hfirst, hrun⟩ := run_bind_eq_ok_iff.mp hrun
    obtain ⟨middle, rfl, hbehind, hread, hstop⟩ := hoperand.sound hending hlength hfirst
    have hshort := hbehind.2
    obtain ⟨rest, rfl, hsuffix, hoperations, hrest⟩ :=
      sound_operations hoperand hnone hending (Nat.le_refl _) (by omega) hstop hrun
    exact ⟨rest, rfl, hbehind.trans_suffix hsuffix, .intro hread hoperations, hrest⟩
  complete := by
    intro ending tokens rest tree hending hlength hread hclear hrest
    cases hread with
    | @intro _ middle _ first _ hfirst hoperations =>
        have hmiddle := hoperations.stops hoperator hclear hrest
        obtain ⟨node, hnode, rfl⟩ := hoperand.complete hending hlength hfirst hmiddle.1 hmiddle.2
        have hshort := (hoperand.behind hlength hfirst hmiddle.1 hmiddle.2).2
        rw [leftAssociative, run_bind_of_ok hnode]
        exact complete_operations hoperand hoperator hending (Nat.le_refl _) (by omega)
          hoperations hclear hrest

end BinaryOperators

section UnaryOperators

variable {operator? : Token.Kind → Option UnaryOperator} {operand : Parser Node}
  {read : Reading (Tree Unit)} {carries : Token.Kind → Bool}

/-- A tree's shape under an operator that stands before it. -/
def applyShape (operator : UnaryOperator × Span) (tree : Tree Unit) : Tree Unit :=
  .unary () operator.1 tree

theorem shape_foldr_applyOperator (operators : List (UnaryOperator × Span)) (node : Node) :
    (operators.foldr applyOperator node).shape = operators.foldr applyShape node.shape := by
  induction operators with
  | nil => rfl
  | cons operator operators ih =>
      rw [List.foldr_cons, List.foldr_cons, ← ih]
      rfl

theorem takeOperators_eq_self (h : operator? (nextKind tokens) = none) :
    takeOperators operator? tokens = ([], tokens) := by
  cases tokens with
  | nil => rfl
  | cons token tokens =>
      rw [nextKind_cons] at h
      rw [takeOperators, h]

theorem takeOperators_suffix (tokens : List Token) :
    (takeOperators operator? tokens).2 <:+ tokens := by
  induction tokens with
  | nil => exact List.suffix_refl _
  | cons token tokens ih =>
      rw [takeOperators]
      split
      · exact List.suffix_refl _
      · exact ih.trans (List.suffix_cons token tokens)

/-- What is read behind the operators that are taken is read with them. -/
theorem Prefixed.of_takeOperators {rest : List Token} {tree : Tree Unit}
    (h : read (takeOperators operator? tokens).2 rest tree) :
    Prefixed operator? read tokens rest
      ((takeOperators operator? tokens).1.foldr applyShape tree) := by
  induction tokens with
  | nil => exact .none h
  | cons token tokens ih =>
      rw [takeOperators] at h ⊢
      split at h
      · next hkind =>
        dsimp only
        exact .none h
      · next operator hkind =>
        dsimp only
        exact .more hkind (ih h)

/-- All operators before an operand are taken, if operands do not begin with one. -/
theorem Prefixed.read_takeOperators {rest : List Token} {tree : Tree Unit}
    (hstart : ∀ {tokens rest tree}, read tokens rest tree → operator? (nextKind tokens) = .none)
    (h : Prefixed operator? read tokens rest tree) :
    ∃ inner, read (takeOperators operator? tokens).2 rest inner ∧
      tree = (takeOperators operator? tokens).1.foldr applyShape inner := by
  induction h with
  | @none tokens rest tree hread =>
      have hnone : takeOperators operator? tokens = ([], tokens) := by
        cases tokens with
        | nil => rfl
        | cons token tokens =>
            have hkind : operator? token.kind = .none := hstart hread
            rw [takeOperators, hkind]
      rw [hnone]
      exact ⟨tree, hread, rfl⟩
  | more hkind _ ih =>
      obtain ⟨inner, hread, rfl⟩ := ih
      rw [takeOperators, hkind]
      exact ⟨inner, hread, rfl⟩

theorem run_rightAssociative :
    (rightAssociative operator? operand).run ⟨tokens, ending⟩ =
      (do
        let node ← operand
        return (takeOperators operator? tokens).1.foldr applyOperator node : Parser Node).run
        ⟨(takeOperators operator? tokens).2, ending⟩ := rfl

theorem recognizes_rightAssociative (hoperand : RecognizesLevel bound operand read carries)
    (hstart : ∀ {tokens rest tree}, read tokens rest tree →
      operator? (nextKind tokens) = none) :
    RecognizesLevel bound (rightAssociative operator? operand) (Prefixed operator? read)
      carries where
  sound := by
    intro ending tokens node after hending hlength hrun
    have htake : (takeOperators operator? tokens).2 <:+ tokens := takeOperators_suffix tokens
    rw [run_rightAssociative] at hrun
    obtain ⟨inner, _, hinner, hpure⟩ := run_bind_eq_ok_iff.mp hrun
    obtain ⟨rest, rfl, hbehind, hread, hstop⟩ :=
      hoperand.sound hending (Nat.lt_of_le_of_lt htake.length_le hlength) hinner
    cases hpure
    refine ⟨rest, rfl, Behind.of_suffix htake hbehind, ?_, hstop⟩
    rw [shape_foldr_applyOperator]
    exact .of_takeOperators hread
  complete := by
    intro ending tokens rest tree hending hlength hread hclear hrest
    have htake : (takeOperators operator? tokens).2 <:+ tokens := takeOperators_suffix tokens
    obtain ⟨inner, hinner, rfl⟩ := hread.read_takeOperators hstart
    obtain ⟨node, hnode, rfl⟩ :=
      hoperand.complete hending (Nat.lt_of_le_of_lt htake.length_le hlength) hinner hclear hrest
    refine ⟨_, ?_, shape_foldr_applyOperator _ node⟩
    rw [run_rightAssociative, run_bind_of_ok hnode]
    rfl

end UnaryOperators

end Script.Grammar
