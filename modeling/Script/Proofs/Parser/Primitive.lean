/-
# Primitive parsers are steady

What all parsers are made of: results and failures, looking at the next token, taking it if
it is of some kind, and taking separators.
-/

import Script.Proofs.Parser.Steady

namespace Script.Parser

open Grammar

variable {ι α β : Type} {size : ι → Nat} {limit least : Nat} {follow : Token.Kind → Prop}
  {tokens row rest further further' : List Token}

/-- A token of a kind, with nothing else to it. -/
def mark (kind : Token.Kind) : Token := ⟨kind, "", none, default⟩

theorem ne_separator_of_isPlain {kind : Token.Kind} (h : isPlain kind = true) :
    kind ≠ .separator := by
  rintro rfl
  cases h

/-! ## Results and failures -/

theorem SteadyAt.pure (a : α) (tokens : List Token) :
    SteadyAt size (fun _ => pure a) follow 0 tokens :=
  .takes (fun _ => True) [] a (List.nil_append tokens).symm trivial
    (fun _ row ending _ _ => run_pure a ⟨row, ending⟩) (fun hne => absurd rfl hne) (Nat.le_refl 0)

theorem Steady.pure (a : α) (hfollow : ∀ kind, follow kind → isPlain kind = true) :
    Steady limit size (fun _ => pure a) follow 0 [] where
  steadyAt tokens _ := .pure a tokens
  completes := .nil hfollow fun _ rest ending _ _ _ => ⟨a, run_pure a ⟨rest, ending⟩⟩
  least_le := Nat.le_refl 0

/-- A failure is reported at the next token. -/
theorem SteadyAt.fail (problem : SyntaxProblem) (tokens : List Token) :
    SteadyAt size (fun _ => (fail problem : Parser α)) follow least tokens := by
  intro i ending _ _
  refine ⟨[], tokens, .error ⟨problem, (tokens.headD ending).span⟩, rfl, rfl, ?_, ?_, ?_, ?_⟩
  · rintro a ⟨⟩
  · rintro error ⟨⟩ _
    rfl
  · intro front behind others j ending' hrest hne _ _ _
    have hhead := @headD_eq_of_head? _ _ ending' ending
      (@head?_append_of_ne_nil [] front behind others hne) (List.append_ne_nil_of_left_ne_nil hne _)
    rw [hrest]
    exact congrArg (fun token => Except.error (SyntaxError.mk problem token.span)) hhead
  · exact fun hne => absurd rfl hne

theorem Steady.map {parser : ι → Parser α} (h : Steady limit size parser follow least further)
    (f : α → β) [Nonempty α] (hfollow : ∀ kind, follow kind → isPlain kind = true) :
    Steady limit size (fun i => parser i >>= fun a => Pure.pure (f a)) follow least further := by
  have hpure (a : α) := @Steady.pure _ _ size limit _ (f a) hfollow
  rw [← List.append_nil further]
  exact h.bind hpure fun _ => id

/-! ## The next token -/

section Next

variable {next : ι → Token.Kind → Parser β}

theorem SteadyAt.peek {next : ι → Token → Parser β}
    (h : ∀ token, SteadyAt size (next · token) follow least tokens) :
    SteadyAt size (fun i => peek >>= next i) follow least tokens := by
  intro i ending hending hlength
  obtain ⟨taken, rest, result, rfl, hrun, htaken, hstops⟩ :=
    h (tokens.headD ending) i ending hending hlength
  have hpeek (j : ι) {row : List Token} {ending' : Token}
      (hhead : row.headD ending' = (taken ++ rest).headD ending) :
      (Parser.peek >>= next j).run ⟨row, ending'⟩ =
        (next j ((taken ++ rest).headD ending)).run ⟨row, ending'⟩ := by
    rw [← hhead]
    rfl
  refine ⟨taken, rest, result, rfl, (hpeek i rfl).trans hrun, htaken, hstops.located, ?_, ?_⟩
  · intro front behind others j ending' hrest hne hhides hending' hlength'
    rw [hpeek j]
    · exact hstops.stable front behind others j ending' hrest hne hhides hending' hlength'
    · rw [hrest]
      exact headD_eq_of_head? (head?_append_of_ne_nil hne)
        (List.append_ne_nil_of_right_ne_nil _ (List.append_ne_nil_of_left_ne_nil hne _))
  · intro hne hvalid
    obtain ⟨further, hfurther⟩ := hstops.viable hne hvalid
    refine ⟨further, hfurther.noEnding, hfurther.plain, fun rest' hfollow => ?_⟩
    refine (hfurther.accepts rest' hfollow).of_run fun j ending' _ _ => hpeek j ?_
    exact headD_eq_of_head? (@head?_append_of_ne_nil [] taken _ _ hne)
      (List.append_ne_nil_of_left_ne_nil hne _)

theorem Steady.peek {next : ι → Token → Parser β}
    (h : ∀ token, Steady limit size (next · token) follow least further) :
    Steady limit size (fun i => peek >>= next i) follow least further where
  steadyAt tokens htokens := .peek fun token => (h token).steadyAt tokens htokens
  completes := by
    have hsample := (h (mark .endOfInput)).completes
    refine ⟨hsample.noEnding, hsample.plain, fun rest hrest i ending hending hlength => ?_⟩
    exact (h _).completes.accepts rest hrest i ending hending hlength
  least_le := (h (mark .endOfInput)).least_le

/-- What a parser does for the kind of the next token is all that counts. -/
theorem SteadyAt.peekKind (h : SteadyAt size (next · (nextKind tokens)) follow least tokens) :
    SteadyAt size (fun i => peekKind >>= next i) follow least tokens := by
  refine h.of_run fun i row ending hending _ hhead => ?_
  rw [run_bind_of_ok (run_peekKind_eq hending), nextKind_eq_of_head? hhead]

theorem Accepts.peekKind (h : Accepts size (next · (nextKind row)) row rest) :
    Accepts size (fun i => peekKind >>= next i) row rest :=
  h.of_run fun i ending hending _ => by rw [run_bind_of_ok (run_peekKind_eq hending)]

theorem Completes.peekKind (kind : Token.Kind) (h : Completes size (next · kind) follow [] further)
    (hkind : ∀ rest, follow (nextKind rest) → nextKind (further ++ rest) = kind) :
    Completes size (fun i => peekKind >>= next i) follow [] further where
  noEnding := h.noEnding
  plain := h.plain
  accepts rest hrest := by
    refine .peekKind ?_
    rw [List.nil_append, hkind rest hrest]
    exact h.accepts rest hrest

end Next

/-! ## Taking tokens -/

/-- A token of a kind is taken, or its lack is reported. -/
theorem Steady.expect {kind : Token.Kind} (problem : SyntaxProblem)
    (hkind : kind ≠ .endOfInput) (hplain : isPlain kind = true) :
    Steady limit size (fun _ => expect kind problem) (isPlain ·) 1 [mark kind] where
  steadyAt tokens _ := by
    by_cases hnext : nextKind tokens = kind
    · obtain _ | ⟨token, tokens⟩ := tokens
      · exact absurd hnext.symm hkind
      exact .takes (fun _ => True) [token] token rfl trivial
        (fun _ _ _ _ _ => run_expect_cons hnext) (fun _ _ h => ⟨trivial, h⟩) (Nat.le_refl 1)
    · refine .peekKind ?_
      rw [if_neg hnext]
      exact .fail problem tokens
  completes := by
    refine ⟨?_, fun _ _ => hplain, fun rest _ i ending _ _ => ⟨mark kind, run_expect_cons rfl⟩⟩
    intro token htoken
    cases List.mem_singleton.mp htoken
    exact hkind
  least_le := Nat.le_refl 1

/-- One of two parsers follows, the first behind a token of a kind. -/
theorem Steady.accept {kind : Token.Kind} {next : ι → Bool → Parser β}
    (htrue : Steady limit size (next · true) follow least further)
    (hfalse : Steady limit size (next · false) follow 0 further') (hkind : kind ≠ .endOfInput)
    (hother : ∀ rest, follow (nextKind rest) → nextKind (further' ++ rest) ≠ kind) :
    Steady limit size (fun i => accept kind >>= next i) follow 0 further' where
  steadyAt tokens htokens := by
    by_cases hnext : nextKind tokens = kind
    · obtain _ | ⟨token, tokens⟩ := tokens
      · exact absurd hnext.symm hkind
      refine (SteadyAt.cons (fun i row ending _ => ?_) htrue htokens).atLeast (Nat.zero_le 1)
      rw [run_accept_bind, run_bind_of_ok (run_peekKind _)]
      exact congrArg (StateT.run · _) (if_pos hnext)
    · refine (hfalse.steadyAt tokens htokens).of_run fun i row ending hending _ hhead => ?_
      rw [run_accept_bind, run_bind_of_ok (run_peekKind_eq hending), nextKind_eq_of_head? hhead,
        if_neg hnext]
  completes := by
    refine ⟨hfalse.completes.noEnding, hfalse.completes.plain, fun rest hfollow => ?_⟩
    refine (hfalse.completes.accepts rest hfollow).of_run fun i ending hending _ => ?_
    rw [run_accept_bind, run_bind_of_ok (run_peekKind_eq hending)]
    exact congrArg (StateT.run · _) (if_neg (hother rest hfollow))
  least_le := Nat.zero_le _

/-! ## Separators -/

/-- The separators at the front of a row are in front of any row that begins with another
token. -/
theorem exists_pastSeparators (tokens : List Token) :
    ∃ taken, tokens = taken ++ pastSeparators tokens ∧
      ∀ row, nextKind row ≠ .separator → pastSeparators (taken ++ row) = row := by
  induction tokens with
  | nil => exact ⟨[], rfl, fun row hrow => pastSeparators_eq_self hrow⟩
  | cons token tokens ih =>
      by_cases hkind : token.kind = .separator
      · obtain ⟨taken, htokens, hpast⟩ := ih
        refine ⟨token :: taken, ?_, fun row hrow => ?_⟩
        · rw [pastSeparators_cons_of_separator hkind, List.cons_append, ← htokens]
        · rw [List.cons_append, pastSeparators_cons_of_separator hkind, hpast row hrow]
      · refine ⟨[], ?_, fun row hrow => pastSeparators_eq_self hrow⟩
        rw [pastSeparators_eq_self (by simpa using hkind), List.nil_append]

theorem Steady.skipSeparators :
    Steady limit size (fun _ => skipSeparators) (isPlain ·) 0 [] where
  steadyAt tokens _ := by
    obtain ⟨taken, htokens, hpast⟩ := exists_pastSeparators tokens
    refine .takes (· ≠ .separator) taken () htokens (nextKind_pastSeparators_ne tokens)
      (fun i row ending _ hrow => ?_) (fun _ _ h => ⟨ne_separator_of_isPlain h, h⟩) (Nat.zero_le _)
    rw [run_skipSeparators, hpast row hrow]
  completes := by
    refine .nil (fun _ => id) fun i rest ending _ hrest _ => ⟨(), ?_⟩
    rw [run_skipSeparators, pastSeparators_eq_self (ne_separator_of_isPlain hrest)]
  least_le := Nat.le_refl 0

end Script.Parser
