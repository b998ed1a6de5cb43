/-
# Operands stand where they were read

Literals, names, brackets, lists, conditionals, loops and namespaces. The span of a
conditional ends where its last branch does.
-/

import Script.Proofs.Parser.Primary
import Script.Proofs.Span.Bracket

namespace Script.Parser

open Grammar

variable {row : List Token} {start middle : Nat} {token : Token} {site : Span}

/-! ## Branches -/

/-- Branches stand between two places, and the last of them ends where the tokens do. -/
def BranchesStand (row : List Token) (start stop : Nat) (rest : Branches Span) : Prop :=
  Lined (Rooted row) start stop rest.parts ∧
    ∀ site, EndsAt row start site → EndsAt row stop (rest.lastSite site)

theorem BranchesStand.none (row : List Token) (start : Nat) :
    BranchesStand row start start .none :=
  ⟨.nil (Nat.le_refl _), fun _ => id⟩

theorem BranchesStand.otherwise {first stop : Nat} {body : Node} (hle : start ≤ first)
    (h : Rooted row first stop body) : BranchesStand row start stop (.otherwise body) :=
  ⟨.single hle h (Nat.le_refl _), fun _ _ => h.covers.last⟩

theorem BranchesStand.orIf {first last other stop : Nat} {condition body : Node}
    {rest : Branches Span} (hle : start ≤ first) (hcondition : Rooted row first last condition)
    (hbody : Rooted row last other body) (hrest : BranchesStand row other stop rest) :
    BranchesStand row start stop (.orIf condition body rest) :=
  ⟨.cons hle hcondition (.cons (Nat.le_refl _) hbody hrest.1), fun _ _ =>
    hrest.2 _ hbody.covers.last⟩

/-- A condition and a block with other things behind them. -/
theorem yields_condition_block {α : Type} {ι : Type} {size bound : ι → Nat}
    {next : ι → Node → Node → Parser α} {post : Nat → α → Prop} (h : Nested row start)
    (hbound : ∀ i, size i ≤ bound i)
    (hnext : ∀ {last other condition body}, Rooted row start last condition →
      Rooted row last other body → Yields row size (next · condition body) other post) :
    Yields row size
      (fun i => do
        let condition ← expression (bound i)
        let body ← block (bound i) (expression (bound i))
        next i condition body)
      start post := by
  have hcondition := (h start (Nat.le_refl _)).reindex bound hbound
  refine hcondition.bind fun {last condition} hle hcondition => ?_
  have hblock := (yields_block (h.mono (by omega : start ≤ last + 1))).reindex bound
    fun i => Nat.le_succ_of_le (hbound i)
  exact hblock.bind fun _ hbody => hnext hcondition hbody

/-- What stands behind the keyword of a further condition. -/
theorem yields_orIf {place : Nat} (hle : start ≤ place) (h : Nested row place)
    (hothers : ∀ {other}, place < other →
      Yields row (fun i : Nat × Nat => min i.1 i.2)
        (fun i => branches i.1 (expression i.1) i.2) other (BranchesStand row other)) :
    Yields row (fun i : Nat × Nat => min i.1 i.2 - 1)
      (fun i => do
        let condition ← expression i.1
        let body ← block i.1 (expression i.1)
        return Branches.orIf condition body (← branches i.1 (expression i.1) (i.2 - 1 : Nat)))
      place (BranchesStand row start) := by
  refine yields_condition_block h (fun i => by omega) ?_
  intro last other condition body hcondition hbody
  have hlt := Nat.lt_trans hcondition.covers.lt hbody.covers.lt
  have hrest := (hothers hlt).reindex (fun i : Nat × Nat => (i.1, i.2 - 1)) fun i : Nat × Nat =>
    (by omega : min i.1 i.2 - 1 ≤ min i.1 (i.2 - 1))
  exact hrest.map (Branches.orIf condition body) fun _ hrest => .orIf hle hcondition hbody hrest

/-- What stands behind the keyword of a last branch. -/
theorem yields_otherwise {place : Nat} (hle : start ≤ place) (h : Nested row place) :
    Yields row (fun i : Nat × Nat => min i.1 i.2 - 1)
      (fun i => do
        if (← peekKind) = .leftBrace then
          return Branches.otherwise (← block i.1 (expression i.1))
        else return Branches.otherwise (← statement (expression i.1)))
      place (BranchesStand row start) := by
  have hbranch {stop : Nat} {body : Node} (hbody : Rooted row place stop body) :
      place < stop ∧ BranchesStand row start stop (.otherwise body) :=
    ⟨hbody.covers.lt, .otherwise hle hbody⟩
  refine .peekKind ?_
  split
  · have hblock := (yields_block (h.mono (Nat.le_succ place))).reindex Prod.fst
      fun i : Nat × Nat => (by omega : min i.1 i.2 - 1 ≤ i.1 + 1)
    exact hblock.map Branches.otherwise fun _ => hbranch
  · have hstatement := (yields_statement h).reindex Prod.fst
      fun i : Nat × Nat => (by omega : min i.1 i.2 - 1 ≤ i.1)
    exact hstatement.map Branches.otherwise fun _ => hbranch

theorem yields_branches_of_none
    (helif : nextKind (pastSeparators (row.drop start)) ≠ .keyword .elifWord)
    (helse : nextKind (pastSeparators (row.drop start)) ≠ .keyword .elseWord) :
    Yields row (fun i : Nat × Nat => min i.1 i.2)
      (fun i => branches i.1 (expression i.1) i.2) start (BranchesStand row start) := by
  refine Yields.of_run (.pure (.none row start)) fun {i cut _} hending _ hlength => ?_
  have hpos := Nat.lt_of_lt_of_le (Nat.zero_lt_of_lt hlength) (Nat.min_le_right _ _)
  obtain hkind | hkind := nextKind_pastSeparators_cases row start cut
  · exact run_branches_of_none hending (hkind ▸ helif) (hkind ▸ helse) hpos
  · exact run_branches_of_none hending (by rw [hkind]; decide) (by rw [hkind]; decide) hpos

theorem yields_branches {start : Nat} (h : Nested row start) :
    Yields row (fun i : Nat × Nat => min i.1 i.2)
      (fun i => branches i.1 (expression i.1) i.2) start (BranchesStand row start) := by
  refine .of_start_le fun hstart => ?_
  cases hpast : pastSeparators (row.drop start) with
  | nil => exact yields_branches_of_none (by simp [hpast]) (by simp [hpast])
  | cons keyword tokens =>
      by_cases helif : keyword.kind = .keyword .elifWord
      · refine .afterSeparators hpast (fun htoken hle =>
          yields_orIf (Nat.le_succ_of_le hle) (h.mono (Nat.le_succ_of_le hle)) ?_) ?_
        · intro other hlt
          have hlength := lt_length_of_getElem? htoken
          exact yields_branches (h.mono (by omega))
        · rintro ⟨bound, _ | count⟩ tokens rest ending hending hpast hlt
          · exact absurd hlt (by omega)
          · exact run_branches_of_elif hending hpast helif
      · by_cases helse : keyword.kind = .keyword .elseWord
        · refine .afterSeparators hpast (fun _ hle =>
            yields_otherwise (Nat.le_succ_of_le hle) (h.mono (Nat.le_succ_of_le hle))) ?_
          rintro ⟨bound, _ | count⟩ tokens rest ending hending hpast hlt
          · exact absurd hlt (by omega)
          · exact run_branches_of_else hending hpast helse
        · exact yields_branches_of_none (by rwa [hpast]) (by rwa [hpast])
termination_by row.length - start

/-! ## Constructs behind their first token -/

section Inside

variable (h : Nested row (start + 1)) (htoken : row[start]? = some token)

include h htoken

theorem yields_inParentheses :
    Yields row (fun bound => bound)
      (fun bound => do
        let node ← spaced (expression bound)
        let closing ← expect .rightParen .expectedRightParen
        return node.withSite (token.span.through closing.span))
      (start + 1) (Built row start) := by
  refine (yields_spaced h).bind fun {middle node} _ hspaced => ?_
  obtain ⟨hlt, hspaced⟩ := hspaced
  refine (yields_expect .expectedRightParen (by decide)).map _ ?_
  rintro _ closing _ ⟨rfl, hclosing, _⟩
  obtain ⟨first, last, hfirst, hnode, hlast⟩ := hspaced.exists_of_single
  refine hnode.withSite ?_ (Nat.le_of_succ_le hfirst) (Nat.le_succ_of_le hlast)
  exact .through htoken (by omega) (.of_token hclosing)

theorem yields_inBraces :
    Yields row (fun bound => bound)
      (fun bound => do
        let (nodes, closing) ← items .rightBrace .expectedCommaOrRightBrace bound (expression bound)
        return Tree.list (token.span.through closing.span) nodes)
      (start + 1) (Built row start) := by
  refine (yields_items h .expectedCommaOrRightBrace (by decide)).map
    (fun result => Tree.list (token.span.through result.2.span) result.1) ?_
  rintro _ ⟨nodes, closing⟩ _ ⟨last, rfl, hle, hnodes, hclosing, _⟩
  have hcovers : Covers row start (last + 1) (token.span.through closing.span) :=
    .through htoken (by omega) (.of_token hclosing)
  exact .of_trees hcovers rfl ((hnodes.mono_start (Nat.le_succ _)).mono_stop (Nat.le_succ _))

theorem yields_inConditional :
    Yields row (fun bound => bound)
      (fun bound => do
        let condition ← expression bound
        let body ← block bound (expression bound)
        let rest ← branches bound (expression bound) bound
        return Tree.conditional (token.span.through (rest.lastSite body.site)) condition body rest)
      (start + 1) (Built row start) := by
  refine yields_condition_block h (fun _ => Nat.le_refl _) ?_
  intro last other condition body hcondition hbody
  have hlt := Nat.lt_trans hcondition.covers.lt hbody.covers.lt
  have hnested : Nested row other := h.mono (Nat.le_of_lt hlt)
  refine (yields_branches hnested).diagonal.map _ ?_
  rintro stop rest hle ⟨hrest, hlast⟩
  have hcovers : Covers row start stop (token.span.through (rest.lastSite body.site)) :=
    .through htoken (by omega) (hlast _ hbody.covers.last)
  exact .of_trees hcovers rfl
    (.cons (Nat.le_succ _) hcondition (.cons (Nat.le_refl _) hbody hrest))

theorem yields_inLoop :
    Yields row (fun bound => bound)
      (fun bound => do
        let condition ← expression bound
        let body ← block bound (expression bound)
        return Tree.whileLoop (token.span.through body.site) condition body)
      (start + 1) (Built row start) := by
  refine yields_condition_block h (fun _ => Nat.le_refl _) ?_
  intro last other condition body hcondition hbody
  have hlt := Nat.lt_trans hcondition.covers.lt hbody.covers.lt
  have hcovers : Covers row start other (token.span.through body.site) :=
    .through htoken (by omega) hbody.covers.last
  exact .pure (.of_trees hcovers rfl
    (.cons (Nat.le_succ _) hcondition (.cons (Nat.le_refl _) hbody (.nil (Nat.le_refl _)))))

theorem yields_inNamespace :
    Yields row (fun bound => bound)
      (fun bound => do
        let name ← expect .identifier .expectedNamespaceName
        let body ← block bound (expression bound)
        return Tree.namespaceDef (token.span.through body.site) name.lexeme body)
      (start + 1) (Built row start) := by
  refine (yields_expect .expectedNamespaceName (by decide)).bind ?_
  rintro _ name _ ⟨rfl, _⟩
  have hblock := (yields_block (h.mono (Nat.le_add_right _ 2))).mono fun bound => Nat.le_succ bound
  refine hblock.map _ fun {stop body} _ hbody => ?_
  have hlt := hbody.covers.lt
  have hcovers : Covers row start stop (token.span.through body.site) :=
    .through htoken (by omega) hbody.covers.last
  exact .of_trees hcovers rfl (.single (by omega) hbody (Nat.le_refl _))

end Inside

/-! ## All operands without what follows them -/

/-- A token that is read as a leaf. -/
theorem yields_leaf {leaf : Node} {parser : Nat → Parser Node} (htoken : row[start]? = some token)
    (hsite : leaf.site = token.span) (hparameters : leaf.parameterSites = [])
    (hchildren : leaf.children = [])
    (hrun : ∀ {bound tokens ending},
      (parser bound).run ⟨token :: tokens, ending⟩ = .ok (leaf, ⟨tokens, ending⟩)) :
    Yields row (fun bound => bound + 1) parser start (Built row start) := by
  have hcovers : Covers row start (start + 1) leaf.site := hsite ▸ .of_token htoken
  have hbuilt : Built row start (start + 1) leaf :=
    .of_trees hcovers hparameters (hchildren ▸ .nil (Nat.le_succ _))
  exact .cons htoken (.pure hbuilt) fun _ _ => hrun

theorem yields_numberLiteral (htoken : row[start]? = some token) :
    Yields row (fun bound => bound + 1) (fun _ => numberLiteral) start (Built row start) := by
  by_cases hnumber : ∃ value, token.literal = some (.number value)
  · obtain ⟨value, hvalue⟩ := hnumber
    have hsite : (Tree.number token.span value).site = token.span := rfl
    exact yields_leaf htoken hsite rfl rfl (complete_numberLiteral hvalue)
  · refine .refused htoken fun hrun => ?_
    rw [numberLiteral, run_bind_of_ok (run_advance_cons _ _ _)] at hrun
    split at hrun
    · next value hvalue => exact hnumber ⟨value, hvalue⟩
    · exact run_failAt_ne_ok hrun

theorem yields_stringLiteral (htoken : row[start]? = some token) :
    Yields row (fun bound => bound + 1) (fun _ => stringLiteral) start (Built row start) := by
  by_cases hstring : ∃ value, token.literal = some (.string value)
  · obtain ⟨value, hvalue⟩ := hstring
    have hsite : (Tree.string token.span value).site = token.span := rfl
    exact yields_leaf htoken hsite rfl rfl (complete_stringLiteral hvalue)
  · refine .refused htoken fun hrun => ?_
    rw [stringLiteral, run_bind_of_ok (run_advance_cons _ _ _)] at hrun
    split at hrun
    · next value hvalue => exact hstring ⟨value, hvalue⟩
    · exact run_failAt_ne_ok hrun

/-- The first token of an operand decides what is read. -/
theorem yields_primary (h : Nested row (start + 1)) :
    Yields row (fun bound => bound + 1) (fun bound => primary bound (expression bound)) start
      (Rooted row start) := by
  suffices hbuilt : Yields row (fun bound => bound + 1)
      (fun bound => primary bound (expression bound)) start (Built row start) from
    hbuilt.imp fun hreads hbuilt =>
      hbuilt.rooted (.of_primary (.of_reads hreads (Nat.le_refl _)))
  refine .peekKind (.built_lt ?_)
  cases htoken : row[start]? with
  | none =>
      rw [List.drop_eq_nil_of_le (List.getElem?_eq_none_iff.mp htoken)]
      exact .fail .expectedExpression
  | some token =>
      rw [nextKind_drop htoken]
      cases token.kind with
      | int | long | double => exact yields_numberLiteral htoken
      | string => exact yields_stringLiteral htoken
      | identifier =>
          have hname : (Tree.identifier token.span token.lexeme).site = token.span := rfl
          exact yields_leaf htoken hname rfl rfl rfl
      | leftParen => exact .cons htoken (yields_inParentheses h htoken) fun _ _ => rfl
      | leftBrace => exact .cons htoken (yields_inBraces h htoken) fun _ _ => rfl
      | keyword word =>
          cases word with
          | ifWord => exact .cons htoken (yields_inConditional h htoken) fun _ _ => rfl
          | whileWord => exact .cons htoken (yields_inLoop h htoken) fun _ _ => rfl
          | namespaceWord => exact .cons htoken (yields_inNamespace h htoken) fun _ _ => rfl
          | _ => exact .fail .expectedExpression
      | _ => exact .fail .expectedExpression

end Script.Parser
