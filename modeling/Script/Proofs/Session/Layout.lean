/-
# Layout is not seen

Two sources whose tokens say the same differ in blanks, comments, the spelling of
separators and of literals, and the names of their files. They are refused by the parser
for the same problem, or are programs of the same shape; and sites, which are all that is
left of layout, have no part in evaluation.
-/

import Script.Proofs.Parser.Agreement
import Script.Proofs.Session.Lines

namespace Script

open Eval

/-- A source whose tokens are not a program, because of a problem. -/
def Source.IsRefused (source : Source) (problem : SyntaxProblem) : Prop :=
  ∃ error, Tree.ofSource source = .error (.grammatical error) ∧ error.problem = problem

variable {first second : Source} {tokens others : List Token}

/-- Sources whose tokens say the same are programs of the same shape, or are refused for
the same problem. -/
theorem Tree.ofSource_agree (h : Token.scan first = .ok tokens)
    (h' : Token.scan second = .ok others)
    (hwords : tokens.map Token.word = others.map Token.word) :
    (∃ tree tree', Tree.ofSource first = .ok tree ∧ Tree.ofSource second = .ok tree' ∧
      tree.shape = tree'.shape) ∨
    ∃ error error', Tree.ofSource first = .error (.grammatical error) ∧
      Tree.ofSource second = .error (.grammatical error') ∧ error.problem = error'.problem := by
  rw [ofSource, ofSource, h, h']
  obtain ⟨tree, tree', htree, htree', hshape⟩ | ⟨error, error', herror, herror', hproblem⟩ :=
    Tree.ofTokens_agree hwords
  · exact .inl ⟨tree, tree', by simp only [htree], by simp only [htree'], hshape⟩
  · exact .inr ⟨error, error', by simp only [herror], by simp only [herror'], hproblem⟩

namespace Session

variable {session : Session} {source : Source}

/-- What is seen of a source that is not a program. -/
theorem shows_iff_of_error {failure : Failure} (h : Tree.ofSource source = .error failure)
    {seen : Observation} :
    session.Shows source seen ↔
      .of session.heap session.state.sink (.error failure.gist) = seen := by
  have hrun (budget : Nat) : session.run budget source = some (.error failure, session) := by
    rw [run, h]
  constructor
  · rintro ⟨answer, after, ⟨budget, hanswer⟩, rfl⟩
    rw [hrun] at hanswer
    cases hanswer
    rfl
  · rintro rfl
    exact ⟨.error failure, session, ⟨0, hrun 0⟩, rfl⟩

/-- Programs of the same shape show the same. -/
theorem shows_iff_of_shape {tree other : Tree Span} (h : Tree.ofSource first = .ok tree)
    (h' : Tree.ofSource second = .ok other) (hshape : tree.shape = other.shape)
    {seen : Observation} : session.Shows first seen ↔ session.Shows second seen := by
  have hsame (budget : Nat) :
      (main budget tree session.state).observation? =
        (main budget other session.state).observation? := by
    rw [← Outcome.observation?_shape, shape_main_eq hshape, Outcome.observation?_shape]
  rw [shows_iff h, shows_iff h']
  exact exists_congr fun budget => by rw [hsame]

/-- Layout is not seen. Sources whose tokens agree one by one in kind, in literal and, for
identifiers, in name are refused by the parser for the same problem if at all; and in every
session all is seen of the one that is seen of the other, and nothing else: the same value
or the same failure, the same output and the same global names, types and values. Neither
ends if the other does not. -/
theorem shows_iff_of_words {first second : Source} {tokens others : List Token}
    (h : Token.scan first = .ok tokens) (h' : Token.scan second = .ok others)
    (hwords : tokens.map Token.word = others.map Token.word) :
    (∀ problem, first.IsRefused problem ↔ second.IsRefused problem) ∧
    ∀ (session : Session) (seen : Observation),
      session.Shows first seen ↔ session.Shows second seen := by
  obtain ⟨tree, tree', htree, htree', hshape⟩ | ⟨error, error', herror, herror', hproblem⟩ :=
    Tree.ofSource_agree h h' hwords
  · refine ⟨fun problem => ?_, fun session seen => shows_iff_of_shape htree htree' hshape⟩
    constructor
    · rintro ⟨error, herror, _⟩
      cases htree.symm.trans herror
    · rintro ⟨error, herror, _⟩
      cases htree'.symm.trans herror
  · constructor
    · intro problem
      rw [Source.IsRefused, Source.IsRefused, herror, herror']
      constructor
      · rintro ⟨_, ⟨⟩, rfl⟩
        exact ⟨error', rfl, hproblem.symm⟩
      · rintro ⟨_, ⟨⟩, rfl⟩
        exact ⟨error, rfl, hproblem⟩
    · intro session seen
      have hgist : (Failure.grammatical error).gist = (Failure.grammatical error').gist :=
        congrArg (fun problem => (Gist.mk .invalidSyntax (SyntaxProblem.message problem) []))
          hproblem
      rw [shows_iff_of_error herror, shows_iff_of_error herror', hgist]

/-- A declaration and its use, on one line and on two, with the half spelled differently. -/
theorem shows_iff_of_words_of_halves :
    ∃ tokens others,
      Token.scan ⟨"double half = 0.50; half", "line"⟩ = .ok tokens ∧
      Token.scan ⟨"double half=.5 /* rounded */\nhalf", "lines"⟩ = .ok others ∧
      tokens.map Token.word = others.map Token.word ∧
      (∀ problem, Source.IsRefused ⟨"double half = 0.50; half", "line"⟩ problem ↔
        Source.IsRefused ⟨"double half=.5 /* rounded */\nhalf", "lines"⟩ problem) ∧
      ∀ (session : Session) (seen : Observation),
        session.Shows ⟨"double half = 0.50; half", "line"⟩ seen ↔
          session.Shows ⟨"double half=.5 /* rounded */\nhalf", "lines"⟩ seen := by
  have hreads : (Token.scan ⟨"double half=.5 /* rounded */\nhalf", "lines"⟩).isOk = true := by
    decide +kernel
  have hsame : (Token.scan ⟨"double half = 0.50; half", "line"⟩).toOption.map
        (List.map Token.word) =
      (Token.scan ⟨"double half=.5 /* rounded */\nhalf", "lines"⟩).toOption.map
        (List.map Token.word) := by
    decide +kernel
  cases h : Token.scan ⟨"double half = 0.50; half", "line"⟩ with
  | error error =>
      cases h' : Token.scan ⟨"double half=.5 /* rounded */\nhalf", "lines"⟩ with
      | error error' =>
          rw [h'] at hreads
          cases hreads
      | ok others =>
          rw [h, h'] at hsame
          cases hsame
  | ok tokens =>
      cases h' : Token.scan ⟨"double half=.5 /* rounded */\nhalf", "lines"⟩ with
      | error error =>
          rw [h'] at hreads
          cases hreads
      | ok others =>
          rw [h, h'] at hsame
          have hwords : tokens.map Token.word = others.map Token.word := Option.some.inj hsame
          exact ⟨tokens, others, rfl, rfl, hwords, shows_iff_of_words h h' hwords⟩

end Session

end Script
