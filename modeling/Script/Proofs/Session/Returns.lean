/-
# Bodies that give the result are as good as returns

A program and the same program with a return written around every body that gives the
result itself, at every level, cannot be told apart by what is seen of them in a fresh
session. The functions that they leave behind have other bodies, so the two are compared
state by state under the translation that writes the returns.
-/

import Script.Proofs.Eval.Explicit
import Script.Proofs.Session.Lines

namespace Script

open Eval

/-- The functions that every session begins with have no bodies. -/
theorem State.translate_initial {σ τ : Type} (translation : Translation σ τ)
    (limit : Option Nat) : (initial limit).translate translation = initial limit := by
  rw [translate, functions_initial, List.map_toArray, List.map_map]
  rfl

namespace Session

/-- A session with a return written around every body of its functions that gives the
result itself. -/
def explicit (session : Session) : Session := ⟨session.state.translate .explicit⟩

theorem explicit_fresh (limit : Option Nat) : (fresh limit).explicit = fresh limit :=
  congrArg Session.mk (State.translate_initial .explicit limit)

variable {tree : Tree Span} {seen : Observation}

/-- How the program ends with returns written out, within three times the budget. -/
theorem main_explicit_persists (session : Session) (tree : Tree Span) (budget : Nat) :
    ((main budget tree session.state).translate .explicit id).Persists
      (main (3 * budget) tree.explicit session.explicit.state) :=
  mirrorsTrees_shorter budget tree State.globals { session.state with calls := [] }

/-- How the program ends without, within the same budget. -/
theorem main_persists_explicit (session : Session) (tree : Tree Span) (budget : Nat) :
    (main budget tree.explicit session.explicit.state).Persists
      ((main budget tree session.state).translate .explicit id) :=
  mirrorsTrees_longer budget tree State.globals { session.state with calls := [] }

/-- Writing returns is not seen. -/
theorem showsTree_explicit (session : Session) :
    session.explicit.ShowsTree tree.explicit seen ↔ session.ShowsTree tree seen := by
  rw [showsTree_iff, showsTree_iff]
  constructor
  · rintro ⟨budget, hseen⟩
    have hend := Outcome.ne_exhausted_of_observation? hseen
    refine ⟨budget, ?_⟩
    rw [← Outcome.observation?_translate .explicit, main_persists_explicit session tree budget hend]
    exact hseen
  · rintro ⟨budget, hseen⟩
    rw [← Outcome.observation?_translate .explicit] at hseen
    have hend := Outcome.ne_exhausted_of_observation? hseen
    refine ⟨3 * budget, ?_⟩
    rw [main_explicit_persists session tree budget hend]
    exact hseen

/-- Bodies that give the result and bodies that return it cannot be told apart. In a fresh
session all is seen of a program that is seen of it with a return written around every body
that gives the result itself, and nothing else: the same value or the same failure, the
same output and the same global names, types and values. Neither ends if the other does
not. -/
theorem showsTree_explicit_iff (limit : Option Nat) (tree : Tree Span) (seen : Observation) :
    (fresh limit).ShowsTree tree seen ↔ (fresh limit).ShowsTree tree.explicit seen := by
  rw [← showsTree_explicit (fresh limit), explicit_fresh]

end Session

end Script
