/-
# Bodies that give the result and bodies that return it

A function whose body gives the result has the same results as one whose body is a block
with a return of it. The return takes two nodes more, so the one is evaluated within a
budget where the other needs a budget that is larger by two at every call; what ends
within a budget ends in the same way, with returns written out, within three times that
budget, and the other way round within the budget itself.
-/

import Script.Proofs.Eval.Mirror

namespace Script

variable {σ : Type}

/-- A function that gives what its body gives, as one that returns it. -/
def Closure.returning (closure : Closure σ) : Closure σ :=
  { closure with
    givesBody := false
    body := .block closure.body.site [.returnValue closure.body.site closure.body] }

/-- A function with returns written out inside its body. -/
def Closure.withExplicitBody (closure : Closure σ) : Closure σ :=
  { closure with body := closure.body.explicit }

theorem Closure.translate_explicit (closure : Closure σ) :
    closure.translate .explicit =
      if closure.givesBody then closure.withExplicitBody.returning
      else closure.withExplicitBody := by
  obtain ⟨parameters, returnType, givesBody, body, scope⟩ := closure
  cases givesBody <;> rfl

namespace Eval

variable {budget larger : Nat}

/-! ## Results -/

theorem evaluate_returnValue_block (site site' : σ) (body : Tree σ) (scope : FrameId)
    (state : State σ) :
    evaluate (budget + 2) (.block site [.returnValue site' body]) scope state =
      (evaluate budget body scope state).andThen fun value middle =>
        .interrupted (.exit (.returned value site')) middle := by
  have hblock : evaluate (budget + 2) (.block site [.returnValue site' body]) scope state =
      (evaluate (budget + 1) (.returnValue site' body) scope state).andThen .done :=
    run_visiting _ _ _
  have hreturn : evaluate (budget + 1) (.returnValue site' body) scope state =
      (evaluate budget body scope state).andThen fun value middle =>
        .interrupted (.exit (.returned value site')) middle :=
    run_visiting _ _ _
  rw [hblock, hreturn, Outcome.andThen_assoc]
  rfl

/-- Returning the result is giving it. -/
theorem run_result_returning (closure : Closure σ) (h : closure.givesBody = true) (budget : Nat)
    (scope : FrameId) (state : State σ) :
    (result closure.returning scope).run (evaluate (budget + 2)) state =
      (result closure scope).run (evaluate budget) state := by
  have hbody : (visit closure.returning.body scope).run (evaluate (budget + 2)) state =
      ((visit closure.body scope).run (evaluate budget) state).andThen fun value middle =>
        .interrupted (.exit (.returned value closure.body.site)) middle := by
    rw [run_visit, run_visit]
    exact evaluate_returnValue_block _ _ _ _ _
  rw [result, result, run_bind, run_bind, run_attempt, run_attempt, hbody]
  cases (visit closure.body scope).run (evaluate budget) state with
  | done value middle =>
      simp only [Outcome.andThen, Outcome.attempted, h]
      rfl
  | interrupted interrupt middle =>
      cases interrupt with
      | error error => rfl
      | exit exit => cases exit <;> rfl
  | exhausted => rfl

theorem run_result_returning_persists (closure : Closure σ) (h : closure.givesBody = true)
    (budget : Nat) (scope : FrameId) (state : State σ) :
    ((result closure.returning scope).run (evaluate budget) state).Persists
      ((result closure scope).run (evaluate budget) state) := by
  obtain hsmall | ⟨less, rfl⟩ : budget < 2 ∨ ∃ less, budget = less + 2 := by
    obtain hsmall | hlarge := Nat.lt_or_ge budget 2
    · exact .inl hsmall
    · exact .inr ⟨budget - 2, by omega⟩
  · have hexhausted : (result closure.returning scope).run (evaluate budget) state =
        .exhausted := by
      obtain rfl | rfl : budget = 0 ∨ budget = 1 := by omega
      · rfl
      · rfl
    rw [hexhausted]
    exact fun hend => (hend rfl).elim
  · rw [run_result_returning closure h]
    exact (Prolongs.refl (result closure scope)).run
      (evaluate_persists (Nat.le_add_right less 2)) state

/-! ## Trees -/

/-- Trees that are evaluated within one budget, and with returns written out within
another. -/
def explicitly (comparison : Comparison σ) (budget larger : Nat) :
    Mirroring (.explicit : Translation σ σ) where
  comparison := comparison
  evaluate := evaluate budget
  mirrored := evaluate larger

/-- Returns that are written out inside a body do not change the result. -/
theorem mirrors_result_withExplicitBody {comparison : Comparison σ}
    (h : MirrorsTrees (explicitly comparison budget larger)) (closure : Closure σ)
    (scope : FrameId) :
    Mirrors (explicitly comparison budget larger) id (result closure scope)
      (result closure.withExplicitBody scope) :=
  mirrors_result rfl (mirrors_visit h closure.body scope)

theorem mirrorsTrees_of_le {further : Nat} (hle : larger ≤ further)
    (h : MirrorsTrees (explicitly (.shorter : Comparison σ) budget larger)) :
    MirrorsTrees (explicitly (.shorter : Comparison σ) budget further) :=
  fun tree scope state => (h tree scope state).trans (evaluate_persists hle _ scope _)

/-- What ends within a budget ends in the same way with returns written out. -/
theorem mirrorsTrees_shorter (budget : Nat) :
    MirrorsTrees (explicitly (.shorter : Comparison σ) budget (3 * budget)) := by
  induction budget with
  | zero => exact fun _ _ _ hend => (hend rfl).elim
  | succ budget ih =>
      have htrees := mirrorsTrees_of_le (Nat.le_add_right (3 * budget) 2) ih
      have hresult : MirrorsResults
          (explicitly (.shorter : Comparison σ) budget (3 * budget + 2)) := by
        intro closure scope
        rw [closure.translate_explicit]
        split
        · next hgives =>
          intro state
          have hreturning := run_result_returning closure.withExplicitBody hgives (3 * budget)
            scope (state.translate .explicit)
          exact hreturning ▸ mirrors_result_withExplicitBody ih closure scope state
        · exact mirrors_result_withExplicitBody htrees closure scope
      intro tree scope state
      have hrounds : budget ≤ 3 * budget + 2 := by omega
      refine (mirrors_step htrees hresult budget tree scope state).trans ?_
      exact (Prolongs.step hrounds _ scope).run (fun _ _ _ _ => rfl) _

/-- What ends within a budget with returns written out ends in the same way without. -/
theorem mirrorsTrees_longer (budget : Nat) :
    MirrorsTrees (explicitly (.longer : Comparison σ) budget budget) := by
  induction budget with
  | zero => exact fun _ _ _ hend => (hend rfl).elim
  | succ budget ih =>
      have hresult : MirrorsResults (explicitly (.longer : Comparison σ) budget budget) := by
        intro closure scope
        rw [closure.translate_explicit]
        split
        · next hgives =>
          intro state
          have hgiven := mirrors_result_withExplicitBody ih closure scope state
          have hreturning := run_result_returning_persists closure.withExplicitBody hgives budget
            scope (state.translate .explicit)
          exact hreturning.trans hgiven
        · exact mirrors_result_withExplicitBody ih closure scope
      exact fun tree scope state => mirrors_step ih hresult budget tree scope state

end Eval

end Script
