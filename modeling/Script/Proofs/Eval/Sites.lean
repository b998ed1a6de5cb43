/-
# The sites that an error tells

An error tells the site at which it arose and the sites of the calls that were active. All
of these are sites of trees that ran: of the program itself or of the bodies of functions
that were there before. So they are as the rules ask for that all of these trees obey.
-/

import Script.Proofs.Eval.Calls

namespace Script

open Eval

variable {σ : Type} {discipline : Discipline σ}

/-- The sites on a stack of calls are as rules ask for. -/
def Rules.Calls (rules : Rules σ) (calls : List (Call σ)) : Prop :=
  ∀ call ∈ calls, rules.site call.site

/-- The sites that an error tells are as rules ask for. -/
structure Rules.Tells (rules : Rules σ) (error : RuntimeError σ) : Prop where
  site : rules.site error.site
  calls : rules.Calls error.calls

namespace Moment

variable {moment next : Moment σ}

/-- The stack of calls only grows by calls that the plan begins, at sites of the tree. -/
theorem Leads.calls_obey (h : Leads moment next) (hkeeps : moment.Keeps discipline)
    (hcalls : discipline.rules.Calls moment.state.calls) :
    discipline.rules.Calls next.state.calls := by
  obtain ⟨-, hsame⟩ | henters := h.respects_or_enters respected_calls
  · exact hsame.symm ▸ hcalls
  · cases henters with
    | intro hfew =>
        obtain ⟨_, _, _, _, hsite, _⟩ := hkeeps
        exact List.forall_mem_cons.mpr ⟨hsite, hcalls⟩

theorem Reaches.calls_obey (h : moment.Reaches next) (hkeeps : moment.Keeps discipline)
    (hcalls : discipline.rules.Calls moment.state.calls) :
    discipline.rules.Calls next.state.calls := by
  induction h with
  | refl => exact hcalls
  | tail hreaches hleads ih => exact hleads.calls_obey (Reaches.keeps hreaches hkeeps) ih

/-- An error that arises at a moment is told at a site of the tree. -/
theorem Raises.tells {error : RuntimeError σ} (h : moment.Raises error)
    (hkeeps : moment.Keeps discipline) (hcalls : discipline.rules.Calls moment.state.calls) :
    discipline.rules.Tells error := by
  refine ⟨?_, h.calls ▸ hcalls⟩
  obtain ⟨_, _, _, hsafe⟩ := hkeeps
  cases h with
  | action hrun => exact (Discipline.errs_of_allows hsafe.1 hrun).site
  | tooDeep hdeep => exact hsafe.2.1

end Moment

/-- The sites that an error of a program tells are as the rules ask for that the program and
the bodies of all functions obey. -/
theorem tells_of_program {budget : Nat} {tree : Tree σ} {state after : State σ}
    {error : RuntimeError σ} (hkept : discipline.Kept state.store)
    (hglobals : discipline.scope state.store State.globals)
    (hobeys : tree.Obeys discipline.rules .program)
    (h : program budget tree state = some (.error error, after)) :
    discipline.rules.Tells error := by
  have hstart : discipline.Kept { state with calls := [] }.store := hkept
  obtain ⟨active, harises⟩ := exists_arisesUnder h
  cases harises with
  | @inside moment _ hreaches hraises =>
      have hkeeps : (Moment.ofProgram budget tree state).Keeps discipline :=
        Moment.keeps_start hstart hobeys hglobals
      exact hraises.tells (Moment.Reaches.keeps hreaches hkeeps)
        (Moment.Reaches.calls_obey hreaches hkeeps (List.forall_mem_nil _))
  | @behind exit after hexit =>
      have hnone : (exit.stray after.calls).calls = [] := (ArisesUnder.behind hexit).calls
      have hcalls : discipline.rules.Calls (exit.stray after.calls).calls :=
        hnone ▸ List.forall_mem_nil _
      have hmain := discipline.evaluate budget hstart hobeys hglobals
      rw [Eval.main] at hexit
      rw [hexit] at hmain
      cases exit with
      | returned value site => exact ⟨hmain.2.2.1, hcalls⟩
      | breaking site | continuing site => exact ⟨hmain.2.2.1, hcalls⟩

end Script
