/-
# A full sink only cuts a run short

A session whose sink has a limit does what the same session would do without one, up to the
first text that the sink refuses. There the run ends with an error and does nothing more:
its heap is the heap that the run without a limit has at the same moment, and what it has
printed is what that run has printed until then.
-/

import Script.Proofs.Eval.Calls
import Script.Proofs.Eval.Sink
import Script.Proofs.Session.Answer

namespace Script

open Eval

variable {session after : Session} {budget : Nat} {tree : Tree Span} {moment : Moment Span}
  {site : Span}

/-- The same session with a sink without a limit. -/
def Session.unlimited (session : Session) : Session := ⟨session.state.unlimited⟩

/-- The run of a program ends where the sink refuses a text, at a moment and a site. -/
structure Session.CutShort (session : Session) (budget : Nat) (tree : Tree Span)
    (moment : Moment Span) (site : Span) (after : Session) : Prop where
  /-- The run ends with an error of the refused text. -/
  ends : session.runTree budget tree =
    some (.error (.runtime ⟨.sinkFull, site, moment.state.calls⟩), after)
  /-- This is how the error is reported. -/
  reported : (Failure.runtime ⟨.sinkFull, site, moment.state.calls⟩).summary =
    "Illegal Operation: cannot write output: sink is full"
  /-- After the moment the run changes nothing and prints nothing. -/
  heap : after.state.heap = moment.state.heap
  functions : after.state.functions = moment.state.functions
  sink : after.state.sink = moment.state.sink
  /-- The evaluation does not go on from the moment. -/
  last : ∀ next, ¬ moment.Leads next
  /-- No other text is refused. -/
  only : ∀ other place, (Moment.ofProgram budget tree session.state).Reaches other →
    other.Refuses place → other = moment ∧ place = site
  /-- The run without a limit comes to the same moment, with the same heap and output. -/
  passed : (Moment.ofProgram budget tree session.unlimited.state).Reaches moment.unlimited
  /-- Within whichever budget the run without a limit ends, it has printed this and perhaps
  more. -/
  printed : ∀ enough answer unlimited,
    session.unlimited.runTree enough tree = some (answer, unlimited) →
    ∃ more, unlimited.state.sink.pending = after.state.sink.pending ++ more

theorem Moment.Refuses.site_unique {site' : Span} (h : moment.Refuses site)
    (h' : moment.Refuses site') : site = site' := by
  cases h with
  | write _ =>
      cases h' with
      | write _ => rfl

theorem runTree_unlimited
    (h : (Moment.ofProgram budget tree session.state).Unrefused) :
    session.unlimited.runTree budget tree =
      (session.runTree budget tree).map fun (answer, after) => (answer, after.unlimited) := by
  have hmain : main budget tree session.unlimited.state =
      (main budget tree session.state).unlimited := h.evaluate
  rw [Session.runTree, Session.runTree, program, program, hmain]
  cases main budget tree session.state with
  | done value state => rfl
  | interrupted interrupt state => cases interrupt <;> rfl
  | exhausted => rfl

/-- A run in which an error arises ends with it, as it was at that moment. -/
theorem exists_runTree_of_raises {error : RuntimeError Span}
    (hreaches : (Moment.ofProgram budget tree session.state).Reaches moment)
    (hraises : moment.Raises error) :
    ∃ after, session.runTree budget tree = some (.error (.runtime error), after) ∧
      moment.state.SameButCalls after.state := by
  obtain ⟨state, hfails, hsame⟩ := Moment.Reaches.failsAt hreaches hraises
  have hmain : main budget tree session.state = .interrupted (.error error) state :=
    (run_visit tree State.globals _).symm.trans hfails
  refine ⟨⟨state⟩, ?_, hsame⟩
  rw [Session.runTree, program, hmain]

/-- What a run has printed at a moment is a beginning of what it has printed at its end. -/
theorem prints_of_runTree {answer : Except Failure Value}
    (hreaches : (Moment.ofProgram budget tree session.state).Reaches moment)
    (hrun : session.runTree budget tree = some (answer, after)) :
    moment.state.Prints after.state := by
  have hprints : (main budget tree session.state).After moment.state.Prints := by
    have hafter := Moment.Reaches.prints hreaches
    rwa [Moment.outcome, Moment.ofProgram, Moment.start, run_visit] at hafter
  rw [Session.runTree, program] at hrun
  cases hmain : main budget tree session.state with
  | done value state =>
      rw [hmain] at hrun hprints
      cases hrun
      exact hprints
  | interrupted interrupt state =>
      rw [hmain] at hprints
      cases interrupt <;>
        · rw [hmain] at hrun
          cases hrun
          exact hprints
  | exhausted =>
      rw [hmain] at hrun
      cases hrun

/-- What a run prints is a beginning of what it prints without a limit. -/
theorem prints_unlimited {answer answer' : Except Failure Value} {after' : Session}
    (hrun : session.runTree budget tree = some (answer, after))
    (hunlimited : session.unlimited.runTree budget tree = some (answer', after')) :
    after.state.Prints after'.state := by
  obtain hfree | ⟨moment, site, hreaches, hrefuses⟩ :=
    (Moment.ofProgram budget tree session.state).unrefused_or_exists
  · rw [runTree_unlimited hfree, hrun] at hunlimited
    cases hunlimited
    exact ⟨"", String.append_empty.symm⟩
  · obtain ⟨ended, hended, hsame⟩ := exists_runTree_of_raises hreaches hrefuses.raises
    cases hrun.symm.trans hended
    have hpassed : (Moment.ofProgram budget tree session.unlimited.state).Reaches
        moment.unlimited := Moment.Reaches.unlimited hreaches
    obtain ⟨more, hmore⟩ := prints_of_runTree hpassed hunlimited
    refine ⟨more, hmore.trans ?_⟩
    rw [hsame.sink]
    rfl

/-- A full sink only cuts a run short. Where no text is refused, the run is the one without a
limit: it has the same answer or none, and the same heap and output. Where a text is
refused, the run ends there with an error and without doing anything more, and the run
without a limit comes to the same moment with the same heap and output. -/
theorem full_sink_cuts_short (session : Session) (budget : Nat) (tree : Tree Span) :
    ((Moment.ofProgram budget tree session.state).Unrefused →
      session.unlimited.runTree budget tree =
        (session.runTree budget tree).map fun (answer, after) => (answer, after.unlimited)) ∧
    ∀ moment site, (Moment.ofProgram budget tree session.state).Reaches moment →
      moment.Refuses site → ∃ after, session.CutShort budget tree moment site after := by
  refine ⟨runTree_unlimited, ?_⟩
  intro moment site hreaches hrefuses
  obtain ⟨after, hrun, hsame⟩ := exists_runTree_of_raises hreaches hrefuses.raises
  refine ⟨after, {
    ends := hrun
    reported := rfl
    heap := hsame.heap
    functions := hsame.functions
    sink := hsame.sink
    last := fun _ => hrefuses.raises.not_leads
    only := ?_
    passed := Moment.Reaches.unlimited hreaches
    printed := ?_ }⟩
  · intro other place hother hrefused
    obtain rfl := hrefused.raises.unique hrefuses.raises hother hreaches
    exact ⟨rfl, hrefused.site_unique hrefuses⟩
  · intro enough answer unlimited hunlimited
    exact prints_unlimited (Session.runTree_of_le (Nat.le_max_left budget enough) hrun)
      (Session.runTree_of_le (Nat.le_max_right budget enough) hunlimited)

/-- A program that prints a line and then another text. -/
def lineAndText : Tree Span :=
  .block default
    [.call default (.identifier default "println") [.string default "ab"],
      .call default (.identifier default "print") [.string default "c"]]

/-- A sink with room for two bytes takes the text of the line and refuses its end. -/
theorem full_sink_cuts_short_of_line :
    ∃ moment site after,
      (Moment.ofProgram 4 lineAndText (State.initial (some 2))).Reaches moment ∧
      moment.Refuses site ∧
      (Session.fresh (some 2)).CutShort 4 lineAndText moment site after ∧
      after.state.sink.pending = "ab" := by
  obtain ⟨hfree, hcut⟩ := full_sink_cuts_short (Session.fresh (some 2)) 4 lineAndText
  have hshort : ((Session.fresh (some 2)).runTree 4 lineAndText).map (·.2.state.sink.pending) =
      some "ab" := by decide +kernel
  have hlong : ((Session.fresh (some 2)).unlimited.runTree 4 lineAndText).map
      (·.2.state.sink.pending) = some "ab\nc" := by decide +kernel
  obtain hnone | ⟨moment, site, hreaches, hrefuses⟩ :=
    (Moment.ofProgram 4 lineAndText (State.initial (some 2))).unrefused_or_exists
  · rw [hfree hnone, Option.map_map] at hlong
    exact absurd (hshort.symm.trans hlong) (by decide)
  · obtain ⟨after, hends⟩ := hcut moment site hreaches hrefuses
    rw [hends.ends] at hshort
    exact ⟨moment, site, after, hreaches, hrefuses, hends, Option.some.inj hshort⟩

end Script
