/-
# Every reported span is genuine

Whatever a run of a source reports points into a source that was run: a lexical error and a
syntax error into the source itself, an error at run time into one of the sources that the
session has run. An error at run time may point far back, since functions outlive the source
that defined them; so it is known of a session that the bodies of all its functions come from
its sources.
-/

import Script.Proofs.Eval.Sites
import Script.Proofs.Grammar.Lines
import Script.Proofs.Parser.Genuine
import Script.Proofs.Session.History

namespace Script

open Eval

/-- The rules that ask for all spans to be genuine in one of some sources. -/
def Rules.genuineAmong (sources : List Source) : Rules Span :=
  ⟨fun span => ∃ origin ∈ sources, span.GenuineIn origin, False⟩

/-- The sites of the program that a source is are genuine in it. -/
theorem Tree.genuineIn_of_ofSource {source : Source} {tree : Tree Span}
    (h : Tree.ofSource source = .ok tree) (enclosure : Enclosure) :
    tree.Obeys (.genuineIn source) enclosure := by
  obtain ⟨tokens, hscan, htree⟩ := ofSource_eq_ok_iff.mp h
  exact genuineIn_of_ofTokens hscan htree enclosure

/-- A program that is read from one of some sources. -/
def Tree.ComesFrom (sources : List Source) (tree : Tree Span) : Prop :=
  ∃ source ∈ sources, Tree.ofSource source = .ok tree

theorem Tree.ComesFrom.obeys {sources : List Source} {tree : Tree Span}
    (h : tree.ComesFrom sources) (enclosure : Enclosure) :
    tree.Obeys (.genuineAmong sources) enclosure := by
  obtain ⟨source, hsource, htree⟩ := h
  have hweaker : (Rules.genuineAmong sources).Weaker (.genuineIn source) :=
    ⟨fun _ hsite => ⟨source, hsource, hsite⟩, False.elim⟩
  exact (genuineIn_of_ofSource htree enclosure).weaken hweaker

namespace Session

/-- A session in which some sources were run, the latest first. A source that fails is one of
them. -/
inductive RanSources : List Source → Session → Prop
  | fresh (limit : Option Nat) : RanSources [] (.fresh limit)
  | run {sources : List Source} {session after : Session} {budget : Nat} {source : Source}
      {answer : Except Failure Value} :
      RanSources sources session → session.run budget source = some (answer, after) →
      RanSources (source :: sources) after
  | takeOutput {sources : List Source} {session : Session} :
      RanSources sources session → RanSources sources session.takeOutput.2

variable {sources all : List Source} {session after : Session} {budget : Nat} {source : Source}

theorem RanSources.runsOnly (h : RanSources sources session)
    (hall : ∀ source ∈ sources, source ∈ all) : session.RunsOnly (Tree.ComesFrom all) := by
  induction h with
  | fresh limit => exact .fresh limit
  | @run _ _ _ _ source _ _ hrun ih =>
      obtain ⟨hsource, hsources⟩ := List.forall_mem_cons.mp hall
      exact (ih hsources).run (fun tree htree => ⟨source, hsource, htree⟩) hrun
  | takeOutput _ ih => exact (ih hall).takeOutput

end Session

/-! ## The theorem -/

/-- What the failure of a source reports points into sources that were run: if the source
cannot be read, into itself, and otherwise, as the calls in the traceback do, into itself or
into one that was run before. -/
def Failure.Genuine (sources : List Source) (source : Source) : Failure → Prop
  | .lexical error => error.span.GenuineIn source
  | .grammatical error => error.span.GenuineIn source
  | .runtime error => (Rules.genuineAmong (source :: sources)).Tells error

/-- The span of why a source is no program is genuine in it. -/
theorem Tree.genuine_of_ofSource {sources : List Source} {source : Source} {failure : Failure}
    (h : Tree.ofSource source = .error failure) : failure.Genuine sources source := by
  rw [ofSource] at h
  split at h
  · next hscan =>
    cases h
    exact Token.genuineIn_of_scan_error hscan
  · next hscan =>
    split at h
    · next herror =>
      cases h
      exact genuineIn_of_ofTokens_error hscan herror
    · cases h

namespace Session

variable {sources : List Source} {session after : Session} {budget : Nat} {source : Source}
  {failure : Failure}

/-- In every session, whatever sources were run in it, the failure of a source is reported at
a genuine span of one of them, and of the source itself if it cannot be read. The calls in
the traceback have genuine spans of these sources as well. -/
theorem genuine_of_run (hsession : RanSources sources session)
    (hrun : session.run budget source = some (.error failure, after)) :
    failure.Genuine sources source := by
  obtain ⟨_, hsource, hfailure, _⟩ | ⟨tree, htree, hrun⟩ := run_eq_some hrun
  · cases hfailure
    exact Tree.genuine_of_ofSource hsource
  · have hran : session.RunsOnly (Tree.ComesFrom (source :: sources)) :=
      hsession.runsOnly fun _ hsource => List.mem_cons_of_mem source hsource
    have hobeys : tree.Obeys (.genuineAmong (source :: sources)) .program :=
      Tree.ComesFrom.obeys ⟨source, List.mem_cons_self, htree⟩ .program
    obtain ⟨hkept, hglobals⟩ := hran.kept (begins_ofRules (.genuineAmong (source :: sources)))
      fun tree hcomes => hcomes.obeys .program
    cases failure with
    | runtime error => exact tells_of_program hkept hglobals hobeys (program_of_runTree hrun)
    | lexical error | grammatical error =>
        obtain ⟨_, _, hanswer⟩ | ⟨_, _, hanswer⟩ | ⟨_, _, hanswer⟩ := runTree_eq_some hrun
        all_goals cases hanswer

/-- A definition of a function that fails. -/
def failingDefinition : Source := ⟨"int f() =\n  1 / 0", "first"⟩

/-- A call of the function. -/
def failingCall : Source := ⟨"\n1 +\tf()", "second"⟩

/-- The places that the failure of a source tells, each with its source. -/
def told : Except Failure Value → List (Source × String)
  | .error (.runtime error) =>
    (error.site :: error.calls.map Call.site).map fun site => (site.source, site.text)
  | _ => []

/-- The error of the function arises in the source that defines it, and the call in the
traceback stands in the source that was run. -/
theorem genuine_of_run_of_failingCall :
    ∃ session failure after, RanSources [failingDefinition] session ∧
      session.run 40 failingCall = some (.error failure, after) ∧
      told (.error failure) = [(failingDefinition, "1 / 0"), (failingCall, "f()")] ∧
      failure.Genuine [failingDefinition] failingCall := by
  have htold : ((Session.fresh none).run 40 failingDefinition).bind (fun first =>
      (first.2.run 40 failingCall).map fun second => told second.1) =
        some [(failingDefinition, "1 / 0"), (failingCall, "f()")] := by decide +kernel
  obtain ⟨⟨answer, session⟩, hfirst, hsecond⟩ := Option.bind_eq_some_iff.mp htold
  obtain ⟨⟨ended, after⟩, hrun, htold⟩ := Option.map_eq_some_iff.mp hsecond
  have hran : RanSources [failingDefinition] session := .run (.fresh none) hfirst
  cases ended with
  | ok value => cases htold
  | error failure => exact ⟨session, failure, after, hran, hrun, htold, genuine_of_run hran hrun⟩

end Session

end Script
