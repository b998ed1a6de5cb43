/-
# Printed data is source text for itself

The text of data, quoted as it is inside other values, is a program, and running it in a
fresh session gives the data back. The depth of the data matters since a text shows a
limited number of levels only.
-/

import Script.Proofs.Grammar.Lines
import Script.Proofs.Grammar.Spelling
import Script.Proofs.Number.Digits
import Script.Proofs.Session.Lines

namespace Script

open Token Grammar Eval

/-! ## The text of data -/

theorem Number.ofDigits_toDigits (n : Nat) :
    ofDigits (Nat.toDigits 10 n) false = .int (Int32.ofNat n) := by
  rw [ofDigits_eq, digitsValue_eq fun digit => Nat.isDigit_of_mem_toDigits (by decide) (by decide),
    Nat.ofDigitChars_toDigits (by decide) (by decide)]
  rfl

/-- What stands behind the minus of a negative integer wraps to its negation. -/
theorem Int32.ofNat_toNat_neg {value : Int32} (h : value.toInt < 0) :
    Int32.ofNat (-value.toInt).toNat = -value := by
  have hcast : ((-value.toInt).toNat : Int) = -value.toInt := Int.toNat_of_nonneg (by omega)
  rw [← Int32.ofInt_eq_ofNat, hcast, Int32.ofInt_neg, Int32.ofInt_toInt]

theorem Int32.ofNat_toNat {value : Int32} (h : 0 ≤ value.toInt) :
    Int32.ofNat value.toInt.toNat = value := by
  have hcast : (value.toInt.toNat : Int) = value.toInt := Int.toNat_of_nonneg h
  rw [← Int32.ofInt_eq_ofNat, hcast, Int32.ofInt_toInt]

theorem spellsOut_int (value : Int32) :
    SpellsOut (Expression .enclosed) (toString value.toInt).toList
      (Value.literal (.number (.int value))) := by
  have hdigits (n : Nat) : ∃ digit digits, Nat.toDigits 10 n = digit :: digits ∧
      (∀ character ∈ digit :: digits, character.isDigit = true) ∧
      Number.ofDigits (digit :: digits) false = .int (Int32.ofNat n) := by
    obtain ⟨digit, digits, heq⟩ :=
      List.exists_cons_of_ne_nil (Nat.toDigits_ne_nil (n := n) (b := 10))
    refine ⟨digit, digits, heq, ?_, heq ▸ Number.ofDigits_toDigits n⟩
    intro character hcharacter
    exact Nat.isDigit_of_mem_toDigits (by decide) (by decide) (heq ▸ hcharacter)
  rw [Int.toString_eq_repr, Int.repr_eq_if, Value.literal]
  split
  · next hnonneg =>
    obtain ⟨digit, digits, heq, hall, hvalue⟩ := hdigits value.toInt.toNat
    rw [Int32.ofNat_toNat hnonneg] at hvalue
    rw [if_neg (by omega), Nat.toList_repr, heq, ← hvalue]
    exact (spellsOut_digits hall).imp expression_of_primary
  · next hnegative =>
    obtain ⟨digit, digits, heq, hall, hvalue⟩ := hdigits (-value.toInt).toNat
    rw [Int32.ofNat_toNat_neg (by omega)] at hvalue
    rw [if_pos (by omega), String.toList_append, Nat.toList_repr, heq, ← hvalue]
    exact spellsOut_negative hall

theorem spellsOut_truth (value : Bool) :
    SpellsOut (Expression .enclosed) (Value.truthText value).toList
      (Value.literal (.boolean value)) := by
  cases value with
  | false =>
      exact (spellsOut_name 'f' ['a', 'l', 's', 'e'] rfl rfl (by decide)).imp
        expression_of_primary
  | true =>
      exact (spellsOut_name 't' ['r', 'u', 'e'] rfl rfl (by decide)).imp
        expression_of_primary

theorem spellsOut_nil :
    SpellsOut (Expression .enclosed) "nil".toList (Value.literal .nil) :=
  (spellsOut_name 'n' ['i', 'l'] rfl rfl (by decide)).imp expression_of_primary

/-- The text of data spells the data out, if all its levels are shown. -/
theorem spellsOut_render (heap : Heap) {levels : Nat} {value : Value} (hdata : value.IsData)
    (hdepth : value.depth < levels) :
    SpellsOut (Expression .enclosed) (value.render heap levels true).toList value.literal := by
  induction levels generalizing value with
  | zero => exact (Nat.not_lt_zero _ hdepth).elim
  | succ levels ih =>
      rw [Value.render.eq_def]
      cases value with
      | number value =>
          cases value with
          | int value => exact spellsOut_int value
          | long value => exact hdata.elim
          | double value => exact hdata.elim
      | boolean value => exact spellsOut_truth value
      | string text => exact (spellsOut_quote hdata).imp expression_of_primary
      | list items =>
          have hitems (item : Value) (hitem : item ∈ items) :
              SpellsOut (Expression .enclosed) (item.render heap levels true).toList
                item.literal := by
            have hless := Value.depth_lt_of_mem hitem
            exact ih (Value.isData_list_iff.mp hdata item hitem) (by omega)
          have hlist := (spellsOut_list hitems).imp expression_of_primary
          rw [Value.literal, Value.literals_eq_map]
          simp only [String.toList_append, String.toList_intercalate, List.map_map]
          exact hlist
      | function name id => exact hdata.elim
      | space name frame => exact hdata.elim
      | nil => exact spellsOut_nil

/-- The text of data, as a source, is the program of one statement that the data is
written as. -/
theorem exists_ofSource_repr (heap : Heap) {value : Value} (hdata : value.IsData)
    (hdepth : value.depth ≤ 8) (file : String) :
    ∃ tree, Tree.ofSource ⟨value.repr heap, file⟩ = .ok tree ∧
      tree.shape = .block () [value.literal] := by
  have hspells : SpellsOut (Expression .enclosed) (value.repr heap).toList value.literal :=
    spellsOut_render heap hdata (Nat.lt_succ_of_le hdepth)
  obtain ⟨body, hscan, hkinds, hread⟩ :=
    hspells ⟨value.repr heap, file⟩ .start .nil (by rw [scanFrom])
  have hprogram (span : Span) :
      Program (programTokens (body ++ [atEnd span])) (.block () [value.literal]) := by
    rw [programTokens_append_atEnd _ hkinds, ← List.append_nil body]
    exact .intro (.some .none (.one (.expression (hread [])) .none))
  rw [List.append_nil] at hscan
  obtain ⟨tree, htree, hshape⟩ := exists_ofTokens_of_program (hprogram _)
  exact ⟨tree, Tree.ofSource_eq_ok_iff.mpr ⟨_, hscan, htree⟩, hshape⟩

/-! ## The value of data as source text -/

namespace Eval

variable {scope : FrameId} {budget : Nat} {state : State Unit}

/-- The names of the two truth values and of nil, seen from a frame, mean these. -/
structure HasConstants (heap : Heap) (scope : FrameId) : Prop where
  truth : ∀ value, heap.get scope (Value.truthText value) = .ok (.boolean value)
  nil : heap.get scope "nil" = .ok .nil

theorem run_each {items : List Value} (before : List Value)
    (h : ∀ item ∈ items, evaluate budget item.literal scope state = .done item state) :
    (each scope before (items.map Value.literal)).run (evaluate budget) state =
      .done (before.reverse ++ items) state := by
  induction items generalizing before with
  | nil =>
      rw [List.append_nil]
      rfl
  | cons item items ih =>
      obtain ⟨hfirst, hothers⟩ := List.forall_mem_cons.mp h
      have hrun : (each scope before ((item :: items).map Value.literal)).run (evaluate budget)
            state =
          (evaluate budget item.literal scope state).andThen fun value middle =>
            (each scope (value :: before) (items.map Value.literal)).run (evaluate budget) middle :=
        run_visiting _ _ _
      rw [hrun, hfirst, Outcome.andThen, ih _ hothers, List.reverse_cons, List.append_assoc,
        List.singleton_append]

theorem evaluate_identifier {name : String} {value : Value}
    (h : state.heap.get scope name = .ok value) :
    evaluate (budget + 1) (.identifier () name) scope state = .done value state := by
  have hrun : evaluate (budget + 1) (.identifier () name) scope state =
      .ofAction ((Action.lookup () scope name).run state) :=
    run_act _ _
  rw [hrun, Action.run, h]
  rfl

theorem evaluate_literal_int (value : Int32) (hbudget : 2 ≤ budget) :
    evaluate budget (Value.literal (.number (.int value))) scope state =
      .done (.number (.int value)) state := by
  obtain ⟨budget, rfl⟩ : ∃ less, budget = less + 2 := ⟨budget - 2, by omega⟩
  rw [Value.literal]
  split
  · have hnegated : evaluate (budget + 2) (.unary () .negate (.number () (.int (-value)))) scope
        state = .done (.number (.int (- -value))) state := rfl
    rw [hnegated, Int32.neg_neg]
  · rfl

/-- Evaluating data as it is written gives the data and changes nothing. -/
theorem evaluate_literal (hconstants : HasConstants state.heap scope) {value : Value}
    (hdata : value.IsData) (hbudget : value.depth + 2 ≤ budget) :
    evaluate budget value.literal scope state = .done value state := by
  induction budget generalizing value with
  | zero => exact (Nat.not_succ_le_zero _ hbudget).elim
  | succ budget ih =>
      cases value with
      | number value =>
          cases value with
          | int value => exact evaluate_literal_int value (Nat.le_of_add_left_le hbudget)
          | long value => exact hdata.elim
          | double value => exact hdata.elim
      | boolean value => exact evaluate_identifier (hconstants.truth value)
      | string text => rfl
      | list items =>
          have hitems (item : Value) (hitem : item ∈ items) :
              evaluate budget item.literal scope state = .done item state := by
            have hless := Value.depth_lt_of_mem hitem
            exact ih (Value.isData_list_iff.mp hdata item hitem) (by omega)
          have hrun : evaluate (budget + 1) (.list () (items.map Value.literal)) scope state =
              ((each scope [] (items.map Value.literal)).run (evaluate budget) state).andThen
                fun values middle => .done (.list values) middle :=
            run_bind _ _ _
          rw [Value.literal, Value.literals_eq_map, hrun, run_each [] hitems]
          rfl
      | function name id => exact hdata.elim
      | space name frame => exact hdata.elim
      | nil => exact evaluate_identifier hconstants.nil

end Eval

namespace Session

theorem eq_ok_of_same {result : Except BindingError Value} {value : Value}
    (hvalue : ∀ found : Value, found.same value = true → found = value)
    (h : result.toOption.any (·.same value) = true) : result = .ok value := by
  cases result with
  | error error => cases h
  | ok found => rw [hvalue found h]

theorem hasConstants_fresh (limit : Option Nat) :
    HasConstants (fresh limit).state.heap State.globals := by
  have hheap : (fresh limit).state.heap = (fresh none).state.heap := rfl
  rw [hheap]
  constructor
  · intro value
    refine eq_ok_of_same ?_ (by cases value <;> decide +kernel)
    intro found hsame
    cases found with
    | boolean found => rw [beq_iff_eq.mp hsame]
    | _ => cases hsame
  · refine eq_ok_of_same ?_ (by decide +kernel)
    intro found hsame
    cases found <;> cases hsame
    rfl

theorem exists_done_of_shape {outcome : Outcome Span Value} {value : Value} {state : State Unit}
    (h : outcome.shape id = .done value state) :
    ∃ after, outcome = .done value after ∧ after.shape = state := by
  cases outcome with
  | done given after =>
      cases h
      exact ⟨after, rfl, rfl⟩
  | interrupted interrupt after => cases h
  | exhausted => cases h

/-- A program of one statement that writes data gives the data and prints nothing, where
truth values and nil have their names. -/
theorem runTree_literal {session : Session} (hconstants : HasConstants session.heap State.globals)
    {value : Value} (hdata : value.IsData) {tree : Tree Span}
    (hshape : tree.shape = .block () [value.literal]) :
    ∃ after, session.runTree (value.depth + 3) tree = some (.ok value, after) ∧
      after.state.sink = session.state.sink := by
  let start : State Span := { session.state with calls := [] }
  have hblock : evaluate (value.depth + 3) (.block () [value.literal]) State.globals start.shape =
      (evaluate (value.depth + 2) value.literal State.globals start.shape).andThen .done :=
    run_visiting _ _ _
  have hstart : HasConstants start.shape.heap State.globals := hconstants
  rw [evaluate_literal hstart hdata (Nat.le_refl _), ← hshape, evaluate_shape] at hblock
  obtain ⟨after, hmain, hafter⟩ := exists_done_of_shape hblock
  have hrun : session.runTree (value.depth + 3) tree = some (.ok value, ⟨after⟩) := by
    rw [runTree, program, Eval.main, hmain]
  have hsink : after.shape.sink = start.shape.sink := congrArg State.sink hafter
  exact ⟨⟨after⟩, hrun, hsink⟩

/-- Printed data is source text for itself. The text of a value that is made of 32-bit
integers, booleans, nil, strings of readable characters and lists, and no element of which
lies more than eight levels below it, runs in a fresh session without a failure; it gives a
value that is the same as the one that was printed, and prints nothing. -/
theorem answers_repr (heap : Heap) (limit : Option Nat) (file : String) {value : Value}
    (hdata : value.IsData) (hdepth : value.depth ≤ 8) :
    ∃ result after, (fresh limit).Answers ⟨value.repr heap, file⟩ (.ok result) after ∧
      result.same value = true ∧ after.state.sink = (fresh limit).state.sink := by
  obtain ⟨tree, htree, hshape⟩ := exists_ofSource_repr heap hdata hdepth file
  obtain ⟨after, hrun, hsink⟩ := runTree_literal (hasConstants_fresh limit) hdata hshape
  refine ⟨value, after, ⟨value.depth + 3, ?_⟩, Value.same_self hdata, hsink⟩
  rw [run, htree]
  exact hrun

/-- The least integer, a quote and a line feed, and lists in a list. -/
def printedData : Value :=
  .list [.number (.int (-2147483648)), .string "\"\n", .list [.list [], .boolean true], .nil]

theorem isData_printedData : printedData.IsData := by
  have htext : ∀ character ∈ ['"', '\n'], Text.IsReadable character :=
    List.forall_mem_cons.mpr ⟨by decide, List.forall_mem_singleton.mpr (by decide)⟩
  exact ⟨trivial, htext, ⟨trivial, trivial, trivial⟩, trivial, trivial⟩

theorem answers_repr_of_printedData :
    printedData.IsData ∧ printedData.depth ≤ 8 ∧
    ∃ result after,
      (fresh none).Answers ⟨printedData.repr Heap.empty, "printed"⟩ (.ok result) after ∧
        result.same printedData = true ∧ after.state.sink = (fresh none).state.sink := by
  have hdepth : printedData.depth ≤ 8 := by decide
  exact ⟨isData_printedData, hdepth, answers_repr _ none "printed" isData_printedData hdepth⟩

end Session

end Script
