/-
# What stands in brackets stands where it was read

Items with commas in between up to a closing token, and expressions with separators around
them. An item is never cut off, since a closing token follows.
-/

import Script.Proofs.Span.Statement

namespace Script.Parser

open Grammar

variable {ι α : Type} {row : List Token} {size : ι → Nat} {start : Nat} {close : Token.Kind}

/-! ## Commas -/

section Commas

variable {item : ι → Parser α} {stands : Nat → Nat → α → Prop}

theorem commaSeparated_of_pos (item : Parser α) {count : Nat} (hcount : 0 < count) :
    commaSeparated item count = (do
      let first ← item
      if ← accept .comma then return first :: (← commaSeparated item (count - 1 : Nat))
      else return [first]) := by
  obtain ⟨less, rfl⟩ := Nat.exists_eq_succ_of_ne_zero (Nat.ne_of_gt hcount)
  rfl

theorem yields_commaSeparated {start : Nat}
    (hitem : ∀ place, start ≤ place → Yields row size item place fun stop a =>
      place < stop ∧ Lined stands place stop [a]) :
    Yields row (fun i : ι × Nat => min (size i.1) i.2)
      (fun i => commaSeparated (item i.1) i.2) start
      (fun stop items => start < stop ∧ Lined stands start stop items) := by
  refine Yields.of_run ?_ fun _ _ hlength => congrArg (StateT.run · _) (commaSeparated_of_pos _ ?_)
  · have hfirst := (hitem start (Nat.le_refl _)).reindex Prod.fst
      fun i : ι × Nat => Nat.min_le_left (size i.1) i.2
    refine hfirst.bind_shorter And.left fun {middle first} hlt hfirst => ?_
    replace hfirst := hfirst.2
    refine (yields_accept (by decide)).bind fun {next taken} _ haccept => ?_
    obtain ⟨rfl, rfl, comma, hcomma⟩ | ⟨rfl, rfl⟩ := haccept
    · have hlength := lt_length_of_getElem? hcomma.1
      have hbehind (place : Nat) (hplace : middle + 1 ≤ place) := hitem place (by omega)
      have hothers := (yields_commaSeparated hbehind).reindex
        (fun i : ι × Nat => (i.1, i.2 - 1)) fun i : ι × Nat =>
          (by omega : min (size i.1) i.2 - 1 ≤ min (size i.1) (i.2 - 1))
      refine hothers.map (first :: ·) fun {stop others} _ hrest => ?_
      obtain ⟨hstop, hrest⟩ := hrest
      exact ⟨by omega, hfirst.append (hrest.mono_start (Nat.le_succ middle))⟩
    · exact .pure ⟨hlt, hfirst⟩
  · exact Nat.lt_of_lt_of_le (Nat.zero_lt_of_lt hlength) (Nat.min_le_right _ _)
termination_by row.length - start

/-- Items up to and with a closing token, and what stands behind them. -/
theorem yields_closed {β : Type} {next : ι → List α → Token → Parser β} {bound : ι → Nat}
    {problem : SyntaxProblem} {post : Nat → β → Prop} (hclose : close ≠ .endOfInput)
    (hbound : ∀ i, size i ≤ bound i)
    (hitem : ∀ place, start ≤ place → Yields row size item place fun stop a =>
      place < stop ∧ Lined stands place stop [a])
    (hnext : ∀ {last items closing}, start ≤ last → Lined stands start last items →
      StandsAt row last close closing → Yields row size (next · items closing) (last + 1) post) :
    Yields row size
      (fun i => do
        let items ← itemsBefore close (item i) (bound i)
        let closing ← expect close problem
        next i items closing)
      start post := by
  have hclosing {last : Nat} {items : List α} (hle : start ≤ last)
      (hitems : Lined stands start last items) :
      Yields row size (fun i => expect close problem >>= fun closing => next i items closing) last
        fun stop b => start < stop ∧ post stop b := by
    refine (yields_expect problem hclose).bind ?_
    rintro _ closing _ ⟨rfl, hclosing⟩
    exact (hnext hle hitems hclosing).imp fun hreads hpost =>
      ⟨Nat.lt_of_lt_of_le (Nat.lt_succ_of_le hle) hreads.start_le, hpost⟩
  simp only [itemsBefore, bind_assoc]
  refine .peekKind ?_
  split
  · simp only [pure_bind]
    exact hclosing (Nat.le_refl _) (.nil (Nat.le_refl _))
  · have hsome := (yields_commaSeparated hitem).reindex (fun i => (i, bound i))
      fun i => Nat.le_min.mpr ⟨Nat.le_refl _, hbound i⟩
    exact hsome.bind fun hle hitems => hclosing hle hitems.2

end Commas

/-! ## Brackets -/

theorem yields_spaced (h : Nested row start) :
    Yields row (fun bound => bound) (fun bound => spaced (expression bound)) start fun stop node =>
      start < stop ∧ Lined (Rooted row) start stop [node] := by
  refine yields_skipSeparators.bind fun {first _} hfirst _ => ?_
  refine (h first hfirst).bind fun {middle node} _ hnode => ?_
  refine yields_skipSeparators.map (fun _ => node) fun {stop _} hstop _ => ?_
  have hlt := hnode.covers.lt
  exact ⟨by omega, .cons hfirst hnode (.nil hstop)⟩

theorem yields_items (h : Nested row start) (problem : SyntaxProblem)
    (hclose : close ≠ .endOfInput) :
    Yields row (fun bound => bound) (fun bound => items close problem bound (expression bound))
      start fun stop result => ∃ last, stop = last + 1 ∧ start ≤ last ∧
        Lined (Rooted row) start last result.1 ∧ StandsAt row last close result.2 := by
  refine yields_skipSeparators.bind fun {first _} hfirst _ => ?_
  refine yields_closed hclose (fun _ => Nat.le_refl _)
    (fun place hplace => yields_spaced (h.mono (Nat.le_trans hfirst hplace))) ?_
  intro last nodes closing hlast hnodes hclosing
  exact .pure ⟨last, rfl, Nat.le_trans hfirst hlast, hnodes.mono_start hfirst, hclosing⟩

end Script.Parser
