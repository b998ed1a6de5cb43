/-
# Loops that extend a node

Trailers behind an operand and operators between operands are read by loops that make the
node read so far a part of a larger one. Each of these nodes stands where it was read, not
only the last: the row up to there is read as that node by the same loop.
-/

import Script.Proofs.Span.Whole

namespace Script.Parser

open Grammar

/-- A loop goes on behind a node with what the next token calls for, and stops where that
is nothing. -/
structure Extends (loop : Nat → Nat → Node → Parser Node)
    (step? : Token → Node → Option (Nat → Parser Node)) : Prop where
  stops : ∀ {bound count left tokens ending}, ending.kind = .endOfInput → 0 < count →
    (∀ token ∈ tokens.head?, step? token left = none) →
    (loop bound count left).run ⟨tokens, ending⟩ = .ok (left, ⟨tokens, ending⟩)
  goesOn : ∀ {bound count left token tokens ending step}, ending.kind = .endOfInput →
    step? token left = some step →
    (loop bound (count + 1) left).run ⟨token :: tokens, ending⟩ =
      (step bound >>= loop bound count).run ⟨tokens, ending⟩

section

variable {row : List Token} {start middle stop upto : Nat} {token : Token} {left node : Node}
  {first : Nat → Parser Node} {loop : Nat → Nat → Node → Parser Node}
  {step? : Token → Node → Option (Nat → Parser Node)} {step : Nat → Parser Node}

/-- What the loop reads behind a node from some place on, the loop with what stands before
it reads from the start. -/
def Leads (row : List Token) (first : Nat → Parser Node) (loop : Nat → Nat → Node → Parser Node)
    (start middle : Nat) (left : Node) : Prop :=
  ∀ stop upto node, upto ≤ row.length →
    Reads row (fun i : Nat × Nat => min i.1 i.2) (fun i => loop i.1 i.2 left) middle stop upto
      node →
    Reads row (fun bound => bound + 1) (fun bound => first bound >>= loop bound bound) start stop
      upto node

theorem Leads.of_first
    (h : Reads row (fun bound => bound + 1) first start middle row.length left)
    (hlt : start < middle) : Leads row first loop start middle left := by
  intro stop upto node hupto hreads
  have hmiddle := Nat.le_trans hreads.start_le hreads.stop_le
  exact (h.upto_mono hmiddle hupto).bind_of_size hreads.diagonal fun bound => by omega

theorem Leads.further (hloop : Extends loop step?) (h : Leads row first loop start middle left)
    (htoken : row[middle]? = some token) (hstep : step? token left = some step) {last : Nat}
    (hreads : Reads row (fun bound => bound) step (middle + 1) last row.length node) :
    Leads row first loop start last node := by
  intro stop upto result hupto hresult
  have hlast := Nat.le_trans hresult.start_le hresult.stop_le
  have hnext := (hreads.upto_mono hlast hupto).reindex Prod.fst
    fun i : Nat × Nat => (by omega : min i.1 i.2 - 1 ≤ i.1)
  have hothers := hresult.reindex (fun i : Nat × Nat => (i.1, i.2 - 1))
    fun i : Nat × Nat => (by omega : min i.1 i.2 - 1 ≤ min i.1 (i.2 - 1))
  refine h stop upto result hupto (.cons htoken
    (hnext.bind_of_size hothers fun _ => Nat.le_add_right _ _) ?_ hupto)
  rintro ⟨bound, _ | count⟩ tokens ending hending hlength
  · exact absurd hlength (by omega)
  · exact hloop.goesOn hending hstep

/-- The node that was read so far is what the row up to there is read as. -/
theorem Leads.readsAll (hloop : Extends loop step?) (h : Leads row first loop start middle left)
    (hmiddle : middle ≤ row.length) :
    ReadsAll (fun bound => first bound >>= loop bound bound) (between row start middle) left := by
  refine .of_reads (h middle middle left hmiddle ⟨Nat.le_refl _, Nat.le_refl _, ?_⟩) hmiddle
  intro i cut ending hending hle hcut hlength
  obtain rfl := Nat.le_antisymm hle hcut
  rw [between_self]
  have hpos := Nat.lt_of_lt_of_le (Nat.zero_lt_of_lt hlength) (Nat.min_le_right _ _)
  refine hloop.stops hending hpos fun token htoken => ?_
  cases htoken

/-- Where nothing is called for, the node so far is the last. -/
theorem Extends.yields_of_none (hloop : Extends loop step?)
    (hnone : ∀ token ∈ row[middle]?, step? token left = none)
    (hleft : Rooted row start middle left) :
    Yields row (fun i : Nat × Nat => min i.1 i.2) (fun i => loop i.1 i.2 left) middle
      (Rooted row start) := by
  refine Yields.of_run (.pure hleft) fun hending _ hlength => ?_
  have hpos := Nat.lt_of_lt_of_le (Nat.zero_lt_of_lt hlength) (Nat.min_le_right _ _)
  refine (hloop.stops hending hpos fun token hhead => ?_).trans (run_pure left _).symm
  exact hnone token (mem_of_mem_head?_between hhead)

variable (hloop : Extends loop step?)
  (hstep : ∀ {middle token left step}, Rooted row start middle left → row[middle]? = some token →
    step? token left = some step →
    Yields row (fun bound => bound) step (middle + 1) (Built row start))
  (hwhole : ∀ {part node}, ReadsAll (fun bound => first bound >>= loop bound bound) part node →
    Whole part node)

include hloop hstep hwhole

theorem yields_loop {middle : Nat} {left : Node} (hleft : Rooted row start middle left)
    (hleads : Leads row first loop start middle left) :
    Yields row (fun i : Nat × Nat => min i.1 i.2) (fun i => loop i.1 i.2 left) middle
      (Rooted row start) := by
  cases htoken : row[middle]? with
  | none => exact hloop.yields_of_none (by simp [htoken]) hleft
  | some token =>
      cases hnext : step? token left with
      | none => exact hloop.yields_of_none (by simp [htoken, hnext]) hleft
      | some step =>
          have hlength := lt_length_of_getElem? htoken
          have hread := ((hstep hleft htoken hnext).imp fun hreads hbuilt =>
            And.intro hreads hbuilt).reindex Prod.fst
              fun i : Nat × Nat => (by omega : min i.1 i.2 - 1 ≤ i.1)
          have hrest : Yields row (fun i : Nat × Nat => min i.1 i.2 - 1)
              (fun i => step i.1 >>= loop i.1 (i.2 - 1)) (middle + 1) (Rooted row start) := by
            refine hread.bind fun {last node} hle hnode => ?_
            obtain ⟨hreads, hbuilt⟩ := hnode
            have hfurther := hleads.further hloop htoken hnext hreads
            have hnode := hbuilt.rooted (hwhole (hfurther.readsAll hloop hreads.stop_le))
            exact (yields_loop hnode hfurther).reindex (fun i : Nat × Nat => (i.1, i.2 - 1))
              fun i : Nat × Nat => (by omega : min i.1 i.2 - 1 ≤ min i.1 (i.2 - 1))
          refine .cons htoken hrest ?_
          rintro ⟨bound, _ | count⟩ tokens ending hending hlength
          · exact absurd hlength (by omega)
          · exact hloop.goesOn hending hnext
termination_by row.length - middle

theorem yields_extended
    (hfirst : Yields row (fun bound => bound + 1) first start (Rooted row start)) :
    Yields row (fun bound => bound + 1) (fun bound => first bound >>= loop bound bound) start
      (Rooted row start) := by
  have hread := hfirst.imp fun hreads hrooted => And.intro hreads hrooted
  refine hread.bind_shorter (fun h => h.2.covers.lt) fun {middle left} hlt hleft => ?_
  obtain ⟨hreads, hleft⟩ := hleft
  exact (yields_loop hloop hstep hwhole hleft (.of_first hreads hlt)).diagonal

end

end Script.Parser
