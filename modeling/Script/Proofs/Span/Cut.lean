/-
# Rows that are cut off

A parser reads a result from one place in a row of tokens up to another, if it does so
wherever the row is cut off behind the second place: where more tokens follow than it
takes, it goes by the first of them at most, and the end of a row is nothing that it would
go on with. What a parser reads from all that is left of a row, it also reads from a row
that is cut off.

Both are stated for a family of parsers that differ in a bound for the number of tokens.
-/

import Script.Proofs.Grammar.Recognition

namespace Script.Parser

open Grammar

/-! ## Places in a row -/

/-- The tokens of a row from one place up to another. -/
def between (row : List Token) (start stop : Nat) : List Token := (row.take stop).drop start

variable {ι κ α β : Type} {row : List Token} {size : ι → Nat} {start middle stop upto cut : Nat}
  {token : Token} {ending : Token}

@[simp]
theorem between_self (row : List Token) (place : Nat) : between row place place = [] :=
  List.drop_eq_nil_of_le (List.length_take_le _ _)

theorem between_length (row : List Token) (start : Nat) :
    between row start row.length = row.drop start := by
  rw [between, List.take_length]

theorem length_between (h : stop ≤ row.length) :
    (between row start stop).length = stop - start := by
  rw [between, List.length_drop, List.length_take, Nat.min_eq_left h]

theorem lt_length_of_getElem? (h : row[start]? = some token) : start < row.length :=
  (List.getElem?_eq_some_iff.mp h).1

theorem between_eq_cons (htoken : row[start]? = some token) (h : start < stop) :
    between row start stop = token :: between row (start + 1) stop := by
  have htake : (row.take stop)[start]? = some token := by rw [List.getElem?_take, if_pos h, htoken]
  obtain ⟨hlt, rfl⟩ := List.getElem?_eq_some_iff.mp htake
  exact List.drop_eq_getElem_cons hlt

theorem drop_eq_cons (htoken : row[start]? = some token) :
    row.drop start = token :: row.drop (start + 1) := by
  rw [← between_length, between_eq_cons htoken (lt_length_of_getElem? htoken), between_length]

theorem nextKind_drop (htoken : row[start]? = some token) :
    nextKind (row.drop start) = token.kind := by
  rw [drop_eq_cons htoken, nextKind_cons]

theorem nextKind_between (htoken : row[start]? = some token) (h : start < stop) :
    nextKind (between row start stop) = token.kind := by
  rw [between_eq_cons htoken h, nextKind_cons]

theorem mem_of_mem_head?_between (h : token ∈ (between row start stop).head?) :
    token ∈ row[start]? := by
  rw [between, List.head?_drop, List.getElem?_take] at h
  split at h
  · exact h
  · cases h

theorem getLast?_between (htoken : row[stop - 1]? = some token) (h : start < stop) :
    (between row start stop).getLast? = some token := by
  have hlength := lt_length_of_getElem? htoken
  rw [between, List.getLast?_drop, List.length_take, if_neg (by omega), List.getLast?_take,
    if_neg (by omega), htoken, Option.some_or]

/-- A token of a kind other than that of the end stands in the row. -/
theorem exists_getElem?_of_nextKind {kind : Token.Kind} (h : nextKind (row.drop start) = kind)
    (hkind : kind ≠ .endOfInput) : ∃ token, row[start]? = some token ∧ token.kind = kind := by
  cases htoken : row[start]? with
  | some token => exact ⟨token, rfl, by rw [← nextKind_drop htoken, h]⟩
  | none =>
      rw [List.drop_eq_nil_of_le (List.getElem?_eq_none_iff.mp htoken)] at h
      exact absurd h.symm hkind

/-- A row that is cut off begins like the whole row or is at its end. -/
theorem nextKind_between_cases (row : List Token) (start cut : Nat) :
    nextKind (between row start cut) = nextKind (row.drop start) ∨
      nextKind (between row start cut) = .endOfInput := by
  by_cases h : start < cut
  · cases htoken : row[start]? with
    | some token => exact .inl (by rw [nextKind_between htoken h, nextKind_drop htoken])
    | none =>
        have hlength := List.getElem?_eq_none_iff.mp htoken
        refine .inr ?_
        rw [between, List.drop_eq_nil_of_le (Nat.le_trans (List.length_take_le' _ _) hlength),
          nextKind_nil]
  · refine .inr ?_
    rw [between, List.drop_eq_nil_of_le
      (Nat.le_trans (List.length_take_le _ _) (Nat.le_of_not_lt h)), nextKind_nil]

/-! ## Separators -/

/-- The place behind the separators at a place is the same wherever the row is cut off
behind it. -/
theorem exists_pastSeparators_between (row : List Token) {start : Nat}
    (hstart : start ≤ row.length) :
    ∃ stop, start ≤ stop ∧ stop ≤ row.length ∧ pastSeparators (row.drop start) = row.drop stop ∧
      (∀ cut, stop ≤ cut → pastSeparators (between row start cut) = between row stop cut) ∧
      (nextKind (row.drop start) = .separator → start < stop) := by
  by_cases hnext : nextKind (row.drop start) = .separator
  · obtain ⟨token, htoken, hkind⟩ := exists_getElem?_of_nextKind hnext (by decide)
    have hlt := lt_length_of_getElem? htoken
    obtain ⟨stop, hle, hstop, hdrop, hcut, _⟩ :=
      exists_pastSeparators_between row (Nat.succ_le_of_lt hlt)
    refine ⟨stop, Nat.le_of_succ_le hle, hstop, ?_, fun cut hstop => ?_, fun _ => hle⟩
    · rw [drop_eq_cons htoken, pastSeparators_cons_of_separator hkind, hdrop]
    · rw [between_eq_cons htoken (Nat.lt_of_lt_of_le hle hstop),
        pastSeparators_cons_of_separator hkind, hcut cut hstop]
  · refine ⟨start, Nat.le_refl _, hstart, pastSeparators_eq_self hnext, fun cut _ => ?_,
      fun h => absurd h hnext⟩
    refine pastSeparators_eq_self ?_
    obtain h | h := nextKind_between_cases row start cut
    · rwa [h]
    · rw [h]
      decide
termination_by row.length - start

/-- Behind its first separators a row that is cut off goes on like the whole row or is at
its end. -/
theorem nextKind_pastSeparators_cases (row : List Token) (start cut : Nat) :
    nextKind (pastSeparators (between row start cut)) = nextKind (pastSeparators (row.drop start)) ∨
      nextKind (pastSeparators (between row start cut)) = .endOfInput := by
  have htake (tokens : List Token) (count : Nat) :
      nextKind (pastSeparators (tokens.take count)) = nextKind (pastSeparators tokens) ∨
        nextKind (pastSeparators (tokens.take count)) = .endOfInput := by
    induction tokens generalizing count with
    | nil => exact .inr (by simp [pastSeparators])
    | cons token tokens ih =>
        cases count with
        | zero => exact .inr (by simp [pastSeparators])
        | succ count =>
            rw [List.take_succ_cons]
            by_cases hkind : token.kind = .separator
            · rw [pastSeparators_cons_of_separator hkind, pastSeparators_cons_of_separator hkind]
              exact ih count
            · have hself (others : List Token) :
                  pastSeparators (token :: others) = token :: others := pastSeparators_eq_self hkind
              rw [hself, hself]
              exact .inl rfl
  rw [between, List.drop_take]
  exact htake (row.drop start) (cut - start)

/-! ## Readings -/

/-- The parsers of a family read a result from one place up to another, wherever the row
is cut off from there up to a further place. -/
structure Reads (row : List Token) (size : ι → Nat) (parser : ι → Parser α)
    (start stop upto : Nat) (a : α) : Prop where
  start_le : start ≤ stop
  stop_le : stop ≤ upto
  run : ∀ {i cut ending}, ending.kind = .endOfInput → stop ≤ cut → cut ≤ upto →
    cut - start < size i →
    (parser i).run ⟨between row start cut, ending⟩ = .ok (a, ⟨between row stop cut, ending⟩)

/-- Whatever the parsers of a family read from all that is left behind a place, they read
wherever the row is cut off, and it is as a condition says. -/
structure Yields (row : List Token) (size : ι → Nat) (parser : ι → Parser α) (start : Nat)
    (post : Nat → α → Prop) : Prop where
  exists_stop : ∀ {i ending a after}, ending.kind = .endOfInput → start ≤ row.length →
    row.length - start < size i →
    (parser i).run ⟨row.drop start, ending⟩ = .ok (a, after) →
    ∃ stop, after = ⟨row.drop stop, ending⟩ ∧ Reads row size parser start stop row.length a ∧
      post stop a

variable {parser inner : ι → Parser α} {next : ι → α → Parser β} {a : α} {b : β}
  {post : Nat → α → Prop} {post' : Nat → β → Prop}

namespace Reads

theorem upto_mono (h : Reads row size parser start stop upto a) (hstop : stop ≤ cut)
    (hcut : cut ≤ upto) : Reads row size parser start stop cut a :=
  ⟨h.start_le, hstop, fun hending hle hupto => h.run hending hle (Nat.le_trans hupto hcut)⟩

theorem mono {size' : ι → Nat} (h : Reads row size parser start stop upto a)
    (hsize : ∀ i, size' i ≤ size i) : Reads row size' parser start stop upto a :=
  ⟨h.start_le, h.stop_le, fun hending hstop hupto hlength =>
    h.run hending hstop hupto (Nat.le_trans hlength (hsize _))⟩

theorem reindex {size' : κ → Nat} (h : Reads row size parser start stop upto a) (f : κ → ι)
    (hsize : ∀ i, size' i ≤ size (f i)) :
    Reads row size' (fun i => parser (f i)) start stop upto a :=
  ⟨h.start_le, h.stop_le, fun hending hstop hupto hlength =>
    h.run hending hstop hupto (Nat.le_trans hlength (hsize _))⟩

/-- One number bounds both how deep a row nests and how long it is. -/
theorem diagonal {parser : Nat × Nat → Parser α}
    (h : Reads row (fun i => min i.1 i.2) parser start stop upto a) :
    Reads row (fun bound => bound) (fun bound => parser (bound, bound)) start stop upto a :=
  h.reindex (fun bound : Nat => (bound, bound)) fun _ => Nat.le_min.mpr
    ⟨Nat.le_refl _, Nat.le_refl _⟩

theorem of_run (h : Reads row size inner start stop upto a)
    (hrun : ∀ {i cut ending}, ending.kind = .endOfInput → stop ≤ cut → cut ≤ upto →
      cut - start < size i → (parser i).run ⟨between row start cut, ending⟩ =
        (inner i).run ⟨between row start cut, ending⟩) :
    Reads row size parser start stop upto a :=
  ⟨h.start_le, h.stop_le, fun hending hstop hupto hlength =>
    (hrun hending hstop hupto hlength).trans (h.run hending hstop hupto hlength)⟩

theorem bind_of_size {size' : ι → Nat} (h : Reads row size parser start middle upto a)
    (hnext : Reads row size' (next · a) middle stop upto b)
    (hsize : ∀ i, size i ≤ size' i + (middle - start)) :
    Reads row size (fun i => parser i >>= next i) start stop upto b where
  start_le := Nat.le_trans h.start_le hnext.start_le
  stop_le := hnext.stop_le
  run := by
    intro i cut ending hending hstop hupto hlength
    have hmiddle := Nat.le_trans hnext.start_le hstop
    have hless := hsize i
    have hstart := h.start_le
    rw [run_bind_of_ok (h.run hending hmiddle hupto hlength)]
    exact hnext.run hending hstop hupto (by omega)

/-- A token is taken, and the others are read by other parsers. -/
theorem cons (htoken : row[start]? = some token)
    (h : Reads row (fun i => size i - 1) inner (start + 1) stop upto a)
    (hrun : ∀ {i tokens ending}, ending.kind = .endOfInput → tokens.length < size i →
      (parser i).run ⟨token :: tokens, ending⟩ = (inner i).run ⟨tokens, ending⟩)
    (hupto : upto ≤ row.length) : Reads row size parser start stop upto a where
  start_le := Nat.le_trans (Nat.le_succ start) h.start_le
  stop_le := h.stop_le
  run := by
    intro i cut ending hending hstop hcut hlength
    have hlt : start < cut := Nat.lt_of_lt_of_le h.start_le hstop
    have hrest : (between row (start + 1) cut).length < size i := by
      rw [length_between (Nat.le_trans hcut hupto)]
      omega
    rw [between_eq_cons htoken hlt, hrun hending hrest]
    exact h.run hending hstop hcut (by omega)

end Reads

namespace Yields

theorem of_start_le (h : start ≤ row.length → Yields row size parser start post) :
    Yields row size parser start post :=
  ⟨fun hending hstart => (h hstart).exists_stop hending hstart⟩

theorem imp (h : Yields row size parser start post) {post' : Nat → α → Prop}
    (himp : ∀ {stop a}, Reads row size parser start stop row.length a → post stop a →
      post' stop a) : Yields row size parser start post' := by
  constructor
  intro i ending a after hending hstart hlength hrun
  obtain ⟨stop, hafter, hreads, hpost⟩ := h.exists_stop hending hstart hlength hrun
  exact ⟨stop, hafter, hreads, himp hreads hpost⟩

theorem mono {size' : ι → Nat} (h : Yields row size parser start post)
    (hsize : ∀ i, size' i ≤ size i) : Yields row size' parser start post := by
  constructor
  intro i ending a after hending hstart hlength hrun
  obtain ⟨stop, hafter, hreads, hpost⟩ :=
    h.exists_stop hending hstart (Nat.le_trans hlength (hsize i)) hrun
  exact ⟨stop, hafter, hreads.mono hsize, hpost⟩

theorem reindex {size' : κ → Nat} (h : Yields row size parser start post) (f : κ → ι)
    (hsize : ∀ i, size' i ≤ size (f i)) :
    Yields row size' (fun i => parser (f i)) start post := by
  constructor
  intro i ending a after hending hstart hlength hrun
  obtain ⟨stop, hafter, hreads, hpost⟩ :=
    h.exists_stop hending hstart (Nat.le_trans hlength (hsize i)) hrun
  exact ⟨stop, hafter, hreads.reindex f hsize, hpost⟩

theorem diagonal {parser : Nat × Nat → Parser α}
    (h : Yields row (fun i => min i.1 i.2) parser start post) :
    Yields row (fun bound => bound) (fun bound => parser (bound, bound)) start post :=
  h.reindex (fun bound : Nat => (bound, bound)) fun _ => Nat.le_min.mpr
    ⟨Nat.le_refl _, Nat.le_refl _⟩

/-- Parsers may differ where the row is cut off before a place that is always reached. -/
theorem of_run_behind (least : Nat) (h : Yields row size inner start post)
    (hleast : ∀ {stop a}, Reads row size inner start stop row.length a → post stop a →
      least ≤ stop)
    (hrun : ∀ {i cut ending}, ending.kind = .endOfInput → least ≤ cut ∨ cut = row.length →
      cut ≤ row.length → cut - start < size i →
      (parser i).run ⟨between row start cut, ending⟩ =
        (inner i).run ⟨between row start cut, ending⟩) :
    Yields row size parser start post := by
  constructor
  intro i ending a after hending hstart hlength hparser
  rw [← between_length, hrun hending (.inr rfl) (Nat.le_refl _) hlength, between_length] at hparser
  obtain ⟨stop, hafter, hreads, hpost⟩ := h.exists_stop hending hstart hlength hparser
  have hle := hleast hreads hpost
  exact ⟨stop, hafter, hreads.of_run fun hending hstop =>
    hrun hending (.inl (Nat.le_trans hle hstop)), hpost⟩

theorem of_run (h : Yields row size inner start post)
    (hrun : ∀ {i cut ending}, ending.kind = .endOfInput → cut ≤ row.length →
      cut - start < size i → (parser i).run ⟨between row start cut, ending⟩ =
        (inner i).run ⟨between row start cut, ending⟩) :
    Yields row size parser start post :=
  h.of_run_behind start (fun hreads _ => hreads.start_le) fun hending _ => hrun hending

/-- What is done for the kind of the next token counts, if a token is taken. -/
theorem peekKind {next : ι → Token.Kind → Parser β} {post : Nat → β → Prop}
    (h : Yields row size (next · (nextKind (row.drop start))) start fun stop b =>
      start < stop ∧ post stop b) :
    Yields row size (fun i => Parser.peekKind >>= next i) start post := by
  have hbehind : Yields row size (fun i => Parser.peekKind >>= next i) start fun stop b =>
      start < stop ∧ post stop b := by
    refine h.of_run_behind (start + 1) (fun _ hpost => hpost.1) fun hending hcut hle _ => ?_
    rw [run_bind_of_ok (run_peekKind_eq hending)]
    obtain hcut | rfl := hcut
    · obtain ⟨token, htoken⟩ : ∃ token, row[start]? = some token :=
        ⟨_, List.getElem?_eq_getElem (Nat.lt_of_lt_of_le hcut hle)⟩
      rw [nextKind_between htoken hcut, nextKind_drop htoken]
    · rw [between_length]
  exact hbehind.imp fun _ hpost => hpost.2

/-- What is done for the kind of the next token counts, if the same is done at the end. -/
theorem peekKind_of_eq {next : ι → Token.Kind → Parser β} {inner : ι → Parser β}
    {post : Nat → β → Prop} (h : Yields row size inner start post)
    (hnext : ∀ i, next i (nextKind (row.drop start)) = inner i)
    (hend : ∀ i, next i .endOfInput = inner i) :
    Yields row size (fun i => Parser.peekKind >>= next i) start post := by
  refine h.of_run fun {i cut _} hending _ _ => ?_
  rw [run_bind_of_ok (run_peekKind_eq hending)]
  obtain hkind | hkind := nextKind_between_cases row start cut
  · rw [hkind, hnext i]
  · rw [hkind, hend i]

theorem bind_of_size {size' : ι → Nat} (h : Yields row size parser start post)
    (hnext : ∀ {middle a}, start ≤ middle → post middle a →
      Yields row size' (next · a) middle post')
    (hsize : ∀ {middle a}, post middle a → ∀ i, size i ≤ size' i + (middle - start)) :
    Yields row size (fun i => parser i >>= next i) start post' := by
  constructor
  intro i ending b after hending hstart hlength hrun
  obtain ⟨a, _, hparser, hrun⟩ := run_bind_eq_ok_iff.mp hrun
  obtain ⟨middle, rfl, hreads, hpost⟩ := h.exists_stop hending hstart hlength hparser
  have hrest : row.length - middle < size' i := by
    have hless := hsize hpost i
    have hle := hreads.start_le
    have hle' := hreads.stop_le
    omega
  obtain ⟨stop, hafter, hreads', hpost'⟩ :=
    (hnext hreads.start_le hpost).exists_stop hending hreads.stop_le hrest hrun
  exact ⟨stop, hafter, hreads.bind_of_size hreads' (hsize hpost), hpost'⟩

theorem bind (h : Yields row size parser start post)
    (hnext : ∀ {middle a}, start ≤ middle → post middle a →
      Yields row size (next · a) middle post') :
    Yields row size (fun i => parser i >>= next i) start post' :=
  h.bind_of_size hnext fun _ _ => Nat.le_add_right _ _

/-- Behind a parser that takes a token a smaller bound is enough. -/
theorem bind_shorter (h : Yields row size parser start post)
    (hlt : ∀ {middle a}, post middle a → start < middle)
    (hnext : ∀ {middle a}, start < middle → post middle a →
      Yields row (fun i => size i - 1) (next · a) middle post') :
    Yields row size (fun i => parser i >>= next i) start post' := by
  refine h.bind_of_size (fun _ hpost => hnext (hlt hpost) hpost) fun hpost _ => ?_
  have hless := hlt hpost
  omega

theorem pure (hpost : post start a) : Yields row size (fun _ => pure a) start post := by
  constructor
  intro i ending a' after hending hstart hlength hrun
  cases hrun
  exact ⟨start, rfl, ⟨Nat.le_refl _, hstart, fun _ _ _ _ => rfl⟩, hpost⟩

theorem map (h : Yields row size parser start post) (f : α → β)
    (hf : ∀ {stop a}, start ≤ stop → post stop a → post' stop (f a)) :
    Yields row size (fun i => parser i >>= fun a => Pure.pure (f a)) start post' :=
  h.bind fun hle hpost => .pure (hf hle hpost)

/-- A token is taken, and the others are read by other parsers. -/
theorem cons (htoken : row[start]? = some token)
    (h : Yields row (fun i => size i - 1) inner (start + 1) post)
    (hrun : ∀ {i tokens ending}, ending.kind = .endOfInput → tokens.length < size i →
      (parser i).run ⟨token :: tokens, ending⟩ = (inner i).run ⟨tokens, ending⟩) :
    Yields row size parser start post := by
  constructor
  intro i ending a after hending hstart hlength hparser
  have hlt := lt_length_of_getElem? htoken
  have hrest : (row.drop (start + 1)).length < size i := by
    rw [List.length_drop]
    omega
  have hrest' : row.length - (start + 1) < size i - 1 := by omega
  rw [drop_eq_cons htoken, hrun hending hrest] at hparser
  obtain ⟨stop, hafter, hreads, hpost⟩ := h.exists_stop hending hlt hrest' hparser
  exact ⟨stop, hafter, hreads.cons htoken hrun (Nat.le_refl _), hpost⟩

/-- Nothing is read where a token is refused. -/
theorem refused (htoken : row[start]? = some token)
    (hrun : ∀ {i tokens ending a after},
      (parser i).run ⟨token :: tokens, ending⟩ ≠ .ok (a, after)) :
    Yields row size parser start post := by
  constructor
  intro i ending a after hending hstart hlength hparser
  rw [drop_eq_cons htoken] at hparser
  exact absurd hparser hrun

/-- A token behind some separators is taken with them, and the others are read by other
parsers. -/
theorem afterSeparators {tokens : List Token}
    (hbehind : pastSeparators (row.drop start) = token :: tokens)
    (h : ∀ {place}, row[place]? = some token → start ≤ place →
      Yields row (fun i => size i - 1) inner (place + 1) post)
    (hrun : ∀ {i tokens rest ending}, ending.kind = .endOfInput →
      pastSeparators tokens = token :: rest → rest.length < size i →
      (parser i).run ⟨tokens, ending⟩ = (inner i).run ⟨rest, ending⟩) :
    Yields row size parser start post := by
  constructor
  intro i ending a after hending hstart hlength hparser
  obtain ⟨place, hle, _, hdrop, hcut, _⟩ := exists_pastSeparators_between row hstart
  have htoken : row[place]? = some token := by
    rw [← List.head?_drop, ← hdrop, hbehind, List.head?_cons]
  have hlt := lt_length_of_getElem? htoken
  have hrest : (row.drop (place + 1)).length < size i := by
    rw [List.length_drop]
    omega
  rw [hrun hending (hdrop.trans (drop_eq_cons htoken)) hrest] at hparser
  obtain ⟨stop, hafter, hreads, hpost⟩ :=
    (h htoken hle).exists_stop hending hlt (by omega) hparser
  refine ⟨stop, hafter, ⟨Nat.le_trans hle (Nat.le_of_succ_le hreads.start_le), hreads.stop_le, ?_⟩,
    hpost⟩
  intro j cut ending' hending' hstop hupto hlength'
  have hplace : place < cut := Nat.lt_of_lt_of_le hreads.start_le hstop
  have hpast := (hcut cut (Nat.le_of_lt hplace)).trans (between_eq_cons htoken hplace)
  have hrest' : (between row (place + 1) cut).length < size j := by
    rw [length_between hupto]
    omega
  rw [hrun hending' hpast hrest']
  exact hreads.run hending' hstop hupto (by omega)

theorem throw (error : SyntaxError) :
    Yields row size (fun _ => (MonadExcept.throw error : Parser α)) start post := by
  constructor
  intro i ending a after hending hstart hlength hrun
  cases hrun

theorem fail (problem : SyntaxProblem) :
    Yields row size (fun _ => (Parser.fail problem : Parser α)) start post :=
  ⟨fun _ _ _ hrun => absurd hrun run_fail_ne_ok⟩

end Yields

/-! ## Primitive parsers -/

/-- A token of a kind stands at a place. -/
def StandsAt (row : List Token) (place : Nat) (kind : Token.Kind) (token : Token) : Prop :=
  row[place]? = some token ∧ token.kind = kind

theorem yields_expect {kind : Token.Kind} (problem : SyntaxProblem) (hkind : kind ≠ .endOfInput) :
    Yields row size (fun _ => expect kind problem) start fun stop token =>
      stop = start + 1 ∧ StandsAt row start kind token := by
  constructor
  intro i ending token after hending hstart hlength hrun
  obtain ⟨rest, hdrop, htoken, rfl⟩ := (run_expect_eq_ok_iff hending hkind).mp hrun
  have hget : row[start]? = some token := by
    rw [← List.head?_drop, hdrop, List.head?_cons]
  rw [drop_eq_cons hget] at hdrop
  cases hdrop
  refine ⟨start + 1, rfl, ⟨Nat.le_succ _, lt_length_of_getElem? hget, ?_⟩, rfl, hget, htoken⟩
  intro j cut ending' _ hcut _ _
  rw [between_eq_cons hget hcut, run_expect_cons htoken]

theorem yields_accept {kind : Token.Kind} (hkind : kind ≠ .endOfInput) :
    Yields row size (fun _ => accept kind) start fun stop taken =>
      (taken = true ∧ stop = start + 1 ∧ ∃ token, StandsAt row start kind token) ∨
        (taken = false ∧ stop = start) := by
  constructor
  intro i ending taken after hending hstart hlength hrun
  obtain ⟨token, rest, hdrop, htoken, rfl, rfl⟩ | ⟨hnext, rfl, rfl⟩ :=
    (run_accept_eq_ok_iff hending hkind).mp hrun
  · have hget : row[start]? = some token := by
      rw [← List.head?_drop, hdrop, List.head?_cons]
    rw [drop_eq_cons hget] at hdrop
    cases hdrop
    refine ⟨start + 1, rfl, ⟨Nat.le_succ _, lt_length_of_getElem? hget, ?_⟩,
      .inl ⟨rfl, rfl, token, hget, htoken⟩⟩
    intro j cut ending' hending' hcut _ _
    rw [between_eq_cons hget hcut]
    exact (run_accept_eq_ok_iff hending' hkind).mpr (.inl ⟨token, _, rfl, htoken, rfl, rfl⟩)
  · refine ⟨start, rfl, ⟨Nat.le_refl _, hstart, ?_⟩, .inr ⟨rfl, rfl⟩⟩
    intro j cut ending' hending' _ _ _
    refine (run_accept_eq_ok_iff hending' hkind).mpr (.inr ⟨?_, rfl, rfl⟩)
    obtain h | h := nextKind_between_cases row start cut
    · rwa [h]
    · rw [h]
      exact hkind.symm

theorem yields_skipSeparators :
    Yields row size (fun _ => skipSeparators) start fun stop _ =>
      nextKind (row.drop start) = .separator → start < stop := by
  constructor
  intro i ending a after hending hstart hlength hrun
  obtain ⟨stop, hle, hstop, hdrop, hbetween, hlt⟩ := exists_pastSeparators_between row hstart
  rw [run_skipSeparators, hdrop] at hrun
  cases hrun
  refine ⟨stop, rfl, ⟨hle, hstop, ?_⟩, hlt⟩
  intro j cut ending' _ hcut _ _
  rw [run_skipSeparators, hbetween cut hcut]

end Script.Parser
