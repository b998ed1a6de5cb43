/-
# Where a parser stops

A parser takes tokens from the front of a row and stops, with a result or with an error,
in front of those that are left. Its decision to stop there rests on the tokens it took and
on the next one alone: in a row that goes on differently behind that next token it stops at
the same place in the same way. The one exception is a separator, which a conditional looks
past for the keyword of a further branch.

The tokens that a parser took are also never wrong by themselves. Some tokens can be put
behind them with which the parser accepts them, provided that what follows in turn is of
the right kind.

Both are stated for a family of parsers that differ in a bound for the number of tokens,
since a row that goes on differently may be longer. The property of a family is put
together from the same property of its parts.
-/

import Script.Proofs.Grammar.Recognition

namespace Script

/-- The token of a literal carries what the literal denotes. -/
structure Token.CarriesValue (token : Token) : Prop where
  number : token.kind = .int ∨ token.kind = .long ∨ token.kind = .double →
    ∃ value, token.literal = some (.number value)
  string : token.kind = .string → ∃ value, token.literal = some (.string value)

namespace Parser

open Grammar

/-! ## Rows of tokens -/

/-- Whether a kind of token neither separates statements nor carries on a conditional, so
that no parser looks past a token of that kind. -/
def isPlain (kind : Token.Kind) : Bool :=
  kind ≠ .separator && kind ≠ .keyword .elifWord && kind ≠ .keyword .elseWord

/-- The front of a row hides what stands behind it: it ends with no separator, or no
parser would look further. -/
def Hides (front others : List Token) : Prop :=
  (∀ last ∈ front.getLast?, last.kind ≠ .separator) ∨ isPlain (nextKind others) = true

theorem Hides.append {front others : List Token} (h : Hides front others) (hne : front ≠ [])
    (before : List Token) : Hides (before ++ front) others := by
  refine h.imp_left fun hlast last hmem => hlast last ?_
  rw [List.getLast?_append, List.getLast?_eq_some_getLast hne, Option.some_or] at hmem
  rwa [List.getLast?_eq_some_getLast hne]

/-- A row shorter than a limit in which literals carry their values. -/
structure Within (limit : Nat) (tokens : List Token) : Prop where
  length_lt : tokens.length < limit
  carriesValue : ∀ token ∈ tokens, token.CarriesValue

theorem Within.mono {limit limit' : Nat} {tokens : List Token} (h : Within limit tokens)
    (hlimit : limit ≤ limit') : Within limit' tokens :=
  ⟨Nat.lt_of_lt_of_le h.length_lt hlimit, h.carriesValue⟩

theorem Within.of_append {limit least : Nat} {taken rest : List Token}
    (h : Within (limit + least) (taken ++ rest)) (hleast : least ≤ taken.length) :
    Within limit rest := by
  refine ⟨?_, fun token htoken => h.carriesValue token (List.mem_append_right _ htoken)⟩
  have hlength := h.length_lt
  rw [List.length_append] at hlength
  omega

theorem head?_append_of_ne_nil {taken front behind others : List Token} (hne : front ≠ []) :
    (taken ++ (front ++ others)).head? = (taken ++ (front ++ behind)).head? := by
  cases taken with
  | nil =>
      cases front with
      | nil => exact absurd rfl hne
      | cons token front => rfl
  | cons token taken => rfl

theorem nextKind_append_of_ne_nil {front : List Token} (hne : front ≠ []) (others : List Token) :
    nextKind (front ++ others) = nextKind front := by
  cases front with
  | nil => exact absurd rfl hne
  | cons token front => rfl

theorem nextKind_eq_of_head? {tokens others : List Token} (h : tokens.head? = others.head?) :
    nextKind tokens = nextKind others := by
  cases tokens <;> cases others <;> cases h <;> rfl

theorem headD_eq_of_head? {tokens others : List Token} {ending ending' : Token}
    (h : tokens.head? = others.head?) (hne : others ≠ []) :
    tokens.headD ending = others.headD ending' := by
  cases others with
  | nil => exact absurd rfl hne
  | cons token others =>
      rw [List.headD_eq_head?_getD, h]
      rfl

/-! ## What parsers accept -/

variable {ι α β : Type} {size size' : ι → Nat} {limit limit' least least' : Nat}
  {follow follow' : Token.Kind → Prop} {tokens taken row middle rest further further' : List Token}

/-- The parsers of a family accept a row up to what is left of it. -/
def Accepts (size : ι → Nat) (parser : ι → Parser α) (row rest : List Token) : Prop :=
  ∀ i ending, ending.kind = .endOfInput → row.length < size i →
    ∃ a, (parser i).run ⟨row, ending⟩ = .ok (a, ⟨rest, ending⟩)

/-- With some further tokens, tokens that were taken are accepted in front of whatever may
follow. -/
structure Completes (size : ι → Nat) (parser : ι → Parser α) (follow : Token.Kind → Prop)
    (taken further : List Token) : Prop where
  noEnding : ∀ token ∈ further, token.kind ≠ .endOfInput
  /-- What was taken ends where no parser looks further. -/
  plain : ∀ rest, follow (nextKind rest) → isPlain (nextKind (further ++ rest)) = true
  accepts : ∀ rest, follow (nextKind rest) →
    Accepts size parser (taken ++ (further ++ rest)) rest

namespace Accepts

variable {parser inner : ι → Parser α} {next : ι → α → Parser β}

theorem of_run (h : Accepts size inner row rest)
    (hrun : ∀ i ending, ending.kind = .endOfInput → row.length < size i →
      (parser i).run ⟨row, ending⟩ = (inner i).run ⟨row, ending⟩) :
    Accepts size parser row rest := by
  intro i ending hending hlength
  rw [hrun i ending hending hlength]
  exact h i ending hending hlength

theorem mono (h : Accepts size parser row rest) (hsize : ∀ i, size' i ≤ size i) :
    Accepts size' parser row rest :=
  fun i ending hending hlength => h i ending hending (Nat.le_trans hlength (hsize i))

theorem bind (h : Accepts size parser row middle)
    (hsize : ∀ i, row.length < size i → middle.length < size' i)
    (hnext : ∀ a, Accepts size' (next · a) middle rest) :
    Accepts size (fun i => parser i >>= next i) row rest := by
  intro i ending hending hlength
  obtain ⟨a, hrun⟩ := h i ending hending hlength
  obtain ⟨b, hrun'⟩ := hnext a i ending hending (hsize i hlength)
  exact ⟨b, by rw [run_bind_of_ok hrun, hrun']⟩

end Accepts

/-! ## Steadiness -/

/-- The result of a run that leaves some tokens. -/
def ended (result : Except SyntaxError α) (rest : List Token) (ending : Token) :
    Except SyntaxError (α × TokenStream) :=
  result.map fun a => (a, ⟨rest, ending⟩)

/-- How the parsers of a family stop at some place, which is no matter of the bound. -/
structure StopsAt (size : ι → Nat) (parser : ι → Parser α) (follow : Token.Kind → Prop)
    (ending : Token) (taken rest : List Token) (result : Except SyntaxError α) : Prop where
  /-- An error points at the next token. -/
  located : ∀ error, result = .error error → error.problem ≠ .invalidTarget →
    error.span = (rest.headD ending).span
  /-- The next token is all that counts of what is left. -/
  stable : ∀ front behind others i ending', rest = front ++ behind → front ≠ [] →
    Hides front others → ending'.kind = .endOfInput →
    (taken ++ (front ++ others)).length < size i →
    (parser i).run ⟨taken ++ (front ++ others), ending'⟩ = ended result (front ++ others) ending'
  /-- What was taken begins something that is accepted. -/
  viable : taken ≠ [] →
    (∀ error, result = .error error → error.problem ≠ .invalidTarget) →
    ∃ further, Completes size parser follow taken further

/-- At a row, each parser of a family stops at some place, behind at least a number of
tokens if it does not fail. -/
def SteadyAt (size : ι → Nat) (parser : ι → Parser α) (follow : Token.Kind → Prop)
    (least : Nat) (tokens : List Token) : Prop :=
  ∀ i ending, ending.kind = .endOfInput → tokens.length < size i →
    ∃ taken rest result, tokens = taken ++ rest ∧
      (parser i).run ⟨tokens, ending⟩ = ended result rest ending ∧
      (∀ a, result = .ok a → least ≤ taken.length) ∧
      StopsAt size parser follow ending taken rest result

/-- The parsers of a family are steady at every row within a limit, and accept some
tokens. -/
structure Steady (limit : Nat) (size : ι → Nat) (parser : ι → Parser α)
    (follow : Token.Kind → Prop) (least : Nat) (further : List Token) : Prop where
  steadyAt : ∀ tokens, Within limit tokens → SteadyAt size parser follow least tokens
  completes : Completes size parser follow [] further
  least_le : least ≤ further.length

theorem Steady.zero {parser : ι → Parser α} (h : Completes size parser follow [] further)
    (hleast : least ≤ further.length) : Steady 0 size parser follow least further :=
  ⟨fun _ htokens => absurd htokens.length_lt (Nat.not_lt_zero _), h, hleast⟩

/-- Parsers that accept nothing in front of whatever may follow. -/
theorem Completes.nil {parser : ι → Parser α}
    (hfollow : ∀ kind, follow kind → isPlain kind = true)
    (hrun : ∀ i rest ending, 0 < size i → follow (nextKind rest) → ending.kind = .endOfInput →
      ∃ a, (parser i).run ⟨rest, ending⟩ = .ok (a, ⟨rest, ending⟩)) :
    Completes size parser follow [] [] :=
  ⟨List.forall_mem_nil _, fun _ => hfollow _, fun rest hrest i ending hending hlength =>
    hrun i rest ending (Nat.zero_lt_of_lt hlength) hrest hending⟩

/-! ## Parsers in a row -/

theorem run_bind_of_error {first : Parser α} {next : α → Parser β} {error : SyntaxError}
    {stream : TokenStream} (hfirst : first.run stream = .error error) :
    (first >>= next).run stream = .error error := by
  rw [StateT.run_bind, hfirst]
  rfl

section Bind

variable {parser : ι → Parser α} {next : ι → α → Parser β} {shift : Nat}

/-- What completes the tokens that the first parser took, with tokens that the next one
accepts. -/
theorem Completes.bind [Nonempty α] (h : Completes size parser follow' taken further)
    (hnext : ∀ a, Completes size' (next · a) follow [] further')
    (hlength : shift ≤ taken.length + further.length) (hsize : ∀ i, size i ≤ size' i + shift)
    (hfollow : ∀ rest, follow (nextKind rest) → follow' (nextKind (further' ++ rest))) :
    Completes size (fun i => parser i >>= next i) follow taken (further ++ further') where
  noEnding token htoken := by
    obtain ⟨a⟩ := ‹Nonempty α›
    exact (List.mem_append.mp htoken).elim (h.noEnding token) ((hnext a).noEnding token)
  plain rest hrest := by
    rw [List.append_assoc]
    exact h.plain _ (hfollow rest hrest)
  accepts rest hrest := by
    rw [List.append_assoc]
    refine (h.accepts _ (hfollow rest hrest)).bind (fun i hi => ?_)
      fun a => (hnext a).accepts rest hrest
    have hbound := hsize i
    rw [List.length_append, List.length_append] at hi
    omega

/-- The tokens that the first parser took, and what the next one took behind them. -/
theorem StopsAt.bind {ending : Token} {taken' : List Token} {a : α} {result : Except SyntaxError β}
    (h : StopsAt size parser follow' ending taken (taken' ++ rest) (.ok a))
    (hnext : StopsAt size' (next · a) follow ending taken' rest result)
    (hviable : taken ≠ [] →
      ∃ further, Completes size (fun i => parser i >>= next i) follow taken further)
    (hshift : shift ≤ taken.length) (hsize : ∀ i, size i ≤ size' i + shift) :
    StopsAt size (fun i => parser i >>= next i) follow ending (taken ++ taken') rest result where
  located := hnext.located
  stable := by
    intro front behind others i ending' hrest hne hhides hending' hlength
    rw [List.append_assoc] at hlength ⊢
    have hfirst := h.stable (taken' ++ front) behind others i ending'
      (by rw [hrest, List.append_assoc]) (List.append_ne_nil_of_right_ne_nil _ hne)
      (hhides.append hne taken') hending' (by rwa [List.append_assoc])
    rw [List.append_assoc] at hfirst
    rw [run_bind_of_ok hfirst]
    refine hnext.stable front behind others i ending' hrest hne hhides hending' ?_
    have hbound := hsize i
    rw [List.length_append] at hlength
    omega
  viable := by
    intro hne hvalid
    by_cases hne' : taken' = []
    · subst hne'
      rw [List.append_nil] at hne ⊢
      exact hviable hne
    · obtain ⟨further, hfurther⟩ := hnext.viable hne' hvalid
      refine ⟨further, hfurther.noEnding, hfurther.plain, fun rest' hfollow => ?_⟩
      intro i ending' hending' hlength
      rw [List.append_assoc] at hlength ⊢
      -- The first parser stops as before, since what it stopped at is there again.
      have hfirst := h.stable taken' rest (further ++ rest') i ending' rfl hne'
        (.inr (hfurther.plain rest' hfollow)) hending' hlength
      have hbound := hsize i
      rw [List.length_append] at hlength
      obtain ⟨b, hb⟩ := hfurther.accepts rest' hfollow i ending' hending' (by omega)
      exact ⟨b, by rw [run_bind_of_ok hfirst, hb]⟩

/-- Where the first parser fails, both do. -/
theorem StopsAt.bind_of_error {ending : Token} {error : SyntaxError}
    (h : StopsAt size parser follow' ending taken rest (.error error))
    (hviable : taken ≠ [] → error.problem ≠ .invalidTarget →
      ∃ further, Completes size (fun i => parser i >>= next i) follow taken further) :
    StopsAt size (fun i => parser i >>= next i) follow ending taken rest (.error error) where
  located := by
    rintro error' ⟨⟩
    exact h.located error rfl
  stable front behind others i ending' hrest hne hhides hending' hlength :=
    run_bind_of_error (h.stable front behind others i ending' hrest hne hhides hending' hlength)
  viable hne hvalid := hviable hne (hvalid error rfl)

/-- Steadiness of a parser that another one follows, whose bound may be less by the token
that the first one takes. -/
theorem SteadyAt.bind [Nonempty α] (shift : Nat) (h : SteadyAt size parser follow' least tokens)
    (hnext : ∀ a, Steady limit size' (next · a) follow least' further)
    (hfollow : ∀ rest, follow (nextKind rest) → follow' (nextKind (further ++ rest)))
    (htokens : Within (limit + shift) tokens) (hshift : shift ≤ 1) (hleast : shift ≤ least)
    (hsize : ∀ i, size i ≤ size' i + shift) :
    SteadyAt size (fun i => parser i >>= next i) follow (least + least') tokens := by
  intro i ending hending hlength
  obtain ⟨taken, middle, result, rfl, hrun, htaken, hstops⟩ := h i ending hending hlength
  have hviable (hne : taken ≠ [])
      (hvalid : ∀ error, result = .error error → error.problem ≠ .invalidTarget) :
      ∃ further, Completes size (fun i => parser i >>= next i) follow taken further := by
    obtain ⟨others, hothers⟩ := hstops.viable hne hvalid
    have hpos := List.length_pos_iff.mpr hne
    exact ⟨_, hothers.bind (fun a => (hnext a).completes) (by omega) hsize hfollow⟩
  cases result with
  | error error =>
      refine ⟨taken, middle, .error error, rfl, run_bind_of_error hrun, ?_,
        hstops.bind_of_error fun hne hproblem => hviable hne ?_⟩
      · rintro b ⟨⟩
      · rintro error' ⟨⟩
        exact hproblem
  | ok a =>
      have hpast : shift ≤ taken.length := Nat.le_trans hleast (htaken a rfl)
      have hbound := hsize i
      rw [List.length_append] at hlength
      obtain ⟨taken', rest, result', rfl, hrun', htaken', hstops'⟩ :=
        (hnext a).steadyAt middle (htokens.of_append hpast) i ending hending (by omega)
      refine ⟨taken ++ taken', rest, result', (List.append_assoc _ _ _).symm, ?_, ?_,
        hstops.bind hstops' (fun hne => hviable hne (by rintro error ⟨⟩)) hpast hsize⟩
      · rw [run_bind_of_ok hrun]
        exact hrun'
      · intro b hb
        rw [List.length_append]
        exact Nat.add_le_add (htaken a rfl) (htaken' b hb)

theorem least_le_of_bind [Nonempty α] (h : Steady limit size parser follow' least further)
    (hnext : ∀ a, Steady limit' size' (next · a) follow least' further') :
    least + least' ≤ (further ++ further').length := by
  obtain ⟨a⟩ := ‹Nonempty α›
  rw [List.length_append]
  exact Nat.add_le_add h.least_le (hnext a).least_le

theorem Steady.bind [Nonempty α] (h : Steady limit size parser follow' least further)
    (hnext : ∀ a, Steady limit size (next · a) follow least' further')
    (hfollow : ∀ rest, follow (nextKind rest) → follow' (nextKind (further' ++ rest))) :
    Steady limit size (fun i => parser i >>= next i) follow (least + least')
      (further ++ further') where
  steadyAt tokens htokens :=
    (h.steadyAt tokens htokens).bind 0 hnext hfollow htokens (Nat.zero_le 1) (Nat.zero_le least)
      fun _ => Nat.le_refl _
  completes :=
    h.completes.bind (fun a => (hnext a).completes) (Nat.zero_le _) (fun _ => Nat.le_refl _) hfollow
  least_le := least_le_of_bind h hnext

/-- What follows a parser that takes a token need only be steady at shorter rows. -/
theorem Steady.bind_shorter [Nonempty α] (h : Steady (limit + 1) size parser follow' 1 further)
    (hnext : ∀ a, Steady limit (fun i => size i - 1) (next · a) follow least' further')
    (hfollow : ∀ rest, follow (nextKind rest) → follow' (nextKind (further' ++ rest))) :
    Steady (limit + 1) size (fun i => parser i >>= next i) follow (1 + least')
      (further ++ further') where
  steadyAt tokens htokens :=
    (h.steadyAt tokens htokens).bind 1 hnext hfollow htokens (Nat.le_refl 1) (Nat.le_refl 1)
      fun _ => Nat.le_add_of_sub_le (Nat.le_refl _)
  completes := by
    refine h.completes.bind (fun a => (hnext a).completes) ?_
      (fun _ => Nat.le_add_of_sub_le (Nat.le_refl _)) hfollow
    exact Nat.le_trans h.least_le (Nat.le_add_left _ _)
  least_le := least_le_of_bind h hnext

end Bind

/-! ## Parsers that run as others -/

section Run

variable {parser inner : ι → Parser α}

theorem SteadyAt.mono (h : SteadyAt size parser follow least tokens)
    (hsize : ∀ i, size' i ≤ size i) (hfollow : ∀ kind, follow' kind → follow kind)
    (hleast : least' ≤ least) : SteadyAt size' parser follow' least' tokens := by
  intro i ending hending hlength
  obtain ⟨taken, rest, result, htokens, hrun, htaken, hstops⟩ :=
    h i ending hending (Nat.le_trans hlength (hsize i))
  refine ⟨taken, rest, result, htokens, hrun, fun a ha => Nat.le_trans hleast (htaken a ha),
    hstops.located, ?_, ?_⟩
  · intro front behind others j ending' hrest hne hhides hending' hlength'
    exact hstops.stable front behind others j ending' hrest hne hhides hending'
      (Nat.le_trans hlength' (hsize j))
  · intro hne hvalid
    obtain ⟨further, hfurther⟩ := hstops.viable hne hvalid
    exact ⟨further, hfurther.noEnding, fun rest' h => hfurther.plain rest' (hfollow _ h),
      fun rest' h => (hfurther.accepts rest' (hfollow _ h)).mono hsize⟩

theorem SteadyAt.atLeast (h : SteadyAt size parser follow least tokens)
    (hleast : least' ≤ least) : SteadyAt size parser follow least' tokens :=
  h.mono (fun _ => Nat.le_refl _) (fun _ => id) hleast

/-- A parser that runs in the same way on all rows with the same next token. -/
theorem SteadyAt.of_run (h : SteadyAt size inner follow least tokens)
    (hrun : ∀ i row ending, ending.kind = .endOfInput → row.length < size i →
      row.head? = tokens.head? → (parser i).run ⟨row, ending⟩ = (inner i).run ⟨row, ending⟩) :
    SteadyAt size parser follow least tokens := by
  intro i ending hending hlength
  obtain ⟨taken, rest, result, rfl, hresult, htaken, hstops⟩ := h i ending hending hlength
  refine ⟨taken, rest, result, rfl, ?_, htaken, hstops.located, ?_, ?_⟩
  · rw [hrun i _ ending hending hlength rfl, hresult]
  · intro front behind others j ending' hrest hne hhides hending' hlength'
    have hhead : (taken ++ (front ++ others)).head? = (taken ++ rest).head? := by
      rw [hrest]
      exact head?_append_of_ne_nil hne
    rw [hrun j _ ending' hending' hlength' hhead]
    exact hstops.stable front behind others j ending' hrest hne hhides hending' hlength'
  · intro hne hvalid
    obtain ⟨further, hfurther⟩ := hstops.viable hne hvalid
    refine ⟨further, hfurther.noEnding, hfurther.plain, fun rest' hfollow => ?_⟩
    refine (hfurther.accepts rest' hfollow).of_run fun j ending' hending' hlength' => ?_
    exact hrun j _ ending' hending' hlength' (@head?_append_of_ne_nil [] taken _ _ hne)

theorem Steady.mono (h : Steady limit size parser follow least further)
    (hlimit : limit' ≤ limit) (hsize : ∀ i, size' i ≤ size i)
    (hfollow : ∀ kind, follow' kind → follow kind) (hleast : least' ≤ least) :
    Steady limit' size' parser follow' least' further where
  steadyAt tokens htokens := (h.steadyAt tokens (htokens.mono hlimit)).mono hsize hfollow hleast
  completes := ⟨h.completes.noEnding, fun rest hrest => h.completes.plain rest (hfollow _ hrest),
    fun rest hrest => (h.completes.accepts rest (hfollow _ hrest)).mono hsize⟩
  least_le := Nat.le_trans hleast h.least_le

theorem Steady.atLeast (h : Steady limit size parser follow least further)
    (hleast : least' ≤ least) : Steady limit size parser follow least' further :=
  h.mono (Nat.le_refl _) (fun _ => Nat.le_refl _) (fun _ => id) hleast

theorem Steady.before (h : Steady limit size parser follow least further)
    (hfollow : ∀ kind, follow' kind → follow kind) :
    Steady limit size parser follow' least further :=
  h.mono (Nat.le_refl _) (fun _ => Nat.le_refl _) hfollow (Nat.le_refl _)

theorem Steady.shorter (h : Steady (limit + 1) size parser follow least further) :
    Steady limit (fun i => size i - 1) parser follow least further :=
  h.mono (Nat.le_succ limit) (fun _ => Nat.sub_le _ 1) (fun _ => id) (Nat.le_refl least)

theorem Steady.of_run (h : Steady limit size inner follow least further)
    (hrun : ∀ i row ending, ending.kind = .endOfInput → row.length < size i →
      (parser i).run ⟨row, ending⟩ = (inner i).run ⟨row, ending⟩) :
    Steady limit size parser follow least further where
  steadyAt tokens htokens := (h.steadyAt tokens htokens).of_run
    fun i row ending hending hlength _ => hrun i row ending hending hlength
  completes := ⟨h.completes.noEnding, h.completes.plain, fun rest hrest =>
    (h.completes.accepts rest hrest).of_run fun i ending => hrun i _ ending⟩
  least_le := h.least_le

/-- A loop with at least as many rounds as there may be tokens has one left to go. -/
theorem Steady.of_count (loop : ι → Rounds → Parser α) {count : ι → Nat}
    (h : Steady limit size (fun i => loop i (count i - 1 + 1 : Nat)) follow least further)
    (hcount : ∀ i, size i ≤ count i) :
    Steady limit size (fun i => loop i (count i)) follow least further := by
  refine h.of_run fun i row ending _ hlength => ?_
  rw [Nat.sub_add_cancel (Nat.one_le_of_lt (Nat.lt_of_lt_of_le hlength (hcount i)))]

/-- A parser that takes some tokens and then runs as another one, which need only be steady
at shorter rows. -/
theorem SteadyAt.nested {front : List Token} (hfront : front ≠ [])
    (hrun : ∀ i row ending, ending.kind = .endOfInput →
      (parser i).run ⟨front ++ row, ending⟩ = (inner i).run ⟨row, ending⟩)
    (h : Steady limit size inner follow least further)
    (htokens : Within (limit + 1) (front ++ tokens)) :
    SteadyAt (fun i => size i + 1) parser follow 1 (front ++ tokens) := by
  have hpos := List.length_pos_iff.mpr hfront
  have hshorter (i : ι) {row : List Token} (hrow : (front ++ row).length < size i + 1) :
      row.length < size i := by
    rw [List.length_append] at hrow
    omega
  intro i ending hending hlength
  obtain ⟨taken, rest, result, rfl, hresult, htaken, hstops⟩ :=
    h.steadyAt tokens (htokens.of_append hpos) i ending hending (hshorter i hlength)
  have hcompletes {further : List Token} (h : Completes size inner follow taken further) :
      Completes (fun i => size i + 1) parser follow (front ++ taken) further := by
    refine ⟨h.noEnding, h.plain, fun rest' hfollow j ending' hending' hlength' => ?_⟩
    rw [List.append_assoc] at hlength' ⊢
    rw [hrun j _ ending' hending']
    exact h.accepts rest' hfollow j ending' hending' (hshorter j hlength')
  refine ⟨front ++ taken, rest, result, (List.append_assoc _ _ _).symm, ?_, ?_, hstops.located,
    ?_, ?_⟩
  · rw [hrun i _ ending hending, hresult]
  · intro a ha
    rw [List.length_append]
    exact Nat.le_trans hpos (Nat.le_add_right _ _)
  · intro others behind others' j ending' hrest hne hhides hending' hlength'
    rw [List.append_assoc] at hlength' ⊢
    rw [hrun j _ ending' hending']
    exact hstops.stable others behind others' j ending' hrest hne hhides hending'
      (hshorter j hlength')
  · intro _ hvalid
    by_cases hne : taken = []
    · subst hne
      exact ⟨further, hcompletes h.completes⟩
    · obtain ⟨further', hfurther⟩ := hstops.viable hne hvalid
      exact ⟨further', hcompletes hfurther⟩

theorem SteadyAt.cons_nested {token : Token}
    (hrun : ∀ i row ending, ending.kind = .endOfInput →
      (parser i).run ⟨token :: row, ending⟩ = (inner i).run ⟨row, ending⟩)
    (h : Steady limit size inner follow least further)
    (htokens : Within (limit + 1) (token :: tokens)) :
    SteadyAt (fun i => size i + 1) parser follow 1 (token :: tokens) :=
  .nested (List.cons_ne_nil token []) hrun h htokens

theorem SteadyAt.lead {front : List Token} (hfront : front ≠ [])
    (hrun : ∀ i row ending, ending.kind = .endOfInput →
      (parser i).run ⟨front ++ row, ending⟩ = (inner i).run ⟨row, ending⟩)
    (h : Steady limit size inner follow least further)
    (htokens : Within limit (front ++ tokens)) : SteadyAt size parser follow 1 (front ++ tokens) :=
  (SteadyAt.nested hfront hrun h (htokens.mono (Nat.le_succ limit))).mono
    (fun i => Nat.le_succ (size i)) (fun _ => id) (Nat.le_refl 1)

theorem SteadyAt.cons {token : Token}
    (hrun : ∀ i row ending, ending.kind = .endOfInput →
      (parser i).run ⟨token :: row, ending⟩ = (inner i).run ⟨row, ending⟩)
    (h : Steady limit size inner follow least further)
    (htokens : Within limit (token :: tokens)) : SteadyAt size parser follow 1 (token :: tokens) :=
  .lead (List.cons_ne_nil token []) hrun h htokens

/-- A parser that takes some tokens with a result, whenever what is left begins with a token
of some kinds. -/
theorem SteadyAt.takes (stops : Token.Kind → Prop) (taken : List Token) (a : α)
    (htokens : tokens = taken ++ rest) (hrest : stops (nextKind rest))
    (hrun : ∀ i row ending, ending.kind = .endOfInput → stops (nextKind row) →
      (parser i).run ⟨taken ++ row, ending⟩ = .ok (a, ⟨row, ending⟩))
    (hfollow : taken ≠ [] → ∀ kind, follow kind → stops kind ∧ isPlain kind = true)
    (hleast : least ≤ taken.length) : SteadyAt size parser follow least tokens := by
  intro i ending hending _
  subst htokens
  refine ⟨taken, rest, .ok a, rfl, hrun i rest ending hending hrest, fun _ _ => hleast, ?_, ?_, ?_⟩
  · rintro error ⟨⟩
  · intro front behind others j ending' hfront hne _ hending' _
    refine hrun j (front ++ others) ending' hending' ?_
    subst hfront
    rwa [nextKind_append_of_ne_nil hne] at hrest ⊢
  · intro hne _
    have hkinds := hfollow hne
    exact ⟨[], List.forall_mem_nil _, fun _ h => (hkinds _ h).2, fun rest' h j ending' hending' _ =>
      ⟨a, hrun j rest' ending' hending' (hkinds _ h).1⟩⟩

end Run

end Parser

end Script
