/-
# Sources one behind the other

The tokens of a text are the same wherever it stands, up to their spans. So the tokens
of two texts with a line feed in between are those of the one, a separator and those of
the other: the first text was read to its end, and no piece goes on behind a line feed
if it had an end before.
-/

import Script.Proofs.Token.Piece
import Script.Token.Lexer

namespace Script

/-! ## Places in longer texts -/

/-- Where a position of a text is in a longer one in which the text begins a line. -/
def Position.behind (position : Position) (offset lines : Nat) : Position :=
  ⟨position.offset + offset, position.line + lines, position.column⟩

namespace Position

variable (position : Position) (offset lines : Nat)

theorem advance_behind (character : Char) :
    (position.behind offset lines).advance character =
      (position.advance character).behind offset lines := by
  rw [advance, advance]
  split
  · simp only [behind, Nat.add_right_comm]
  · simp only [behind, Nat.add_right_comm]

theorem advanceOver_behind (text : List Char) :
    (position.behind offset lines).advanceOver text =
      (position.advanceOver text).behind offset lines := by
  induction text generalizing position with
  | nil => rfl
  | cons character text ih => rw [advanceOver_cons, advanceOver_cons, advance_behind, ih]

theorem behind_zero : position.behind 0 0 = position := rfl

/-- Behind a line feed a line begins. -/
theorem advance_lineFeed :
    position.advance '\n' = start.behind (position.offset + 1) position.line := by
  rw [advance, if_pos rfl, behind, start]
  simp only [Nat.zero_add, Nat.add_comm]

end Position

namespace Token

/-- A token of a text as it stands in a longer one in which the text begins a line. -/
def moved (source : Source) (offset lines : Nat) (token : Token) : Token :=
  { token with
    span := ⟨source, token.span.start.behind offset lines, token.span.stop.behind offset lines⟩ }

/-! ## Reading a longer text -/

variable {source : Source} {position : Position} {first : Char} {after text extra : List Char}
  {tokens : List Token}

/-- The characters of the piece at the front of a text. -/
def taken (first : Char) (after : List Char) : List Char :=
  first :: after.take (Piece.read first after).length

/-- The characters behind that piece. -/
def untaken (first : Char) (after : List Char) : List Char :=
  after.drop (Piece.read first after).length

theorem length_untaken_lt (first : Char) (after : List Char) :
    (untaken first after).length < (first :: after).length := by
  rw [untaken, List.length_drop, List.length_cons]
  omega

/-- A text ends where what is behind its first piece ends. -/
theorem advanceOver_untaken (position : Position) (first : Char) (after : List Char) :
    (position.advanceOver (taken first after)).advanceOver (untaken first after) =
      position.advanceOver (first :: after) := by
  rw [← Position.advanceOver_append, taken, untaken, List.cons_append, List.take_append_drop]

theorem taken_append (h : Piece.Settled (.read first after) (.read first (after ++ extra))
      after.length) :
    taken first (after ++ extra) = taken first after ∧
      untaken first (after ++ extra) = untaken first after ++ extra := by
  rw [taken, taken, untaken, untaken, h.same, List.take_append_of_le_length h.length_le,
    List.drop_append_of_le_length h.length_le]
  exact ⟨rfl, rfl⟩

theorem scanFrom_of_gap (hcontent : (Piece.read first after).content = .gap) :
    scanFrom source position (first :: after) =
      scanFrom source (position.advanceOver (taken first after)) (untaken first after) := by
  rw [scanFrom]
  simp only [hcontent, taken, untaken]

theorem scanFrom_of_token {kind : Kind} {literal : Option Literal}
    (hcontent : (Piece.read first after).content = .token kind literal) :
    scanFrom source position (first :: after) =
      (⟨kind, String.ofList (taken first after), literal,
          ⟨source, position, position.advanceOver (taken first after)⟩⟩ :: ·) <$>
        scanFrom source (position.advanceOver (taken first after)) (untaken first after) := by
  rw [scanFrom]
  simp only [hcontent]
  rw [← taken, ← untaken]
  cases scanFrom source (position.advanceOver (taken first after)) (untaken first after) with
  | error error => rfl
  | ok tokens => rfl

/-- A text whose first piece is a token with given characters. -/
theorem scanFrom_of_read {kind : Kind} {literal : Option Literal}
    (hread : Piece.read first (after ++ extra) = ⟨.token kind literal, after.length⟩) :
    scanFrom source position (first :: (after ++ extra)) =
      (⟨kind, String.ofList (first :: after), literal,
          ⟨source, position, position.advanceOver (first :: after)⟩⟩ :: ·) <$>
        scanFrom source (position.advanceOver (first :: after)) extra := by
  have htaken : taken first (after ++ extra) = first :: after := by
    rw [taken, hread, List.take_left]
  have huntaken : untaken first (after ++ extra) = extra := by
    rw [untaken, hread, List.drop_left]
  rw [scanFrom_of_token (by rw [hread]), htaken, huntaken]

/-- A first piece with given characters is a token in front of those of what is behind it. -/
theorem scanFrom_piece {kind : Kind} {literal : Option Literal}
    (hread : Piece.read first (after ++ extra) = ⟨.token kind literal, after.length⟩)
    (h : scanFrom source (position.advanceOver (first :: after)) extra = .ok tokens) :
    ∃ span, scanFrom source position (first :: (after ++ extra)) =
      .ok (⟨kind, String.ofList (first :: after), literal, span⟩ :: tokens) := by
  rw [scanFrom_of_read hread, h]
  exact ⟨_, rfl⟩

/-- What a text that can be read gives, wherever it stands at the beginning of a line: the
same tokens, and then those of what follows it. -/
def ReadsAlways (text : List Char) (position : Position) (body : List Token) : Prop :=
  ∀ (longer : Source) (offset lines : Nat) {extra : List Char}, Interrupts extra →
    scanFrom longer (position.behind offset lines) (text ++ extra) =
      (body.map (moved longer offset lines) ++ ·) <$>
        scanFrom longer ((position.advanceOver text).behind offset lines) extra

theorem readsAlways_nil (position : Position) : ReadsAlways [] position [] :=
  fun _ _ _ _ _ => (id_map _).symm

theorem readsAlways_of_gap (hcontent : (Piece.read first after).content = .gap)
    {body : List Token}
    (h : ReadsAlways (untaken first after) (position.advanceOver (taken first after)) body) :
    ReadsAlways (first :: after) position body := by
  intro longer offset lines extra hextra
  have hsettled := Piece.settles_read hextra first after (by simp [hcontent])
  obtain ⟨htaken, huntaken⟩ := taken_append hsettled
  have hrest := h longer offset lines hextra
  rw [advanceOver_untaken] at hrest
  rw [List.cons_append, scanFrom_of_gap (by rw [hsettled.same]; exact hcontent), htaken,
    huntaken, Position.advanceOver_behind, hrest]

theorem readsAlways_of_token {kind : Kind} {literal : Option Literal}
    (hcontent : (Piece.read first after).content = .token kind literal) {body : List Token}
    (h : ReadsAlways (untaken first after) (position.advanceOver (taken first after)) body) :
    ReadsAlways (first :: after) position
      (⟨kind, String.ofList (taken first after), literal,
        ⟨source, position, position.advanceOver (taken first after)⟩⟩ :: body) := by
  intro longer offset lines extra hextra
  have hsettled := Piece.settles_read hextra first after (by simp [hcontent])
  obtain ⟨htaken, huntaken⟩ := taken_append hsettled
  have hrest := h longer offset lines hextra
  rw [advanceOver_untaken] at hrest
  rw [List.cons_append, scanFrom_of_token (by rw [hsettled.same]; exact hcontent), htaken,
    huntaken, Position.advanceOver_behind, hrest, Functor.map_map]
  rfl

/-- A text that can be read is read in the same way at the beginning of a line of a longer
text, in which nothing may follow it with which a piece could go on. -/
theorem scanFrom_append (h : scanFrom source position text = .ok tokens) :
    ∃ body,
      tokens = body ++ [atEnd ⟨source, position.advanceOver text, position.advanceOver text⟩] ∧
      (∀ token ∈ body, token.kind ≠ .endOfInput) ∧ ReadsAlways text position body := by
  induction hsize : text.length using Nat.strongRecOn
    generalizing position text tokens with
  | ind size ih =>
    subst hsize
    cases text with
    | nil =>
        rw [scanFrom] at h
        cases h
        exact ⟨[], rfl, List.forall_mem_nil _, readsAlways_nil position⟩
    | cons first after =>
        have hend := advanceOver_untaken position first after
        cases hcontent : (Piece.read first after).content with
        | problem problem =>
            rw [scanFrom] at h
            simp only [hcontent] at h
            cases h
        | gap =>
            rw [scanFrom_of_gap hcontent] at h
            obtain ⟨body, rfl, hkinds, hreads⟩ := ih _ (length_untaken_lt first after) h rfl
            exact ⟨body, by rw [hend], hkinds, readsAlways_of_gap hcontent hreads⟩
        | token kind literal =>
            rw [scanFrom_of_token hcontent] at h
            cases hothers : scanFrom source (position.advanceOver (taken first after))
              (untaken first after) with
            | error error =>
                rw [hothers] at h
                cases h
            | ok others =>
                rw [hothers] at h
                cases h
                obtain ⟨body, rfl, hkinds, hreads⟩ :=
                  ih _ (length_untaken_lt first after) hothers rfl
                refine ⟨_ :: body, by rw [hend]; rfl, ?_, readsAlways_of_token hcontent hreads⟩
                have hsettled := Piece.settles_read Interrupts.nil first after
                  (by simp [hcontent])
                rw [List.forall_mem_cons]
                exact ⟨hsettled.kind_ne _ _ hcontent, hkinds⟩

/-- A line feed is a separator, and behind it a text is read as from its beginning. -/
theorem scanFrom_lineFeed (source : Source) (position : Position) (text : List Char) :
    ∃ (separator : Token) (offset lines : Nat), separator.kind = .separator ∧
      scanFrom source position ('\n' :: text) =
        (separator :: ·) <$> scanFrom source (Position.start.behind offset lines) text := by
  have hcontent : (Piece.read '\n' text).content = .token .separator none := rfl
  have hstop : position.advanceOver (taken '\n' text) =
      Position.start.behind (position.offset + 1) position.line :=
    position.advance_lineFeed
  have hread : scanFrom source position ('\n' :: text) = _ := scanFrom_of_token hcontent
  rw [hstop] at hread
  exact ⟨_, _, _, rfl, hread⟩

end Token

end Script
