/-
# Programs line by line

Two sources that are programs, with a line feed in between, are one program: the
statements of the one and then those of the other. It is read from other places than the
two, so the equality is one of shapes.
-/

import Script.Proofs.Grammar.Extension
import Script.Proofs.Grammar.Program
import Script.Proofs.Token.Scan
import Script.Session

namespace Script

open Grammar

variable {first second longer : Source} {tokens others : List Token}

namespace Token

theorem programTokens_append_atEnd {body : List Token} (span : Span)
    (h : ∀ token ∈ body, token.kind ≠ .endOfInput) :
    programTokens (body ++ [atEnd span]) = body := by
  have hnot : ∀ token ∈ body, (!TokenStream.isEnding token) = true := by
    intro token htoken
    rw [Bool.not_eq_true', ← Bool.not_eq_true, isEnding_eq_true_iff]
    exact h token htoken
  rw [programTokens, List.takeWhile_append_of_pos hnot]
  exact List.append_nil body

/-- The tokens of two texts with a line feed in between. -/
theorem scan_lines (htext : longer.text.toList = first.text.toList ++ '\n' :: second.text.toList)
    (h : scan first = .ok tokens) (h' : scan second = .ok others) :
    ∃ combined separator offset lines, scan longer = .ok combined ∧
      separator.kind = .separator ∧
      programTokens combined = (programTokens tokens).map (moved longer 0 0) ++
        separator :: (programTokens others).map (moved longer offset lines) := by
  obtain ⟨body, rfl, hkinds, hfront⟩ := scanFrom_append h
  obtain ⟨body', rfl, hkinds', hbehind⟩ := scanFrom_append h'
  obtain ⟨separator, offset, lines, hseparator, hlineFeed⟩ := scanFrom_lineFeed longer
    (Position.start.advanceOver first.text.toList) second.text.toList
  have hwhole := hfront longer 0 0 (.lineFeed second.text.toList)
  have hend := hbehind longer offset lines .nil
  rw [List.append_nil, scanFrom] at hend
  rw [← htext, Position.behind_zero, Position.behind_zero, hlineFeed, hend] at hwhole
  refine ⟨_, separator, offset, lines, hwhole, hseparator, ?_⟩
  rw [programTokens_append_atEnd _ hkinds, programTokens_append_atEnd _ hkinds']
  have hkept (token : Token) (htoken : token ∈ body.map (moved longer 0 0) ++
      separator :: body'.map (moved longer offset lines)) : token.kind ≠ .endOfInput := by
    rw [List.mem_append, List.mem_cons, List.mem_map, List.mem_map] at htoken
    obtain ⟨given, hgiven, rfl⟩ | rfl | ⟨given, hgiven, rfl⟩ := htoken
    · exact hkinds given hgiven
    · simp [hseparator]
    · exact hkinds' given hgiven
  rw [← programTokens_append_atEnd _ hkept, List.append_assoc]
  rfl

end Token

theorem Tree.ofSource_eq_ok_iff {source : Source} {tree : Tree Span} :
    Tree.ofSource source = .ok tree ↔
      ∃ tokens, Token.scan source = .ok tokens ∧ Tree.ofTokens tokens = .ok tree := by
  rw [ofSource]
  cases Token.scan source with
  | error error => simp
  | ok tokens => cases htree : ofTokens tokens <;> simp [htree]

/-- A program is a row of statements. -/
theorem Tree.eq_block_of_ofSource {source : Source} {tree : Tree Span}
    (h : Tree.ofSource source = .ok tree) : ∃ site statements, tree = .block site statements := by
  obtain ⟨tokens, _, htree⟩ := ofSource_eq_ok_iff.mp h
  have hprogram := program_of_ofTokens htree
  cases tree with
  | block site statements => exact ⟨site, statements, rfl⟩
  | _ => cases hprogram

/-- The program of two texts with a line feed in between. -/
theorem Tree.ofSource_lines
    (htext : longer.text.toList = first.text.toList ++ '\n' :: second.text.toList)
    {site site' : Span} {statements further : List (Tree Span)}
    (h : Tree.ofSource first = .ok (.block site statements))
    (h' : Tree.ofSource second = .ok (.block site' further)) :
    ∃ tree, Tree.ofSource longer = .ok tree ∧
      tree.shape = (Tree.block site (statements ++ further)).shape := by
  obtain ⟨tokens, hscan, htree⟩ := ofSource_eq_ok_iff.mp h
  obtain ⟨others, hscan', htree'⟩ := ofSource_eq_ok_iff.mp h'
  obtain ⟨combined, separator, offset, lines, hcombined, hseparator, htokens⟩ :=
    Token.scan_lines htext hscan hscan'
  have hmove (offset lines : Nat) (behind : List Token)
      (hbehind : behind = [] ∨ nextKind behind = .separator) :
      Extends (Token.moved longer offset lines) behind :=
    ⟨fun _ => rfl, fun _ => rfl, fun _ => rfl, hbehind⟩
  have hprogram := (program_of_ofTokens htree).append (program_of_ofTokens htree') hseparator
    (hmove 0 0 _ (.inr hseparator)) (hmove offset lines [] (.inl rfl))
  rw [← htokens] at hprogram
  obtain ⟨tree, hread, hshape⟩ := exists_ofTokens_of_program hprogram
  refine ⟨tree, ofSource_eq_ok_iff.mpr ⟨combined, hcombined, hread⟩, ?_⟩
  rw [hshape, Tree.shape, shapeEach_eq_map, shapeEach_eq_map, shapeEach_eq_map, List.map_append]

end Script
