import Shortfall.Proofs.Redaction.Matching
import Shortfall.Proofs.Text.Characters
import Shortfall.Redaction

/-!
# Redacted texts

A rule keeps some pieces of a text and puts the placeholder in the place of others. `Pattern.tokens`
tells which, so that the text before (`Token.before`) and the text after (`Token.after`) can be
compared. A span that is replaced was taken by the pattern, and a piece is kept only where the
pattern takes nothing (`splits_tokens`). Pieces stay pieces: next to a placeholder no stray bytes
become a character (`pieces_apply`).

What a pattern finds in the text after may reach into placeholders. Consecutive pieces without
brackets do not: they stand between the brackets of one placeholder, or all of them were kept
(`letters_or_kept`).
-/

namespace Shortfall.Redaction

open Text (Piece)

/-- What a pattern makes of a text: pieces that are kept, and spans that are replaced. -/
inductive Token where
  | kept (piece : Piece)
  | span (taken : List Piece)

namespace Token

/-- What the placeholder has between its brackets. -/
def letters : List Piece := ['R', 'E', 'D', 'A', 'C', 'T', 'E', 'D'].map .char

/-- The pieces of the placeholder. -/
def mark : List Piece := .char '[' :: (letters ++ [.char ']'])

/-- The text that was there. -/
@[simp] def before : List Token → List Piece
  | [] => []
  | kept piece :: tokens => piece :: before tokens
  | span taken :: tokens => taken ++ before tokens

/-- The text that is left. -/
@[simp] def after : List Token → List Piece
  | [] => []
  | kept piece :: tokens => piece :: after tokens
  | span _ :: tokens => mark ++ after tokens

@[simp] theorem before_append (front back : List Token) :
    before (front ++ back) = before front ++ before back := by
  induction front with
  | nil => rfl
  | cons token front ih => cases token <;> simp [ih]

@[simp] theorem after_append (front back : List Token) :
    after (front ++ back) = after front ++ after back := by
  induction front with
  | nil => rfl
  | cons token front ih => cases token <;> simp [ih]

@[simp] theorem before_map_kept (pieces : List Piece) : before (pieces.map kept) = pieces := by
  induction pieces with
  | nil => rfl
  | cons piece pieces ih => rw [List.map_cons, before, ih]

@[simp] theorem after_map_kept (pieces : List Piece) : after (pieces.map kept) = pieces := by
  induction pieces with
  | nil => rfl
  | cons piece pieces ih => rw [List.map_cons, after, ih]

theorem mem_after_of_kept {tokens : List Token} {piece : Piece} (h : kept piece ∈ tokens) :
    piece ∈ after tokens := by
  obtain ⟨first, second, rfl⟩ := List.append_of_mem h
  simp

theorem mem_before_of_kept {tokens : List Token} {piece : Piece} (h : kept piece ∈ tokens) :
    piece ∈ before tokens := by
  obtain ⟨first, second, rfl⟩ := List.append_of_mem h
  simp

theorem mem_after {tokens : List Token} {piece : Piece} (h : piece ∈ after tokens) :
    kept piece ∈ tokens ∨ piece ∈ mark := by
  induction tokens with
  | nil => exact absurd h List.not_mem_nil
  | cons token tokens ih =>
      cases token with
      | kept other =>
          rcases List.mem_cons.mp h with rfl | hrest
          · exact .inl List.mem_cons_self
          · exact (ih hrest).imp_left (List.mem_cons_of_mem _)
      | span taken =>
          rcases List.mem_append.mp h with hmark | hrest
          · exact .inr hmark
          · exact (ih hrest).imp_left (List.mem_cons_of_mem _)

theorem mem_before {tokens : List Token} {piece : Piece} (h : piece ∈ before tokens) :
    kept piece ∈ tokens ∨ ∃ taken, span taken ∈ tokens ∧ piece ∈ taken := by
  induction tokens with
  | nil => exact absurd h List.not_mem_nil
  | cons token tokens ih =>
      have hrest : piece ∈ before tokens → kept piece ∈ token :: tokens ∨
          ∃ taken, span taken ∈ token :: tokens ∧ piece ∈ taken := by
        intro hmem
        rcases ih hmem with hkept | ⟨taken, hspan, hpiece⟩
        · exact .inl (List.mem_cons_of_mem _ hkept)
        · exact .inr ⟨taken, List.mem_cons_of_mem _ hspan, hpiece⟩
      cases token with
      | kept other =>
          rcases List.mem_cons.mp h with rfl | hmem
          · exact .inl List.mem_cons_self
          · exact hrest hmem
      | span taken =>
          rcases List.mem_append.mp h with hmem | hmem
          · exact .inr ⟨taken, List.mem_cons_self, hmem⟩
          · exact hrest hmem

/-- Tokens up to the first span. -/
theorem kept_front (tokens : List Token) :
    (∃ pieces : List Piece, tokens = pieces.map kept) ∨
      ∃ (pieces taken : List Piece) (rest : List Token),
        tokens = pieces.map kept ++ span taken :: rest := by
  induction tokens with
  | nil => exact .inl ⟨[], rfl⟩
  | cons token tokens ih =>
      cases token with
      | span taken => exact .inr ⟨[], taken, tokens, rfl⟩
      | kept piece =>
          rcases ih with ⟨pieces, rfl⟩ | ⟨pieces, taken, rest, rfl⟩
          · exact .inl ⟨piece :: pieces, rfl⟩
          · exact .inr ⟨piece :: pieces, taken, rest, rfl⟩

/-! ## Where the text after can be cut -/

section Cuts

variable {tokens : List Token} {front back : List Piece} {piece : Piece}

/-- Tokens can be cut at a piece that the placeholder does not have. -/
theorem cut_at_piece (hpiece : piece ∉ mark) (h : after tokens = front ++ piece :: back) :
    ∃ first second, tokens = first ++ kept piece :: second ∧ after first = front ∧
      after second = back := by
  induction tokens generalizing front with
  | nil => exact absurd h.symm (by simp)
  | cons token tokens ih =>
      cases token with
      | kept other =>
          cases front with
          | nil =>
              cases h
              exact ⟨[], tokens, rfl, rfl, rfl⟩
          | cons first front =>
              obtain ⟨rfl, hrest⟩ := List.cons.inj h
              obtain ⟨first, second, rfl, rfl, rfl⟩ := ih hrest
              exact ⟨kept other :: first, second, rfl, rfl, rfl⟩
      | span taken =>
          rw [after] at h
          rcases List.append_eq_append_iff.mp h with ⟨more, rfl, hrest⟩ | ⟨more, hmark, hrest⟩
          · obtain ⟨first, second, rfl, rfl, rfl⟩ := ih hrest
            exact ⟨span taken :: first, second, rfl, rfl, rfl⟩
          · cases more with
            | nil =>
                have hrest : Token.after tokens = [] ++ piece :: back := hrest.symm
                obtain ⟨first, second, rfl, hfirst, rfl⟩ := ih hrest
                refine ⟨span taken :: first, second, rfl, ?_, rfl⟩
                rw [after, hfirst, hmark]
                simp
            | cons first more =>
                obtain ⟨rfl, _⟩ := List.cons.inj hrest
                exact absurd (hmark ▸ by simp) hpiece

/-- Pieces without an opening bracket at the front were kept. -/
theorem kept_of_after_eq_append (hopen : ∀ piece ∈ front, piece ≠ .char '[')
    (h : after tokens = front ++ back) :
    ∃ rest, tokens = front.map kept ++ rest ∧ after rest = back := by
  induction front generalizing tokens with
  | nil => exact ⟨tokens, rfl, h⟩
  | cons piece front ih =>
      rw [List.forall_mem_cons] at hopen
      cases tokens with
      | nil => exact absurd h.symm (by simp)
      | cons token tokens =>
          cases token with
          | kept other =>
              obtain ⟨rfl, hrest⟩ := List.cons.inj h
              obtain ⟨rest, rfl, hback⟩ := ih hopen.2 hrest
              exact ⟨rest, rfl, hback⟩
          | span taken => exact absurd (List.cons.inj h).1.symm hopen.1

/-- Pieces without a closing bracket at the end were kept. -/
theorem kept_of_after_eq_concat (hclose : ∀ piece ∈ back, piece ≠ .char ']')
    (h : after tokens = front ++ back) :
    ∃ first, tokens = first ++ back.map kept ∧ after first = front := by
  induction back using List.reverseRecOn generalizing tokens with
  | nil => exact ⟨tokens, by simp, by simpa using h⟩
  | append_singleton back piece ih =>
      rw [List.forall_mem_append, List.forall_mem_singleton] at hclose
      rw [← List.append_assoc] at h
      cases tokens using List.reverseRecOn with
      | nil => exact absurd h.symm (by simp)
      | append_singleton tokens token =>
          rw [after_append] at h
          cases token with
          | kept other =>
              obtain ⟨hrest, hlast⟩ := List.append_inj' h rfl
              cases hlast
              obtain ⟨first, rfl, hfront⟩ := ih hclose.1 hrest
              exact ⟨first, by simp, hfront⟩
          | span taken =>
              have hmark : after [span taken] = (.char '[' :: letters) ++ [.char ']'] := rfl
              rw [hmark, ← List.append_assoc] at h
              have hlast := (List.append_inj' h rfl).2
              exact absurd (List.cons.inj hlast).1.symm hclose.2

/-- **Consecutive pieces without brackets** stand in one placeholder, or they were kept. -/
theorem letters_or_kept {infixed : List Piece} (hne : infixed ≠ [])
    (hbrackets : ∀ piece ∈ infixed, piece ≠ .char '[' ∧ piece ≠ .char ']')
    (h : after tokens = front ++ (infixed ++ back)) :
    infixed <:+: letters ∨ ∃ first second, tokens = first ++ (infixed.map kept ++ second) ∧
      after first = front ∧ after second = back := by
  induction tokens generalizing front with
  | nil => exact absurd h.symm (by simp [hne])
  | cons token tokens ih =>
      -- At the front of the text the pieces were kept; behind it the induction goes on.
      cases front with
      | nil =>
          obtain ⟨rest, hrest, hback⟩ :=
            kept_of_after_eq_append (fun piece hmem => (hbrackets piece hmem).1) h
          exact .inr ⟨[], rest, hrest, rfl, hback⟩
      | cons first front =>
          cases token with
          | kept other =>
              obtain ⟨rfl, hrest⟩ := List.cons.inj h
              rcases ih hrest with hletters | ⟨before, behind, rfl, rfl, rfl⟩
              · exact .inl hletters
              · exact .inr ⟨kept other :: before, behind, rfl, rfl, rfl⟩
          | span taken =>
              obtain ⟨rfl, hrest⟩ := List.cons.inj h
              rw [List.append_eq, List.append_assoc] at hrest
              rcases List.append_eq_append_iff.mp hrest with
                ⟨more, rfl, hmore⟩ | ⟨more, hletters, hmore⟩
              · -- The pieces begin behind the letters, so behind the closing bracket.
                cases more with
                | nil =>
                    cases infixed with
                    | nil => exact absurd rfl hne
                    | cons piece infixed =>
                        have hbracket := (List.cons.inj hmore).1
                        exact absurd hbracket.symm (hbrackets piece (by simp)).2
                | cons piece more =>
                    obtain ⟨rfl, hbehind⟩ := List.cons.inj hmore
                    rcases ih hbehind with hinfix | ⟨before, behind, rfl, hbefore, rfl⟩
                    · exact .inl hinfix
                    · refine .inr ⟨span taken :: before, behind, rfl, ?_, rfl⟩
                      rw [after, hbefore]
                      simp [mark]
              · -- They begin among the letters and end before the closing bracket.
                rcases List.append_eq_append_iff.mp hmore with
                  ⟨rest, rfl, _⟩ | ⟨rest, hinfixed, hend⟩
                · exact .inl ⟨front, rest, by rw [hletters, List.append_assoc]⟩
                · cases rest with
                  | nil => exact .inl ⟨front, [], by simp [hletters, hinfixed]⟩
                  | cons piece rest =>
                      obtain ⟨rfl, _⟩ := List.cons.inj hend
                      exact absurd rfl (hbrackets _ (hinfixed ▸ by simp)).2

end Cuts

end Token

/-! ## The tokens of a text -/

/-- What a pattern makes of a text behind its first `pending` pieces. -/
def Pattern.tokensFrom (pattern : Pattern) : (pending : Nat) → List Piece → List Token
  | _, [] => []
  | pending + 1, _ :: rest => tokensFrom pattern pending rest
  | 0, piece :: rest =>
      match pattern.matchLength? (piece :: rest) with
      | some (taken + 1) => .span (piece :: rest.take taken) :: tokensFrom pattern taken rest
      | _ => .kept piece :: tokensFrom pattern 0 rest

/-- What a pattern makes of a text. -/
def Pattern.tokens (pattern : Pattern) (text : List Piece) : List Token :=
  pattern.tokensFrom 0 text

/-- Going from left to right, the pattern takes each span and takes nothing from a kept piece
on. -/
inductive Pattern.Splits (pattern : Pattern) : List Token → Prop where
  | nil : pattern.Splits []
  | span {taken : List Piece} {tokens : List Token}
      (htakes : pattern.Takes (taken.map Piece.shown)) (h : pattern.Splits tokens) :
      pattern.Splits (.span taken :: tokens)
  | kept {piece : Piece} {tokens : List Token}
      (hnone : ∀ front, front <+: piece :: Token.before tokens →
        ¬pattern.Takes (front.map Piece.shown))
      (h : pattern.Splits tokens) : pattern.Splits (.kept piece :: tokens)

namespace Pattern.Splits

variable {pattern : Pattern} {tokens : List Token}

theorem takes_of_mem (h : pattern.Splits tokens) {taken : List Piece}
    (hmem : .span taken ∈ tokens) : pattern.Takes (taken.map Piece.shown) := by
  induction h with
  | nil => exact absurd hmem List.not_mem_nil
  | span htakes _ ih =>
      rcases List.mem_cons.mp hmem with hfirst | hrest
      · cases hfirst
        exact htakes
      · exact ih hrest
  | kept _ _ ih =>
      rcases List.mem_cons.mp hmem with hfirst | hrest
      · cases hfirst
      · exact ih hrest

theorem of_append {first second : List Token} (h : pattern.Splits (first ++ second)) :
    pattern.Splits second := by
  induction first with
  | nil => exact h
  | cons token first ih =>
      cases h with
      | span _ hrest => exact ih hrest
      | kept _ hrest => exact ih hrest

/-- Nothing is taken where pieces were kept. -/
theorem not_takes_of_kept {first second : List Token} {kept front : List Piece} (hne : kept ≠ [])
    (h : pattern.Splits (first ++ (kept.map .kept ++ second)))
    (hfront : front <+: kept ++ Token.before second) :
    ¬pattern.Takes (front.map Piece.shown) := by
  cases kept with
  | nil => exact absurd rfl hne
  | cons piece kept =>
      cases h.of_append with
      | kept hnone _ => exact hnone front (by simpa using hfront)

end Pattern.Splits

private theorem splits_tokensFrom {pattern : Pattern} (hsome : ¬pattern.Takes []) (pending : Nat)
    (text : List Piece) :
    pattern.Splits (pattern.tokensFrom pending text) ∧
      Token.before (pattern.tokensFrom pending text) = text.drop pending := by
  induction text generalizing pending with
  | nil => exact ⟨by rw [Pattern.tokensFrom]; exact .nil, by simp [Pattern.tokensFrom]⟩
  | cons piece rest ih =>
      cases pending with
      | succ pending => exact ih pending
      | zero =>
          cases hmatch : pattern.matchLength? (piece :: rest) with
          | none =>
              have hnone : ¬(pattern.rest? (piece :: rest)).isSome := by
                rw [Option.map_eq_none_iff.mp hmatch]
                exact Bool.false_ne_true
              rw [isSome_rest?_iff] at hnone
              obtain ⟨hsplits, hbefore⟩ := ih 0
              rw [Pattern.tokensFrom, hmatch]
              refine ⟨.kept (fun front hfront htakes => hnone ⟨front, ?_, htakes⟩) hsplits, ?_⟩
              · rwa [hbefore] at hfront
              · rw [Token.before, hbefore]
                rfl
          | some taken =>
              obtain ⟨hle, htakes⟩ := takes_of_matchLength? hmatch
              cases taken with
              | zero => exact absurd htakes hsome
              | succ taken =>
                  obtain ⟨hsplits, hbefore⟩ := ih taken
                  rw [Pattern.tokensFrom, hmatch]
                  refine ⟨.span htakes hsplits, ?_⟩
                  rw [Token.before, hbefore, List.cons_append, List.take_append_drop]
                  rfl

theorem splits_tokens {pattern : Pattern} (hsome : ¬pattern.Takes []) (text : List Piece) :
    pattern.Splits (pattern.tokens text) :=
  (splits_tokensFrom hsome 0 text).1

@[simp] theorem before_tokens {pattern : Pattern} (hsome : ¬pattern.Takes []) (text : List Piece) :
    Token.before (pattern.tokens text) = text :=
  (splits_tokensFrom hsome 0 text).2

/-! ## The pieces of a redacted text -/

private theorem placeholder_eq : placeholder = Text.ofPieces Token.mark := by
  decide

private theorem replaceFrom_eq (pattern : Pattern) (pending : Nat) (text : List Piece) :
    pattern.replaceFrom placeholder pending text =
      Text.ofPieces (Token.after (pattern.tokensFrom pending text)) := by
  induction text generalizing pending with
  | nil => simp [Pattern.replaceFrom, Pattern.tokensFrom, Text.ofPieces]
  | cons piece rest ih =>
      cases pending with
      | succ pending => exact ih pending
      | zero =>
          rw [Pattern.replaceFrom, Pattern.tokensFrom]
          cases pattern.matchLength? (piece :: rest) with
          | none => exact congrArg (piece.bytes ++ ·) (ih 0)
          | some taken =>
              cases taken with
              | zero => exact congrArg (piece.bytes ++ ·) (ih 0)
              | succ taken =>
                  have hmark : Text.ofPieces (Token.mark ++
                      Token.after (pattern.tokensFrom taken rest)) =
                        placeholder ++
                          Text.ofPieces (Token.after (pattern.tokensFrom taken rest)) := by
                    rw [placeholder_eq]
                    exact List.flatMap_append
                  exact (congrArg (placeholder ++ ·) (ih taken)).trans hmark.symm

/-- No character reaches over a byte below 128. -/
theorem character?_append_cons {front back : Text} {byte : UInt8} (hbyte : byte.toNat < 128)
    (hne : front ≠ []) (h : Text.character? front = none) :
    Text.character? (front ++ byte :: back) = none := by
  rw [Option.eq_none_iff_forall_ne_some] at h ⊢
  intro c hc
  obtain ⟨rest, hrest⟩ := Text.character?_eq_some_iff.mp hc
  rcases List.append_eq_append_iff.mp hrest with ⟨more, hfront, _⟩ | ⟨more, hencode, hmore⟩
  · exact h c (Text.character?_eq_some_iff.mpr ⟨more, hfront.symm⟩)
  · cases more with
    | nil => exact h c (Text.character?_eq_some_iff.mpr (by simp [hencode]))
    | cons first more =>
        obtain ⟨rfl, _⟩ := List.cons.inj hmore
        rcases Text.encode_cases c with ⟨_, hone⟩ | ⟨_, hhigh⟩
        · -- An encoding of one byte ends before it gets there.
          have hlength := congrArg List.length (hone.symm.trans hencode)
          have hpos := List.length_pos_iff.mpr hne
          simp only [List.length_append, List.length_cons, List.length_nil] at hlength
          omega
        · have hle := hhigh byte (hencode ▸ by simp)
          omega

private theorem pieces_ofPieces_after {tokens : List Token}
    (h : Text.pieces (Text.ofPieces (Token.before tokens)) = Token.before tokens) :
    Text.pieces (Text.ofPieces (Token.after tokens)) = Token.after tokens := by
  induction tokens with
  | nil => rfl
  | cons token tokens ih =>
      cases token with
      | span taken =>
          have hrest := ih (Text.pieces_ofPieces_of_append_right h)
          have hmark : Text.ofPieces (Token.after (.span taken :: tokens)) =
              Text.ofChars (Token.mark.map Piece.shown) ++ Text.ofPieces (Token.after tokens) :=
            List.flatMap_append
          rw [hmark, Text.pieces_ofChars_append, hrest]
          rfl
      | kept piece =>
          have hrest := ih (Text.pieces_ofPieces_of_cons h)
          cases piece with
          | char c => exact (Text.pieces_encode_append c _).trans (congrArg (.char c :: ·) hrest)
          | stray byte =>
              have hbefore : Text.character? (byte :: Text.ofPieces (Token.before tokens)) = none :=
                Text.character?_of_pieces_eq_stray h
              have hafter :
                  Text.character? (byte :: Text.ofPieces (Token.after tokens)) = none := by
                rcases Token.kept_front tokens with ⟨pieces, rfl⟩ | ⟨pieces, taken, rest, rfl⟩
                · simpa using hbefore
                · have hshorter : byte :: Text.ofPieces pieces <+:
                      byte ::
                        Text.ofPieces (Token.before (pieces.map .kept ++ .span taken :: rest)) :=
                    ⟨Text.ofPieces (taken ++ Token.before rest), by simp [Text.ofPieces]⟩
                  have hnone := Text.character?_eq_none_of_shorter hshorter hbefore
                  have htext : byte :: Text.ofPieces
                      (Token.after (pieces.map .kept ++ .span taken :: rest)) =
                      (byte :: Text.ofPieces pieces) ++ 0x5B ::
                        Text.ofPieces (Token.letters ++ .char ']' :: Token.after rest) := by
                    rw [Token.after_append, Token.after_map_kept, Token.after, Text.ofPieces,
                      List.flatMap_append]
                    rfl
                  rw [htext]
                  exact character?_append_cons (by decide) (List.cons_ne_nil _ _) hnone
              exact (Text.pieces_stray_cons hafter).trans (congrArg (.stray byte :: ·) hrest)

/-- **The pieces of a redacted text.** -/
theorem pieces_apply {rule : Rule} (hsome : ¬rule.pattern.Takes []) (text : Text) :
    (rule.apply text).pieces = Token.after (rule.pattern.tokens text.pieces) := by
  rw [Rule.apply, Pattern.replace, replaceFrom_eq]
  refine pieces_ofPieces_after ?_
  rw [← Pattern.tokens, before_tokens hsome, Text.bytes_pieces]

end Shortfall.Redaction
