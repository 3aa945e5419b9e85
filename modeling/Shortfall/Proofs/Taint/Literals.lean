import Shortfall.Proofs.Taint.FlatScan
import Shortfall.Proofs.Text.Occurrences
import Shortfall.Taint.Literal

/-!
# String literals are opaque

An expression is read with its literals blanked out. That finding a literal is one left-to-right
pass over bytes makes two things delicate. A literal that is left a byte too early or too late
shifts every quote behind it, and a body is a sequence of characters, some of them several bytes
long and some no characters at all, while the scan takes single bytes.

The reference is a grammar. A `Segment` is a stretch of code without quotes or a complete literal,
and an expression is any sequence of them. Bodies are made of pieces, each a character or a stray
byte, alone or behind a backslash (`EscapedBody`). The scan agrees with the grammar
(`escapedBodyLength?_append`, `escapedBody_of_length?`), and so exactly the literals of a sequence
of segments are blanked. To the names of an expression one blank is as good as ten
(`scan_replicate_append`), so the length of a literal does not show either.

## Main results

* `blankLiterals_changes_to_blanks`: blanking moves nothing.
* `stripLiterals_textOf`: exactly the literals are blanked.
* `literals_opaque`: what is read does not depend on what literals contain.
-/

namespace Shortfall.Taint

def blank : UInt8 := 0x20

/-! ## Positions -/

/-- Blanking leaves every byte in its place or puts a blank there. -/
theorem blankLiterals_changes_to_blanks (pending : Nat) (text : Text) :
    List.Forall₂ (fun kept byte => kept = byte ∨ kept = blank)
      (blankLiterals pending text) text := by
  fun_induction blankLiterals pending text with
  | case1 pending => exact .nil
  | case2 pending byte rest ih => exact .cons (.inr rfl) ih
  | case3 byte rest length hliteral ih => exact .cons (.inr rfl) ih
  | case4 byte rest hnone ih => exact .cons (.inl rfl) ih

/-- The bytes that are due are blanked, whatever they are. -/
theorem blankLiterals_length_append (front back : Text) :
    blankLiterals front.length (front ++ back) =
      List.replicate front.length blank ++ blankLiterals 0 back := by
  induction front with
  | nil =>
      show blankLiterals 0 back = [] ++ blankLiterals 0 back
      rw [List.nil_append]
  | cons byte rest ih =>
      show 0x20 :: blankLiterals rest.length (rest ++ back) = _
      rw [ih]
      rfl

/-! ## The bodies of literals -/

/-- What may stand between two quotes of a kind that has escapes: characters and stray bytes other
than the quote and the backslash, and any but a line feed behind a backslash. -/
inductive EscapedBody (quote : UInt8) : Text → Prop where
  | nil : EscapedBody quote []
  | plain (piece : Text.Piece) {rest : Text} (hquote : piece.bytes ≠ [quote])
      (hslash : piece.bytes ≠ [backslash]) (hrest : EscapedBody quote rest) :
      EscapedBody quote (piece.bytes ++ rest)
  | escape (piece : Text.Piece) {rest : Text} (hfeed : piece.bytes ≠ [lineFeed])
      (hrest : EscapedBody quote rest) : EscapedBody quote (backslash :: (piece.bytes ++ rest))

/-- A piece is a single byte, or some bytes from 128 on. -/
theorem bytes_cases (piece : Text.Piece) :
    (∃ byte, piece.bytes = [byte]) ∨
      ∃ lead tail, piece.bytes = lead :: tail ∧ ∀ byte ∈ lead :: tail, 128 ≤ byte.toNat := by
  cases piece with
  | stray byte => exact .inl ⟨byte, rfl⟩
  | char c =>
      rcases Text.encode_cases c with ⟨_, hencode⟩ | ⟨_, hlarge⟩
      · exact .inl ⟨_, hencode⟩
      · obtain ⟨lead, tail, hencode, _⟩ := Text.encode_eq_cons c
        exact .inr ⟨lead, tail, hencode, hencode ▸ hlarge⟩

section Escapes

variable {quote : UInt8}

private theorem escapedBodyLength?_quote (rest : Text) :
    escapedBodyLength? quote (quote :: rest) = some 1 := by
  rw [escapedBodyLength?.eq_def]
  simp only [if_true]

private theorem escapedBodyLength?_plain {byte : UInt8} (hne : byte ≠ quote)
    (hslash : byte ≠ backslash) (rest : Text) :
    escapedBodyLength? quote (byte :: rest) = (escapedBodyLength? quote rest).map (· + 1) := by
  rw [escapedBodyLength?.eq_def]
  simp only [hne, hslash, if_false]

private theorem escapedBodyLength?_escape {byte : UInt8} (hquote : backslash ≠ quote)
    (hfeed : byte ≠ lineFeed) (rest : Text) :
    escapedBodyLength? quote (backslash :: byte :: rest) =
      (escapedBodyLength? quote rest).map (· + 2) := by
  rw [escapedBodyLength?, if_neg hquote, if_pos rfl, if_neg hfeed]

theorem ne_of_large {byte small : UInt8} (hsmall : small.toNat < 128) (h : 128 ≤ byte.toNat) :
    byte ≠ small := by
  rintro rfl
  omega

/-- The bytes of a longer character are neither quotes nor backslashes. -/
theorem escapedBodyLength?_large (hquote : quote.toNat < 128) {bytes : Text}
    (h : ∀ byte ∈ bytes, 128 ≤ byte.toNat) (rest : Text) :
    escapedBodyLength? quote (bytes ++ rest) =
      (escapedBodyLength? quote rest).map (· + bytes.length) := by
  induction bytes with
  | nil => simp
  | cons byte bytes ih =>
      have hbyte : 128 ≤ byte.toNat := h byte (by simp)
      have hbytes := ih fun other hother => h other (by simp [hother])
      rw [List.cons_append, escapedBodyLength?_plain (ne_of_large hquote hbyte)
        (ne_of_large (by decide) hbyte), hbytes, Option.map_map]
      rfl

/-- A body is taken as a whole, up to the quote behind it. -/
theorem escapedBodyLength?_append (hquote : quote.toNat < 128) (hslash : backslash ≠ quote)
    {body : Text} (h : EscapedBody quote body) (rest : Text) :
    escapedBodyLength? quote (body ++ quote :: rest) = some (body.length + 1) := by
  induction h with
  | nil => exact escapedBodyLength?_quote rest
  | plain piece hne hslash' _ ih =>
      rw [List.append_assoc]
      rcases bytes_cases piece with ⟨byte, hbyte⟩ | ⟨lead, tail, hbytes, hlarge⟩
      · rw [hbyte] at hne hslash' ⊢
        rw [List.singleton_append, escapedBodyLength?_plain (fun h => hne (by rw [h]))
          (fun h => hslash' (by rw [h])), ih]
        simp
      · rw [hbytes, escapedBodyLength?_large hquote hlarge, ih]
        simp
        omega
  | escape piece hfeed _ ih =>
      rw [List.cons_append, List.append_assoc]
      rcases bytes_cases piece with ⟨byte, hbyte⟩ | ⟨lead, tail, hbytes, hlarge⟩
      · rw [hbyte] at hfeed ⊢
        rw [List.singleton_append,
          escapedBodyLength?_escape hslash (fun h => hfeed (by rw [h])), ih]
        simp
      · -- The first byte of the character is the escaped one; the others follow as they are.
        have hlead : 128 ≤ lead.toNat := hlarge lead (by simp)
        have htail := escapedBodyLength?_large hquote
          (fun byte hbyte => hlarge byte (List.mem_cons_of_mem lead hbyte))
        rw [hbytes, List.cons_append, escapedBodyLength?_escape hslash
          (ne_of_large (by decide) hlead), htail, ih]
        simp
        omega

/-- What is taken up to a quote is a body. -/
theorem escapedBody_of_length? {text : Text} {length : Nat}
    (h : escapedBodyLength? quote text = some length) :
    ∃ body rest, EscapedBody quote body ∧ text = body ++ quote :: rest ∧
      length = body.length + 1 := by
  fun_induction escapedBodyLength? quote text generalizing length with
  | case1 => cases h
  | case2 rest =>
      cases h
      exact ⟨[], rest, .nil, rfl, rfl⟩
  | case3 => cases h
  | case4 => cases h
  | case5 escaped rest hfeed hne ih =>
      obtain ⟨more, hmore, rfl⟩ := Option.map_eq_some_iff.mp h
      obtain ⟨body, behind, hbody, htext, hlength⟩ := ih hmore
      refine ⟨backslash :: escaped :: body, behind, ?_, by rw [htext]; rfl, by simp [hlength]⟩
      exact .escape (.stray escaped) (fun h => hfeed (List.cons.inj h).1) hbody
  | case6 byte rest hne hslash ih =>
      obtain ⟨more, hmore, rfl⟩ := Option.map_eq_some_iff.mp h
      obtain ⟨body, behind, hbody, htext, hlength⟩ := ih hmore
      refine ⟨byte :: body, behind, ?_, by rw [htext]; rfl, by simp [hlength]⟩
      exact .plain (.stray byte) (fun h => hne (List.cons.inj h).1)
        (fun h => hslash (List.cons.inj h).1) hbody

theorem escapedBody_iff (hquote : quote.toNat < 128) (hslash : backslash ≠ quote) {body : Text} :
    EscapedBody quote body ↔
      escapedBodyLength? quote (body ++ [quote]) = some (body.length + 1) := by
  constructor
  · intro h
    exact escapedBodyLength?_append hquote hslash h []
  · intro h
    obtain ⟨found, rest, hfound, htext, hlength⟩ := escapedBody_of_length? h
    have hsame : body = found :=
      (List.append_inj htext (Nat.succ.inj hlength)).1
    rwa [hsame]

end Escapes

private theorem plainBodyLength?_append {quote : UInt8} {body : Text} (h : quote ∉ body)
    (rest : Text) : plainBodyLength? quote (body ++ quote :: rest) = some (body.length + 1) := by
  induction body with
  | nil =>
      rw [List.nil_append, plainBodyLength?, if_pos rfl]
      rfl
  | cons byte body ih =>
      rw [List.mem_cons, not_or] at h
      rw [List.cons_append, plainBodyLength?, if_neg (Ne.symm h.1), ih h.2]
      rfl

/-! ## Segments -/

def isQuote (byte : UInt8) : Bool := byte = 0x22 || byte = 0x27 || byte = 0x60

/-- A part of an expression: code without quotes, or a complete literal. -/
inductive Segment where
  | code (text : Text) (unquoted : text.any isQuote = false)
  | escaped (quote : UInt8) (mark : quote = 0x22 ∨ quote = 0x27) (body : Text)
      (wellFormed : EscapedBody quote body)
  | raw (body : Text) (unclosed : (0x60 : UInt8) ∉ body)

namespace Segment

def text : Segment → Text
  | code text _ => text
  | escaped quote _ body _ => quote :: (body ++ [quote])
  | raw body _ => 0x60 :: (body ++ [0x60])

def isLiteral : Segment → Bool
  | code _ _ => false
  | escaped _ _ _ _ | raw _ _ => true

/-- The segment with a literal replaced by as many blanks. -/
def blanked (segment : Segment) : Text :=
  if segment.isLiteral then List.replicate segment.text.length blank else segment.text

/-- The expression that some segments make up. -/
def textOf (segments : List Segment) : Text := segments.flatMap text

/-- The opening quote of a literal finds the end of it, whatever follows. -/
theorem exists_opening {segment : Segment} (h : segment.isLiteral = true) :
    ∃ opening tail, segment.text = opening :: tail ∧
      ∀ back, literalRest? opening (tail ++ back) = some tail.length := by
  cases segment with
  | code text unquoted => cases h
  | escaped quote mark body wellFormed =>
      refine ⟨quote, body ++ [quote], rfl, fun back => ?_⟩
      have hsmall : quote.toNat < 128 := by rcases mark with rfl | rfl <;> decide
      have hslash : backslash ≠ quote := by rcases mark with rfl | rfl <;> decide
      have hrest : literalRest? quote (body ++ [quote] ++ back) =
          escapedBodyLength? quote (body ++ quote :: back) := by
        rw [literalRest?, if_pos (by simpa using mark), List.append_assoc]
        rfl
      rw [hrest, escapedBodyLength?_append hsmall hslash wellFormed, List.length_append]
      rfl
  | raw body unclosed =>
      refine ⟨0x60, body ++ [0x60], rfl, fun back => ?_⟩
      have hrest : literalRest? 0x60 (body ++ [0x60] ++ back) =
          plainBodyLength? 0x60 (body ++ 0x60 :: back) := by
        rw [literalRest?, if_neg (by decide), if_pos rfl, List.append_assoc]
        rfl
      rw [hrest, plainBodyLength?_append unclosed, List.length_append]
      rfl

private theorem blankLiterals_unquoted {text : Text} (h : text.any isQuote = false) (back : Text) :
    blankLiterals 0 (text ++ back) = text ++ blankLiterals 0 back := by
  induction text with
  | nil => rfl
  | cons byte rest ih =>
      rw [List.any_cons, Bool.or_eq_false_iff] at h
      obtain ⟨hbyte, hrest⟩ := h
      have hnone : literalRest? byte (rest ++ back) = none := by
        simp only [isQuote, Bool.or_eq_false_iff] at hbyte
        simp only [literalRest?, hbyte, Bool.or_self, Bool.false_eq_true, if_false]
        rw [if_neg (by simpa using hbyte.2)]
      rw [List.cons_append, blankLiterals, hnone, List.cons_append, ← ih hrest]

private theorem blankLiterals_text_append (segment : Segment) (back : Text) :
    blankLiterals 0 (segment.text ++ back) = segment.blanked ++ blankLiterals 0 back := by
  cases hliteral : segment.isLiteral with
  | true =>
      obtain ⟨opening, tail, htext, hrest⟩ := exists_opening hliteral
      rw [blanked, if_pos hliteral, htext, List.cons_append, blankLiterals, hrest,
        List.length_cons, List.replicate_succ, List.cons_append, ← blankLiterals_length_append]
      rfl
  | false =>
      rw [blanked, if_neg (by simp [hliteral])]
      cases segment with
      | code text unquoted => exact blankLiterals_unquoted unquoted back
      | escaped quote mark body wellFormed => cases hliteral
      | raw body unclosed => cases hliteral

/-- **Exactly the literals are blanked.** -/
theorem stripLiterals_textOf (segments : List Segment) :
    stripLiterals (textOf segments) = segments.flatMap blanked := by
  induction segments with
  | nil => rfl
  | cons segment rest ih =>
      rw [stripLiterals, textOf, List.flatMap_cons, ← textOf, blankLiterals_text_append,
        ← stripLiterals, ih, List.flatMap_cons]

end Segment

/-! ## Blanks and names -/

/-- Two texts that a scan cannot tell apart, whatever it is in the middle of. -/
structure ScannedAlike (text other : Text) : Prop where
  starts : startsName text = startsName other
  scans : ∀ place, scan place text = scan place other

/-- Any number of blanks ends what is being scanned. -/
theorem scan_replicate_append (count : Nat) (place : Place) (back : Text) :
    scan place (List.replicate (count + 1) blank ++ back) =
      scan place [] ++ scan .outside back := by
  have hbreak : isBreak blank = true := by decide
  have hskip : ∀ more, scan .outside (List.replicate more blank ++ back) = scan .outside back := by
    intro more
    induction more with
    | zero => rfl
    | succ more ih =>
        rw [List.replicate_succ, List.cons_append, scan_outside_cons_of_not_part (by decide), ih]
  rw [List.replicate_succ, List.cons_append]
  show scan place ([] ++ blank :: (List.replicate count blank ++ back)) = _
  rw [scan_append_break hbreak, hskip]

namespace ScannedAlike

variable {text other : Text}

theorem refl (text : Text) : ScannedAlike text text := ⟨rfl, fun _ => rfl⟩

theorem cons (h : ScannedAlike text other) (byte : UInt8) :
    ScannedAlike (byte :: text) (byte :: other) := by
  refine ⟨rfl, fun place => ?_⟩
  cases place with
  | outside => simp only [scan, h.scans]
  | inNumber => simp only [scan, h.scans]
  | inName soFar => simp only [scan, h.scans, h.starts]

theorem append (h : ScannedAlike text other) (front : Text) :
    ScannedAlike (front ++ text) (front ++ other) := by
  induction front with
  | nil => exact h
  | cons byte front ih => exact ih.cons byte

/-- How many blanks there are makes no difference, as long as there are some. -/
theorem blanks (h : ScannedAlike text other) (count more : Nat) :
    ScannedAlike (List.replicate (count + 1) blank ++ text)
      (List.replicate (more + 1) blank ++ other) := by
  refine ⟨?_, fun place => ?_⟩
  · rw [List.replicate_succ, List.replicate_succ]
    rfl
  · rw [scan_replicate_append, scan_replicate_append, h.scans]

end ScannedAlike

namespace Segment

/-- Two segments that are the same code, or literals both. -/
def Alike (segment other : Segment) : Prop :=
  segment.isLiteral = other.isLiteral ∧ (segment.isLiteral = false → segment.text = other.text)

private theorem blanked_of_isLiteral {segment : Segment} (h : segment.isLiteral = true) :
    ∃ count, segment.blanked = List.replicate (count + 1) blank := by
  obtain ⟨opening, tail, htext, _⟩ := exists_opening h
  exact ⟨tail.length, by rw [blanked, if_pos h, htext, List.length_cons]⟩

private theorem scannedAlike_blanked {segments others : List Segment}
    (h : List.Forall₂ Alike segments others) :
    ScannedAlike (segments.flatMap blanked) (others.flatMap blanked) := by
  induction h with
  | nil => exact .refl []
  | @cons segment other segments others halike _ ih =>
      obtain ⟨hkind, htext⟩ := halike
      rw [List.flatMap_cons, List.flatMap_cons]
      cases hliteral : segment.isLiteral with
      | true =>
          obtain ⟨count, hcount⟩ := blanked_of_isLiteral hliteral
          obtain ⟨more, hmore⟩ := blanked_of_isLiteral (hkind ▸ hliteral)
          rw [hcount, hmore]
          exact ih.blanks count more
      | false =>
          rw [blanked, blanked, ← hkind, hliteral, if_neg Bool.false_ne_true,
            if_neg Bool.false_ne_true, htext hliteral]
          exact ih.append other.text

end Segment

open Segment

/-- **Literals are opaque.** Blanking them keeps the length of an expression and every byte in its
place, or puts a blank there. In an expression that is made of code without quotes and of complete
literals, exactly the literals are blanked, and every state reads the same from it, level and
names, when its literals are replaced by any others. -/
theorem literals_opaque :
    (∀ expression : Text, (stripLiterals expression).length = expression.length ∧
      ∀ (i : Nat) (byte : UInt8), (stripLiterals expression)[i]? = some byte →
        byte = blank ∨ expression[i]? = some byte) ∧
    (∀ segments : List Segment, stripLiterals (textOf segments) = segments.flatMap blanked) ∧
    ∀ segments others : List Segment, List.Forall₂ Alike segments others →
      ∀ σ : State, σ.read (textOf segments) = σ.read (textOf others) := by
  refine ⟨fun expression => ?_, stripLiterals_textOf, fun segments others halike σ => ?_⟩
  · have hbytes := blankLiterals_changes_to_blanks 0 expression
    refine ⟨hbytes.length_eq, fun i byte hbyte => ?_⟩
    obtain ⟨hi, rfl⟩ := List.getElem?_eq_some_iff.mp hbyte
    have hi' : i < expression.length := hbytes.length_eq ▸ hi
    rcases hbytes.get hi hi' with hkept | hblank
    · exact .inr (List.getElem?_eq_some_iff.mpr ⟨hi', hkept.symm⟩)
    · exact .inl hblank
  · have hscan := (scannedAlike_blanked halike).scans .outside
    rw [State.read, State.read, State.readSpan_eq_readPaths, State.readSpan_eq_readPaths,
      stripLiterals_textOf, stripLiterals_textOf]
    exact congrArg σ.readPaths hscan

/-- A call with two literals: a name and a parenthesis behind an escaped quote, and a name alone. -/
def namesInQuotes : List Segment := [
  .code "run(" (by decide),
  .escaped 0x22 (.inl rfl) "a\\\"(x" ((escapedBody_iff (by decide) (by decide)).mpr (by decide)),
  .code " + y, " (by decide),
  .escaped 0x27 (.inr rfl) "x" ((escapedBody_iff (by decide) (by decide)).mpr (by decide)),
  .code ")" (by decide)]

/-- The same call with an empty literal, and with one of another kind. -/
def otherQuotes : List Segment := [
  .code "run(" (by decide),
  .escaped 0x22 (.inl rfl) "" .nil,
  .code " + y, " (by decide),
  .raw "\"é'" (by decide),
  .code ")" (by decide)]

theorem namesInQuotes_opaque :
    textOf namesInQuotes = "run(\"a\\\"(x\" + y, 'x')" ∧
      textOf otherQuotes = "run(\"\" + y, `\"é'`)" ∧
      List.Forall₂ Alike namesInQuotes otherQuotes ∧
      let σ := (State.empty.write "x" .tainted none).write "y" .possiblyTainted none
      σ.read (textOf namesInQuotes) = σ.read (textOf otherQuotes) ∧
        (σ.read (textOf otherQuotes)).names = ["y"] := by
  have halike : List.Forall₂ Alike namesInQuotes otherQuotes := by
    refine .cons ?_ (.cons ?_ (.cons ?_ (.cons ?_ (.cons ?_ .nil)))) <;>
      exact ⟨rfl, fun h => by first | rfl | cases h⟩
  exact ⟨by decide, by decide, halike, literals_opaque.2.2 _ _ halike _, by decide +kernel⟩

end Shortfall.Taint
