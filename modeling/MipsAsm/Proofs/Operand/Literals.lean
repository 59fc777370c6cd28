import MipsAsm.Proofs.Operand.Rules
import MipsAsm.Proofs.Scan.Rewriting

/-!
# Literals among operands

The scanner of contexts and the lexer of operands recognise the same literals. A text that the lexer
reads is made of literals, whose bodies are closed (`Scan.ClosedBody`), and of stretches without
quotes and comment signs; the scanner sees each such literal as one segment and all else as code
(`lexOperands_literals`).
-/

namespace MipsAsm

namespace Scan

/-! ### Bodies of literals -/

/-- What may stand between two quotes: characters other than the quote, and pairs of a backslash and
a character, without line feeds. -/
inductive ClosedBody (q : Quote) : Text → Prop where
  | nil : ClosedBody q []
  | char {c : Char} {body : Text} (hquote : c ≠ q.char) (hescape : c ≠ '\\') (hline : c ≠ '\n')
      (h : ClosedBody q body) : ClosedBody q (c :: body)
  | escape {c : Char} {body : Text} (hline : c ≠ '\n') (h : ClosedBody q body) :
      ClosedBody q ('\\' :: c :: body)

lemma Quote.char_ne_newline (q : Quote) : q.char ≠ '\n' := by
  cases q <;> decide

lemma State.literal_ne_code (q : Quote) : State.literal q ≠ .code := by
  intro h
  cases h

lemma State.escaped_ne_code (q : Quote) : State.escaped q ≠ .code := by
  intro h
  cases h

namespace State

variable {q : Quote} {c : Char}

lemma contextOf_literal (hline : c ≠ '\n') : (literal q).contextOf c = .literal q := if_neg hline

lemma contextOf_escaped (hline : c ≠ '\n') : (escaped q).contextOf c = .literal q := if_neg hline

/-- A literal goes on with a character that is neither its quote nor a backslash. -/
lemma next_literal (hquote : c ≠ q.char) (hescape : c ≠ '\\') (hline : c ≠ '\n') :
    (literal q).next c = .literal q := by
  simp [next, hquote, hescape, hline]

lemma next_backslash (q : Quote) : (literal q).next '\\' = .escaped q := by
  cases q <;> rfl

lemma next_escaped (hline : c ≠ '\n') : (escaped q).next c = .literal q := if_neg hline

lemma next_close (q : Quote) : (literal q).next q.char = .code := if_pos (.inr rfl)

lemma next_open (q : Quote) : code.next q.char = .literal q := by
  cases q <;> rfl

lemma contextOf_open (q : Quote) : code.contextOf q.char = .literal q := by
  cases q <;> rfl

end State

/-- A character in a literal that does not close it joins what follows. -/
lemma consSegment_literal {s s' : State} {q : Quote} {c : Char}
    (hcontext : s.contextOf c = .literal q) (hnext : s.next c = s') (hopen : s' ≠ .code) (t : Text)
    (segs : List Segment) :
    consSegment s c (⟨.literal q, t⟩ :: segs) = ⟨.literal q, c :: t⟩ :: segs := by
  rw [consSegment, if_pos ⟨hcontext, Or.inr (hnext ▸ hopen)⟩]

/-- The quote that closes a literal ends its segment. -/
lemma consSegment_close (q : Quote) (segs : List Segment) :
    consSegment (.literal q) q.char segs = ⟨.literal q, [q.char]⟩ :: segs := by
  have hcontext := State.contextOf_literal (q := q) q.char_ne_newline
  cases segs with
  | nil => rw [consSegment, hcontext]
  | cons seg segs =>
    rw [consSegment, if_neg, hcontext]
    -- the quote belongs to the literal, and the character behind it is in code again
    rintro ⟨-, hcode | hopen⟩
    · rw [hcontext] at hcode
      cases hcode
    · exact hopen (State.next_close q)

namespace ClosedBody

variable {q : Quote} {body : Text}

/-- The rest of a literal is one segment, up to the quote that closes it. -/
lemma segmentsFrom (h : ClosedBody q body) (rest : Text) :
    Scan.segmentsFrom (.literal q) (body ++ q.char :: rest) =
      ⟨.literal q, body ++ [q.char]⟩ :: Scan.segmentsFrom .code rest := by
  induction h with
  | nil =>
    rw [List.nil_append, Scan.segmentsFrom, State.next_close, consSegment_close]
    rfl
  | @char c body hquote hescape hline _ ih =>
    have hnext := State.next_literal hquote hescape hline
    rw [List.cons_append, Scan.segmentsFrom, hnext, ih,
      consSegment_literal (State.contextOf_literal hline) hnext (State.literal_ne_code q)]
    rfl
  | @escape c body hline _ ih =>
    have hnext := State.next_escaped (q := q) hline
    have hbackslash := State.next_backslash q
    rw [List.cons_append, List.cons_append, Scan.segmentsFrom, hbackslash, Scan.segmentsFrom, hnext,
      ih, consSegment_literal (State.contextOf_escaped hline) hnext (State.literal_ne_code q),
      consSegment_literal rfl hbackslash (State.escaped_ne_code q)]
    rfl

/-- A literal is one segment. -/
lemma segmentsFrom_code (h : ClosedBody q body) (rest : Text) :
    Scan.segmentsFrom .code (q.char :: (body ++ q.char :: rest)) =
      ⟨.literal q, q.char :: (body ++ [q.char])⟩ :: Scan.segmentsFrom .code rest := by
  have hnext := State.next_open q
  rw [Scan.segmentsFrom, hnext, h.segmentsFrom,
    consSegment_literal (State.contextOf_open q) hnext (State.literal_ne_code q)]

/-- No comment begins in a literal. -/
lemma stripCommentFrom (h : ClosedBody q body) (rest : Text) :
    Scan.stripCommentFrom .code (q.char :: (body ++ q.char :: rest)) =
      q.char :: (body ++ q.char :: Scan.stripCommentFrom .code rest) := by
  have hbody : Scan.stripCommentFrom (.literal q) (body ++ q.char :: rest) =
      body ++ q.char :: Scan.stripCommentFrom .code rest := by
    induction h with
    | nil =>
      simp [Scan.stripCommentFrom, State.contextOf_literal q.char_ne_newline, State.next_close]
    | @char c body hquote hescape hline _ ih =>
      simp [Scan.stripCommentFrom, State.contextOf_literal hline,
        State.next_literal hquote hescape hline, ih]
    | @escape c body hline _ ih =>
      simp [Scan.stripCommentFrom, State.contextOf_literal, State.contextOf_escaped hline,
        State.next_backslash, State.next_escaped hline, ih]
  simp [Scan.stripCommentFrom, State.contextOf_open, State.next_open, hbody]

lemma newline_not_mem (h : ClosedBody q body) : '\n' ∉ body := by
  induction h with
  | nil => simp
  | char _ _ hline _ ih => simp [Ne.symm hline, ih]
  | escape hline _ ih => simp [Ne.symm hline, ih]

end ClosedBody

/-! ### Spans -/

/-- The places outside code, in a text that begins at an offset. -/
def literalSpans (offset : Nat) (t : Text) : List Span :=
  (spansFrom offset (segmentsFrom .code t)).filter (·.context ≠ .code)

lemma literalSpans_cons {c : Char} (hc : IsPlain c) (offset : Nat) (t : Text) :
    literalSpans offset (c :: t) = literalSpans (offset + 1) t := by
  rw [literalSpans, literalSpans, segmentsFrom, hc.next]
  cases segmentsFrom .code t with
  | nil =>
    rw [consSegment, hc.contextOf]
    rfl
  | cons seg segs =>
    rw [consSegment]
    split
    · -- the character joins the code behind it, which is no literal either way
      next h =>
      have hcode : seg.context = .code := h.1.symm.trans hc.contextOf
      rw [spansFrom, spansFrom, List.filter_cons_of_neg (by simp [hcode]),
        List.filter_cons_of_neg (by simp [hcode]), List.length_cons, Nat.add_assoc, Nat.add_comm 1]
    · -- a literal or a comment follows, and the character is a place of code by itself
      rw [spansFrom, List.filter_cons_of_neg (by simp [hc.contextOf])]
      rfl

lemma literalSpans_append {w : Text} (hw : ∀ c ∈ w, IsPlain c) (offset : Nat) (t : Text) :
    literalSpans offset (w ++ t) = literalSpans (offset + w.length) t := by
  induction w generalizing offset with
  | nil => rfl
  | cons c w ih =>
    rw [List.forall_mem_cons] at hw
    rw [List.cons_append, literalSpans_cons hw.1, ih hw.2, List.length_cons, Nat.add_assoc,
      Nat.add_comm 1]

lemma literalSpans_literal {q : Quote} {body : Text} (h : ClosedBody q body) (offset : Nat)
    (rest : Text) :
    literalSpans offset (q.char :: (body ++ q.char :: rest)) =
      ⟨.literal q, offset, offset + (body.length + 2)⟩ ::
        literalSpans (offset + (body.length + 2)) rest := by
  rw [literalSpans, h.segmentsFrom_code, spansFrom, List.filter_cons_of_pos (by simp)]
  simp [literalSpans]

end Scan

/-! ### Literals of the lexer -/

/-- The quote and the body of a literal. -/
def Operand.literal? : Operand → Option (Scan.Quote × Text)
  | .string body => some (.double, body)
  | .char body   => some (.single, body)
  | _            => none

/-- The place of a literal, its quotes included. -/
def Lexeme.literalSpan? (l : Lexeme) : Option Scan.Span :=
  l.operand.literal?.map fun (q, body) => ⟨.literal q, l.offset, l.offset + (body.length + 2)⟩

open Scan

/-- The operands that a text spells from an offset on: stretches of code and closed literals, with
blanks and commas between them. -/
inductive Spells : (offset : Nat) → Text → List Lexeme → Prop where
  | nil {offset : Nat} : Spells offset [] []
  | spacing {offset : Nat} {c : Char} {t : Text} {ls : List Lexeme} (hc : IsPlain c)
      (h : Spells (offset + 1) t ls) : Spells offset (c :: t) ls
  | plain {offset : Nat} {w t : Text} {operand : Operand} {ls : List Lexeme}
      (hw : ∀ c ∈ w, IsPlain c) (hoperand : operand.literal? = none)
      (h : Spells (offset + w.length) t ls) :
      Spells offset (w ++ t) (⟨operand, w, offset⟩ :: ls)
  | literal {offset : Nat} {q : Quote} {body t : Text} {operand : Operand} {ls : List Lexeme}
      (hbody : ClosedBody q body) (hoperand : operand.literal? = some (q, body))
      (h : Spells (offset + (body.length + 2)) t ls) :
      Spells offset (q.char :: (body ++ q.char :: t))
        (⟨operand, q.char :: (body ++ [q.char]), offset⟩ :: ls)

variable {offset : Nat} {t : Text} {ls : List Lexeme}

lemma Spells.literalSpans (h : Spells offset t ls) :
    literalSpans offset t = ls.filterMap Lexeme.literalSpan? := by
  induction h with
  | nil => rfl
  | spacing hc _ ih => rw [literalSpans_cons hc, ih]
  | plain hw hoperand _ ih =>
    rw [literalSpans_append hw, ih, List.filterMap_cons, Lexeme.literalSpan?, hoperand]
    rfl
  | literal hbody hoperand _ ih =>
    rw [literalSpans_literal hbody, ih, List.filterMap_cons, Lexeme.literalSpan?, hoperand]
    rfl

lemma Spells.exists_text (h : Spells offset t ls) {l : Lexeme} (hl : l ∈ ls) {q : Quote}
    {body : Text} (hbody : l.operand.literal? = some (q, body)) :
    ∃ before after, t = before ++ q.char :: (body ++ q.char :: after) ∧
      l.offset = offset + before.length := by
  induction h with
  | nil => cases hl
  | @spacing offset c t ls _ _ ih =>
    obtain ⟨before, after, rfl, hoffset⟩ := ih hl
    refine ⟨c :: before, after, rfl, ?_⟩
    rw [hoffset, List.length_cons]
    omega
  | @plain offset w t operand ls _ hoperand _ ih =>
    rcases List.mem_cons.mp hl with rfl | hl
    · cases hoperand.symm.trans hbody
    · obtain ⟨before, after, rfl, hoffset⟩ := ih hl
      refine ⟨w ++ before, after, (List.append_assoc _ _ _).symm, ?_⟩
      rw [hoffset, List.length_append, Nat.add_assoc]
  | @literal offset q' body' t operand ls _ hoperand _ ih =>
    rcases List.mem_cons.mp hl with rfl | hl
    · cases hoperand.symm.trans hbody
      exact ⟨[], t, rfl, rfl⟩
    · obtain ⟨before, after, rfl, hoffset⟩ := ih hl
      refine ⟨q'.char :: (body' ++ q'.char :: before), after, by simp, ?_⟩
      rw [hoffset]
      simp
      omega

/-! ### What literals are made of -/

lemma closedBody_of_stringBody? {n : Nat} (h : stringBody? t = some n) :
    ∃ body rest, t = body ++ '"' :: rest ∧ body.length = n ∧ ClosedBody .double body := by
  fun_induction stringBody? t generalizing n with
  | case1 => cases h                          -- the text ends
  | case2 t =>                                -- the closing quote
    cases h
    exact ⟨[], t, rfl, rfl, .nil⟩
  | case3 t => cases h                        -- a backslash in front of a line feed
  | case4 c t hline ih =>                     -- an escaped character
    obtain ⟨k, hk, rfl⟩ := Option.map_eq_some_iff.mp h
    obtain ⟨body, rest, rfl, rfl, hbody⟩ := ih hk
    exact ⟨'\\' :: c :: body, rest, rfl, rfl, .escape hline hbody⟩
  | case5 => cases h                          -- a line feed, or a backslash at the end
  | case6 c t hquote hescape hc ih =>         -- any other character
    rw [not_or] at hc
    obtain ⟨k, hk, rfl⟩ := Option.map_eq_some_iff.mp h
    obtain ⟨body, rest, rfl, rfl, hbody⟩ := ih hk
    exact ⟨c :: body, rest, rfl, rfl, .char hquote hc.1 hc.2 hbody⟩

lemma closedBody_of_stringExtent (h : 0 < Rule.extent .string t) :
    ∃ body rest, t = '"' :: (body ++ '"' :: rest) ∧ Rule.extent .string t = body.length + 2 ∧
      ClosedBody .double body := by
  by_cases hquote : ∃ t', t = '"' :: t'
  · obtain ⟨t, rfl⟩ := hquote
    rw [Rule.extent] at h ⊢
    cases hn : stringBody? t with
    | none =>
      rw [hn] at h
      cases h
    | some n =>
      obtain ⟨body, rest, rfl, rfl, hbody⟩ := closedBody_of_stringBody? hn
      exact ⟨body, rest, rfl, rfl, hbody⟩
  · -- without a quote in front the rule takes nothing
    rw [Rule.extent] at h
    · cases h
    · exact fun t' ht => hquote ⟨t', ht⟩

/-- What may stand between single quotes: a character, or a backslash and a character. -/
inductive CharBody : Text → Prop where
  | char {c : Char} (hquote : c ≠ '\'') (hescape : c ≠ '\\') (hline : c ≠ '\n') : CharBody [c]
  | escape {c : Char} (hline : c ≠ '\n') : CharBody ['\\', c]

lemma CharBody.closedBody {body : Text} (h : CharBody body) : ClosedBody .single body := by
  cases h with
  | char hquote hescape hline => exact .char hquote hescape hline .nil
  | escape hline => exact .escape hline .nil

lemma charBody_of_charExtent (h : 0 < charExtent t) :
    ∃ body rest, t = '\'' :: (body ++ '\'' :: rest) ∧ charExtent t = body.length + 2 ∧
      CharBody body := by
  unfold charExtent at h ⊢
  split at h
  · next c rest =>
    split at h
    · cases h
    · next hline =>
      exact ⟨['\\', c], rest, rfl, if_neg hline, .escape hline⟩
  · next c rest _ =>
    split at h
    · cases h
    · next hc =>
      rw [not_or, not_or] at hc
      exact ⟨[c], rest, rfl, by simp [hc], .char hc.1 hc.2.1 hc.2.2⟩
  · cases h

lemma stringBody?_of_closedBody {body : Text} (h : Scan.ClosedBody .double body) (rest : Text) :
    stringBody? (body ++ '"' :: rest) = some body.length := by
  induction h with
  | nil => rfl
  | @char c body hquote hescape hline _ ih =>
    rw [List.cons_append, stringBody?, if_neg (by simp [hescape, hline]), ih]
    · rfl
    · exact hquote
    · intro e u hc
      exact absurd hc hescape
  | @escape c body hline _ ih =>
    rw [List.cons_append, List.cons_append, stringBody?, if_neg hline, ih]
    rfl

/-- A closed string is taken whatever stands behind it. -/
lemma takes_string {body : Text} (h : Scan.ClosedBody .double body) (rest : Text) :
    Rule.string.Takes ('"' :: (body ++ ['"'])) rest := by
  have hlabel : Scan.isIdentifierStart '"' = false := by decide +kernel
  have hdigits (t : Text) : runLength isDigit ('"' :: t) = 0 := rfl
  have hstring := stringBody?_of_closedBody h rest
  -- the rules in front of this one take no double quote, so it is the first that takes anything
  refine ⟨?_, ?_, ?_⟩
  · rintro c ⟨⟩
    decide
  · simp [Rule.first?, Rule.all, Rule.extent, floatExtent, hlabel, hstring, hdigits]
  · simp [Rule.extent, hstring]

/-- A character between quotes is taken whatever stands behind it. -/
lemma takes_char {body : Text} (h : CharBody body) (rest : Text) :
    Rule.char.Takes ('\'' :: (body ++ ['\''])) rest := by
  have hlabel : Scan.isIdentifierStart '\'' = false := by decide +kernel
  have hdigits (t : Text) : runLength isDigit ('\'' :: t) = 0 := rfl
  have hextent : charExtent ('\'' :: (body ++ '\'' :: rest)) = body.length + 2 := by
    cases h with
    | char hquote hescape hline => simp [charExtent, hquote, hescape, hline]
    | escape hline => simp [charExtent, hline]
  refine ⟨?_, ?_, ?_⟩
  · rintro c ⟨⟩
    decide
  · simp [Rule.first?, Rule.all, Rule.extent, floatExtent, hlabel, hextent, hdigits]
  · simp [Rule.extent, hextent]

/-! ### Reading -/

lemma literalBody_literal (q : Quote) (body : Text) :
    literalBody (q.char :: (body ++ [q.char])) = body := by
  rw [literalBody, List.drop_one, List.tail_cons, List.dropLast_concat]

/-- What has the length of the literal at the beginning of a text is the literal. -/
lemma eq_literal {q : Quote} {body rest w : Text} (ht : w ++ t = q.char :: (body ++ q.char :: rest))
    (hn : w.length = body.length + 2) : w = q.char :: (body ++ [q.char]) ∧ t = rest := by
  have hsplit : w ++ t = (q.char :: (body ++ [q.char])) ++ rest := by simp [ht]
  exact List.append_inj hsplit (by simp [hn])

/-- A closed literal is spelled in front of what follows. -/
lemma Spells.of_literal {q : Quote} {body rest w : Text} {operand : Operand}
    (hbody : ClosedBody q body) (ht : w ++ t = q.char :: (body ++ q.char :: rest))
    (hn : w.length = body.length + 2) (hoperand : operand.literal? = some (q, literalBody w))
    (h : Spells (offset + w.length) t ls) :
    Spells offset (w ++ t) (⟨operand, w, offset⟩ :: ls) := by
  obtain ⟨rfl, rfl⟩ := eq_literal ht hn
  rw [literalBody_literal] at hoperand
  rw [hn] at h
  rw [ht]
  exact .literal hbody hoperand h

lemma literal?_of_map {α : Type} {f : α → Operand} (hf : ∀ a, (f a).literal? = none)
    {x : Except Failure α} {operand : Operand} (h : x.map f = .ok operand) :
    operand.literal? = none := by
  cases x with
  | error e => cases h
  | ok a =>
    cases h
    exact hf a

/-- Only the rules for literals make literals. -/
lemma Rule.literal?_eq_none {rule : Rule} {w : Text} {operand : Operand} (hstring : rule ≠ .string)
    (hchar : rule ≠ .char) (h : rule.operand w = .ok operand) : operand.literal? = none := by
  cases rule with
  | string => exact absurd rfl hstring
  | char => exact absurd rfl hchar
  | register | number => exact literal?_of_map (fun _ => rfl) h
  | float | label | leftParen | rightParen | plus | minus =>
    cases h
    rfl

/-- What a rule takes is spelled in front of what follows. -/
lemma Spells.of_takes {rule : Rule} {w : Text} {operand : Operand} (htakes : rule.Takes w t)
    (hoperand : rule.operand w = .ok operand) (h : Spells (offset + w.length) t ls) :
    Spells offset (w ++ t) (⟨operand, w, offset⟩ :: ls) := by
  -- two rules take a literal, which is closed because they take it up to its quote; all the others
  -- take no quote and no comment sign
  have hpos := Rule.extent_pos_of_first? htakes.first
  by_cases hstring : rule = .string
  · subst hstring
    cases hoperand
    obtain ⟨body, rest, ht, hn, hbody⟩ := closedBody_of_stringExtent hpos
    exact .of_literal hbody ht (htakes.extent.symm.trans hn) rfl h
  by_cases hchar : rule = .char
  · subst hchar
    cases hoperand
    obtain ⟨body, rest, ht, hn, hbody⟩ := charBody_of_charExtent hpos
    exact .of_literal hbody.closedBody ht (htakes.extent.symm.trans hn) rfl h
  · have hplain := (Rule.plainPrefix_extent hstring hchar (w ++ t)).plain
    rw [htakes.extent, List.take_left] at hplain
    exact .plain hplain (Rule.literal?_eq_none hstring hchar hoperand) h

/-- What the lexer reads is spelled. -/
lemma spells_of_lexFrom (h : lexFrom offset t = .ok ls) : Spells offset t ls := by
  replace h := lexed_of_lexFrom h
  induction h with
  | nil => exact .nil
  | @spacing _ c _ _ hc _ ih => exact .spacing (isPlain_of_isSpacing c hc) ih
  | operand htakes hoperand _ ih => exact .of_takes htakes hoperand ih

/-- Where the lexer reads a text, what the scanner takes for literals are the string and character
operands in their places, their quotes included, in the same order, and there is no comment. In the
place of such an operand its body stands between its quotes. -/
theorem lexOperands_literals (h : lexOperands t = .ok ls) :
    (spans t).filter (·.context ≠ .code) = ls.filterMap Lexeme.literalSpan? ∧
    (∀ span ∈ spans t, span.context ≠ .comment) ∧
    ∀ l ∈ ls, ∀ q body, l.operand.literal? = some (q, body) →
      ∃ before after, t = before ++ q.char :: (body ++ q.char :: after) ∧
        l.offset = before.length := by
  have hspells : Spells 0 t ls := spells_of_lexFrom h
  have hspans : (spans t).filter (·.context ≠ .code) = ls.filterMap Lexeme.literalSpan? :=
    hspells.literalSpans
  refine ⟨hspans, fun span hspan hcomment => ?_, fun l hl q body hbody => ?_⟩
  · -- a comment would be a place outside code, and these are those of literals
    have hmem : span ∈ ls.filterMap Lexeme.literalSpan? := by
      rw [← hspans, List.mem_filter]
      exact ⟨hspan, by simp [hcomment]⟩
    obtain ⟨l, -, hl⟩ := List.mem_filterMap.mp hmem
    obtain ⟨⟨q, body⟩, -, rfl⟩ := Option.map_eq_some_iff.mp hl
    cases hcomment
  · obtain ⟨before, after, ht, hoffset⟩ := hspells.exists_text hl hbody
    exact ⟨before, after, ht, hoffset.trans (Nat.zero_add _)⟩

/-- Quotes and a comment sign in literals, escaped quotes, and literals next to each other. -/
theorem lexOperands_literals_quotes :
    lexOperands "\"a'\\\"#\", '\"'\"\" x-'\\''".toList = .ok
      [⟨.string "a'\\\"#".toList, "\"a'\\\"#\"".toList, 0⟩, ⟨.char ['"'], "'\"'".toList, 9⟩,
        ⟨.string [], "\"\"".toList, 12⟩, ⟨.label ['x'], ['x'], 15⟩, ⟨.minus, ['-'], 16⟩,
        ⟨.char "\\'".toList, "'\\''".toList, 17⟩] ∧
    (spans "\"a'\\\"#\", '\"'\"\" x-'\\''".toList).filter (·.context ≠ .code) =
      [⟨.literal .double, 0, 7⟩, ⟨.literal .single, 9, 12⟩, ⟨.literal .double, 12, 14⟩,
        ⟨.literal .single, 17, 21⟩] := by
  have h : lexOperands "\"a'\\\"#\", '\"'\"\" x-'\\''".toList = .ok
      [⟨.string "a'\\\"#".toList, "\"a'\\\"#\"".toList, 0⟩, ⟨.char ['"'], "'\"'".toList, 9⟩,
        ⟨.string [], "\"\"".toList, 12⟩, ⟨.label ['x'], ['x'], 15⟩, ⟨.minus, ['-'], 16⟩,
        ⟨.char "\\'".toList, "'\\''".toList, 17⟩] := by
    decide +kernel
  exact ⟨h, (lexOperands_literals h).1⟩

end MipsAsm
