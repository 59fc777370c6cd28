import MipsAsm.Proofs.Assembly
import MipsAsm.Proofs.Operand.Literals
import MipsAsm.Proofs.Preprocess.Untouched
import MipsAsm.Proofs.Token.Statement

/-!
# Strings

A text is written as a string literal by escaping backslashes, double quotes and line feeds. Every
stage sees such a literal as one: the search for directives passes it over, it holds no comment, the
lexer takes it as one operand, and its escapes give the text back. So string directives lay out the
texts that their literals were written for, whatever is in them (`assemble_strings`).
-/

namespace MipsAsm

/-! ### Literals for texts -/

/-- A character between double quotes. -/
def escapeChar : Char → Text
  | '\\' => ['\\', '\\']
  | '"'  => ['\\', '"']
  | '\n' => ['\\', 'n']
  | c    => [c]

/-- What is written between the quotes for a text. -/
def escapes (t : Text) : Text := t.flatMap escapeChar

/-- The string literal for a text. -/
def literal (t : Text) : Text := '"' :: (escapes t ++ ['"'])

/-- Literals that follow another one: a comma and a blank in front of each. -/
def furtherLiterals (ts : List Text) : Text := ts.flatMap fun t => ',' :: ' ' :: literal t

/-- A character is escaped, or stands for itself. -/
lemma escapeChar_cases (c : Char) :
    (∃ e, escapeChar c = ['\\', e] ∧ escapeValue? e = some c ∧ e ≠ '\n') ∨
      (c ≠ '"' ∧ c ≠ '\\' ∧ c ≠ '\n' ∧ escapeChar c = [c]) := by
  unfold escapeChar
  split
  · exact .inl ⟨'\\', rfl, rfl, by decide⟩
  · exact .inl ⟨'"', rfl, rfl, by decide⟩
  · exact .inl ⟨'n', rfl, rfl, by decide⟩
  · simp_all

lemma escapes_cons (c : Char) (t : Text) : escapes (c :: t) = escapeChar c ++ escapes t :=
  List.flatMap_cons

lemma furtherLiterals_cons (t : Text) (ts : List Text) :
    furtherLiterals (t :: ts) = ',' :: ' ' :: (literal t ++ furtherLiterals ts) := by
  simp [furtherLiterals]

lemma joined_literals (t : Text) (ts : List Text) :
    Text.joined ", ".toList ((t :: ts).map literal) = literal t ++ furtherLiterals ts := by
  induction ts generalizing t with
  | nil => simp [furtherLiterals, Text.joined]
  | cons u us ih =>
    have := ih u
    simp_all [Text.joined, furtherLiterals_cons]

/-- What stands between the quotes is closed. -/
lemma closedBody_escapes (t : Text) : Scan.ClosedBody .double (escapes t) := by
  induction t with
  | nil => exact .nil
  | cons c t ih =>
    rw [escapes_cons]
    rcases escapeChar_cases c with ⟨e, h, -, hline⟩ | ⟨hquote, hbackslash, hline, h⟩
    · -- a backslash and what it escapes
      rw [h]
      exact .escape hline ih
    · rw [h]
      exact .char hquote hbackslash hline ih

/-- The escapes stand for the text. -/
lemma decodeEscapes_escapes (t : Text) : decodeEscapes (escapes t) = .ok t := by
  induction t with
  | nil => rfl
  | cons c t ih =>
    rw [escapes_cons]
    rcases escapeChar_cases c with ⟨e, h, he, -⟩ | ⟨-, hbackslash, -, h⟩
    · rw [h]
      simp [decodeEscapes, he, ih, Except.map]
    · -- no backslash, so the character is decoded as it is
      rw [h, List.singleton_append, decodeEscapes, ih]
      · rfl
      · rintro rfl
        exact absurd rfl hbackslash
      · rintro e u rfl
        exact absurd rfl hbackslash

lemma mapM_decodeEscapes (ts : List Text) : (ts.map escapes).mapM decodeEscapes = .ok ts := by
  induction ts with
  | nil => rfl
  | cons t ts ih =>
    rw [List.map_cons, List.mapM_cons, decodeEscapes_escapes, ih]
    rfl

/-! ### Scanning -/

namespace Scan

variable {p : Text → Bool} {q : Quote} {body rest t : Text}

/-- Nothing in a literal is a word. -/
lemma ClosedBody.findFrom?_eq_none (h : ClosedBody q body) (hrest : findFrom? p .code rest = none) :
    findFrom? p .code (q.char :: (body ++ q.char :: rest)) = none := by
  have hquote : isSeparator q.char := by cases q <;> rfl
  have hskip {s : State} {c : Char} {t : Text} (hc : isSeparator c ∨ s.contextOf c ≠ .code)
      (ht : findFrom? p (s.next c) t = none) : findFrom? p s (c :: t) = none := by
    rw [findFrom?_cons hc, ht]
    rfl
  apply hskip (.inl hquote)
  rw [State.next_open]
  induction h with
  | nil =>
    -- the quote that closes the literal
    apply hskip (.inl hquote)
    rw [State.next_close]
    exact hrest
  | @char c body hne hescape hline _ ih =>
    apply hskip (.inr (by simp [State.contextOf_literal hline]))
    rw [State.next_literal hne hescape hline]
    exact ih
  | @escape c body hline _ ih =>
    apply hskip (.inr (by simp [State.contextOf_literal]))
    -- two characters are passed over: the backslash and the one that it escapes
    rw [State.next_backslash]
    apply hskip (.inr (by simp [State.contextOf_escaped hline]))
    rw [State.next_escaped hline]
    exact ih

/-- Where no word is accepted, none is found. -/
lemma findFrom?_eq_none {s : State} {fresh : Bool} (hp : ∀ w, ¬ p w) (h : Reading s fresh t) :
    findFrom? p s t = none := by
  induction h with
  | nil => rfl
  | char hc _ ih =>
    rw [findFrom?_cons hc, ih]
    rfl
  | @word w t hne hw hend _ ih =>
    rw [findFrom?_word hne hw hend, if_neg (hp w), ih]
    rfl

end Scan

lemma findFrom?_literal {p : Text → Bool} {rest : Text} (t : Text)
    (h : Scan.findFrom? p .code rest = none) :
    Scan.findFrom? p .code (literal t ++ rest) = none := by
  have := (closedBody_escapes t).findFrom?_eq_none h
  simpa [literal, Scan.Quote.char] using this

lemma findFrom?_furtherLiterals (p : Text → Bool) (ts : List Text) :
    Scan.findFrom? p .code (furtherLiterals ts) = none := by
  induction ts with
  | nil => rfl
  | cons t ts ih =>
    have hcode : (Scan.State.code.next ',').next ' ' = .code := rfl
    rw [furtherLiterals_cons, Scan.findFrom?_cons (.inl rfl), Scan.findFrom?_cons (.inl rfl), hcode,
      findFrom?_literal t ih]
    rfl

lemma stripCommentFrom_literal (t rest : Text) :
    Scan.stripCommentFrom .code (literal t ++ rest) =
      literal t ++ Scan.stripCommentFrom .code rest := by
  have := (closedBody_escapes t).stripCommentFrom rest
  simpa [literal, Scan.Quote.char] using this

lemma stripCommentFrom_furtherLiterals (ts : List Text) :
    Scan.stripCommentFrom .code (furtherLiterals ts) = furtherLiterals ts := by
  induction ts with
  | nil => rfl
  | cons t ts ih =>
    have hcode (u : Text) : Scan.stripCommentFrom .code (',' :: ' ' :: u) =
        ',' :: ' ' :: Scan.stripCommentFrom .code u := rfl
    rw [furtherLiterals_cons, hcode, stripCommentFrom_literal, ih]

lemma newline_not_mem_literal (t : Text) : '\n' ∉ literal t := by
  simp [literal, (closedBody_escapes t).newline_not_mem]

lemma newline_not_mem_furtherLiterals (ts : List Text) : '\n' ∉ furtherLiterals ts := by
  induction ts with
  | nil => simp [furtherLiterals]
  | cons t ts ih => simp [furtherLiterals_cons, newline_not_mem_literal, ih]

/-! ### Operands -/

lemma takes_literal (t rest : Text) : Rule.string.Takes (literal t) rest :=
  takes_string (closedBody_escapes t) rest

/-- A literal is one operand. -/
lemma lexed_literal {offset : Nat} {rest : Text} {ls : List Lexeme} (t : Text)
    (h : Lexed (offset + (literal t).length) rest ls) :
    Lexed offset (literal t ++ rest) (⟨.string (escapes t), literal t, offset⟩ :: ls) := by
  refine .operand (takes_literal t rest) ?_ h
  exact congrArg (Except.ok ∘ Operand.string) (literalBody_literal .double (escapes t))

lemma exists_lexed_furtherLiterals (offset : Nat) (ts : List Text) :
    ∃ ls, Lexed offset (furtherLiterals ts) ls ∧
      ls.map Lexeme.operand = ts.map fun t => .string (escapes t) := by
  induction ts generalizing offset with
  | nil => exact ⟨[], .nil, rfl⟩
  | cons t ts ih =>
    obtain ⟨ls, hls, hoperands⟩ := ih (offset + 1 + 1 + (literal t).length)
    rw [furtherLiterals_cons]
    exact ⟨_, .spacing rfl (.spacing rfl (lexed_literal t hls)), by simp [hoperands]⟩

/-- What stands behind the word of a string directive gives its strings as operands. -/
lemma operands_literals (t : Text) (ts : List Text) :
    operands (' ' :: (literal t ++ furtherLiterals ts)) =
      .ok ((t :: ts).map fun t => .string (escapes t)) := by
  obtain ⟨ls, hls, hoperands⟩ := exists_lexed_furtherLiterals (0 + 1 + (literal t).length) ts
  have hlexed := Lexed.spacing (c := ' ') rfl (lexed_literal t hls)
  rw [operands, lexOperands, lexFrom_eq_ok_iff.mpr hlexed]
  simp [Except.map, hoperands]

lemma stringBodies?_map (bodies : List Text) :
    stringBodies? (bodies.map .string) = some bodies := by
  induction bodies with
  | nil => rfl
  | cons body bodies ih => simp [stringBodies?, ih]

/-- The directive that lays out texts. -/
def stringsDirective (d : Directive) (ts : List Text) : Statement :=
  .directive d (ts.map .text) (ts.flatMap (stringData d))

lemma stringStatement_literals (d : Directive) (t : Text) (ts : List Text) :
    stringStatement d (' ' :: (literal t ++ furtherLiterals ts)) =
      .ok [stringsDirective d (t :: ts)] := by
  have hbodies : stringBodies? ((t :: ts).map fun t => .string (escapes t)) =
      some ((t :: ts).map escapes) := by
    rw [← stringBodies?_map, List.map_map]
    rfl
  have hdecode := mapM_decodeEscapes (t :: ts)
  rw [List.map_cons] at hbodies hdecode
  rw [stringStatement, operands_literals]
  simp only [bind, Except.bind, List.map_cons, hbodies, hdecode]
  rfl

/-! ### Lines -/

namespace Lexer

open Scan

/-- A line with a directive is read as the statements that the directive yields. -/
lemma readText_directive {line : Text} {d : Directive} {ss : List Statement} (hline : '\n' ∉ line)
    (hdot : line.head? = some '.') (hword : Directive.ofWord? (firstWord line) = some d)
    (hss : d.statements (operandText (afterWord line)) = .ok ss) :
    (readText line).result = .ok () ∧
    (readText line).state.tokens.toList = ss.map (Token.mk 1) := by
  have hstart : At [] line #[] (ofText line) := ⟨rfl, rfl, rfl, rfl⟩
  obtain ⟨l, hcontinues, hend⟩ := continues_directive hdot hline hword hss hstart
  obtain ⟨hresult, htokens⟩ := hcontinues.ends hend
  refine ⟨hresult, ?_⟩
  rw [readText, htokens, Array.empty_append]
  rfl

end Lexer

/-! ### String directives -/

/-- The spelling of a directive is one word. -/
lemma not_isSeparator_of_mem_dotted {d : Directive} : ∀ c ∈ d.dotted, ¬ Scan.isSeparator c := by
  have hall : (d.dotted.all fun c => !Scan.isSeparator c) = true := by cases d <;> decide
  simpa using hall

section

variable {d : Directive} (hd : d = .ascii ∨ d = .asciiz) (t : Text) (ts : List Text)
include hd

/-- The line of a string directive has no other directive, whatever is in its strings. -/
lemma findDirective?_strings :
    findDirective? (d.dotted ++ ' ' :: (literal t ++ furtherLiterals ts)) = none := by
  have hne : d.dotted ≠ [] := List.cons_ne_nil _ _
  have hword := not_isSeparator_of_mem_dotted (d := d)
  have hnot : ¬ spellsDirective d.dotted := by rcases hd with rfl | rfl <;> decide
  have hcode : Scan.State.code.next ' ' = .code := rfl
  have hliterals := findFrom?_literal t (findFrom?_furtherLiterals spellsDirective ts)
  rw [findDirective?_eq_findFrom?, Scan.findFrom?_word hne hword rfl, if_neg hnot,
    Scan.findFrom?_cons (.inl rfl), hcode, hliterals]
  rfl

lemma newline_not_mem_strings :
    '\n' ∉ d.dotted ++ ' ' :: (literal t ++ furtherLiterals ts) := by
  have hword : '\n' ∉ d.dotted := by rcases hd with rfl | rfl <;> decide
  simp [hword, newline_not_mem_literal, newline_not_mem_furtherLiterals]

/-- The line of a string directive is one token: the directive with its texts. -/
lemma tokenize_strings :
    tokenize (d.dotted ++ ' ' :: (literal t ++ furtherLiterals ts)) =
      .ok [⟨1, stringsDirective d (t :: ts)⟩] := by
  -- the blank ends the word of the directive
  have hspace : ∀ c ∈ (' ' :: (literal t ++ furtherLiterals ts)).head?, Scan.isSeparator c := by
    rintro c ⟨⟩
    rfl
  have hfirst := Scan.firstWord_word (not_isSeparator_of_mem_dotted (d := d)) hspace
  have hafter := Scan.afterWord_word (not_isSeparator_of_mem_dotted (d := d)) hspace
  have hoperands : Lexer.operandText (' ' :: (literal t ++ furtherLiterals ts)) =
      ' ' :: (literal t ++ furtherLiterals ts) := by
    have hline : '\n' ∉ ' ' :: (literal t ++ furtherLiterals ts) := by
      simp [newline_not_mem_literal, newline_not_mem_furtherLiterals]
    have hcode (u : Text) : Scan.stripCommentFrom .code (' ' :: u) =
        ' ' :: Scan.stripCommentFrom .code u := rfl
    rw [Lexer.operandText, Scan.restOfLine_eq_self hline, Scan.stripComment, hcode,
      stripCommentFrom_literal, stripCommentFrom_furtherLiterals]
  have hstatements : d.statements (' ' :: (literal t ++ furtherLiterals ts)) =
      .ok [stringsDirective d (t :: ts)] := by
    rw [← stringStatement_literals]
    rcases hd with rfl | rfl <;> rfl
  rw [← hoperands, ← hafter] at hstatements
  have hread := Lexer.readText_directive (newline_not_mem_strings hd t ts) rfl
    (by rw [hfirst]; exact Directive.ofWord?_dotted d) hstatements
  rw [Lexer.tokenize_eq_ok_iff, hread.2]
  exact ⟨hread.1, rfl⟩

lemma result_assemble_strings {settings : Settings} (hdepth : 0 ≤ settings.maxDepth) :
    ((assemble settings (d.dotted ++ ' ' :: (literal t ++ furtherLiterals ts))).run {}).result =
      .ok [⟨1, stringsDirective d (t :: ts)⟩] := by
  have huntouched : Untouched [] (d.dotted ++ ' ' :: (literal t ++ furtherLiterals ts)) := by
    constructor
    · rw [Text.lines_eq_singleton (newline_not_mem_strings hd t ts), List.forall_mem_singleton]
      exact findDirective?_strings hd t ts
    · intro line _
      exact Scan.findFrom?_eq_none (fun w => by simp [MacroTable.find?]) (Scan.reading_code line)
  have hprocess := Session.yields_process_of_untouched (s := {}) hdepth huntouched
  rw [result_assemble hprocess.1, tokenize_strings hd]

end

/-- String directives lay out the texts that their literals were written for, in UTF-8, and each
with a zero byte behind it if the directive asks for that. There is one such token, and nothing in
the texts matters to any stage. -/
theorem assemble_strings (files : Files) (source : Option Path) (libs : List Path)
    (encoding : Codec) (t : Text) (ts : List Text) :
    ((assemble { files, source, libs, encoding }
        (".asciiz ".toList ++ Text.joined ", ".toList ((t :: ts).map literal))).run {}).result =
      .ok [⟨1, .directive .asciiz ((t :: ts).map .text)
        ((t :: ts).flatMap fun u => Utf8.encode u ++ [0])⟩] ∧
    ((assemble { files, source, libs, encoding }
        (".ascii ".toList ++ Text.joined ", ".toList ((t :: ts).map literal))).run {}).result =
      .ok [⟨1, .directive .ascii ((t :: ts).map .text) ((t :: ts).flatMap Utf8.encode)⟩] := by
  have hdepth : (0 : Int) ≤ 16 := by decide
  have hdata : stringData .ascii = Utf8.encode := by
    funext u
    simp [stringData]
  rw [joined_literals]
  constructor
  · exact result_assemble_strings (.inr rfl) t ts hdepth
  · rw [← hdata]
    exact result_assemble_strings (.inl rfl) t ts hdepth

end MipsAsm
