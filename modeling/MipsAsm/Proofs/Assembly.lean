import MipsAsm.Assembly
import MipsAsm.Proofs.Preprocess.Placement
import MipsAsm.Proofs.Token.Origin

/-!
# From source lines to tokens

The number of a line survives preprocessing where every macro call and every included file stands
for one line, so that what the lexer tells about a line is told about that line of the source
(`assemble_lines`).
-/

namespace MipsAsm

open Run Expansion

/-- What is preprocessed is read by the lexer. -/
lemma result_assemble {settings : Settings} {text out : Text} {s : Session}
    (h : ((Session.process settings text).run s).result = .ok out) :
    ((assemble settings text).run s).result = tokenize out := by
  have hprocess : (((Session.process settings text).mapError Failure.diagnosed).run s).result =
      .ok out := by
    rw [result_mapError, h]
    rfl
  rw [assemble, result_bind_of_ok hprocess, result_bind_of_ok rfl, result_bind, result_embed]
  have htokens : (Lexer.tokens?.run (Lexer.ofText out)).result = tokenize out := rfl
  rw [htokens]
  cases tokenize out <;> rfl

/-- If every macro call of a text and every file that it includes stands for one line, preprocessing
leaves the lines of the text in their places: it gives as many lines, the lines that a block takes
become what the block becomes, and then the symbols are replaced line by line, where an empty line
stays empty. So a token on a line is one of that line, and a diagnosed failure on a line is a
failure of that line alone, or a label on that line whose name is taken. -/
theorem assemble_lines {settings : Settings} {text out : Text} {s : Session}
    (hout : ((Session.process settings text).run s).result = .ok out)
    (hone : ∀ r m, Visit.Asks settings settings.levels ⟨settings.outermost, text, s.macros⟩ r m →
      r.GivesOneLine settings (processText settings (settings.levels - 1)) settings.outermost m) :
    out.lines.length = text.lines.length ∧
    (∃ (expanded : List Text) (units : List UnitLine),
      Placed settings (processText settings (settings.levels - 1)) settings.outermost text s.macros
        expanded ∧
      UnitLine.ReadAllAs [] expanded units ∧
      (∀ i, out.lines[i]? = units[i]?.map fun unit =>
        Scan.replaceInCode (UnitLine.meaning units i) unit.kept) ∧
      ∀ i : Nat, expanded[i]? = some [] → out.lines[i]? = some []) ∧
    (∀ ts, ((assemble settings text).run s).result = .ok ts → ∀ tok ∈ ts,
      ∃ i line, out.lines[i]? = some line ∧
        ∃ alone ∈ (Lexer.readText line).state.tokens.toList,
          tok = (alone.onLine (i + 1)).resolve (Lexer.lineTokens out)) ∧
    ∀ d, ((assemble settings text).run s).result = .error (.diagnosed d) →
      ∃ i line, out.lines[i]? = some line ∧ d.location = .line (i + 1) ∧
        ((∃ e, (Lexer.readText line).result = .error (.diagnosed e) ∧ d.fault = e.fault) ∨
          ∃ name, d.fault = .duplicateLabel name ∧
            ∃ tok ∈ (Lexer.readText line).state.tokens.toList, tok.statement = .label name) := by
  obtain ⟨unit, m, symbols, s₁, s₂, hexpand, hreplace⟩ := Session.unit_of_process hout
  have hplaced := Visit.placed hone hexpand
  obtain ⟨units, hread, hlength, hlines⟩ := UnitLine.lines_of_replaceSymbols hreplace
  rw [result_assemble hout]
  refine ⟨hlength.trans hplaced.length_eq, ⟨unit.lines, units, hplaced, hread, hlines, ?_⟩,
    fun ts hts tok => Lexer.tokenize_ok hts, fun d => Lexer.tokenize_diagnosed⟩
  intro i hi
  rw [hlines, hread.getElem?_of_nil hi]
  rfl

/-- A macro definition with text in front of it and behind it, a symbol, and a call. -/
def aroundMacro : Text := "x:.macro m(%r)\nli %r, N\n.end_macro y:\n.eqv N 4\nm($t0)".toList

/-- The macro that `aroundMacro` defines. -/
def loadMacro : Macro := ⟨['m'], ["%r".toList], "li %r, N".toList, 1⟩

lemma givesOneLine_aroundMacro (r : Request) (m : MacroTable)
    (hvisit : Visit.Asks (Session.withoutFiles 16) 17 ⟨⟨none, []⟩, aroundMacro, []⟩ r m) :
    r.GivesOneLine (Session.withoutFiles 16) (processText (Session.withoutFiles 16) 16) ⟨none, []⟩
      m := by
  have hblocks : Block.ofText aroundMacro =
      [(1, .definition ⟨"x:".toList, ".macro".toList, " m(%r)".toList⟩
          (some ⟨["li %r, N".toList], ⟨[], ".end_macro".toList, " y:".toList⟩⟩)),
        (4, .directive (some .eqv) ⟨[], ".eqv".toList, " N 4".toList⟩),
        (5, .plain "m($t0)".toList)] := by
    decide +kernel
  have hcall (t : Text) (ht : LineCalls [loadMacro] "m($t0)".toList t) :
      t = "li $t0, N".toList := by
    obtain ⟨site, m, arguments, hsite, hm, harguments, rfl⟩ := ht
    have hsite' : Scan.findInCode? (fun w => (MacroTable.find? [loadMacro] w).isSome)
        "m($t0)".toList = some ⟨[], ['m'], "($t0)".toList⟩ := by
      decide +kernel
    cases hsite'.symm.trans hsite
    obtain rfl : loadMacro = m := Option.some.inj hm
    have harguments' : callArguments loadMacro "($t0)".toList = .ok ["$t0".toList] := by
      decide +kernel
    cases harguments'.symm.trans harguments
    decide +kernel
  have hasks : BlocksAsk _ _ _ _ (Block.ofText aroundMacro) _ _ := hvisit
  rw [hblocks] at hasks
  cases hasks with
  | here h =>
    cases h with
    | beforeDefinition h => exact absurd h (not_lineCalls (by decide +kernel))
    | @afterDefinition _ _ m b before t s₁ hbefore hread h =>
      have hmacro : readMacro 1 " m(%r)".toList
          (some ⟨["li %r, N".toList], ⟨[], ".end_macro".toList, " y:".toList⟩⟩) =
            .ok (loadMacro, ⟨["li %r, N".toList], ⟨[], ".end_macro".toList, " y:".toList⟩⟩) := by
        decide +kernel
      cases hmacro.symm.trans hread
      rcases yields_expandLine hbefore with ⟨-, -, rfl⟩ | ⟨_, _, _, _, hcalls, -⟩
      · exact absurd h (not_lineCalls (by decide +kernel))
      · exact absurd hcalls (not_lineCalls (by decide +kernel))
  | later hb hlater =>
    obtain rfl : [loadMacro] = _ := Eq.trans (by decide +kernel) hb.2
    cases hlater with
    | here h =>
      cases h with
      | before h => exact absurd h (not_lineCalls (by decide +kernel))
    | later hb hlater =>
      obtain rfl : [loadMacro] = _ := Eq.trans (by decide +kernel) hb.2
      cases hlater with
      | later _ h => cases h
      | here h =>
        cases h with
        | plain h =>
          rintro w out m' ⟨⟩ ⟨hout, -⟩
          obtain rfl := hcall _ h
          have hline : ((processText (Session.withoutFiles 16) 16 ⟨none, []⟩
              "li $t0, N".toList).run [loadMacro]).result = .ok "li $t0, N".toList := by
            decide +kernel
          cases hline.symm.trans hout
          decide +kernel

theorem assemble_lines_aroundMacro :
    ((Session.process (Session.withoutFiles 16) aroundMacro).run {}).result =
      .ok "x:\n\n y:\n\nli $t0, 4".toList ∧
    ∀ ts, ((assemble (Session.withoutFiles 16) aroundMacro).run {}).result = .ok ts → ∀ tok ∈ ts,
      ∃ i line, (Text.lines "x:\n\n y:\n\nli $t0, 4".toList)[i]? = some line ∧
        ∃ alone ∈ (Lexer.readText line).state.tokens.toList, tok =
          (alone.onLine (i + 1)).resolve (Lexer.lineTokens "x:\n\n y:\n\nli $t0, 4".toList) := by
  have hout : ((Session.process (Session.withoutFiles 16) aroundMacro).run {}).result =
      .ok "x:\n\n y:\n\nli $t0, 4".toList := by
    decide +kernel
  exact ⟨hout, (assemble_lines hout givesOneLine_aroundMacro).2.2.1⟩

end MipsAsm
