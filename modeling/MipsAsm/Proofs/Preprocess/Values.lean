import MipsAsm.Proofs.Preprocess.Symbols

/-!
# Values of symbols

The value that a definition stores has every word of its raw replacement replaced by what the word
stands for above, in literals too. That is what the rewriting of code gives, as long as no word of a
literal is a symbol above (`replaceSymbols_values`); a symbol in a literal is replaced all the same
(`replaceSymbols_values_inLiteral`).
-/

namespace MipsAsm

open Run

variable {σ : Type}

/-- The symbol and the value that an event reports as stored. -/
def Event.stored? : Event → Option (Text × Text)
  | .symbolDefined symbol value => some (symbol, value)
  | _                           => none

namespace UnitLine

/-- The symbol that a line defines, and its value. -/
def stored? : UnitLine → Option (Text × Text)
  | .text _                    => none
  | .definition _ symbol value => some (symbol, value)

/-- Lines are read below some that are read already, all of them or up to a definition that cannot
be read. -/
structure ReadUpTo (above : List UnitLine) (lines : List Text) (units : List UnitLine) : Prop where
  read : ReadAllAs above (lines.take units.length) units
  stop : units.length = lines.length ∨ ∃ line site fault, lines[units.length]? = some line ∧
    definitionSite? line = some site ∧ readDefinition site.after = .error fault

variable {above units : List UnitLine} {line : Text} {lines : List Text} {unit : UnitLine}

lemma ReadUpTo.nil : ReadUpTo above [] [] := ⟨.nil, .inl rfl⟩

lemma ReadUpTo.cons (h : ReadAs above line unit) (hs : ReadUpTo (above ++ [unit]) lines units) :
    ReadUpTo above (line :: lines) (unit :: units) := by
  refine ⟨.cons h hs.read, ?_⟩
  rcases hs.stop with hlength | hfault
  · exact .inl (congrArg (· + 1) hlength)
  · exact .inr hfault

lemma ReadUpTo.fault {site : Scan.WordSite} {fault : Fault}
    (hsite : definitionSite? line = some site) (hfault : readDefinition site.after = .error fault) :
    ReadUpTo above (line :: lines) [] :=
  ⟨.nil, .inr ⟨line, site, fault, rfl, hsite, hfault⟩⟩

/-- Each line that is read is read below those before it. -/
lemma ReadAllAs.readAs {i : Nat} (h : ReadAllAs above lines units) (hi : units[i]? = some unit) :
    ∃ line, lines[i]? = some line ∧ ReadAs (above ++ units.take i) line unit := by
  induction h generalizing i with
  | nil => cases hi
  | @cons above units line lines unit' hread _ ih =>
    cases i with
    | zero =>
      cases hi
      refine ⟨line, rfl, ?_⟩
      rwa [List.take_zero, List.append_nil]
    | succ i =>
      obtain ⟨line', hline', hread'⟩ := ih hi
      refine ⟨line', hline', ?_⟩
      rwa [List.append_assoc, List.singleton_append] at hread'

/-- The lines that are read store their definitions, whether or not all lines can be read. -/
lemma readUpTo_readAll {table : SymbolTable}
    (htable : ∀ w, List.lookup w table = (values w above).getLast?) (lines : List Text) (s : σ) :
    ∃ units, ReadUpTo above lines units ∧
      reports Event.stored? (readAll table lines) s = units.filterMap stored? := by
  induction lines generalizing table above s with
  | nil => exact ⟨[], .nil, rfl⟩
  | cons line lines ih =>
    rw [readAll]
    cases hsite : definitionSite? line with
    | none =>
      obtain ⟨units, hread, hreports⟩ := ih (lookup_define_eq_getLast? htable (.text line)) s
      refine ⟨.text line :: units, .cons (by rw [ReadAs, hsite]) hread, ?_⟩
      rw [List.filterMap_cons, stored?, ← hreports]
      exact reports_bind_of_silent fun _ _ => reports_pure _
    | some site =>
      cases hraw : readDefinition site.after with
      | error fault =>
        -- the lines from here on are not read
        refine ⟨[], .fault hsite hraw, ?_⟩
        dsimp only
        rw [hraw]
        rfl
      | ok d =>
        obtain ⟨symbol, raw⟩ := d
        let value := Scan.replaceWords table.replacement raw
        obtain ⟨units, hread, hreports⟩ :=
          ih (lookup_define_eq_getLast? htable (.definition site.before symbol value)) s
        refine ⟨.definition site.before symbol value :: units, .cons ?_ hread, ?_⟩
        · rw [ReadAs, hsite]
          exact ⟨symbol, raw, hraw, by rw [← replacement_eq_meaningBelow htable]⟩
        · have hdefinition : Yields (Run.ofExcept ((readDefinition site.after).mapError fun fault =>
              ({ fault } : Diagnostic)) : Run σ Diagnostic (Text × Text)) s (symbol, raw) s :=
            yields_ofExcept.mpr ⟨mapError_eq_ok.mpr hraw, rfl⟩
          rw [List.filterMap_cons, stored?, ← hreports]
          dsimp only
          rw [reports_bind hdefinition, reports_log_bind,
            reports_bind_of_silent fun _ _ => reports_pure _]
          rfl

end UnitLine

open UnitLine in
/-- A unit is read line by line, up to a definition that cannot be read if there is one. For each
definition that is read, a value is stored: its raw replacement with all words replaced once, those
in literals too, by the last values that they have above. Where no word of a literal has a value
above, these are the words in code, and literals are kept. -/
theorem replaceSymbols_values (text : Text) (s : σ) :
    ∃ units, ReadUpTo [] text.lines units ∧
      reports Event.stored? (replaceSymbols text) s = units.filterMap stored? ∧
      ∀ i before symbol value, units[i]? = some (.definition before symbol value) →
        ∃ line site raw, text.lines[i]? = some line ∧ definitionSite? line = some site ∧
          readDefinition site.after = .ok (symbol, raw) ∧
          Scan.Rewritten (meaningBelow (units.take i)) true (raw.map (·, .code)) value ∧
          ((∀ seg ∈ Scan.segments raw, seg.context ≠ .code →
              ∀ w, .word w ∈ Scan.pieces seg.text → values w (units.take i) = []) →
            Scan.Rewritten (meaningBelow (units.take i)) true (Scan.marked raw) value) := by
  have hnone (w : Text) : List.lookup w ([] : SymbolTable) = (values w []).getLast? := rfl
  obtain ⟨units, hread, hreports⟩ := readUpTo_readAll hnone text.lines s
  refine ⟨units, hread, ?_, fun i before symbol value hi => ?_⟩
  · rw [replaceSymbols, reports_bind_of_silent, hreports]
    intro units s'
    split
    · rfl
    · rfl
  · obtain ⟨line, hline, hreadAs⟩ := hread.read.readAs hi
    rw [List.getElem?_take_of_lt (List.getElem?_eq_some_iff.mp hi).1] at hline
    rw [List.nil_append, ReadAs] at hreadAs
    cases hsite : definitionSite? line with
    | none =>
      rw [hsite] at hreadAs
      cases hreadAs
    | some site =>
      rw [hsite] at hreadAs
      obtain ⟨symbol', raw, hraw, heq⟩ := hreadAs
      cases heq
      refine ⟨line, site, raw, hline, hsite, hraw, ?_, fun hliterals => ?_⟩
      · exact Scan.rewritten_replaceWords _ true raw (.inl rfl)
      · rw [Scan.replaceWords_eq_replaceInCode]
        · exact Scan.rewritten_replaceInCode _ raw
        · intro seg hseg hx w hw
          rw [meaningBelow, hliterals seg hseg hx w hw]
          rfl

/-- A symbol in the literal that another one stands for. -/
theorem replaceSymbols_values_inLiteral :
    (UnitLine.definitionSite? ".eqv S \"N\"".toList).map Scan.WordSite.after =
      some " S \"N\"".toList ∧
    readDefinition " S \"N\"".toList = .ok (['S'], "\"N\"".toList) ∧
    reports Event.stored? (replaceSymbols ".eqv N 10\n.eqv S \"N\"".toList) () =
      [(['N'], "10".toList), (['S'], "\"10\"".toList)] ∧
    ¬ Scan.Rewritten (UnitLine.meaningBelow [.definition [] ['N'] "10".toList]) true
      (Scan.marked "\"N\"".toList) "\"10\"".toList := by
  refine ⟨by decide +kernel, by decide +kernel, by decide +kernel, fun h => ?_⟩
  have hmarked : Scan.marked "\"N\"".toList =
      [('"', .literal .double), ('N', .literal .double), ('"', .literal .double)] := by decide
  rw [hmarked] at h
  obtain ⟨u, hu, h⟩ := h.of_copy (by decide)
  obtain ⟨v, rfl, -⟩ := h.of_copy (by decide)
  -- the literal goes on with what stands for the symbol instead
  have hsecond : "\"10\"".toList[1]? = some 'N' := congrArg (·[1]?) hu
  exact absurd hsecond (by decide)

end MipsAsm
