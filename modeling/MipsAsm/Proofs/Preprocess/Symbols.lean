import MipsAsm.Preprocess.Symbol
import MipsAsm.Proofs.Journal.Run
import MipsAsm.Proofs.Scan.Keyword
import MipsAsm.Proofs.Scan.Line
import MipsAsm.Proofs.Scan.Rewriting
import MipsAsm.Proofs.Text.Lines
import MipsAsm.Proofs.Text.Trim

/-!
# What symbols stand for

On a line of a unit a symbol stands for the value that the last definition above the line gives it,
or else for the first value that it has in the unit (`UnitLine.meaning`). The value of a definition
is what it says, with the symbols that are defined above it replaced (`UnitLine.ReadAs`).

`replaceSymbols_rewrites` says that a unit whose definitions can be read becomes, line by line, the
unit without definitions in which each word of code is replaced by its meaning on its line.
-/

namespace MipsAsm

variable {σ : Type}

/-! ### Definitions -/

/-- The replacement of a symbol is part of what follows its directive. -/
lemma replacement_subset_of_readDefinition {rest symbol raw : Text}
    (h : readDefinition rest = .ok (symbol, raw)) : raw ⊆ rest := by
  rw [readDefinition] at h
  split at h
  · cases h
  · split at h
    · cases h
    · cases h
      calc (Scan.afterWord (Scan.stripComment rest).trim).trim
        _ ⊆ Scan.afterWord (Scan.stripComment rest).trim := Text.trim_subset _
        _ ⊆ (Scan.stripComment rest).trim := List.dropWhile_subset _
        _ ⊆ Scan.stripComment rest := Text.trim_subset _
        _ ⊆ rest := (Scan.isPrefix_stripComment rest).subset

/-! ### Tables -/

namespace SymbolTable

variable {table : SymbolTable} {w : Text}

lemma lookup_filter_ne {s : Text} (h : w ≠ s) :
    List.lookup w (List.filter (·.1 ≠ s) table) = List.lookup w table := by
  induction table with
  | nil => rfl
  | cons p table ih =>
    obtain ⟨s', r⟩ := p
    by_cases hs : s' = s
    · rw [List.filter_cons_of_neg (by simp [hs]), ih, List.lookup_cons, hs, beq_false_of_ne h]
    · rw [List.filter_cons_of_pos (by simp [hs]), List.lookup_cons, List.lookup_cons, ih]

lemma lookup_insert (s r : Text) :
    List.lookup w (table.insert s r) = if s = w then some r else List.lookup w table := by
  rw [insert, List.lookup_cons]
  by_cases h : s = w
  · rw [if_pos h, h, beq_self_eq_true]
  · rw [if_neg h, beq_false_of_ne (Ne.symm h), lookup_filter_ne (Ne.symm h)]

lemma lookup_insertIfNew (s r : Text) :
    List.lookup w (table.insertIfNew s r) =
      (List.lookup w table).or (if s = w then some r else none) := by
  rw [insertIfNew]
  by_cases h : s = w
  · subst h
    -- an earlier value of the symbol stays, and only without one is the new value seen
    rcases hs : List.lookup s table with _ | v
    · rw [if_neg (by simp), List.lookup_cons, beq_self_eq_true, if_pos rfl]
      rfl
    · rw [if_pos (by simp), hs, if_pos rfl]
      rfl
  · rw [if_neg h, Option.or_none]
    split
    · rfl
    · rw [List.lookup_cons, beq_false_of_ne (Ne.symm h)]

end SymbolTable

/-! ### Values and meanings -/

namespace UnitLine

/-- The value that a line gives to a symbol. -/
def value? (w : Text) : UnitLine → Option Text
  | .text _           => none
  | .definition _ s r => if s = w then some r else none

/-- The values that lines give to a symbol, in order. -/
def values (w : Text) (lines : List UnitLine) : List Text := lines.filterMap (value? w)

/-- What a word stands for below some lines. -/
def meaningBelow (above : List UnitLine) (w : Text) : Text := ((values w above).getLast?).getD w

/-- What a word stands for on a line of a unit: the last value that it has above the line, or else
the first that it has in the unit. A word that has no value stands for itself. -/
def meaning (lines : List UnitLine) (i : Nat) (w : Text) : Text :=
  ((values w (lines.take i)).getLast?.or (values w lines).head?).getD w

/-- The text of a line that is not part of a definition. -/
def kept : UnitLine → Text
  | .text line             => line
  | .definition before _ _ => before

/-- The line below some lines that are read already is read as text if its first directive is no
definition. Otherwise what is in front of the directive is kept, and the symbol gets the value that
is written there, with the words in it replaced by what they stand for above. -/
def ReadAs (above : List UnitLine) (line : Text) (read : UnitLine) : Prop :=
  match definitionSite? line with
  | none      => read = .text line
  | some site => ∃ symbol raw, readDefinition site.after = .ok (symbol, raw) ∧
      read = .definition site.before symbol (Scan.replaceWords (meaningBelow above) raw)

/-- The table with what a line defines. -/
def define (table : SymbolTable) : UnitLine → SymbolTable
  | .text _           => table
  | .definition _ s r => table.insert s r

lemma lookup_define (table : SymbolTable) (line : UnitLine) (w : Text) :
    List.lookup w (define table line) = (value? w line).or (List.lookup w table) := by
  cases line with
  | text line => rfl
  | definition before s r =>
    rw [define, SymbolTable.lookup_insert, value?]
    split <;> rfl

lemma lookup_foldl_define (table : SymbolTable) (lines : List UnitLine) (w : Text) :
    List.lookup w (lines.foldl define table) =
      (values w lines).getLast?.or (List.lookup w table) := by
  induction lines generalizing table with
  | nil => rfl
  | cons line lines ih =>
    rw [List.foldl_cons, ih, lookup_define, values, values, List.filterMap_cons]
    cases value? w line with
    | none => rfl
    | some v =>
      rw [List.getLast?_cons]
      cases (lines.filterMap (value? w)).getLast? <;> rfl

lemma lookup_firstSymbols (lines : List UnitLine) (w : Text) :
    List.lookup w (firstSymbols lines) = (values w lines).head? := by
  -- the table that is passed on grows, so the lines are followed from any table
  suffices h : ∀ table : SymbolTable, List.lookup w (lines.foldl (fun table line =>
      match line with
      | .text _            => table
      | .definition _ s r  => SymbolTable.insertIfNew table s r) table) =
        (List.lookup w table).or (values w lines).head? from h []
  induction lines with
  | nil => intro table; exact Option.or_none.symm
  | cons line lines ih =>
    intro table
    rw [List.foldl_cons, ih, values, values, List.filterMap_cons]
    cases line with
    | text line => rfl
    | definition before s r =>
      rw [SymbolTable.lookup_insertIfNew, Option.or_assoc, value?]
      split <;> rfl

/-! ### Replacing -/

lemma replacement_foldl_define (lines : List UnitLine) (i : Nat) :
    SymbolTable.replacement ((lines.take i).foldl define (firstSymbols lines)) =
      meaning lines i := by
  funext w
  rw [SymbolTable.replacement, lookup_foldl_define, lookup_firstSymbols, meaning]

lemma length_replaceAll (table : SymbolTable) (lines : List UnitLine) :
    (replaceAll table lines).1.length = lines.length := by
  induction lines generalizing table with
  | nil => rfl
  | cons line lines ih => cases line <;> simp [replaceAll, ih]

lemma replaceAll_getElem? (table : SymbolTable) (lines : List UnitLine) (i : Nat) :
    (replaceAll table lines).1[i]? = lines[i]?.map fun line =>
      Scan.replaceInCode ((lines.take i).foldl define table).replacement line.kept := by
  induction lines generalizing table i with
  | nil => rfl
  | cons line lines ih =>
    cases i with
    | zero => cases line <;> rfl
    | succ i => cases line <;> exact ih _ i

lemma replaceAll_snd (table : SymbolTable) (lines : List UnitLine) :
    (replaceAll table lines).2 = lines.foldl define table := by
  induction lines generalizing table with
  | nil => rfl
  | cons line lines ih => cases line <;> exact ih _

/-! ### Reading -/

lemma replacement_eq_meaningBelow {table : SymbolTable} {above : List UnitLine}
    (h : ∀ w, List.lookup w table = (values w above).getLast?) :
    table.replacement = meaningBelow above := by
  funext w
  rw [SymbolTable.replacement, h, meaningBelow]

/-- Lines that are read one after the other, below some that are read already. -/
inductive ReadAllAs : List UnitLine → List Text → List UnitLine → Prop where
  | nil {above : List UnitLine} : ReadAllAs above [] []
  | cons {above units : List UnitLine} {line : Text} {lines : List Text} {unit : UnitLine}
      (h : ReadAs above line unit) (hs : ReadAllAs (above ++ [unit]) lines units) :
      ReadAllAs above (line :: lines) (unit :: units)

lemma ReadAllAs.length_eq {above units : List UnitLine} {lines : List Text}
    (h : ReadAllAs above lines units) : units.length = lines.length := by
  induction h with
  | nil => rfl
  | cons _ _ ih => exact congrArg (· + 1) ih

/-- A line is read in one way. -/
lemma ReadAs.unique {above : List UnitLine} {line : Text} {unit unit' : UnitLine}
    (h : ReadAs above line unit) (h' : ReadAs above line unit') : unit = unit' := by
  rw [ReadAs] at h h'
  cases hsite : definitionSite? line with
  | none =>
    rw [hsite] at h h'
    exact h.trans h'.symm
  | some site =>
    rw [hsite] at h h'
    obtain ⟨symbol, raw, hraw, rfl⟩ := h
    obtain ⟨symbol', raw', hraw', rfl⟩ := h'
    cases hraw.symm.trans hraw'
    rfl

lemma ReadAllAs.unique {above units units' : List UnitLine} {lines : List Text}
    (h : ReadAllAs above lines units) (h' : ReadAllAs above lines units') : units = units' := by
  induction h generalizing units' with
  | nil =>
    cases h'
    rfl
  | cons hread _ ih =>
    cases h' with
    | cons hread' hlater =>
      obtain rfl := hread.unique hread'
      rw [ih hlater]

/-- An empty line is text. -/
lemma ReadAllAs.getElem?_of_nil {above units : List UnitLine} {lines : List Text} {i : Nat}
    (h : ReadAllAs above lines units) (hi : lines[i]? = some []) : units[i]? = some (.text []) := by
  induction h generalizing i with
  | nil => cases hi
  | cons hread _ ih =>
    cases i with
    | zero =>
      cases hi
      exact congrArg some hread
    | succ i => exact ih hi

/-- A table that has the last values of some lines has them with one more line too. -/
lemma lookup_define_eq_getLast? {table : SymbolTable} {above : List UnitLine}
    (htable : ∀ w, List.lookup w table = (values w above).getLast?) (unit : UnitLine) (w : Text) :
    List.lookup w (define table unit) = (values w (above ++ [unit])).getLast? := by
  rw [lookup_define, htable, values, values, List.filterMap_append, List.getLast?_append,
    List.filterMap_cons]
  cases value? w unit <;> rfl

/-- Lines whose definitions can be read are read one after the other. -/
lemma readAllAs_readAll {table : SymbolTable} {above : List UnitLine} {lines : List Text}
    (htable : ∀ w, List.lookup w table = (values w above).getLast?)
    (h : ∀ line ∈ lines, ∀ site, definitionSite? line = some site →
      ∃ d, readDefinition site.after = .ok d) (s : σ) :
    ∃ units, ((readAll table lines).run s).result = .ok units ∧ ReadAllAs above lines units := by
  induction lines generalizing table above s with
  | nil => exact ⟨[], rfl, .nil⟩
  | cons line lines ih =>
    rw [List.forall_mem_cons] at h
    rw [readAll]
    cases hsite : definitionSite? line with
    | none =>
      obtain ⟨units, hunits, hread⟩ := ih (lookup_define_eq_getLast? htable (.text line)) h.2 s
      refine ⟨.text line :: units, ?_, .cons ?_ hread⟩
      · exact Run.result_bind_of_ok hunits
      · rw [ReadAs, hsite]
    | some site =>
      obtain ⟨⟨symbol, raw⟩, hraw⟩ := h.1 site hsite
      -- the value of a definition is read with the table of the lines above it
      let value := Scan.replaceWords table.replacement raw
      obtain ⟨units, hunits, hread⟩ :=
        ih (lookup_define_eq_getLast? htable (.definition site.before symbol value)) h.2 s
      refine ⟨.definition site.before symbol value :: units, ?_, .cons ?_ hread⟩
      · have hdef : ((Run.ofExcept ((readDefinition site.after).mapError fun fault =>
            ({ fault } : Diagnostic)) : Run σ Diagnostic (Text × Text)).run s).result =
              .ok (symbol, raw) := by
          rw [hraw]
          rfl
        rw [Run.result_bind_of_ok hdef]
        exact Run.result_bind_of_ok hunits
      · rw [ReadAs, hsite]
        exact ⟨symbol, raw, hraw, by rw [← replacement_eq_meaningBelow htable]⟩

/-! ### Line feeds -/

/-- Neither what is kept of a line nor the value that it gives to a symbol has a line feed. -/
def OneLine (line : UnitLine) : Prop :=
  '\n' ∉ line.kept ∧ ∀ w v, value? w line = some v → '\n' ∉ v

lemma newline_not_mem_of_mem_values {lines : List UnitLine} (h : ∀ line ∈ lines, OneLine line)
    {w v : Text} (hv : v ∈ values w lines) : '\n' ∉ v := by
  obtain ⟨line, hline, hval⟩ := List.mem_filterMap.mp hv
  exact (h line hline).2 w v hval

lemma newline_not_mem_meaningBelow {above : List UnitLine} (h : ∀ line ∈ above, OneLine line)
    {w : Text} (hw : '\n' ∉ w) : '\n' ∉ meaningBelow above w := by
  rw [meaningBelow]
  cases hv : (values w above).getLast? with
  | none => exact hw
  | some v => exact newline_not_mem_of_mem_values h (List.mem_of_getLast? hv)

lemma newline_not_mem_meaning {lines : List UnitLine} (h : ∀ line ∈ lines, OneLine line) (i : Nat)
    {w : Text} (hw : '\n' ∉ w) : '\n' ∉ meaning lines i w := by
  rw [meaning]
  cases hv : (values w (lines.take i)).getLast? with
  | some v =>
    have htake : ∀ line ∈ lines.take i, OneLine line :=
      fun line hl => h line (List.mem_of_mem_take hl)
    exact newline_not_mem_of_mem_values htake (List.mem_of_getLast? hv)
  | none =>
    cases hv' : (values w lines).head? with
    | none => exact hw
    | some v => exact newline_not_mem_of_mem_values h (List.mem_of_head? hv')

lemma ReadAs.oneLine {above : List UnitLine} {line : Text} {unit : UnitLine}
    (h : ReadAs above line unit) (hline : '\n' ∉ line) (habove : ∀ u ∈ above, OneLine u) :
    OneLine unit := by
  rw [ReadAs] at h
  cases hsite : definitionSite? line with
  | none =>
    rw [hsite] at h
    subst h
    exact ⟨hline, fun w v hv => by cases hv⟩
  | some site =>
    rw [hsite] at h
    obtain ⟨symbol, raw, hraw, rfl⟩ := h
    have htext : site.text = line :=
      Scan.text_of_findKeyword? (Option.eq_some_of_filter_eq_some hsite)
    rw [← htext, Scan.WordSite.not_mem_text] at hline
    refine ⟨hline.1, fun w v hv => ?_⟩
    rw [value?] at hv
    split at hv
    · cases hv
      apply Scan.not_mem_replaceWords fun w => newline_not_mem_meaningBelow habove
      exact fun hmem => hline.2.2 (replacement_subset_of_readDefinition hraw hmem)
    · cases hv

lemma ReadAllAs.oneLine {above units : List UnitLine} {lines : List Text}
    (h : ReadAllAs above lines units) (hlines : ∀ line ∈ lines, '\n' ∉ line)
    (habove : ∀ u ∈ above, OneLine u) : ∀ u ∈ units, OneLine u := by
  induction h with
  | nil => simp
  | cons hread _ ih =>
    rw [List.forall_mem_cons] at hlines ⊢
    have hunit := hread.oneLine hlines.1 habove
    refine ⟨hunit, ih hlines.2 ?_⟩
    rw [List.forall_mem_append]
    exact ⟨habove, by simpa using hunit⟩

/-! ### Units without definitions -/

lemma ReadAllAs.eq_map_text {above units : List UnitLine} {lines : List Text}
    (h : ReadAllAs above lines units) (hnone : units.any isDefinition = false) :
    units = lines.map .text := by
  induction h with
  | nil => rfl
  | @cons above units line lines unit hread _ ih =>
    rw [List.any_cons, Bool.or_eq_false_iff] at hnone
    rw [ReadAs] at hread
    split at hread
    · rw [hread, ih hnone.2, List.map_cons]
    · obtain ⟨symbol, raw, -, rfl⟩ := hread
      cases hnone.1

lemma meaning_map_text (lines : List Text) (i : Nat) :
    meaning (lines.map .text) i = fun w => w := by
  have hvalues (ls : List Text) (w : Text) : values w (ls.map .text) = [] := by
    rw [values, List.filterMap_map, List.filterMap_eq_nil_iff]
    exact fun l _ => rfl
  funext w
  rw [meaning, ← List.map_take, hvalues, hvalues]
  rfl

/-! ### Units with definitions -/

lemma replaceAll_firstSymbols_getElem? (units : List UnitLine) (i : Nat) :
    (replaceAll (firstSymbols units) units).1[i]? =
      units[i]?.map fun unit => Scan.replaceInCode (meaning units i) unit.kept := by
  rw [← replacement_foldl_define]
  exact replaceAll_getElem? _ units i

/-- The lines of the new text are the lines that were rewritten. -/
lemma ReadAllAs.lines_replaceAll {text : Text} {units : List UnitLine}
    (h : ReadAllAs [] text.lines units) :
    (Text.joinLines (replaceAll (firstSymbols units) units).1).lines =
      (replaceAll (firstSymbols units) units).1 := by
  have hone := h.oneLine (fun line => Text.newline_not_mem_of_mem_lines) nofun
  apply Text.lines_joinLines
  · intro hnil
    have hlen := length_replaceAll (firstSymbols units) units
    rw [hnil, h.length_eq] at hlen
    exact Text.lines_ne_nil text (List.eq_nil_of_length_eq_zero hlen.symm)
  · intro l hl
    obtain ⟨i, hi⟩ := List.getElem?_of_mem hl
    rw [replaceAll_firstSymbols_getElem?] at hi
    obtain ⟨unit, hunit, rfl⟩ := Option.map_eq_some_iff.mp hi
    exact Scan.not_mem_replaceInCode (fun w => newline_not_mem_meaning hone i)
      (hone unit (List.mem_of_getElem? hunit)).1

/-- In the end every symbol has its last value. -/
lemma lookup_last (units : List UnitLine) (w : Text) :
    List.lookup w (units.foldl define (firstSymbols units)) = (values w units).getLast? := by
  rw [lookup_foldl_define, lookup_firstSymbols]
  cases hlast : (values w units).getLast? with
  | some v => rfl
  | none =>
    rw [List.getLast?_eq_none_iff.mp hlast]
    rfl

/-! ### Successful runs -/

lemma readDefinition_of_readAll {table : SymbolTable} {lines : List Text} {units : List UnitLine}
    {s s' : σ} (h : Run.Yields (readAll table lines) s units s') :
    ∀ line ∈ lines, ∀ site, definitionSite? line = some site →
      ∃ d, readDefinition site.after = .ok d := by
  induction lines generalizing table units s s' with
  | nil => nofun
  | cons line lines ih =>
    rw [List.forall_mem_cons]
    rw [readAll] at h
    cases hsite : definitionSite? line with
    | none =>
      rw [hsite] at h
      obtain ⟨rest, s₁, hrest, -⟩ := Run.yields_bind.mp h
      exact ⟨nofun, ih hrest⟩
    | some site =>
      rw [hsite] at h
      obtain ⟨d, s₁, hread, h⟩ := Run.yields_bind.mp h
      obtain ⟨_, s₂, -, h⟩ := Run.yields_bind.mp h
      obtain ⟨rest, s₃, hrest, -⟩ := Run.yields_bind.mp h
      refine ⟨?_, ih hrest⟩
      rintro _ ⟨⟩
      exact ⟨d, mapError_eq_ok.mp (Run.yields_ofExcept.mp hread).1⟩

/-- Lines that are read with success are read as they say. -/
lemma readAllAs_of_yields {lines : List Text} {units : List UnitLine} {s s' : σ}
    (h : Run.Yields (readAll [] lines) s units s') : ReadAllAs [] lines units := by
  have hnone (w : Text) : List.lookup w ([] : SymbolTable) = (values w []).getLast? := rfl
  obtain ⟨units', hunits, hread⟩ := readAllAs_readAll hnone (readDefinition_of_readAll h) s
  obtain rfl : units = units' := Except.ok.inj (h.1.symm.trans hunits)
  exact hread

/-- Where the symbols of a text are replaced, each line becomes the line that is kept of it, with
the words in code replaced by what they mean there. -/
lemma lines_of_replaceSymbols {text out : Text} {symbols : Option SymbolTable} {s s' : σ}
    (h : Run.Yields (replaceSymbols text) s (out, symbols) s') :
    ∃ units, ReadAllAs [] text.lines units ∧ out.lines.length = text.lines.length ∧
      ∀ i, out.lines[i]? = units[i]?.map fun unit =>
        Scan.replaceInCode (meaning units i) unit.kept := by
  obtain ⟨units, s₁, hall, h⟩ := Run.yields_bind.mp h
  have hread := readAllAs_of_yields hall
  refine ⟨units, hread, ?_⟩
  cases hany : units.any isDefinition with
  | false =>
    rw [hany] at h
    obtain ⟨rfl, -⟩ := Prod.mk.inj (Run.yields_pure.mp h).1
    refine ⟨rfl, fun i => ?_⟩
    -- without definitions nothing has a meaning of its own, and the text is its own replacement
    rw [hread.eq_map_text hany, meaning_map_text, List.getElem?_map, Option.map_map]
    have hcopy : (fun unit : UnitLine => Scan.replaceInCode (fun w => w) unit.kept) ∘ .text =
        fun line => line := by
      funext line
      exact Scan.replaceInCode_id line
    rw [hcopy, Option.map_id']
  | true =>
    rw [hany] at h
    obtain ⟨rfl, -⟩ := Prod.mk.inj (Run.yields_pure.mp h).1
    rw [hread.lines_replaceAll, ← hread.length_eq]
    exact ⟨length_replaceAll _ units, fun i => replaceAll_firstSymbols_getElem? units i⟩

end UnitLine

/-! ### Units -/

open UnitLine in
/-- A unit whose definitions can be read keeps its number of lines. On each line, up to a definition
that it holds, the words in code are replaced by what they mean there, and all else is copied. If
there are definitions, the symbols have their last values in the end; if there are none, the text
stays as it is. -/
theorem replaceSymbols_rewrites {text : Text}
    (h : ∀ line ∈ text.lines, ∀ site, definitionSite? line = some site →
      ∃ d, readDefinition site.after = .ok d) (s : σ) :
    ∃ units out symbols, ReadAllAs [] text.lines units ∧
      ((replaceSymbols text).run s).result = .ok (out, symbols) ∧
      out.lines.length = text.lines.length ∧
      (∀ i unit line, units[i]? = some unit → out.lines[i]? = some line →
        Scan.Rewritten (meaning units i) true (Scan.marked unit.kept) line) ∧
      (units.any isDefinition = true → ∃ table, symbols = some table ∧
        ∀ w, List.lookup w table = (values w units).getLast?) ∧
      (units.any isDefinition = false → out = text ∧ symbols = none) := by
  have hnone (w : Text) : List.lookup w ([] : SymbolTable) = (values w []).getLast? := rfl
  obtain ⟨units, hunits, hread⟩ := readAllAs_readAll hnone h s
  cases hany : units.any isDefinition with
  | false =>
    have htext := hread.eq_map_text hany
    refine ⟨units, text, none, hread, ?_, rfl, ?_, fun htrue => ?_, fun _ => ⟨rfl, rfl⟩⟩
    · rw [replaceSymbols, Run.result_bind_of_ok hunits, hany]
      rfl
    · -- the text is copied, which is a rewriting that means each word by itself
      intro i unit line hunit hline
      rw [htext, List.getElem?_map, hline] at hunit
      cases hunit
      rw [htext, meaning_map_text]
      have := Scan.rewritten_replaceInCode (fun w => w) line
      rwa [Scan.replaceInCode_id] at this
    · rw [hany] at htrue
      cases htrue
  | true =>
    refine ⟨units, Text.joinLines (replaceAll (firstSymbols units) units).1,
      some (units.foldl define (firstSymbols units)), hread, ?_, ?_, ?_,
      fun _ => ⟨_, rfl, lookup_last units⟩, fun hfalse => ?_⟩
    · rw [replaceSymbols, Run.result_bind_of_ok hunits, hany, ← replaceAll_snd]
      rfl
    · rw [hread.lines_replaceAll, ← hread.length_eq]
      exact length_replaceAll _ units
    · intro i unit line hunit hline
      rw [hread.lines_replaceAll, replaceAll_firstSymbols_getElem?, hunit] at hline
      cases hline
      exact Scan.rewritten_replaceInCode _ _
    · rw [hany] at hfalse
      cases hfalse

open UnitLine in
/-- A use above the first definition, one between two definitions, and one inside a string. -/
theorem replaceSymbols_rewrites_forward_use :
    (∀ line ∈ Text.lines "li N\n.eqv N 4\nN \"N\"\n.eqv N N+N".toList, ∀ site,
      definitionSite? line = some site → ∃ d, readDefinition site.after = .ok d) ∧
    ∃ units table,
      ReadAllAs [] (Text.lines "li N\n.eqv N 4\nN \"N\"\n.eqv N N+N".toList) units ∧
      ((replaceSymbols "li N\n.eqv N 4\nN \"N\"\n.eqv N N+N".toList).run ()).result =
        .ok ("li 4\n\n4 \"N\"\n".toList, some table) ∧
      (values ['N'] units).getLast? = some "4+4".toList := by
  have hall : (Text.lines "li N\n.eqv N 4\nN \"N\"\n.eqv N N+N".toList).all (fun line =>
      (definitionSite? line).all fun site =>
        (readDefinition site.after).toOption.isSome) = true := by
    decide +kernel
  have h : ∀ line ∈ Text.lines "li N\n.eqv N 4\nN \"N\"\n.eqv N N+N".toList, ∀ site,
      definitionSite? line = some site → ∃ d, readDefinition site.after = .ok d := by
    intro line hline site hsite
    have := List.all_eq_true.mp hall line hline
    rw [hsite, Option.all_some] at this
    cases hd : readDefinition site.after with
    | error e => rw [hd] at this; cases this
    | ok d => exact ⟨d, rfl⟩
  refine ⟨h, ?_⟩
  obtain ⟨units, out, symbols, hread, hres, -, -, hsome, hnone⟩ := replaceSymbols_rewrites h ()
  have hrun : ((replaceSymbols "li N\n.eqv N 4\nN \"N\"\n.eqv N N+N".toList).run ()).result =
      .ok ("li 4\n\n4 \"N\"\n".toList, some [(['N'], "4+4".toList)]) := by decide +kernel
  cases hres.symm.trans hrun
  cases hany : units.any isDefinition with
  | false => cases (hnone hany).2
  | true =>
    obtain ⟨table, htable, hvalues⟩ := hsome hany
    cases htable
    exact ⟨units, _, hread, hrun, (hvalues ['N']).symm⟩

end MipsAsm
