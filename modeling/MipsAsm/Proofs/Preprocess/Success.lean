import MipsAsm.Preprocess.Expansion
import MipsAsm.Proofs.Journal.Run
import MipsAsm.Proofs.Preprocess.Block

/-!
# Successful expansions

What each part of an expansion has done where it succeeds. In an expanded text every macro
definition has its end, and every other directive includes a file or defines a symbol.
-/

namespace MipsAsm.Expansion

open Run

variable {settings : Settings} {deep : Frame → Text → Expansion Text} {frame : Frame}
  {bs bs' : List (Nat × Block)} {chunks : List Text} {s s' : MacroTable} {path : Path} {text : Text}

lemma yields_lift {α : Type} {r : Except Fault α} {a : α} :
    Yields (lift r) s a s' ↔ r = .ok a ∧ s = s' := by
  rw [lift, yields_ofExcept, mapError_eq_ok]

lemma yields_readSource :
    Yields (settings.files.readSource path settings.encoding : Expansion Text) s text s' ↔
      settings.files.source path settings.encoding = .ok text ∧ s = s' := by
  simp only [Files.readSource, yields_bind, yields_log, yields_pure]
  constructor
  · rintro ⟨-, _, rfl, text', _, hread, -, _, rfl, rfl, rfl⟩
    exact yields_lift.mp hread
  · rintro ⟨hsource, rfl⟩
    exact ⟨(), s, rfl, text, s, yields_lift.mpr ⟨hsource, rfl⟩, (), s, rfl, rfl, rfl⟩

lemma readMacro_none (line : Nat) (header : Text) {p : Macro × MacroBody} :
    readMacro line header none ≠ .ok p := by
  rw [readMacro]
  dsimp only
  split_ifs <;> nofun

lemma readMacro_body {line : Nat} {header : Text} {body b : MacroBody} {m : Macro}
    (h : readMacro line header (some body) = .ok (m, b)) : b = body := by
  rw [readMacro] at h
  dsimp only at h
  split_ifs at h
  cases h
  rfl

/-! ### Single blocks -/

/-- Where a line with a directive is expanded, the directive includes a file or defines a symbol. A
definition stays. -/
lemma yields_processBlock_directive {line : Nat} {d : Option Directive} {site : Scan.WordSite}
    {out : Text} (h : Yields (processBlock settings deep frame line (.directive d site)) s out s') :
    ∃ before s₁, Yields (expandLine (deep frame) site.before) s before s₁ ∧
      ((d = some .includeFile ∧ ∃ content rest s₂ suffix,
          Yields (includeFile settings deep frame site.after) s₁ (content, rest) s₂ ∧
          Yields (expandLine (deep frame) rest) s₂ suffix s' ∧
          out = before ++ (content ++ suffix)) ∨
        (d = some .eqv ∧ out = before ++ (site.word ++ site.after) ∧ s₁ = s')) := by
  simp only [processBlock, yields_bind, yields_log, yields_pure] at h
  obtain ⟨before, s₁, hbefore, _, _, rfl, replacement, _, hresolve, rfl, rfl⟩ := h
  refine ⟨before, s₁, hbefore, ?_⟩
  unfold resolve at hresolve
  split at hresolve
  · obtain ⟨⟨content, rest⟩, s₂, hfile, hrest⟩ := yields_bind.mp hresolve
    obtain ⟨suffix, _, hsuffix, hpure⟩ := yields_bind.mp hrest
    obtain ⟨rfl, rfl⟩ := yields_pure.mp hpure
    exact .inl ⟨rfl, content, rest, s₂, suffix, hfile, hsuffix, rfl⟩
  · simp only [yields_bind, yields_lift, yields_pure] at hresolve
    obtain ⟨-, -, ⟨-, rfl⟩, rfl, rfl⟩ := hresolve
    exact .inr ⟨rfl, rfl, rfl⟩
  · -- any other directive is refused
    exact absurd hresolve yields_throw

/-- Where a macro definition is expanded, it has its end. -/
lemma yields_processBlock_definition {line : Nat} {site : Scan.WordSite} {body : Option MacroBody}
    {out : Text}
    (h : Yields (processBlock settings deep frame line (.definition site body)) s out s') :
    ∃ before s₁ m b suffix, Yields (expandLine (deep frame) site.before) s before s₁ ∧
      body = some b ∧ readMacro line site.after (some b) = .ok (m, b) ∧
      Yields (expandLine (deep frame) b.stop.after) (s₁.insert m) suffix s' ∧
      out = before ++ (List.replicate b.height '\n' ++ suffix) := by
  simp only [processBlock, defineMacro, yields_bind, yields_log, yields_lift, yields_modify,
    yields_pure] at h
  obtain ⟨before, s₁, hbefore, _, _, rfl, _, _, ⟨⟨m, b⟩, _, ⟨hread, rfl⟩, _, _, rfl, _, _, rfl,
    suffix, _, hsuffix, rfl, rfl⟩, rfl, rfl⟩ := h
  cases body with
  | none => exact absurd hread (readMacro_none _ _)
  | some body =>
    obtain rfl := readMacro_body hread
    exact ⟨before, s₁, m, b, suffix, hbefore, rfl, hread, hsuffix, rfl⟩

/-! ### Blocks in a row -/

lemma yields_processBlocks_nil :
    Yields (processBlocks settings deep frame []) s chunks s' ↔ chunks = [] ∧ s = s' := by
  rw [processBlocks, yields_pure, eq_comm]

lemma yields_processBlocks_cons {line : Nat} {b : Block} :
    Yields (processBlocks settings deep frame ((line, b) :: bs)) s chunks s' ↔
      ∃ chunk s₁ rest, Yields (processBlock settings deep frame line b) s chunk s₁ ∧
        Yields (processBlocks settings deep frame bs) s₁ rest s' ∧ chunks = chunk :: rest := by
  simp only [processBlocks, yields_bind, yields_mapError, yields_pure]
  constructor
  · rintro ⟨chunk, s₁, hchunk, rest, _, hrest, rfl, rfl⟩
    exact ⟨chunk, s₁, rest, hchunk, hrest, rfl⟩
  · rintro ⟨chunk, s₁, rest, hchunk, hrest, rfl⟩
    exact ⟨chunk, s₁, hchunk, rest, s', hrest, rfl, rfl⟩

lemma yields_processBlocks_append :
    Yields (processBlocks settings deep frame (bs ++ bs')) s chunks s' ↔
      ∃ first s₁ second, Yields (processBlocks settings deep frame bs) s first s₁ ∧
        Yields (processBlocks settings deep frame bs') s₁ second s' ∧ chunks = first ++ second := by
  induction bs generalizing s chunks with
  | nil => simp [yields_processBlocks_nil]
  | cons p bs ih =>
    obtain ⟨line, b⟩ := p
    simp only [List.cons_append, yields_processBlocks_cons, ih]
    constructor
    · rintro ⟨chunk, s₁, _, hchunk, ⟨first, s₂, second, hfirst, hsecond, rfl⟩, rfl⟩
      exact ⟨chunk :: first, s₂, second, ⟨chunk, s₁, first, hchunk, hfirst, rfl⟩, hsecond, rfl⟩
    · rintro ⟨_, s₂, second, ⟨chunk, s₁, first, hchunk, hfirst, rfl⟩, hsecond, rfl⟩
      exact ⟨chunk, s₁, first ++ second, hchunk, ⟨first, s₂, second, hfirst, hsecond, rfl⟩, rfl⟩

lemma ne_nil_of_yields (h : Yields (processBlocks settings deep frame bs) s chunks s')
    (hne : bs ≠ []) : chunks ≠ [] := by
  obtain ⟨p, bs, rfl⟩ := List.exists_cons_of_ne_nil hne
  obtain ⟨chunk, s₁, rest, -, -, rfl⟩ := yields_processBlocks_cons.mp h
  exact List.cons_ne_nil chunk rest

lemma closed_of_yields_processBlock {line : Nat} {b : Block} {chunk : Text}
    (h : Yields (processBlock settings deep frame line b) s chunk s') : b.Closed := by
  cases b with
  | plain text => trivial
  | directive d site => trivial
  | definition site body =>
    obtain ⟨-, -, -, b, -, -, rfl, -⟩ := yields_processBlock_definition h
    trivial

/-- Where a text is expanded, its definitions have their ends. -/
lemma closed_of_yields (h : Yields (processBlocks settings deep frame bs) s chunks s') :
    ∀ p ∈ bs, p.2.Closed := by
  induction bs generalizing s chunks with
  | nil => nofun
  | cons p bs ih =>
    obtain ⟨chunk, s₁, rest, hchunk, hrest, -⟩ := yields_processBlocks_cons.mp h
    rw [List.forall_mem_cons]
    exact ⟨closed_of_yields_processBlock hchunk, ih hrest⟩

lemma yields_processText {levels : Nat} {out : Text}
    (h : Yields (processText settings levels frame text) s out s') :
    ∃ levels' chunks, levels = levels' + 1 ∧
      Yields (processBlocks settings (processText settings levels') frame (Block.ofText text)) s
        chunks s' ∧ out = Text.joinLines chunks := by
  cases levels with
  | zero => exact absurd h yields_throw
  | succ levels =>
    simp only [processText, yields_bind, yields_pure] at h
    obtain ⟨chunks, _, hchunks, rfl, rfl⟩ := h
    exact ⟨levels, chunks, rfl, hchunks, rfl⟩

end MipsAsm.Expansion
