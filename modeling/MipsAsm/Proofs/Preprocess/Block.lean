import MipsAsm.Preprocess.Block
import Mathlib.Tactic.Common

/-!
# Blocks of consecutive lines

Where a block begins, the lines before are blocks of their own: `Block.ofLinesFrom_append`. What
follows a macro definition that ends does not change it.
-/

namespace MipsAsm

/-! ### Bodies -/

namespace MacroBody

variable {ls ls' : List Text} {b : MacroBody}

lemma height_le (h : ofLines? ls = some b) : b.height ≤ ls.length := by
  induction ls generalizing b with
  | nil => cases h
  | cons l ls ih =>
    rw [ofLines?] at h
    split at h
    · cases h
      exact Nat.le_add_left _ _
    · rw [Option.map_eq_some_iff] at h
      obtain ⟨b', hb', rfl⟩ := h
      exact Nat.succ_le_succ (ih hb')

lemma ofLines?_append (h : ofLines? ls = some b) (ls' : List Text) :
    ofLines? (ls ++ ls') = some b := by
  induction ls generalizing b with
  | nil => cases h
  | cons l ls ih =>
    rw [ofLines?] at h
    rw [List.cons_append, ofLines?]
    split at h
    · exact h
    · rw [Option.map_eq_some_iff] at h
      obtain ⟨b', hb', rfl⟩ := h
      rw [ih hb']
      rfl

/-- A body that ends among the first lines is a body of these lines. -/
lemma ofLines?_of_append (h : ofLines? (ls ++ ls') = some b) (hb : b.height ≤ ls.length) :
    ofLines? ls = some b := by
  induction ls generalizing b with
  | nil => exact absurd hb (by simp [height])
  | cons l ls ih =>
    rw [List.cons_append, ofLines?] at h
    rw [ofLines?]
    split at h
    · exact h
    · rw [Option.map_eq_some_iff] at h
      obtain ⟨b', hb', rfl⟩ := h
      rw [ih hb' (Nat.le_of_succ_le_succ hb)]
      rfl

end MacroBody

namespace Block

/-- A definition that has its end. -/
def Closed : Block → Prop
  | .definition _ none => False
  | _                  => True

variable {line : Text} {ls ls' : List Text} {number skip : Nat}

/-! ### Single blocks -/

/-- Only a definition depends on the lines that follow. -/
lemma ofLine_cases (line : Text) :
    (∃ site, ∀ ls, ofLine line ls = .definition site (MacroBody.ofLines? ls)) ∨
    (∃ b : Block, b.Closed ∧ b.extraLines = 0 ∧ ∀ ls, ofLine line ls = b) := by
  unfold ofLine
  split
  · exact Or.inr ⟨.plain line, trivial, rfl, fun _ => rfl⟩
  · next site _ =>
    split
    · exact Or.inl ⟨site, fun _ => rfl⟩
    · exact Or.inr ⟨.directive _ site, trivial, rfl, fun _ => rfl⟩

lemma extraLines_le (line : Text) (ls : List Text) : (ofLine line ls).extraLines ≤ ls.length := by
  rcases ofLine_cases line with ⟨site, hdef⟩ | ⟨b, -, hextra, hconst⟩
  · rw [hdef]
    cases hb : MacroBody.ofLines? ls with
    | none => exact Nat.zero_le _
    | some b => exact MacroBody.height_le hb
  · rw [hconst, hextra]
    exact Nat.zero_le _

/-- What has its end stays as it is, whatever follows. -/
lemma ofLine_append (h : (ofLine line ls).Closed) (ls' : List Text) :
    ofLine line (ls ++ ls') = ofLine line ls := by
  rcases ofLine_cases line with ⟨site, hdef⟩ | ⟨b, -, -, hconst⟩
  · rw [hdef] at h
    rw [hdef, hdef]
    -- without its end the definition would not be closed
    cases hb : MacroBody.ofLines? ls with
    | none =>
      rw [hb] at h
      exact h.elim
    | some b => rw [MacroBody.ofLines?_append hb]
  · rw [hconst, hconst]

/-- A block that takes no more than the first lines is a block of these lines. -/
lemma ofLine_of_append (h : (ofLine line (ls ++ ls')).Closed)
    (hextra : (ofLine line (ls ++ ls')).extraLines ≤ ls.length) :
    ofLine line (ls ++ ls') = ofLine line ls := by
  rcases ofLine_cases line with ⟨site, hdef⟩ | ⟨b, -, -, hconst⟩
  · rw [hdef] at h hextra
    rw [hdef, hdef]
    cases hb : MacroBody.ofLines? (ls ++ ls') with
    | none =>
      rw [hb] at h
      exact h.elim
    | some b =>
      rw [hb] at hextra
      rw [MacroBody.ofLines?_of_append hb hextra]
  · rw [hconst, hconst]

/-! ### Blocks in a row -/

/-- The numbers of the lines make no difference to the blocks. -/
lemma map_snd_ofLinesFrom (number number' skip : Nat) (ls : List Text) :
    (ofLinesFrom number skip ls).map Prod.snd = (ofLinesFrom number' skip ls).map Prod.snd := by
  induction ls generalizing number number' skip with
  | nil => simp [ofLinesFrom]
  | cons l ls ih =>
    cases skip with
    | zero => rw [ofLinesFrom, ofLinesFrom, List.map_cons, List.map_cons, ih]
    | succ skip => exact ih _ _ _

lemma ofText_ne_nil (t : Text) : ofText t ≠ [] := by
  obtain ⟨l, ls, hl⟩ := List.exists_cons_of_ne_nil (Text.lines_ne_nil t)
  rw [ofText, hl]
  exact List.cons_ne_nil _ _

lemma closed_renumber (h : ∀ p ∈ ofLinesFrom number skip ls, p.2.Closed) (number' : Nat) :
    ∀ p ∈ ofLinesFrom number' skip ls, p.2.Closed := by
  intro p hp
  have hmem : p.2 ∈ (ofLinesFrom number skip ls).map Prod.snd := by
    rw [map_snd_ofLinesFrom number number']
    exact List.mem_map_of_mem hp
  obtain ⟨q, hq, heq⟩ := List.mem_map.mp hmem
  exact heq ▸ h q hq

lemma le_of_mem_ofLinesFrom {p : Nat × Block} (h : p ∈ ofLinesFrom number skip ls) :
    number + skip ≤ p.1 := by
  induction ls generalizing number skip with
  | nil => simp [ofLinesFrom] at h
  | cons l ls ih =>
    cases skip with
    | zero =>
      rcases List.mem_cons.mp h with rfl | h
      · exact Nat.le_refl _
      · have := ih h
        omega
    | succ skip =>
      have := ih h
      omega

lemma lt_of_mem_ofLinesFrom {p : Nat × Block} (h : p ∈ ofLinesFrom number skip ls) :
    p.1 + p.2.extraLines < number + ls.length := by
  induction ls generalizing number skip with
  | nil => simp [ofLinesFrom] at h
  | cons l ls ih =>
    rw [List.length_cons]
    cases skip with
    | zero =>
      rcases List.mem_cons.mp h with rfl | h
      · have := extraLines_le l ls
        dsimp only
        omega
      · have := ih h
        omega
    | succ skip =>
      have := ih h
      omega

/-- Every block begins after the lines that the blocks before it take. -/
lemma pairwise_ofLinesFrom (number skip : Nat) (ls : List Text) :
    (ofLinesFrom number skip ls).Pairwise fun p q => p.1 + p.2.extraLines < q.1 := by
  induction ls generalizing number skip with
  | nil => simp [ofLinesFrom]
  | cons l ls ih =>
    cases skip with
    | zero =>
      rw [ofLinesFrom, List.pairwise_cons]
      refine ⟨fun q hq => ?_, ih _ _⟩
      have := le_of_mem_ofLinesFrom hq
      dsimp only
      omega
    | succ skip => exact ih _ _

/-- The blocks of a text begin one after the other on its lines. -/
lemma ofText_increasing (t : Text) :
    (ofText t).Pairwise (fun p q => p.1 + p.2.extraLines < q.1) ∧
    ∀ p ∈ ofText t, 1 ≤ p.1 ∧ p.1 + p.2.extraLines ≤ t.lines.length := by
  refine ⟨pairwise_ofLinesFrom _ _ _, fun p hp => ⟨le_of_mem_ofLinesFrom hp, ?_⟩⟩
  have := lt_of_mem_ofLinesFrom hp
  omega

/-! ### Lines and the blocks that take them -/

/-- A block is made of the line on which it begins and the lines after it. -/
lemma eq_ofLine_of_mem_ofLinesFrom {n : Nat} {b : Block}
    (h : (n, b) ∈ ofLinesFrom number skip ls) :
    ∃ line following, ls.drop (n - number) = line :: following ∧ b = ofLine line following := by
  induction ls generalizing number skip with
  | nil => simp [ofLinesFrom] at h
  | cons l ls ih =>
    have hlater {skip : Nat} (h : (n, b) ∈ ofLinesFrom (number + 1) skip ls) :
        ∃ line following, (l :: ls).drop (n - number) = line :: following ∧
          b = ofLine line following := by
      -- a later block has a greater number, so one line more is dropped for it
      have hle : number + 1 ≤ n := by
        have := le_of_mem_ofLinesFrom h
        dsimp only at this
        omega
      rw [show n - number = n - (number + 1) + 1 by omega, List.drop_succ_cons]
      exact ih h
    cases skip with
    | zero =>
      rcases List.mem_cons.mp h with heq | h
      · cases heq
        exact ⟨l, ls, by rw [Nat.sub_self, List.drop_zero], rfl⟩
      · exact hlater h
    | succ skip => exact hlater h

/-- Each line belongs to a block. -/
lemma exists_mem_ofLinesFrom {k : Nat} (hk : number + skip ≤ k) (hlt : k < number + ls.length) :
    ∃ p ∈ ofLinesFrom number skip ls, p.1 ≤ k ∧ k ≤ p.1 + p.2.extraLines := by
  induction ls generalizing number skip with
  | nil => exact absurd hlt (by simp; omega)
  | cons l ls ih =>
    rw [List.length_cons] at hlt
    cases skip with
    | zero =>
      rw [ofLinesFrom]
      -- the line is one of the block that begins here, or of a later one
      by_cases hfirst : k ≤ number + (ofLine l ls).extraLines
      · exact ⟨_, List.mem_cons_self, hk, hfirst⟩
      · have hlater : number + 1 + (ofLine l ls).extraLines ≤ k := by omega
        obtain ⟨p, hp, hplace⟩ := ih hlater (by omega)
        exact ⟨p, List.mem_cons_of_mem _ hp, hplace⟩
    | succ skip => exact ih (by omega) (by omega)

/-- The number of lines that blocks take. -/
def lineCount : List (Nat × Block) → Nat
  | []      => 0
  | p :: bs => 1 + p.2.extraLines + lineCount bs

/-- The blocks take all lines. -/
lemma lineCount_ofLinesFrom (number : Nat) (h : skip ≤ ls.length) :
    skip + lineCount (ofLinesFrom number skip ls) = ls.length := by
  induction ls generalizing number skip with
  | nil => exact Nat.le_zero.mp h
  | cons l ls ih =>
    rw [List.length_cons] at h ⊢
    cases skip with
    | zero =>
      have := ih (number + 1) (extraLines_le l ls)
      rw [ofLinesFrom, lineCount]
      dsimp only
      omega
    | succ skip =>
      have := ih (number + 1) (Nat.le_of_succ_le_succ h)
      rw [ofLinesFrom]
      omega

/-- The number of a block tells how many lines the blocks before it take. -/
lemma fst_of_ofLinesFrom_eq {n : Nat} {b : Block} {bs bs' : List (Nat × Block)}
    (h : ofLinesFrom number skip ls = bs ++ (n, b) :: bs') :
    n = number + skip + lineCount bs := by
  induction ls generalizing number skip bs with
  | nil => simp [ofLinesFrom] at h
  | cons l ls ih =>
    cases skip with
    | zero =>
      rw [ofLinesFrom] at h
      cases bs with
      | nil =>
        cases h
        rfl
      | cons p bs =>
        obtain ⟨rfl, hlater⟩ := List.cons.inj h
        have := ih hlater
        rw [lineCount]
        dsimp only
        omega
    | succ skip =>
      have := ih h
      omega

/-- After lines whose definitions have their ends the next line begins a block. -/
lemma ofLinesFrom_append (hskip : skip ≤ ls.length)
    (h : ∀ p ∈ ofLinesFrom number skip ls, p.2.Closed) (ls' : List Text) :
    ofLinesFrom number skip (ls ++ ls') =
      ofLinesFrom number skip ls ++ ofLinesFrom (number + ls.length) 0 ls' := by
  induction ls generalizing number skip with
  | nil =>
    obtain rfl := Nat.le_zero.mp hskip
    rfl
  | cons l ls ih =>
    have hnumber : number + (l :: ls).length = number + 1 + ls.length := by
      rw [List.length_cons]
      omega
    cases skip with
    | zero =>
      rw [ofLinesFrom, List.forall_mem_cons] at h
      rw [List.cons_append, ofLinesFrom, ofLinesFrom, hnumber, ofLine_append h.1,
        ih (extraLines_le l ls) h.2, List.cons_append]
    | succ skip =>
      rw [hnumber]
      exact ih (Nat.le_of_succ_le_succ hskip) h

/-- Where a block begins, the definitions in the lines before it have their ends there. -/
lemma closed_of_begins (h : ∀ p ∈ ofLinesFrom number skip (ls ++ ls'), p.2.Closed)
    (hbegins : ∃ b, (number + ls.length, b) ∈ ofLinesFrom number skip (ls ++ ls')) :
    skip ≤ ls.length ∧ ∀ p ∈ ofLinesFrom number skip ls, p.2.Closed := by
  induction ls generalizing number skip with
  | nil =>
    obtain ⟨b, hb⟩ := hbegins
    refine ⟨?_, by simp [ofLinesFrom]⟩
    have := le_of_mem_ofLinesFrom hb
    simp only [List.length_nil] at this ⊢
    omega
  | cons l ls ih =>
    have hnumber : number + (l :: ls).length = number + 1 + ls.length := by
      rw [List.length_cons]
      omega
    rw [hnumber] at hbegins
    cases skip with
    | zero =>
      rw [List.cons_append, ofLinesFrom] at h hbegins
      rw [List.forall_mem_cons] at h
      -- the block behind `ls` is not the one that begins here, whose number is smaller
      have hlater : ∃ b, (number + 1 + ls.length, b) ∈
          ofLinesFrom (number + 1) (ofLine l (ls ++ ls')).extraLines (ls ++ ls') := by
        obtain ⟨b, hb⟩ := hbegins
        refine ⟨b, (List.mem_cons.mp hb).resolve_left fun heq => ?_⟩
        have := congrArg Prod.fst heq
        dsimp only at this
        omega
      obtain ⟨hextra, hclosed⟩ := ih h.2 hlater
      have hline := ofLine_of_append h.1 hextra
      rw [hline] at h hclosed
      refine ⟨Nat.zero_le _, ?_⟩
      rw [ofLinesFrom, List.forall_mem_cons]
      exact ⟨h.1, hclosed⟩
    | succ skip =>
      obtain ⟨hskip, hclosed⟩ := ih h hbegins
      exact ⟨Nat.succ_le_succ hskip, hclosed⟩

end Block

end MipsAsm
