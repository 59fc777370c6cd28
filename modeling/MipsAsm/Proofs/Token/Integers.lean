import MipsAsm.Proofs.Number.Word
import MipsAsm.Proofs.Operand.Literals
import MipsAsm.Proofs.Operand.Unambiguous
import MipsAsm.Token.Data

/-!
# Integer data

The operands of `.byte`, `.half` and `.word` are numbers, with or without a sign in front of each,
and characters (`IntegerList`). If all of them fit, they are laid out one behind the other in bytes,
the least significant byte of each first (`LaidOut`); there is no other way for these directives to
succeed (`Directive.statements_integers`).
-/

namespace MipsAsm

-- powers are the ones that numbers have, not those of a monoid
attribute [local instance(2000)] instPowNat

/-! ### Bytes -/

/-- The number that bytes stand for, the least significant first. -/
def littleEndianValue : List UInt8 → Nat
  | []      => 0
  | b :: bs => b.toNat + 256 * littleEndianValue bs

lemma length_littleEndian (count n : Nat) : (littleEndian count n).length = count := by
  induction count generalizing n with
  | zero => rfl
  | succ count ih => rw [littleEndian, List.length_cons, ih]

lemma littleEndianValue_littleEndian (count n : Nat) :
    littleEndianValue (littleEndian count n) = n % 256 ^ count := by
  induction count generalizing n with
  | zero => rw [Nat.pow_zero, Nat.mod_one, littleEndian, littleEndianValue]
  | succ count ih =>
    have hbyte : (UInt8.ofNat (n % 256)).toNat = n % 256 := by simp
    rw [littleEndian, littleEndianValue, hbyte, ih, Nat.pow_succ, Nat.mul_comm (256 ^ count),
      Nat.mod_mul]

/-- Values stand one behind the other, each in its number of bytes. -/
structure LaidOut (bytes : Nat) (vs : List Int) (data : List UInt8) : Prop where
  length : data.length = bytes * vs.length
  value  : ∀ (k : Nat) (v : Int), vs[k]? = some v →
    (littleEndianValue ((data.drop (bytes * k)).take bytes) : Int) = v % 2 ^ (8 * bytes)

section

variable {bytes : Nat} {v : Int} {vs : List Int} {data : List UInt8}

lemma LaidOut.nil : LaidOut bytes [] [] := ⟨rfl, nofun⟩

/-- One more value in front. -/
lemma LaidOut.cons (h : LaidOut bytes vs data) (v : Int) :
    LaidOut bytes (v :: vs) (littleEndian bytes (v % 2 ^ (8 * bytes)).toNat ++ data) := by
  have hlength := length_littleEndian bytes (v % 2 ^ (8 * bytes)).toNat
  constructor
  · rw [List.length_append, hlength, h.length, List.length_cons, Nat.mul_succ, Nat.add_comm]
  · intro k v' hv'
    cases k with
    | zero =>
      obtain rfl : v = v' := by simpa using hv'
      have hpower : 256 ^ bytes = 2 ^ (8 * bytes) := (Nat.pow_mul 2 8 bytes).symm
      have hpos := Number.two_pow_pos (8 * bytes)
      have hnonneg := Int.emod_nonneg v (Int.ne_of_gt hpos)
      have hlt := Int.emod_lt_of_pos v hpos
      rw [Nat.mul_zero, List.drop_zero, List.take_left' hlength, littleEndianValue_littleEndian,
        hpower, Nat.mod_eq_of_lt, Int.toNat_of_nonneg hnonneg]
      rw [← Number.natCast_two_pow] at hlt ⊢
      omega
    | succ k =>
      rw [Nat.mul_succ, Nat.add_comm, ← List.drop_drop, List.drop_left' hlength]
      exact h.value k v' (by simpa using hv')

lemma fits_bytes (hbytes : 0 < bytes) :
    Number.Fits v (8 * bytes) ↔ -2 ^ (8 * bytes - 1) ≤ v ∧ v < 2 ^ (8 * bytes) := by
  have hbits : (8 * (bytes : Int)).toNat = 8 * bytes := by omega
  have hpos : (1 : Int) ≤ 8 * bytes := by omega
  rw [Number.Fits, hbits]
  exact ⟨fun h => h.2, fun h => ⟨hpos, h⟩⟩

/-- Values that all fit are laid out. -/
lemma integerData_of_fits (h : ∀ v ∈ vs, Number.Fits v (8 * bytes)) :
    ∃ data, integerData bytes vs = .ok data ∧ LaidOut bytes vs data := by
  induction vs with
  | nil => exact ⟨[], rfl, .nil⟩
  | cons v vs ih =>
    rw [List.forall_mem_cons] at h
    have hbits : (8 * (bytes : Int)).toNat = 8 * bytes := by omega
    have hword := Number.toWord_of_fits h.1
    obtain ⟨data, hdata, hlaid⟩ := ih h.2
    rw [hbits] at hword
    refine ⟨_, ?_, hlaid.cons v⟩
    rw [integerData, hword, hdata]
    rfl

/-- Only values that fit are laid out. -/
lemma fits_of_integerData (h : integerData bytes vs = .ok data) :
    ∀ v ∈ vs, Number.Fits v (8 * bytes) := by
  induction vs generalizing data with
  | nil => simp
  | cons v vs ih =>
    obtain ⟨w, hw, h⟩ := bind_eq_ok.mp h
    obtain ⟨rest, hrest, -⟩ := bind_eq_ok.mp h
    rw [List.forall_mem_cons]
    refine ⟨?_, ih hrest⟩
    by_contra hfits
    rw [Number.toWord_of_not_fits hfits] at hw
    cases hw

/-- What is wrong with values that are not laid out is that one does not fit. -/
lemma valueOutOfRange_of_integerData {f : Fault} (h : integerData bytes vs = .error f) :
    ∃ v ∈ vs, f = .valueOutOfRange v (8 * bytes) := by
  induction vs with
  | nil => cases h
  | cons v vs ih =>
    obtain hw | ⟨w, -, h⟩ := bind_eq_error.mp h
    -- either the value itself does not fit, or one of those behind it
    · by_cases hfits : Number.Fits v (8 * bytes)
      · rw [Number.toWord_of_fits hfits] at hw
        cases hw
      · rw [Number.toWord_of_not_fits hfits] at hw
        cases hw
        exact ⟨v, List.mem_cons_self, rfl⟩
    · obtain hrest | ⟨rest, -, h⟩ := bind_eq_error.mp h
      · obtain ⟨v', hv', hf⟩ := ih hrest
        exact ⟨v', List.mem_cons_of_mem v hv', hf⟩
      · cases h

end

/-! ### Characters -/

/-- The body of a character literal stands for one character, if its escape stands for any. -/
lemma CharBody.decodeEscapes {body u : Text} (h : CharBody body)
    (hu : MipsAsm.decodeEscapes body = .ok u) : ∃ c, u = [c] := by
  cases h with
  | @char c _ hescape _ =>
    rw [MipsAsm.decodeEscapes] at hu
    · cases hu
      exact ⟨c, rfl⟩
    · rintro rfl
      exact absurd rfl hescape
    · rintro e t rfl
      exact absurd rfl hescape
  | @escape e _ =>
    rw [MipsAsm.decodeEscapes] at hu
    split at hu
    · cases hu
    · next c _ =>
      cases hu
      exact ⟨c, rfl⟩

/-- Only the rule for characters makes characters. -/
lemma Rule.eq_char_of_operand {rule : Rule} {w body : Text}
    (h : rule.operand w = .ok (.char body)) :
    rule = .char ∧ body = literalBody w := by
  cases rule with
  | char =>
    cases h
    exact ⟨rfl, rfl⟩
  | register =>
    obtain ⟨r, -, h⟩ := map_eq_ok.mp h
    cases h
  | number =>
    obtain ⟨v, -, h⟩ := map_eq_ok.mp h
    cases h
  | _ => cases h

lemma Lexed.charBody {offset : Nat} {t body : Text} {ls : List Lexeme} (h : Lexed offset t ls)
    (hbody : .char body ∈ ls.map Lexeme.operand) : CharBody body := by
  induction h with
  | nil => cases hbody
  | spacing _ _ ih => exact ih hbody
  | @operand _ rule w t _ _ htakes hoperand _ ih =>
    rcases List.mem_cons.mp hbody with heq | hmem
    · cases heq
      obtain ⟨rfl, rfl⟩ := Rule.eq_char_of_operand hoperand
      obtain ⟨body, rest, ht, hn, hbody⟩ :=
        charBody_of_charExtent (Rule.extent_pos_of_first? htakes.first)
      obtain ⟨rfl, -⟩ := eq_literal (q := .single) ht (htakes.extent.symm.trans hn)
      rwa [literalBody_literal]
    · exact ih hmem

/-- A character literal among the operands of a text stands for one character. -/
lemma decodeEscapes_of_mem_operands {text body u : Text} {ops : List Operand}
    (h : operands text = .ok ops) (hbody : .char body ∈ ops) (hu : decodeEscapes body = .ok u) :
    ∃ c, u = [c] := by
  obtain ⟨ls, hls, rfl⟩ := map_eq_ok.mp h
  exact ((lexed_of_lexFrom hls).charBody hbody).decodeEscapes hu

/-! ### Values -/

/-- The operands of integer data and their values: numbers with or without a sign, and characters
whose escapes stand for one character. -/
inductive IntegerList : List Operand → List Int → Prop where
  | nil : IntegerList [] []
  | number {v : Int} {used ops : List Operand} {vs : List Int} (h : NumberReading v used)
      (hs : IntegerList ops vs) : IntegerList (used ++ ops) (v :: vs)
  | char {body : Text} {c : Char} {ops : List Operand} {vs : List Int}
      (h : decodeEscapes body = .ok [c]) (hs : IntegerList ops vs) :
      IntegerList (.char body :: ops) (c.toNat :: vs)

section

variable {d : Directive} {ops : List Operand} {args : List Argument} {vs : List Int}
  {negative : Bool}
  {op : Operand} {a : Argument} {body : Text}

lemma charValue_eq_ok {v : Int} :
    charValue body = .ok v ↔ ∃ c, decodeEscapes body = .ok [c] ∧ v = c.toNat := by
  rw [charValue]
  constructor
  · intro h
    split at h
    · cases h
    · next c hc =>
      cases h
      exact ⟨c, hc, rfl⟩
    · cases h
  · rintro ⟨c, hc, rfl⟩
    rw [hc]

/-- The values of numbers and characters. -/
lemma value_eq_ok (h : op.value d Operand.isIntegral negative = .ok a) :
    (∃ v, op = .number v ∧ a = .int (if negative then -v else v)) ∨
    ∃ body c, op = .char body ∧ decodeEscapes body = .ok [c] ∧
      a = .int (if negative then -c.toNat else c.toNat) := by
  cases op with
  | number v =>
    cases h
    exact .inl ⟨v, rfl, rfl⟩
  | char body =>
    obtain ⟨v, hv, rfl⟩ := map_eq_ok.mp h
    obtain ⟨c, hc, rfl⟩ := charValue_eq_ok.mp hv
    exact .inr ⟨body, c, rfl, hc, rfl⟩
  | _ => cases h

lemma integerList_of_readValues (h : readValues d Operand.isIntegral ops = .ok args) :
    ∃ vs, IntegerList ops vs ∧ args = vs.map .int := by
  fun_induction readValues d Operand.isIntegral ops generalizing args with
  | case1 =>
    cases h
    exact ⟨[], .nil, rfl⟩
  | case2 op ops hsign ih =>                -- an operand without sign
    obtain ⟨a, ha, h⟩ := bind_eq_ok.mp h
    obtain ⟨rest, hrest, h⟩ := bind_eq_ok.mp h
    cases h
    obtain ⟨vs, hvs, rfl⟩ := ih hrest
    obtain ⟨v, rfl, rfl⟩ | ⟨body, c, rfl, hc, rfl⟩ := value_eq_ok ha
    · exact ⟨v :: vs, .number (.bare v) hvs, rfl⟩
    · exact ⟨c.toNat :: vs, .char hc hvs, rfl⟩
  | case3 => cases h                        -- a sign at the end
  | case4 op negative n ops hsign hn ih =>  -- a sign and a number
    obtain ⟨a, ha, h⟩ := bind_eq_ok.mp h
    obtain ⟨rest, hrest, h⟩ := bind_eq_ok.mp h
    cases h
    obtain ⟨vs, hvs, rfl⟩ := ih hrest
    obtain ⟨v, rfl, rfl⟩ | ⟨body, c, rfl, hc, rfl⟩ := value_eq_ok ha
    · cases op with
      | plus =>
        cases hsign
        exact ⟨v :: vs, .number (.signed (.plus v)) hvs, rfl⟩
      | minus =>
        cases hsign
        exact ⟨-v :: vs, .number (.signed (.minus v)) hvs, rfl⟩
      | _ => cases hsign
    · cases hn
  | case5 => cases h                        -- a sign in front of something else

lemma readValues_of_unsigned (hsign : op.sign? = none) :
    readValues d Operand.isIntegral (op :: ops) = (do
      let v ← op.value d Operand.isIntegral false
      let vs ← readValues d Operand.isIntegral ops
      pure (v :: vs)) := by
  cases op with
  | plus | minus => cases hsign
  | _ => rfl

/-- The operands of integer data are read as their values. -/
lemma IntegerList.readValues (h : IntegerList ops vs) :
    MipsAsm.readValues d Operand.isIntegral ops = .ok (vs.map .int) := by
  induction h with
  | nil => rfl
  | number h _ ih =>
    cases h with
    | bare =>
      rw [List.singleton_append, readValues_of_unsigned rfl]
      exact bind_eq_ok.mpr ⟨_, rfl, bind_eq_ok.mpr ⟨_, ih, rfl⟩⟩
    | signed h =>
      cases h with
      | plus => exact bind_eq_ok.mpr ⟨_, rfl, bind_eq_ok.mpr ⟨_, ih, rfl⟩⟩
      | minus => exact bind_eq_ok.mpr ⟨_, rfl, bind_eq_ok.mpr ⟨_, ih, rfl⟩⟩
  | @char body c ops vs h _ ih =>
    have hvalue : (Operand.char body).value d Operand.isIntegral false = .ok (.int c.toNat) :=
      map_eq_ok.mpr ⟨c.toNat, charValue_eq_ok.mpr ⟨c, h, rfl⟩, rfl⟩
    rw [readValues_of_unsigned rfl]
    exact bind_eq_ok.mpr ⟨_, hvalue, bind_eq_ok.mpr ⟨_, ih, rfl⟩⟩

lemma integers_map (vs : List Int) : integers (vs.map .int) = vs := by
  simp [integers, List.filterMap_map]

/-! ### Failures -/

lemma badEscape_of_decodeEscapes {t : Text} {f : Fault} (h : decodeEscapes t = .error f) :
    ∃ c, f = .badEscape c := by
  fun_induction decodeEscapes t with
  | case1 => cases h
  | case2 =>                                -- a backslash at the end
    cases h
    exact ⟨none, rfl⟩
  | case3 e =>                              -- an unknown escape
    cases h
    exact ⟨some e, rfl⟩
  | case4 _ _ _ _ ih => exact ih (map_eq_error.mp h)
  | case5 _ _ _ _ ih => exact ih (map_eq_error.mp h)

/-- Only a character literal whose body stands for something else than one character has no value
for that reason. -/
lemma char_of_value (h : op.value d Operand.isIntegral negative = .error (.notOneCharacter body)) :
    op = .char body ∧ ∃ u, decodeEscapes body = .ok u ∧ ∀ c, u ≠ [c] := by
  cases op with
  | char body' =>
    have h : charValue body' = .error (.notOneCharacter body) := map_eq_error.mp h
    rw [charValue] at h
    split at h
    · next f hf =>
      cases h
      obtain ⟨c, hc⟩ := badEscape_of_decodeEscapes hf
      cases hc
    · cases h
    · next u hne hu =>
      cases h
      exact ⟨rfl, u, hu, hne⟩
  | _ => cases h

lemma char_of_readValues
    (h : readValues d Operand.isIntegral ops = .error (.notOneCharacter body)) :
    .char body ∈ ops ∧ ∃ u, decodeEscapes body = .ok u ∧ ∀ c, u ≠ [c] := by
  fun_induction readValues d Operand.isIntegral ops with
  | case1 => cases h
  | case2 op ops hsign ih =>
    obtain hvalue | ⟨a, -, h⟩ := bind_eq_error.mp h
    · obtain ⟨rfl, hu⟩ := char_of_value hvalue
      exact ⟨List.mem_cons_self, hu⟩
    · obtain hrest | ⟨rest, -, h⟩ := bind_eq_error.mp h
      · obtain ⟨hmem, hu⟩ := ih hrest
        exact ⟨List.mem_cons_of_mem _ hmem, hu⟩
      · cases h
  | case3 => cases h
  | case4 op negative n ops hsign hn ih =>
    -- behind a sign stands a number, so that the character is one of those further on
    obtain hvalue | ⟨a, -, h⟩ := bind_eq_error.mp h
    · obtain ⟨rfl, hu⟩ := char_of_value hvalue
      cases hn
    · obtain hrest | ⟨rest, -, h⟩ := bind_eq_error.mp h
      · obtain ⟨hmem, hu⟩ := ih hrest
        exact ⟨List.mem_cons_of_mem _ (List.mem_cons_of_mem _ hmem), hu⟩
      · cases h
  | case5 => cases h

end

lemma Register.read_ne (t body : Text) :
    Register.read t ≠ .error (.fault (.notOneCharacter body)) := by
  intro h
  unfold Register.read at h
  dsimp only at h
  split at h
  · cases h
  · split_ifs at h
    · cases h
    · cases h
    · split at h
      · cases h
      · cases h

lemma Number.readImmediate_ne (t body : Text) :
    Number.readImmediate t ≠ .error (.fault (.notOneCharacter body)) := by
  intro h
  rw [Number.readImmediate] at h
  dsimp only at h
  split at h
  · split_ifs at h
    cases h
  · split_ifs at h
    · cases h
    · cases h
    · cases h

/-- The lexer does not look into characters. -/
lemma lexFrom_ne (offset : Nat) (t body : Text) :
    lexFrom offset t ≠ .error (.fault (.notOneCharacter body)) := by
  intro h
  fun_induction lexFrom offset t with
  | case1 => cases h
  | case2 _ _ _ _ ih => exact ih h
  | case3 => cases h
  | case4 offset c t hc rule hrule n =>
    rename_i ih
    -- registers and numbers fail in other ways, and no other rule fails
    obtain hoperand | ⟨operand, -, h⟩ := bind_eq_error.mp h
    · cases rule with
      | register => exact Register.read_ne _ _ (map_eq_error.mp hoperand)
      | number => exact Number.readImmediate_ne _ _ (map_eq_error.mp hoperand)
      | _ => cases hoperand
    · obtain hrest | ⟨rest, -, h⟩ := bind_eq_error.mp h
      · exact ih hrest
      · cases h

/-! ### Statements -/

/-- The text of some operands is a list of integers that fit in a number of bits, signed or not. -/
structure Integers (bits : Nat) (text : Text) (vs : List Int) : Prop where
  operands : ∃ ops, MipsAsm.operands text = .ok ops ∧ IntegerList ops vs
  ne_nil   : vs ≠ []
  fits     : ∀ v ∈ vs, -2 ^ (bits - 1) ≤ v ∧ v < 2 ^ bits

section

variable {d : Directive} {text : Text} {vs : List Int} {ss : List Statement}

lemma values_eq_ok {args : List Argument} :
    values d Operand.isIntegral text = .ok args ↔
      ∃ ops vs, operands text = .ok ops ∧ IntegerList ops vs ∧ args = vs.map .int := by
  constructor
  · intro h
    obtain ⟨ops, hops, h⟩ := bind_eq_ok.mp h
    obtain ⟨vs, hvs, rfl⟩ := integerList_of_readValues (mapError_eq_ok.mp h)
    exact ⟨ops, vs, hops, hvs, rfl⟩
  · rintro ⟨ops, vs, hops, hvs, rfl⟩
    exact bind_eq_ok.mpr ⟨ops, hops, mapError_eq_ok.mpr hvs.readValues⟩

/-- What comes from the lexer and is a character literal is never too long or too short. -/
lemma integerStatement_ne (body : Text) :
    integerStatement d text ≠ .error (.fault (.notOneCharacter body)) := by
  intro h
  obtain hvalues | ⟨args, -, h⟩ := bind_eq_error.mp h
  · obtain hops | ⟨ops, hops, h⟩ := bind_eq_error.mp hvalues
    · exact lexFrom_ne 0 text body (map_eq_error.mp hops)
    · obtain ⟨f, hf, hfault⟩ := mapError_eq_error.mp h
      cases hfault
      obtain ⟨hmem, u, hu, hne⟩ := char_of_readValues hf
      obtain ⟨c, rfl⟩ := decodeEscapes_of_mem_operands hops hmem hu
      exact hne c rfl
  · split at h
    · cases h
    · obtain hdata | ⟨data, -, h⟩ := bind_eq_error.mp h
      · obtain ⟨f, hf, hfault⟩ := mapError_eq_error.mp hdata
        cases hfault
        obtain ⟨v, -, hv⟩ := valueOutOfRange_of_integerData hf
        cases hv
      · cases h

variable (hbytes : 0 < d.integerBytes)
include hbytes

lemma integerStatement_of_integers (h : Integers (8 * d.integerBytes) text vs) :
    ∃ data, integerStatement d text = .ok [.directive d (vs.map .int) data] ∧
      LaidOut d.integerBytes vs data := by
  obtain ⟨⟨ops, hops, hvs⟩, hne, hfits⟩ := h
  have hvalues := values_eq_ok (d := d).mpr ⟨ops, vs, hops, hvs, rfl⟩
  obtain ⟨data, hdata, hlaid⟩ :=
    integerData_of_fits fun v hv => (fits_bytes hbytes).mpr (hfits v hv)
  refine ⟨data, ?_, hlaid⟩
  rw [integerStatement, hvalues]
  cases vs with
  | nil => exact absurd rfl hne
  | cons v vs =>
    have hintegers := integers_map (v :: vs)
    rw [List.map_cons] at hintegers ⊢
    simp only [bind, Except.bind, List.isEmpty_cons, hintegers, hdata]
    rfl

lemma integers_of_integerStatement (h : integerStatement d text = .ok ss) :
    ∃ vs, Integers (8 * d.integerBytes) text vs := by
  obtain ⟨args, hvalues, h⟩ := bind_eq_ok.mp h
  obtain ⟨ops, vs, hops, hvs, rfl⟩ := values_eq_ok.mp hvalues
  split at h
  · cases h
  · next hne =>
    obtain ⟨data, hdata, -⟩ := bind_eq_ok.mp h
    rw [integers_map] at hdata
    refine ⟨vs, ⟨ops, hops, hvs⟩, ?_, fun v hv => ?_⟩
    · rintro rfl
      exact hne rfl
    · exact (fits_bytes hbytes).mp (fits_of_integerData (mapError_eq_ok.mp hdata) v hv)

end

/-- The directives for integers succeed exactly on lists of integers that all fit, signed or not,
in their number of bits. Their arguments are the integers in the order of the text; the data has
each in its bytes, the least significant first, modulo the power of two of its width. Characters
stand for one character each, so none is ever found to be longer or shorter. -/
theorem Directive.statements_integers {d : Directive} {bits : Nat}
    (hd : (d, bits) ∈ [(Directive.byte, 8), (Directive.half, 16), (Directive.word, 32)])
    (text : Text) :
    ((∃ ss, d.statements text = .ok ss) ↔ ∃ vs, Integers bits text vs) ∧
    (∀ vs, Integers bits text vs → ∃ data,
      d.statements text = .ok [.directive d (vs.map .int) data] ∧
      LaidOut (bits / 8) vs data) ∧
    (∀ ops body u, operands text = .ok ops → .char body ∈ ops → decodeEscapes body = .ok u →
      ∃ c, u = [c]) ∧
    ∀ body, d.statements text ≠ .error (.fault (.notOneCharacter body)) := by
  have hd : bits = 8 * d.integerBytes ∧ 0 < d.integerBytes ∧
      d.statements text = integerStatement d text := by
    simp only [List.mem_cons, Prod.mk.injEq, List.not_mem_nil, or_false] at hd
    obtain ⟨rfl, rfl⟩ | ⟨rfl, rfl⟩ | ⟨rfl, rfl⟩ := hd
    · exact ⟨rfl, by decide, rfl⟩
    · exact ⟨rfl, by decide, rfl⟩
    · exact ⟨rfl, by decide, rfl⟩
  obtain ⟨rfl, hbytes, hstatements⟩ := hd
  have hbits : 8 * d.integerBytes / 8 = d.integerBytes := by omega
  rw [hstatements, hbits]
  refine ⟨⟨?_, ?_⟩, fun vs => integerStatement_of_integers hbytes, ?_, integerStatement_ne⟩
  · rintro ⟨ss, hss⟩
    exact integers_of_integerStatement hbytes hss
  · rintro ⟨vs, hvs⟩
    obtain ⟨data, hdata, -⟩ := integerStatement_of_integers hbytes hvs
    exact ⟨_, hdata⟩
  · intro ops body u hops
    exact decodeEscapes_of_mem_operands hops

/-- Signs, a base, characters with and without escapes, and values at the ends of the range; then a
sign without number, and a value beyond the range. -/
theorem Directive.statements_integers_half :
    (Directive.half, 16) ∈ [(Directive.byte, 8), (Directive.half, 16), (Directive.word, 32)] ∧
    Integers 16 "-32768, +65535 0x1f,'a' '\\n'".toList [-32768, 65535, 31, 97, 10] ∧
    Directive.statements .half "-32768, +65535 0x1f,'a' '\\n'".toList =
      .ok [.directive .half [.int (-32768), .int 65535, .int 31, .int 97, .int 10]
        [0, 0x80, 0xff, 0xff, 31, 0, 97, 0, 10, 0]] ∧
    LaidOut 2 [-32768, 65535, 31, 97, 10] [0, 0x80, 0xff, 0xff, 31, 0, 97, 0, 10, 0] ∧
    ¬ (∃ vs, Integers 16 "1, -".toList vs) ∧ ¬ (∃ vs, Integers 16 "65536".toList vs) := by
  have hd : (Directive.half, 16) ∈
      [(Directive.byte, 8), (Directive.half, 16), (Directive.word, 32)] := by decide
  have hvs : Integers 16 "-32768, +65535 0x1f,'a' '\\n'".toList [-32768, 65535, 31, 97, 10] :=
    { operands := by
        refine ⟨[.minus, .number 32768, .plus, .number 65535, .number 31, .char ['a'],
          .char ['\\', 'n']], by decide +kernel, ?_⟩
        exact .number (.signed (.minus 32768)) (.number (.signed (.plus 65535))
          (.number (.bare 31) (.char (c := 'a') rfl (.char (c := '\n') rfl .nil))))
      ne_nil   := by decide
      fits     := by decide }
  have hstatements : Directive.statements .half "-32768, +65535 0x1f,'a' '\\n'".toList =
      .ok [.directive .half [.int (-32768), .int 65535, .int 31, .int 97, .int 10]
        [0, 0x80, 0xff, 0xff, 31, 0, 97, 0, 10, 0]] := by decide +kernel
  have hdangling : Directive.statements .half "1, -".toList =
      .error (.fault (.danglingSign .half)) := by decide +kernel
  have hlarge : Directive.statements .half "65536".toList =
      .error (.fault (.valueOutOfRange 65536 16)) := by decide +kernel
  obtain ⟨data, hdata, hlaid⟩ := (Directive.statements_integers hd _).2.1 _ hvs
  cases hstatements.symm.trans hdata
  refine ⟨hd, hvs, hstatements, hlaid, ?_, ?_⟩
  · rw [← (Directive.statements_integers hd _).1, hdangling]
    rintro ⟨ss, ⟨⟩⟩
  · rw [← (Directive.statements_integers hd _).1, hlarge]
    rintro ⟨ss, ⟨⟩⟩

end MipsAsm
