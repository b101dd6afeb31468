import BatchAuction.Encoding.Scalars
import BatchAuction.Json.DoubleRange
import BatchAuction.Proofs.Json.Reading
import Mathlib.Data.List.TakeWhile

/-!
# Strings and numbers are read back

A plain string, which has no quote, no backslash and no control character, is spelled as it is and
means itself (`Json.Plain`). The decimal digits of a number are spelled, have no leading zero, and
are read back as the number (`Json.natural?_toDigits`); integers put a minus sign before them
(`Json.integer?_integerLiteral`). The hexadecimal digits of an amount are read back as the amount
(`Amount.ofText?_hex`).
-/

namespace BatchAuction

namespace Json

/-! ## Plain strings -/

/-- No character needs an escape. -/
def Plain (raw : List Char) : Prop := ∀ c ∈ raw, c ≠ '"' ∧ c ≠ '\\' ∧ 32 ≤ c.toNat

-- The instance is named, as the search for one may find that which tries all characters there are.
instance (raw : List Char) : Decidable (Plain raw) :=
  List.decidableBAll (fun c => c ≠ '"' ∧ c ≠ '\\' ∧ 32 ≤ c.toNat) raw

section
variable {raw : List Char}

/-- One more plain character. -/
theorem Plain.cons {c : Char} (hc : c ≠ '"' ∧ c ≠ '\\' ∧ 32 ≤ c.toNat) (h : Plain raw) :
    Plain (c :: raw) := List.forall_mem_cons.2 ⟨hc, h⟩

/-- A plain string can be spelled. -/
theorem Plain.spelled (h : Plain raw) : (Token.string raw).Spelled := by
  intro tokens
  have hstep : ∀ c ∈ raw, ∀ seen,
      LexState.step ⟨.string seen, tokens⟩ c = some ⟨.string (c :: seen), tokens⟩ := by
    intro c hc seen
    obtain ⟨hquote, hslash, hcontrol⟩ := h c hc
    simp only [LexState.step, if_neg hquote, if_neg hslash, if_neg (Nat.not_lt.2 hcontrol)]
  rw [LexState.run_seen hstep, List.append_nil]

/-- An object with plain keys can be spelled if its values can. -/
theorem spelled_of_plain {members : List (List Char × Json)}
    (h : ∀ m ∈ members, Plain m.1 ∧ m.2.Spelled) : (Json.object members).Spelled :=
  spelled_object (fun m hm => (h m hm).1.spelled) fun m hm => (h m hm).2

/-- After any units, plain characters stand for themselves. -/
theorem Plain.unescapeFrom (h : Plain raw) :
    ∀ units, Json.unescapeFrom units raw = some (units.reverse ++ raw.map .char) := by
  induction raw with
  | nil =>
    intro units
    rw [Json.unescapeFrom, List.map_nil, List.append_nil]
  | cons c raw ih =>
    intro units
    have hslash := (h c List.mem_cons_self).2.1
    have hstep : Json.unescapeFrom units (c :: raw) = Json.unescapeFrom (.char c :: units) raw := by
      rw [Json.unescapeFrom]
      · rintro a b d e rest rfl
        exact absurd rfl hslash
      · rintro a rest rfl
        exact absurd rfl hslash
    rw [hstep, ih fun d hd => h d (List.mem_cons_of_mem _ hd), List.reverse_cons, List.append_assoc]
    rfl

/-- Units that are characters join to these characters. -/
theorem join_chars (cs : List Char) : Unit16.join (cs.map .char) = some cs := by
  induction cs with
  | nil => rfl
  | cons c cs ih =>
    rw [List.map_cons, Unit16.join, ih]
    rfl

/-- A plain string means itself. -/
theorem Plain.unescape (h : Plain raw) : Json.unescape raw = some (String.ofList raw) := by
  rw [Json.unescape, h.unescapeFrom, List.reverse_nil, List.nil_append]
  show (Unit16.join (raw.map .char)).map String.ofList = _
  rw [join_chars]
  rfl

/-- And so does the text of a string without characters that need an escape. -/
theorem unescape_toList {s : String} (h : Plain s.toList) : unescape s.toList = some s := by
  rw [h.unescape, String.ofList_toList]

end

/-! ## Digits -/

/-- Every written digit is that of a number below the base. -/
theorem mem_toDigits {b n : Nat} {c : Char} (hb : 1 < b) (h : c ∈ Nat.toDigits b n) :
    ∃ d < b, c = Nat.digitChar d := by
  induction n using Nat.strong_induction_on with
  | _ n ih =>
    rw [Nat.toDigits_eq_if hb] at h
    split at h
    · rename_i hlt
      exact ⟨n, hlt, List.mem_singleton.1 h⟩
    · rename_i hle
      rcases List.mem_append.1 h with h | h
      · exact ih (n / b) (Nat.div_lt_self (by omega) hb) h
      · exact ⟨n % b, Nat.mod_lt n (by omega), List.mem_singleton.1 h⟩

/-- The sixteen digits have their values, and need no escape. -/
theorem digitValue_digitChar : ∀ d < 16, digitValue d.digitChar = some d ∧
    d.digitChar ≠ '_' ∧ d.digitChar ≠ '"' ∧ d.digitChar ≠ '\\' ∧ 32 ≤ d.digitChar.toNat := by
  decide

/-- Written numbers are plain. -/
theorem plain_toDigits {b : Nat} (hb : 1 < b) (hb' : b ≤ 16) (n : Nat) :
    Plain (Nat.toDigits b n) := by
  intro c hc
  obtain ⟨d, hd, rfl⟩ := mem_toDigits hb hc
  exact (digitValue_digitChar d (Nat.lt_of_lt_of_le hd hb')).2.2

/-- A positive number does not begin with a zero. -/
theorem toDigits_cons_of_pos {n : Nat} (h : 0 < n) :
    ∃ c cs, Nat.toDigits 10 n = c :: cs ∧ c ≠ '0' ∧ c.isDigit = true := by
  induction n using Nat.strong_induction_on with
  | _ n ih =>
    rw [Nat.toDigits_eq_if (by decide)]
    split
    · rename_i hlt
      refine ⟨n.digitChar, [], rfl, mt Nat.digitChar_eq_zero.1 (Nat.ne_of_gt h), ?_⟩
      rw [Nat.isDigit_digitChar, decide_eq_true hlt]
    · obtain ⟨c, cs, hcs, hzero, hdigit⟩ := ih (n / 10) (by omega) (by omega)
      exact ⟨c, cs ++ [(n % 10).digitChar], by rw [hcs]; rfl, hzero, hdigit⟩

/-- Decimal numbers are written with digits only. -/
theorem isDigit_of_mem {n : Nat} : ∀ c ∈ Nat.toDigits 10 n, c.isDigit = true :=
  fun _ hc => Nat.isDigit_of_mem_toDigits (by decide) (by decide) hc

/-- A digit is none of the other characters that mean something. -/
theorem ne_of_isDigit {c d : Char} (hc : c.isDigit = true) (hd : d.isDigit = false) : c ≠ d := by
  rintro rfl
  exact Bool.noConfusion (hc.symm.trans hd)

/-- A digit other than zero begins a number. -/
theorem begin_of_isDigit {c : Char} (hc : c.isDigit = true) (hzero : c ≠ '0') :
    NumberPart.begin? c = some .whole := by
  rw [NumberPart.begin?, if_neg (ne_of_isDigit hc (by decide)), if_neg hzero, if_pos hc]

/-- Between two tokens a digit begins one. -/
theorem stepBetween_of_isDigit {c : Char} (hc : c.isDigit = true) (tokens : List Token) :
    LexState.stepBetween tokens c =
      (NumberPart.begin? c).map fun part => ⟨.number part [c], tokens⟩ := by
  have hne {d : Char} (hd : d.isDigit = false) : c ≠ d := ne_of_isDigit hc hd
  have hspace : isSpace c = false := by
    simp only [isSpace, hne (d := ' ') (by decide), hne (d := '\t') (by decide),
      hne (d := '\n') (by decide), hne (d := '\r') (by decide), decide_false, Bool.or_self]
  simp only [LexState.stepBetween, hspace, hne (d := '[') (by decide), hne (d := ']') (by decide),
    hne (d := '\x7b') (by decide), hne (d := '\x7d') (by decide), hne (d := ':') (by decide),
    hne (d := ',') (by decide), hne (d := '"') (by decide), hne (d := 'n') (by decide),
    hne (d := 't') (by decide), hne (d := 'f') (by decide), if_false, Bool.false_eq_true]

/-- Digits go on with a whole number. -/
theorem run_whole {cs : List Char} (h : ∀ c ∈ cs, c.isDigit = true) (seen : List Char)
    (tokens : List Token) : LexState.run ⟨.number .whole seen, tokens⟩ cs =
      some ⟨.number .whole (cs.reverse ++ seen), tokens⟩ := by
  refine LexState.run_seen (fun c hc seen => ?_) seen
  simp only [LexState.step, NumberPart.next?, h c hc, if_true]

/-- The digits of a number are read where a number may begin. -/
theorem run_toDigits (n : Nat) : ∃ part : NumberPart, part.isComplete = true ∧
    (∀ tokens, LexState.run ⟨.between, tokens⟩ (Nat.toDigits 10 n) =
      some ⟨.number part (Nat.toDigits 10 n).reverse, tokens⟩) ∧
    ∀ tokens, LexState.run ⟨.number .minus ['-'], tokens⟩ (Nat.toDigits 10 n) =
      some ⟨.number part ('-' :: Nat.toDigits 10 n).reverse, tokens⟩ := by
  rcases Nat.eq_zero_or_pos n with rfl | hpos
  · rw [Nat.toDigits_zero]
    exact ⟨.zero, rfl, fun _ => rfl, fun _ => rfl⟩
  · obtain ⟨c, cs, hcs, hzero, hdigit⟩ := toDigits_cons_of_pos hpos
    have hdigits : ∀ d ∈ cs, d.isDigit = true := fun d hd =>
      isDigit_of_mem d (hcs ▸ List.mem_cons_of_mem _ hd)
    have hbegin := begin_of_isDigit hdigit hzero
    rw [hcs]
    refine ⟨.whole, rfl, fun tokens => ?_, fun tokens => ?_⟩
    · have hstep : LexState.step ⟨.between, tokens⟩ c = some ⟨.number .whole [c], tokens⟩ := by
        rw [LexState.step]
        simp only [stepBetween_of_isDigit hdigit, hbegin, Option.map_some]
      rw [LexState.run, hstep, List.reverse_cons]
      exact run_whole hdigits [c] tokens
    · have hminus : c ≠ '-' := ne_of_isDigit hdigit (by decide)
      have hstep : LexState.step ⟨.number .minus ['-'], tokens⟩ c =
          some ⟨.number .whole [c, '-'], tokens⟩ := by
        simp only [LexState.step, NumberPart.next?, if_neg hminus, hbegin]
      rw [LexState.run, hstep, List.reverse_cons, List.reverse_cons, List.append_assoc]
      exact run_whole hdigits [c, '-'] tokens

/-! ## Integers -/

/-- A natural number can be spelled. -/
theorem spelled_naturalLiteral (n : Nat) : (Token.number (naturalLiteral n)).Spelled := by
  obtain ⟨part, hpart, hrun, -⟩ := run_toDigits n
  exact ⟨part, hpart, hrun⟩

/-- And so can an integer. -/
theorem spelled_integerLiteral (i : Int) : (Token.number (integerLiteral i)).Spelled := by
  obtain ⟨part, hpart, hrun, hminus⟩ := run_toDigits i.natAbs
  unfold integerLiteral
  split
  · exact ⟨part, hpart, hminus⟩
  · exact ⟨part, hpart, hrun⟩

/-- The text of a natural number is plain. -/
theorem plain_naturalLiteral (n : Nat) : Plain (naturalLiteral n) :=
  plain_toDigits (by decide) (by decide) n

/-- And so is that of an integer. -/
theorem plain_integerLiteral (i : Int) : Plain (integerLiteral i) := by
  unfold integerLiteral
  split
  · exact (plain_naturalLiteral _).cons (by decide)
  · exact plain_naturalLiteral _

/-- Digits are read back as their number. -/
theorem natural?_toDigits (n : Nat) : natural? (Nat.toDigits 10 n) = some n := by
  have hall : (Nat.toDigits 10 n).all Char.isDigit = true := List.all_eq_true.2 isDigit_of_mem
  have hread : (if (Nat.toDigits 10 n).all Char.isDigit then
      some (Nat.ofDigitChars 10 (Nat.toDigits 10 n) 0) else none) = some n := by
    rw [if_pos hall, Nat.ofDigitChars_ten_toDigits]
  rcases Nat.eq_zero_or_pos n with rfl | hpos
  · rw [Nat.toDigits_zero] at hread ⊢
    exact hread
  · obtain ⟨c, cs, hcs, hzero, -⟩ := toDigits_cons_of_pos hpos
    rw [hcs] at hread ⊢
    rw [natural?]
    · exact hread
    · exact fun heq => nomatch heq
    · rintro d ds heq
      exact absurd (List.cons.inj heq).1 hzero

/-- Without a sign the integer is read back. -/
theorem integer?_toDigits (n : Nat) : integer? (Nat.toDigits 10 n) = some (n : Int) := by
  rw [integer?, natural?_toDigits]
  · rfl
  · rintro digits heq
    have hmem : '-' ∈ Nat.toDigits 10 n := heq ▸ List.mem_cons_self
    exact absurd (isDigit_of_mem _ hmem) (by decide)

/-- Integers are read back from their literals. -/
theorem integer?_integerLiteral (i : Int) : integer? (integerLiteral i) = some i := by
  unfold integerLiteral
  split
  · rename_i hneg
    obtain ⟨n, rfl⟩ := Int.eq_negSucc_of_lt_zero hneg
    rw [integer?, natural?_toDigits]
    rfl
  · rename_i hpos
    rw [integer?_toDigits, Int.natAbs_of_nonneg (Int.not_lt.1 hpos)]

/-! ## Numbers that are read as doubles -/

/-- Digits whose number keeps to 64 bits are all taken. -/
theorem appendDigits_eq {cs : List Char} :
    ∀ {m : Nat}, (∀ c ∈ cs, c.isDigit = true) → Nat.ofDigitChars 10 cs m < 0x10000000000000000 →
      appendDigits m cs = (Nat.ofDigitChars 10 cs m, []) := by
  induction cs with
  | nil => exact fun _ _ => rfl
  | cons c cs ih =>
    intro m hdigits hlt
    have hnext : m * 10 + (c.toNat - 48) = 10 * m + (c.toNat - '0'.toNat) := by
      rw [Nat.mul_comm]
      rfl
    rw [Nat.ofDigitChars_cons, ← hnext] at hlt ⊢
    have hle : m * 10 + (c.toNat - 48) ≤ Nat.ofDigitChars 10 cs (m * 10 + (c.toNat - 48)) := by
      rw [Nat.ofDigitChars_eq_ofDigitChars_zero]
      exact Nat.le_add_right_of_le (Nat.le_mul_of_pos_left _ (Nat.pow_pos (by decide)))
    rw [appendDigits]
    simp only [if_pos (Nat.lt_of_le_of_lt hle hlt)]
    exact ih (fun d hd => hdigits d (List.mem_cons_of_mem _ hd)) hlt

/-- The literal of an integer of 64 bits stands for the number without its sign. -/
theorem scaled_toDigits {n : Nat} (h : n < 0x10000000000000000) :
    Scaled.ofLiteral (Nat.toDigits 10 n) = ⟨n, 0⟩ ∧
      Scaled.ofLiteral ('-' :: Nat.toDigits 10 n) = ⟨n, 0⟩ := by
  have hne {d : Char} (hd : d.isDigit = false) : ∀ c ∈ Nat.toDigits 10 n, c ≠ d :=
    fun c hc => ne_of_isDigit (isDigit_of_mem c hc) hd
  have hunsigned : (Nat.toDigits 10 n).dropWhile (fun c => decide (c = '-')) =
      Nat.toDigits 10 n := by
    refine List.dropWhile_eq_self_iff.2 fun hpos heq => ?_
    exact hne (d := '-') (by decide) _ (List.getElem_mem hpos) (of_decide_eq_true heq)
  have hmark : ∀ c ∈ Nat.toDigits 10 n, (!(c = 'e' || c = 'E')) = true := by
    intro c hc
    simp [hne (d := 'e') (by decide) c hc, hne (d := 'E') (by decide) c hc]
  have hpoint : ∀ c ∈ Nat.toDigits 10 n, decide (c ≠ '.') = true := by
    intro c hc
    exact decide_eq_true (hne (d := '.') (by decide) c hc)
  have hwhole : appendDigits 0 (Nat.toDigits 10 n) = (n, []) := by
    rw [appendDigits_eq isDigit_of_mem (by rwa [Nat.ofDigitChars_ten_toDigits]),
      Nat.ofDigitChars_ten_toDigits]
  have hlit : Scaled.ofLiteral (Nat.toDigits 10 n) = ⟨n, 0⟩ := by
    unfold Scaled.ofLiteral
    simp only [hunsigned, List.takeWhile_eq_self_iff.2 hmark, List.dropWhile_eq_nil_iff.2 hmark,
      List.takeWhile_eq_self_iff.2 hpoint, List.dropWhile_eq_nil_iff.2 hpoint, hwhole,
      List.drop_nil, appendDigits]
    rfl
  refine ⟨hlit, ?_⟩
  rw [← hlit]
  unfold Scaled.ofLiteral
  simp only [List.dropWhile_cons, decide_true, if_true]

/-- A number of 64 bits is rounded to a double of at most 65 bits. -/
theorem nearestDouble_le (n : Nat) : nearestDouble n ≤ 2 * n + 1 := by
  have hstep : Nat.pow 2 (n.log2 - 52) ≤ n + 1 := by
    rcases Nat.eq_zero_or_pos n with rfl | hpos
    · decide
    · calc 2 ^ (n.log2 - 52) ≤ 2 ^ n.log2 := Nat.pow_le_pow_right (by decide) (Nat.sub_le _ _)
        _ ≤ n := Nat.log2_self_le (by omega)
        _ ≤ n + 1 := Nat.le_succ n
  have hcount : n / Nat.pow 2 (n.log2 - 52) * Nat.pow 2 (n.log2 - 52) ≤ n :=
    Nat.div_mul_le_self _ _
  simp only [nearestDouble]
  split
  · rw [Nat.add_mul]
    omega
  · omega

/-- A number of 64 bits is a finite double. -/
theorem isFinite_of_lt {n : Nat} (h : n < 0x10000000000000000) :
    (Scaled.mk n 0).isFinite = true := by
  have hone : nearestDouble 1 = 1 := nearestDouble_of_log2_le (by decide)
  have hlt : nearestDouble n < doubleLimit := by
    have hle := nearestDouble_le n
    have hlimit : 2 * 0x10000000000000000 < doubleLimit := by decide +kernel
    omega
  have hproduct : nearestDouble n * nearestDouble (Nat.pow 10 (0 : Int).toNat) < doubleLimit := by
    rw [show Nat.pow 10 (0 : Int).toNat = 1 from rfl, hone, Nat.mul_one]
    exact hlt
  simp only [Scaled.isFinite, decide_eq_true hproduct]
  simp

/-- The literal of an integer of 64 bits has a finite double. -/
theorem literalInRange_integerLiteral {i : Int} (h : i.natAbs < 0x10000000000000000) :
    literalInRange (integerLiteral i) = true := by
  obtain ⟨hpos, hneg⟩ := scaled_toDigits h
  unfold literalInRange integerLiteral
  split
  · rw [hneg, isFinite_of_lt h]
  · rw [hpos, isFinite_of_lt h]

/-- So its literal is in range. -/
theorem literalInRange_naturalLiteral {n : Nat} (h : n < 0x10000000000000000) :
    literalInRange (naturalLiteral n) = true := by
  unfold literalInRange naturalLiteral
  rw [(scaled_toDigits h).1, isFinite_of_lt h]

end Json

/-! ## Amounts -/

namespace Amount

/-- Digits are read in two parts. -/
theorem digitsFrom_append (base : Nat) (l m : List Char) :
    ∀ n, digitsFrom base n (l ++ m) =
      (digitsFrom base n l).bind fun n => digitsFrom base n m := by
  induction l with
  | nil => exact fun _ => rfl
  | cons c l ih =>
    intro n
    rw [List.cons_append, digitsFrom, digitsFrom]
    split
    · exact ih n
    · split
      · rfl
      · split
        · exact ih _
        · rfl

/-- One digit more is one place more. -/
theorem digitsFrom_digit {d : Nat} (h : d < 16) (n : Nat) :
    digitsFrom 16 n [d.digitChar] = some (n * 16 + d) := by
  obtain ⟨hvalue, hne, -⟩ := Json.digitValue_digitChar d h
  rw [digitsFrom, if_neg hne, hvalue]
  simp only [if_pos h, digitsFrom]

/-- Hexadecimal digits are read back as their number. -/
theorem digitsFrom_toDigits (n : Nat) : digitsFrom 16 0 (Nat.toDigits 16 n) = some n := by
  induction n using Nat.strong_induction_on with
  | _ n ih =>
    rw [Nat.toDigits_eq_if (by decide)]
    split
    · rename_i hlt
      rw [digitsFrom_digit hlt, Nat.zero_mul, Nat.zero_add]
    · rename_i hle
      rw [digitsFrom_append, ih (n / 16) (by omega)]
      show digitsFrom 16 (n / 16) [(n % 16).digitChar] = some n
      rw [digitsFrom_digit (Nat.mod_lt n (by decide)), Nat.mul_comm, Nat.div_add_mod]

/-- The hexadecimal text of an amount is plain. -/
theorem plain_hex (a : Amount) : Json.Plain a.hex :=
  Json.Plain.cons (by decide) (Json.Plain.cons (by decide)
    (Json.plain_toDigits (by decide) (by decide) a.toNat))

/-- Amounts are read back from their hexadecimal texts. -/
theorem ofText?_hex (a : Amount) : ofText? a.hex = some a := by
  show (digitsFrom 16 0 (Nat.toDigits 16 a.toNat)).bind ofNat? = some a
  rw [digitsFrom_toDigits]
  exact ofNat?_toNat a

end Amount

end BatchAuction
