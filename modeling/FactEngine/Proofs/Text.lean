import FactEngine.Text.Alphanumeric
import FactEngine.Text.Blank
import FactEngine.Text.Decimal
import Mathlib.Data.List.DropRight
import Mathlib.Data.Nat.Digits.Defs

/-!
# Trimmed texts and written numbers

Trimming leaves a text without blanks at its ends (`trimmed_trimChars`), and such a text as it
is (`Trimmed.trimChars_eq`).

The decimal digits of a number are ASCII digits, at least one, and the first is not zero unless
the number is (`head?_digits_ne`). Reading them gives the number back (`value_digits`).
-/

namespace FactEngine.Text

variable {c : Char} {cs ds : List Char} {n : Nat}

/-! ## Trimming -/

/-- The characters do not begin or end with a blank. -/
structure Trimmed (cs : List Char) : Prop where
  head : ∀ c ∈ cs.head?, isBlank c = false
  last : ∀ c ∈ cs.getLast?, isBlank c = false

theorem trimChars_eq_rdropWhile (cs : List Char) :
    trimChars cs = (cs.dropWhile isBlank).rdropWhile isBlank :=
  rfl

theorem trimmed_trimChars (cs : List Char) : Trimmed (trimChars cs) := by
  rw [trimChars_eq_rdropWhile]
  constructor
  · intro c hc
    obtain ⟨rest, hrest⟩ := List.rdropWhile_prefix isBlank (cs.dropWhile isBlank)
    have hhead : (cs.dropWhile isBlank).head? = some c := by
      rw [← hrest, List.head?_append, hc, Option.some_or]
    simpa [hhead] using List.head?_dropWhile_not isBlank cs
  · intro c hc
    have hne := List.ne_nil_of_mem (List.mem_of_getLast? hc)
    obtain rfl := Option.some.inj ((List.getLast?_eq_some_getLast hne).symm.trans hc)
    simpa using List.rdropWhile_last_not isBlank _ hne

theorem Trimmed.trimChars_eq (h : Trimmed cs) : trimChars cs = cs := by
  have hhead : cs.dropWhile isBlank = cs := by
    cases cs with
    | nil => rfl
    | cons c cs => simpa using h.head c rfl
  rw [trimChars_eq_rdropWhile, hhead, List.rdropWhile_eq_self_iff]
  intro hne
  simpa using h.last _ (List.getLast?_eq_some_getLast hne)

/-- Trimming takes blanks off both ends, and nothing else. -/
theorem exists_blanks_trimChars (cs : List Char) : ∃ before after : List Char,
    (∀ c ∈ before, isBlank c = true) ∧ (∀ c ∈ after, isBlank c = true) ∧
      before ++ trimChars cs ++ after = cs := by
  refine ⟨cs.takeWhile isBlank, (cs.dropWhile isBlank).rtakeWhile isBlank,
    fun c hc => List.mem_takeWhile_imp hc, fun c hc => List.mem_rtakeWhile_imp hc, ?_⟩
  have hafter :
      trimChars cs ++ (cs.dropWhile isBlank).rtakeWhile isBlank = cs.dropWhile isBlank := by
    rw [trimChars, List.rtakeWhile, ← List.reverse_append, List.takeWhile_append_dropWhile,
      List.reverse_reverse]
  rw [List.append_assoc, hafter, List.takeWhile_append_dropWhile]

/-- Nothing is left of a text exactly if all its characters are blank. -/
theorem trimChars_eq_nil_iff : trimChars cs = [] ↔ ∀ c ∈ cs, isBlank c = true := by
  constructor
  · intro h
    obtain ⟨before, after, hbefore, hafter, hcs⟩ := exists_blanks_trimChars cs
    rw [h, List.append_nil] at hcs
    rw [← hcs]
    exact fun c hc => (List.mem_append.1 hc).elim (hbefore c) (hafter c)
  · intro h
    rw [trimChars, List.dropWhile_eq_nil_iff.2 h]
    rfl

theorem trimmed_of_forall (h : ∀ c ∈ cs, isBlank c = false) : Trimmed cs :=
  ⟨fun c hc => h c (List.mem_of_head? hc), fun c hc => h c (List.mem_of_getLast? hc)⟩

/-! ## Blank characters -/

/-- The code points of the blank characters, as closed ranges. -/
def blankRanges : List (Nat × Nat) :=
  [(0x9, 0xd), (0x20, 0x20), (0x85, 0x85), (0xa0, 0xa0), (0x1680, 0x1680), (0x2000, 0x200a),
   (0x2028, 0x2029), (0x202f, 0x202f), (0x205f, 0x205f), (0x3000, 0x3000)]

theorem isBlank_iff :
    isBlank c = true ↔ ∃ r ∈ blankRanges, r.1 ≤ c.toNat ∧ c.toNat ≤ r.2 := by
  simp [isBlank, blankRanges, Char.le_def, UInt32.le_iff_toNat_le, ← Char.toNat_inj]
  omega

theorem blankRanges_disjoint :
    ∀ b ∈ blankRanges, ∀ r ∈ alphanumericRanges, b.2 < r.1 ∨ r.2 < b.1 := by
  decide +kernel

/-- No letter and no number is blank. -/
theorem isAlphanumeric_of_isBlank (h : isBlank c = true) : isAlphanumeric c = false := by
  obtain ⟨b, hb, hle, hge⟩ := isBlank_iff.1 h
  unfold isAlphanumeric
  split
  · rename_i hlt
    have hlow : ∀ n < 0x80, isBlank (Char.ofNat n) = true →
        (Char.ofNat n).isAlphanum = false := by
      decide
    simpa using hlow c.toNat hlt (by simpa using h)
  · rw [List.any_eq_false]
    intro r hr
    have := blankRanges_disjoint b hb r hr
    simp only [Bool.and_eq_true, decide_eq_true_eq]
    omega

/-! ## Digits -/

theorem isDigit_digitOf : ∀ n < 10, isDigit (digitOf n) = true := by
  decide

theorem digitValue_digitOf : ∀ n < 10, digitValue (digitOf n) = n := by
  decide

/-- The ASCII digits are those of the numbers below ten. -/
theorem isDigit_iff : isDigit c = true ↔ ∃ n < 10, c = digitOf n := by
  constructor
  · intro h
    have h : 48 ≤ c.toNat ∧ c.toNat ≤ 57 := by
      simpa [isDigit, Char.le_def, UInt32.le_iff_toNat_le] using h
    refine ⟨c.toNat - 48, by omega, ?_⟩
    have hsum : '0'.toNat + (c.toNat - 48) = c.toNat := by
      change 48 + _ = _
      omega
    rw [digitOf, hsum, Char.ofNat_toNat]
  · rintro ⟨n, hn, rfl⟩
    exact isDigit_digitOf n hn

/-! ## Numbers -/

theorem digits_of_lt (h : n < 10) : digits n = [digitOf n] := by
  rw [digits, if_pos h]

theorem digits_of_le (h : 10 ≤ n) : digits n = digits (n / 10) ++ [digitOf (n % 10)] := by
  rw [digits, if_neg (by omega)]

theorem digits_ne_nil (n : Nat) : digits n ≠ [] := by
  rw [digits]
  split <;> simp

theorem isDigit_of_mem_digits (h : c ∈ digits n) : isDigit c = true := by
  induction n using digits.induct with
  | case1 n hn =>
    rw [digits_of_lt hn, List.mem_singleton] at h
    exact h ▸ isDigit_digitOf n hn
  | case2 n hn ih =>
    rw [digits_of_le (by omega), List.mem_append, List.mem_singleton] at h
    rcases h with h | rfl
    · exact ih h
    · exact isDigit_digitOf _ (Nat.mod_lt n (by omega))

/-- A number that is not zero is not written with a zero in front. -/
theorem head?_digits_ne (h : n ≠ 0) : (digits n).head? ≠ some '0' := by
  induction n using digits.induct with
  | case1 n hn =>
    have hdigit : ∀ n < 10, n ≠ 0 → digitOf n ≠ '0' := by decide
    simpa [digits_of_lt hn] using hdigit n hn h
  | case2 n hn ih =>
    rw [digits_of_le (by omega), List.head?_append_of_ne_nil _ (digits_ne_nil _)]
    exact ih (by omega)

theorem value_concat (ds : List Char) (c : Char) :
    value (ds ++ [c]) = value ds * 10 + digitValue c := by
  simp [value, valueIn]

/-- The digits of a number write it. -/
theorem value_digits (n : Nat) : value (digits n) = n := by
  induction n using digits.induct with
  | case1 n hn =>
    rw [digits_of_lt hn]
    simpa [value, valueIn] using digitValue_digitOf n hn
  | case2 n hn ih =>
    rw [digits_of_le (by omega), value_concat, ih,
      digitValue_digitOf _ (Nat.mod_lt n (by omega))]
    omega

/-- The number that ASCII digits write, the last of them the ones. -/
def numeral (ds : List Char) : Nat :=
  Nat.ofDigits 10 (ds.reverse.map digitValue)

theorem value_eq_numeral (ds : List Char) : value ds = numeral ds := by
  induction ds using List.reverseRecOn with
  | nil => rfl
  | append_singleton ds d ih =>
    rw [value_concat, ih, numeral, numeral, List.reverse_concat, List.map_cons, Nat.ofDigits_cons]
    omega

/-- A number is one or more digits, which a plus sign may precede. -/
theorem number?_eq_some_iff : number? cs = some n ↔ ∃ sign ds, cs = sign ++ ds ∧
    (sign = [] ∨ sign = ['+']) ∧ ds ≠ [] ∧ (∀ c ∈ ds, isDigit c = true) ∧ n = numeral ds := by
  have hdigits : ∀ ds : List Char, (if ds ≠ [] ∧ ds.all isDigit then some (value ds) else none) =
      some n ↔ ds ≠ [] ∧ (∀ c ∈ ds, isDigit c = true) ∧ n = numeral ds := by
    intro ds
    rw [Option.ite_none_right_eq_some, List.all_eq_true, value_eq_numeral, Option.some.injEq,
      and_assoc, eq_comm (a := numeral ds)]
  cases cs with
  | nil => simp [number?]
  | cons c rest =>
    by_cases hc : c = '+'
    · subst hc
      rw [number?, hdigits]
      constructor
      · exact fun h => ⟨['+'], rest, rfl, Or.inr rfl, h⟩
      · rintro ⟨sign, ds, happend, rfl | rfl, h⟩
        · obtain rfl : '+' :: rest = ds := happend
          exact absurd (h.2.1 '+' List.mem_cons_self) (by decide)
        · obtain rfl : rest = ds := (List.cons.inj happend).2
          exact h
    · have hnumber : number? (c :: rest) =
          if c :: rest ≠ [] ∧ (c :: rest).all isDigit then some (value (c :: rest)) else none := by
        simp only [number?]
        split
        · rename_i heq
          exact (hc (List.cons.inj heq).1).elim
        · rfl
      rw [hnumber, hdigits]
      constructor
      · exact fun h => ⟨[], c :: rest, rfl, Or.inl rfl, h⟩
      · rintro ⟨sign, ds, happend, rfl | rfl, h⟩
        · obtain rfl : c :: rest = ds := happend
          exact h
        · exact (hc (List.cons.inj happend).1).elim

end FactEngine.Text
