import FactEngine.Proofs.Quote
import FactEngine.Proofs.Text

/-!
# Lines read back

A word of digits is an integer and nothing else : no date and no time, since these have signs
between their digits, and no float, which has a point or an exponent (`scalar?_digits`). A text
`Writes` a value if the reader takes the value from it up to the end of the line, as it does from
written strings and integers. The line of a key and such a text is read as the entry of the value
(`readLine_writeEntry`).
-/

namespace FactEngine.Toml

open Text

variable {c : Char} {cs ds s r rest text : List Char} {v : Value} {n : Nat}

/-! ## Integers -/

theorem ne_of_isDigit {d : Char} (hc : isDigit c = true) (hd : isDigit d = false) : c ≠ d := by
  rintro rfl
  rw [hc] at hd
  cases hd

theorem mem_of_twoDigits {p : Nat × List Char} (h : twoDigits cs = some p) (hc : c ∈ p.2) :
    c ∈ cs := by
  match cs with
  | [] => cases h
  | [_] => cases h
  | a :: b :: r =>
    simp only [twoDigits] at h
    split at h
    · obtain rfl := Option.some.inj h
      exact List.mem_cons_of_mem a (List.mem_cons_of_mem b hc)
    · cases h

theorem expect_eq_none {x : Char} (h : ∀ c ∈ cs, c ≠ x) : expect x cs = none := by
  cases cs with
  | nil => rfl
  | cons c cs => exact if_neg (h c List.mem_cons_self)

/-- Digits alone are no date. -/
theorem dateRead?_digits (h : ∀ c ∈ ds, isDigit c = true) : Date.read? ds = none := by
  unfold Date.read?
  cases hcentury : twoDigits ds with
  | none => rfl
  | some p =>
    cases hyear : twoDigits p.2 with
    | none => simp [hyear]
    | some q =>
      have hq : expect '-' q.2 = none := expect_eq_none fun c hc =>
        ne_of_isDigit (h c (mem_of_twoDigits hcentury (mem_of_twoDigits hyear hc))) (by decide)
      simp [hyear, hq]

/-- Digits alone are no time of day. -/
theorem timeRead?_digits (h : ∀ c ∈ ds, isDigit c = true) : TimeOfDay.read? ds = none := by
  unfold TimeOfDay.read?
  cases hhour : twoDigits ds with
  | none => rfl
  | some p =>
    have hp : expect ':' p.2 = none := expect_eq_none fun c hc =>
      ne_of_isDigit (h c (mem_of_twoDigits hhour hc)) (by decide)
    simp [hp]

theorem momentRead?_digits (h : ∀ c ∈ ds, isDigit c = true) : Moment.read? ds = none := by
  simp [Moment.read?, dateRead?_digits h, timeRead?_digits h]

theorem sign_digits (h : ∀ c ∈ ds, isDigit c = true) : sign ds = (false, ds) := by
  cases ds with
  | nil => rfl
  | cons c ds =>
    have hc := h c List.mem_cons_self
    simp [sign, ne_of_isDigit (d := '-') hc (by decide), ne_of_isDigit (d := '+') hc (by decide)]

theorem ungroup_digits (hne : ds ≠ []) (h : ∀ c ∈ ds, isDigit c = true) :
    ungroup isDigit ds = some ds := by
  induction ds with
  | nil => contradiction
  | cons c ds ih =>
    have hc := h c List.mem_cons_self
    cases ds with
    | nil => simp [ungroup, hc]
    | cons d ds =>
      have hd := h d (List.mem_cons_of_mem c List.mem_cons_self)
      have hrest := ih (by simp) fun e he => h e (List.mem_cons_of_mem c he)
      simp [ungroup, hc, ne_of_isDigit (d := '_') hd (by decide), hrest]

/-- Digits without a point and without an exponent are no float. -/
theorem isFloat_digits (h : ∀ c ∈ ds, isDigit c = true) : isFloat ds = false := by
  have hinf : ds ≠ ['i', 'n', 'f'] := by
    rintro rfl
    exact absurd (h 'i' (by simp)) (by decide)
  have hnan : ds ≠ ['n', 'a', 'n'] := by
    rintro rfl
    exact absurd (h 'n' (by simp)) (by decide)
  have hmark : ∀ c ∈ ds, (!(decide (c = 'e') || decide (c = 'E'))) = true := fun c hc => by
    simp [ne_of_isDigit (d := 'e') (h c hc) (by decide),
      ne_of_isDigit (d := 'E') (h c hc) (by decide)]
  have hpoint : ∀ c ∈ ds, decide (c ≠ '.') = true := fun c hc => by
    simpa using ne_of_isDigit (d := '.') (h c hc) (by decide)
  simp only [isFloat, sign_digits h, hinf, hnan, or_self, if_false,
    List.takeWhile_eq_self_iff.2 hmark, List.dropWhile_eq_nil_iff.2 hmark,
    List.dropWhile_eq_nil_iff.2 hpoint]
  split <;> rfl

theorem wholePart_digits (n : Nat) : wholePart (digits n) = some (digits n) := by
  have hdigits := ungroup_digits (digits_ne_nil n) fun c => isDigit_of_mem_digits
  by_cases hzero : n = 0
  · subst hzero
    have hzero : digits 0 = ['0'] := digits_of_lt (by decide)
    simp [wholePart, hzero, ungroup, isDigit]
  · have hhead := head?_digits_ne hzero
    unfold wholePart
    rw [hdigits]
    split
    · rename_i c d ds heq
      obtain heq := Option.some.inj heq
      rw [heq] at hhead ⊢
      exact if_neg (by simpa using hhead)
    · rfl

theorem integer?_digits (h : n < 0x8000000000000000) : integer? (digits n) = some (n : Int) := by
  have hdigit : ∀ c ∈ digits n, isDigit c = true := fun c => isDigit_of_mem_digits
  unfold integer?
  split
  · rename_i heq
    exact absurd (hdigit 'x' (by simp [heq])) (by decide)
  · rename_i heq
    exact absurd (hdigit 'o' (by simp [heq])) (by decide)
  · rename_i heq
    exact absurd (hdigit 'b' (by simp [heq])) (by decide)
  · have hrange : -0x8000000000000000 ≤ (n : Int) ∧ (n : Int) < 0x8000000000000000 := by omega
    rw [sign_digits hdigit, wholePart_digits, Option.bind_some, value_digits]
    exact if_pos hrange

theorem scalar?_digits (h : n < 0x8000000000000000) : scalar? (digits n) = some (.integer n) := by
  have hdigit : ∀ c ∈ digits n, isDigit c = true := fun c => isDigit_of_mem_digits
  have htrue : digits n ≠ ['t', 'r', 'u', 'e'] := fun heq =>
    absurd (hdigit 't' (by simp [heq])) (by decide)
  have hfalse : digits n ≠ ['f', 'a', 'l', 's', 'e'] := fun heq =>
    absurd (hdigit 'f' (by simp [heq])) (by decide)
  simp [scalar?, htrue, hfalse, momentRead?_digits hdigit, isFloat_digits hdigit,
    integer?_digits h]

theorem isWordChar_of_isDigit (h : isDigit c = true) : isWordChar c = true := by
  have hall : ∀ n < 10, isWordChar (digitOf n) = true := by decide
  obtain ⟨n, hn, rfl⟩ := isDigit_iff.1 h
  exact hall n hn

/-! ## Texts of values -/

/-- The reader takes the value from the text at the end of a line, and the text does not start
with a blank. -/
structure Writes (text : List Char) (v : Value) : Prop where
  head : ∀ c ∈ text.head?, isGap c = false
  read : ∀ rest, readValue maxDepth (text ++ '\n' :: rest) = some (v, '\n' :: rest)

theorem writes_writeString (s : List Char) : Writes (writeString s) (.string s) where
  head c hc := by
    have hquote : ∀ f : Form,
        (f.write s).head? = some '\x22' ∨ (f.write s).head? = some '\x27' := by
      intro f
      cases f with
      | basic => exact Or.inl rfl
      | literal => exact Or.inr rfl
      | longBasic => exact Or.inl rfl
      | longLiteral => exact Or.inr rfl
    rcases hquote (formOf s) with hq | hq
    · rw [writeString, hq] at hc
      cases hc
      rfl
    · rw [writeString, hq] at hc
      cases hc
      rfl
  read := readValue_writeString maxDepth s

theorem writes_digits (h : n < 0x8000000000000000) : Writes (digits n) (.integer n) := by
  have hdigit : ∀ c ∈ digits n, isDigit c = true := fun c => isDigit_of_mem_digits
  constructor
  · intro c hc
    have hc := hdigit c (List.mem_of_head? hc)
    simp [isGap, ne_of_isDigit (d := ' ') hc (by decide),
      ne_of_isDigit (d := '\t') hc (by decide)]
  · intro rest
    have hword : ∀ c ∈ digits n, isWordChar c = true := fun c hc =>
      isWordChar_of_isDigit (hdigit c hc)
    have hstop : ∀ c ∈ ('\n' :: rest).head?, isWordChar c = false := by simp [isWordChar]
    have htake := takeWhile_append_of_stop hword hstop
    have hdrop := dropWhile_append_of_stop hword hstop
    have hscalar : readScalar (digits n ++ '\n' :: rest) = some (.integer n, '\n' :: rest) := by
      simp [readScalar, htake, hdrop, momentRead?_digits hdigit, scalar?_digits h]
    cases hn : digits n with
    | nil => exact absurd hn (digits_ne_nil n)
    | cons c ds =>
      have hc := hdigit c (by simp [hn])
      rw [hn, List.cons_append] at hscalar
      unfold readValue
      simp [hscalar, ne_of_isDigit (d := '\x22') hc (by decide),
        ne_of_isDigit (d := '\x27') hc (by decide), ne_of_isDigit (d := '[') hc (by decide),
        ne_of_isDigit (d := '\x7b') hc (by decide)]

/-! ## Paths of one part -/

theorem skipGap_eq (h : ∀ c ∈ s.head?, isGap c = false) : skipGap s = s := by
  cases s with
  | nil => rfl
  | cons c s => simp [skipGap, h c rfl]

/-- A key starts with none of the characters that a line without a key starts with. -/
theorem writeKey_start (key : List Char) : ∃ d tail, writeKey key = d :: tail ∧
    isGap d = false ∧ d ≠ '[' ∧ d ≠ '#' ∧ d ≠ '\n' := by
  obtain ⟨d, tail, hkey, hcases⟩ := writeKey_eq_cons key
  have hgap : isGap d = false := by
    rw [Bool.eq_false_iff]
    intro hgap
    rcases (by simpa [isGap] using hgap : d = ' ' ∨ d = '\t') with rfl | rfl
    · revert hcases
      decide
    · revert hcases
      decide
  refine ⟨d, tail, hkey, hgap, ?_, ?_, ?_⟩
  all_goals
    rintro rfl
    revert hcases
    decide

/-- A written key with neither a bare character nor a point behind it is a path of one part. -/
theorem readPath_writeKey {key : List Char} (hstop : ∀ c ∈ s.head?, isBareChar c = false)
    (hs : skipGap s = c :: r) (hpoint : c ≠ '.') :
    readPath (writeKey key ++ s) = some ([key], c :: r) := by
  obtain ⟨d, tail, hkey, hgap, -⟩ := writeKey_start key
  have hskip : skipGap (writeKey key ++ s) = writeKey key ++ s :=
    skipGap_eq (by simpa [hkey] using hgap)
  have hparts : readParts (writeKey key ++ s) = some ([key], c :: r) := by
    unfold readParts
    rw [hskip, readKey_writeKey hstop]
    simp [hs, hpoint]
  have hdepth : 1 ≤ maxDepth := by decide
  simp [readPath, hparts, hdepth]

/-! ## Lines -/

/-- Nothing is left of a line but its end. -/
theorem endLine_lineFeed (rest : List Char) : endLine ('\n' :: rest) = some rest := by
  simp [endLine, skipGap, isGap, skipComment]

theorem Writes.skipGap_eq (h : Writes text v) (rest : List Char) :
    skipGap (' ' :: (text ++ '\n' :: rest)) = text ++ '\n' :: rest := by
  have htext : skipGap (text ++ '\n' :: rest) = text ++ '\n' :: rest := by
    refine Toml.skipGap_eq fun c hc => ?_
    cases text with
    | nil =>
      cases hc
      rfl
    | cons d text => exact h.head c hc
  simpa [skipGap, isGap] using htext

/-- The line of a key and a text is read as an entry. -/
theorem readLine_writeEntry (h : Writes text v) (key rest : List Char) :
    readLine (writeEntry key text ++ rest) = some (.entry [key] v, rest) := by
  obtain ⟨d, tail, hkey, hgap, hbracket, hcomment, hline⟩ := writeKey_start key
  have hpath : readPath (writeKey key ++ ' ' :: '=' :: ' ' :: (text ++ '\n' :: rest)) =
      some ([key], '=' :: ' ' :: (text ++ '\n' :: rest)) :=
    readPath_writeKey (by simp [isBareChar]) rfl (by decide)
  have htext : writeEntry key text ++ rest =
      d :: (tail ++ ' ' :: '=' :: ' ' :: (text ++ '\n' :: rest)) := by
    simp [writeEntry, hkey]
  rw [hkey, List.cons_append] at hpath
  rw [htext]
  unfold readLine
  rw [skipGap_eq (by simpa using hgap)]
  simp [hbracket, hcomment, hline, hpath, h.skipGap_eq, h.read, endLine_lineFeed]

theorem readLines_of_readLine {l : Line} (h : readLine s = some (l, r))
    (hlt : r.length < s.length) : readLines s = (readLines r).map (l :: ·) := by
  have hne : s ≠ [] := by
    rintro rfl
    simp at hlt
  rw [readLines, if_neg hne, h]
  exact if_pos hlt

theorem readLine_lineFeed (rest : List Char) : readLine ('\n' :: rest) = some (.blank, rest) := by
  have hgap : skipGap ('\n' :: rest) = '\n' :: rest := skipGap_eq (by simp [isGap])
  simp [readLine, hgap, endLine_lineFeed]

/-- The header of a table is read as it is written. -/
theorem readLine_header (key rest : List Char) :
    readLine ('[' :: (writeKey key ++ ']' :: '\n' :: rest)) = some (.header [key], rest) := by
  have hpath : readPath (writeKey key ++ ']' :: '\n' :: rest) =
      some ([key], ']' :: '\n' :: rest) :=
    readPath_writeKey (by simp [isBareChar]) (skipGap_eq (by simp [isGap])) (by decide)
  have hgap : skipGap ('[' :: (writeKey key ++ ']' :: '\n' :: rest)) =
      '[' :: (writeKey key ++ ']' :: '\n' :: rest) := skipGap_eq (by simp [isGap])
  have hheader : readHeader [']'] (writeKey key ++ ']' :: '\n' :: rest) = some ([key], rest) := by
    simp [readHeader, hpath, List.isPrefixOf?, endLine_lineFeed]
  obtain ⟨d, tail, hkey, -, hbracket, -⟩ := writeKey_start key
  rw [hkey, List.cons_append] at hgap hheader ⊢
  unfold readLine
  rw [hgap]
  simp [hbracket, hheader]

end FactEngine.Toml
