import FactEngine.Proofs.Lists
import FactEngine.Toml.Writer
import Mathlib.Tactic.SplitIfs

/-!
# Strings and keys read back

A form shows a text if its quotes, and for single quotes its characters, allow it (`Form.Shows`).
The form that the writer takes shows the text (`shows_formOf`), and from a form that shows a text
the reader takes the text again (`readValue_write`), whatever follows on the next line. The same
goes for keys (`readKey_writeKey`).

Both readers of double quotes undo escapes in the same way, which `Unescapes` says once. In the
long forms a quote of the content is told from the closing ones by what follows it : the writer
never leaves two more quotes behind a quote unless they belong to the closing ones, and then the
reader takes the quotes right before the last three as content (`twoQuotes_body`).
-/

namespace FactEngine.Toml

variable {c q : Char} {s r rest body : List Char} {n : Nat}

/-! ## Escapes -/

theorem hexDigit?_hexDigitOf : ∀ n < 16, hexDigit? (hexDigitOf n) = some n := by
  decide

theorem toNat_lt_of_isControl (h : isControl c = true) : c.toNat < 128 := by
  simp only [isControl, Bool.or_eq_true, Bool.and_eq_true, decide_eq_true_eq] at h
  omega

theorem character?_toNat (h : isControl c = true) : character? c.toNat = some c := by
  have := toNat_lt_of_isControl h
  rw [character?, if_pos (Or.inl (by omega)), Char.ofNat_toNat]

/-- Between double quotes a character is written by a letter behind a backslash, by its number,
or as it is. -/
theorem escaped_cases (c : Char) :
    (∃ e, escaped c = ['\\', e] ∧ escape e = .character c) ∨
      (isControl c = true ∧ escaped c = numbered c) ∨
      (escaped c = [c] ∧ isControl c = false ∧ c ≠ '\x22' ∧ c ≠ '\\') := by
  unfold escaped
  split_ifs with hb ht hn hf hr hq hs hc
  · exact Or.inl ⟨'b', rfl, by rw [hb]; rfl⟩
  · exact Or.inl ⟨'t', rfl, by rw [ht]; rfl⟩
  · exact Or.inl ⟨'n', rfl, by rw [hn]; rfl⟩
  · exact Or.inl ⟨'f', rfl, by rw [hf]; rfl⟩
  · exact Or.inl ⟨'r', rfl, by rw [hr]; rfl⟩
  · exact Or.inl ⟨'\x22', rfl, by rw [hq]; rfl⟩
  · exact Or.inl ⟨'\\', rfl, by rw [hs]; rfl⟩
  · exact Or.inr (Or.inl ⟨hc, rfl⟩)
  · exact Or.inr (Or.inr ⟨rfl, by simpa using hc, hq, hs⟩)

/-- A reader takes characters as they are, and escapes for the characters they write. -/
structure Unescapes (read : Pending → List Char → Option (List Char × List Char)) : Prop where
  plain : ∀ c r, isControl c = false → c ≠ '\x22' → c ≠ '\\' →
    read .content (c :: r) = push c (read .content r)
  backslash : ∀ r, read .content ('\\' :: r) = read .backslash r
  character : ∀ e c r, escape e = .character c → read .backslash (e :: r) = push c (read .content r)
  number : ∀ e n r, escape e = .number n → read .backslash (e :: r) = read (.number (n - 1) 0) r
  digit : ∀ e d left n r, hexDigit? e = some d →
    read (.number (left + 1) n) (e :: r) = read (.number left (n * 16 + d)) r
  lastDigit : ∀ e d n x r, hexDigit? e = some d → character? (n * 16 + d) = some x →
    read (.number 0 n) (e :: r) = push x (read .content r)

theorem unescapes_readBasic : Unescapes readBasic where
  plain c r hc hq hs := by simp [readBasic, hc, hq, hs]
  backslash r := by simp [readBasic]
  character e c r he := by simp [readBasic, he]
  number e n r he := by simp [readBasic, he]
  digit e d left n r he := by simp [readBasic, he]
  lastDigit e d n x r he hx := by simp [readBasic, he, hx]

/-- No blank and no line feed starts an escape. -/
theorem isGap_of_escape {e : Char} (h : escape e ≠ .unknown) : isGap e = false ∧ e ≠ '\n' := by
  constructor
  · rw [Bool.eq_false_iff]
    intro hgap
    rcases (by simpa [isGap] using hgap : e = ' ' ∨ e = '\t') with rfl | rfl
    · exact h rfl
    · exact h rfl
  · rintro rfl
    exact h rfl

theorem unescapes_readLongBasic : Unescapes readLongBasic where
  plain c r hc hq hs := by simp [readLongBasic, hc, hq, hs]
  backslash r := by simp [readLongBasic]
  character e c r he := by
    have := isGap_of_escape (e := e) (by simp [he])
    simp [readLongBasic, he, this]
  number e n r he := by
    have := isGap_of_escape (e := e) (by simp [he])
    simp [readLongBasic, he, this]
  digit e d left n r he := by simp [readLongBasic, he]
  lastDigit e d n x r he hx := by simp [readLongBasic, he, hx]

namespace Unescapes

variable {read : Pending → List Char → Option (List Char × List Char)}

theorem numbered (h : Unescapes read) (hc : isControl c = true) :
    read .content (numbered c ++ r) = push c (read .content r) := by
  have hlt := toNat_lt_of_isControl hc
  have hhigh := hexDigit?_hexDigitOf (c.toNat / 16) (by omega)
  have hlow := hexDigit?_hexDigitOf (c.toNat % 16) (by omega)
  have hsum : ((0 * 16 + 0) * 16 + 0 + c.toNat / 16) * 16 + c.toNat % 16 = c.toNat := by omega
  calc read .content (Toml.numbered c ++ r)
      = read (.number 3 0)
          ('0' :: '0' :: hexDigitOf (c.toNat / 16) :: hexDigitOf (c.toNat % 16) :: r) := by
        rw [Toml.numbered, List.cons_append, h.backslash, List.cons_append, h.number 'u' 4 _ rfl]
        rfl
    _ = push c (read .content r) := by
        rw [h.digit '0' 0 2 0 _ rfl, h.digit '0' 0 1 _ _ rfl, h.digit _ _ 0 _ _ hhigh,
          h.lastDigit _ _ _ c _ hlow]
        simpa [Nat.div_add_mod'] using character?_toNat hc

/-- Reading undoes escaping. -/
theorem escaped (h : Unescapes read) (c : Char) (r : List Char) :
    read .content (escaped c ++ r) = push c (read .content r) := by
  rcases escaped_cases c with ⟨e, hwritten, he⟩ | ⟨hc, hwritten⟩ | ⟨hwritten, hc, hq, hs⟩
  · rw [hwritten, List.cons_append, h.backslash]
    exact h.character e c r he
  · rw [hwritten]
    exact h.numbered hc
  · rw [hwritten]
    exact h.plain c r hc hq hs

end Unescapes

theorem head?_escaped (c : Char) : ∃ d, (escaped c).head? = some d ∧ (d = c ∨ d = '\\') ∧
    d ≠ '\x22' := by
  rcases escaped_cases c with ⟨e, hwritten, -⟩ | ⟨-, hwritten⟩ | ⟨hwritten, -, hq, -⟩
  · exact ⟨'\\', by simp [hwritten], Or.inr rfl, by decide⟩
  · exact ⟨'\\', by simp [hwritten, numbered], Or.inr rfl, by decide⟩
  · exact ⟨c, by simp [hwritten], Or.inl rfl, hq⟩

/-! ## Strings of one line -/

theorem readBasic_escaped (s rest : List Char) :
    readBasic .content (s.flatMap escaped ++ '\x22' :: rest) = some (s, rest) := by
  induction s with
  | nil => simp [readBasic]
  | cons c s ih =>
    rw [List.flatMap_cons, List.append_assoc, unescapes_readBasic.escaped, ih]
    rfl

theorem readLiteral_append (h : ∀ c ∈ s, c ≠ '\x27' ∧ isControl c = false) (rest : List Char) :
    readLiteral (s ++ '\x27' :: rest) = some (s, rest) := by
  induction s with
  | nil => simp [readLiteral]
  | cons c s ih =>
    have hc := h c List.mem_cons_self
    have hs := ih fun d hd => h d (List.mem_cons_of_mem c hd)
    simp [readLiteral, hc, hs, push]

/-! ## Quotes in front of the closing ones -/

theorem twoQuotes_of_head?_ne (h : s.head? ≠ some q) : twoQuotes q s = none := by
  match s with
  | [] => rfl
  | [a] => rfl
  | a :: b :: r =>
    have ha : a ≠ q := by simpa using h
    simp [twoQuotes, ha]

theorem closing_of_head?_ne (h : rest.head? ≠ some q) : closing q rest = ([], rest) := by
  match rest with
  | [] => rfl
  | [a] =>
    have ha : a ≠ q := by simpa using h
    simp [closing, ha]
  | a :: b :: r =>
    have ha : a ≠ q := by simpa using h
    simp [closing, ha]

theorem hasTriple_of_cons (h : hasTriple q (c :: s) = false) : hasTriple q s = false := by
  match s with
  | [] => rfl
  | [a] => rfl
  | a :: b :: r =>
    rw [hasTriple, Bool.or_eq_false_iff] at h
    exact h.2

/-- A text that does not start with two quotes hides them until the closing quotes, unless it
is at most one quote; then they close the string, and what was read is the text and the quote
in front of it. -/
theorem twoQuotes_body (h : ∀ r, body ≠ q :: q :: r) (hrest : rest.head? ≠ some q) :
    twoQuotes q (body ++ q :: q :: q :: rest) = none ∨
      ∃ r, (body = [] ∨ body = [q]) ∧ twoQuotes q (body ++ q :: q :: q :: rest) = some r ∧
        closing q r = (q :: body, rest) := by
  match body with
  | [] =>
    refine Or.inr ⟨q :: rest, Or.inl rfl, by simp [twoQuotes], ?_⟩
    match rest with
    | [] => simp [closing]
    | a :: r =>
      have ha : a ≠ q := by simpa using hrest
      simp [closing, ha]
  | [a] =>
    by_cases ha : a = q
    · subst ha
      exact Or.inr ⟨a :: a :: rest, Or.inr rfl, by simp [twoQuotes], by simp [closing]⟩
    · exact Or.inl (twoQuotes_of_head?_ne (by simpa using ha))
  | a :: b :: r =>
    have hab : ¬(a = q ∧ b = q) := by
      rintro ⟨rfl, rfl⟩
      exact h r rfl
    exact Or.inl (by simp [twoQuotes, hab])

/-! ## Strings that may hold line feeds -/

/-- What is not a quote is written in the same way wherever it stands. -/
theorem escapedLong_cons_of_ne (hq : c ≠ '\x22') : ∃ t, (∀ n s, escapedLong n (c :: s) =
    t ++ escapedLong 0 s) ∧ (∃ d, t.head? = some d ∧ d ≠ '\x22' ∧ (d = c ∨ d = '\\')) ∧
    ∀ r, readLongBasic .content (t ++ r) = push c (readLongBasic .content r) := by
  by_cases hline : c = '\n'
  · subst hline
    refine ⟨['\n'], fun n s => ?_, ⟨'\n', rfl, by decide, Or.inl rfl⟩, fun r => ?_⟩
    · simp [escapedLong]
    · simp [readLongBasic]
  · obtain ⟨d, hd, hcases, hne⟩ := head?_escaped c
    refine ⟨escaped c, fun n s => ?_, ⟨d, hd, hne, hcases⟩, unescapes_readLongBasic.escaped c⟩
    simp [escapedLong, hq, hline]

theorem escapedLong_quote (hn : n ≠ 2) (s : List Char) :
    escapedLong n ('\x22' :: s) = '\x22' :: escapedLong (n + 1) s := by
  simp [escapedLong, hn]

theorem escapedLong_third (s : List Char) :
    escapedLong 2 ('\x22' :: s) = '\\' :: '\x22' :: escapedLong 0 s := by
  simp [escapedLong]

theorem escapedLong_ne_of_ne (hq : c ≠ '\x22') (n : Nat) (s r : List Char) :
    escapedLong n (c :: s) ≠ '\x22' :: r := by
  obtain ⟨t, ht, ⟨d, hd, hne, -⟩, -⟩ := escapedLong_cons_of_ne hq
  intro h
  have hhead := congrArg List.head? h
  rw [ht, List.head?_append, hd, Option.some_or, List.head?_cons] at hhead
  exact hne (Option.some.inj hhead)

/-- Behind two quotes the third is escaped. -/
theorem escapedLong_two_ne (s r : List Char) : escapedLong 2 s ≠ '\x22' :: r := by
  cases s with
  | nil => simp [escapedLong]
  | cons c s =>
    by_cases hq : c = '\x22'
    · simp [hq, escapedLong_third]
    · exact escapedLong_ne_of_ne hq 2 s r

/-- Behind a quote no two quotes stand for themselves. -/
theorem escapedLong_succ_ne (hn : n < 2) (s r : List Char) :
    escapedLong (n + 1) s ≠ '\x22' :: '\x22' :: r := by
  obtain rfl | rfl : n = 0 ∨ n = 1 := by omega
  · cases s with
    | nil => simp [escapedLong]
    | cons c s =>
      by_cases hq : c = '\x22'
      · rw [hq, escapedLong_quote (by decide)]
        exact fun h => escapedLong_two_ne s r (List.cons.inj h).2
      · exact escapedLong_ne_of_ne hq 1 s _
  · exact escapedLong_two_ne s _

theorem eq_nil_of_escapedLong (h : escapedLong n s = []) : s = [] := by
  cases s with
  | nil => rfl
  | cons c s =>
    by_cases hq : c = '\x22'
    · unfold escapedLong at h
      split at h
      · split at h <;> cases h
      · contradiction
    · obtain ⟨t, ht, ⟨d, hd, -⟩, -⟩ := escapedLong_cons_of_ne hq
      rw [ht, List.append_eq_nil_iff] at h
      simp [h.1] at hd

theorem eq_quote_of_escapedLong (h : escapedLong n s = ['\x22']) : s = ['\x22'] := by
  cases s with
  | nil => cases h
  | cons c s =>
    by_cases hq : c = '\x22'
    · subst hq
      by_cases hn : n = 2
      · rw [hn, escapedLong_third] at h
        cases h
      · rw [escapedLong_quote hn, List.cons.injEq] at h
        rw [eq_nil_of_escapedLong h.2]
    · exact absurd h (escapedLong_ne_of_ne hq n s [])

theorem readLongBasic_escapedLong (hn : n ≤ 2) (hrest : rest.head? ≠ some '\x22') :
    readLongBasic .content (escapedLong n s ++ '\x22' :: '\x22' :: '\x22' :: rest) =
      some (s, rest) := by
  induction s generalizing n with
  | nil => simp [escapedLong, readLongBasic, twoQuotes, closing_of_head?_ne hrest]
  | cons c s ih =>
    by_cases hq : c = '\x22'
    · subst hq
      by_cases h2 : n = 2
      · rw [h2, escapedLong_third, List.cons_append, unescapes_readLongBasic.backslash,
          List.cons_append, unescapes_readLongBasic.character _ '\x22' _ rfl, ih (by omega)]
        rfl
      · rw [escapedLong_quote h2, List.cons_append]
        -- Either the closing quotes are still ahead, or they are the next ones.
        have hbody := escapedLong_succ_ne (n := n) (by omega) s
        rcases twoQuotes_body hbody hrest with hnone | ⟨r, hs, hsome, hr⟩
        · simp [readLongBasic, hnone, ih (n := n + 1) (by omega), push]
        · have hs : s = escapedLong (n + 1) s := by
            rcases hs with hs | hs
            · rw [hs, eq_nil_of_escapedLong hs]
            · rw [hs, eq_quote_of_escapedLong hs]
          rw [← hs] at hsome hr ⊢
          simp [readLongBasic, hsome, hr]
    · obtain ⟨t, ht, -, hread⟩ := escapedLong_cons_of_ne hq
      rw [ht, List.append_assoc, hread, ih (by omega)]
      rfl

theorem readLongLiteral_append (hs : ∀ c ∈ s, isControl c = true → c = '\n')
    (htriple : hasTriple '\x27' s = false) (hrest : rest.head? ≠ some '\x27') :
    readLongLiteral (s ++ '\x27' :: '\x27' :: '\x27' :: rest) = some (s, rest) := by
  induction s with
  | nil => simp [readLongLiteral, twoQuotes, closing_of_head?_ne hrest]
  | cons c s ih =>
    have hs' := fun d hd => hs d (List.mem_cons_of_mem c hd)
    have ih := ih hs' (hasTriple_of_cons htriple)
    by_cases hq : c = '\x27'
    · subst hq
      have hbody : ∀ r, s ≠ '\x27' :: '\x27' :: r := by
        rintro r rfl
        simp [hasTriple] at htriple
      rcases twoQuotes_body hbody hrest with hnone | ⟨r, -, hsome, hr⟩
      · simp [readLongLiteral, hnone, ih, push]
      · simp [readLongLiteral, hsome, hr]
    · have hc := hs c List.mem_cons_self
      simpa [readLongLiteral, hq, ih, push] using hc

/-! ## Forms -/

namespace Form

/-- The characters and the quotes of a form allow a text. -/
def Shows (s : List Char) : Form → Prop
  | basic => True
  | literal => s ≠ [] ∧ ∀ c ∈ s, c ≠ '\x27' ∧ isControl c = false
  | longBasic => True
  | longLiteral => (∀ c ∈ s, isControl c = true → c = '\n') ∧ hasTriple '\x27' s = false

end Form

theorem hasControl_eq_false_iff :
    hasControl s = false ↔ ∀ c ∈ s, isControl c = true → c = '\n' := by
  simp [hasControl]

/-- The writer takes a form that shows the text. -/
theorem shows_formOf (s : List Char) : (formOf s).Shows s := by
  unfold formOf
  split_ifs with hbasic hliteral hlong hlongLiteral hline
  · trivial
  · obtain ⟨hcontrol, hquote, hline⟩ := hliteral
    have hcontrol := hasControl_eq_false_iff.1 (by simpa using hcontrol)
    refine ⟨?_, fun c hc => ⟨?_, ?_⟩⟩
    · rintro rfl
      simp [hasControl] at hbasic
    · rintro rfl
      exact hquote hc
    · rw [Bool.eq_false_iff]
      intro h
      exact hline (hcontrol c hc h ▸ hc)
  · trivial
  · exact ⟨hasControl_eq_false_iff.1 (by simpa using hlongLiteral.1),
      by simpa using hlongLiteral.2⟩
  · trivial
  · trivial

/-- The line feed in front of a long form is skipped, and nothing else is. -/
theorem skipLineFeed_leadingLineFeed (h : '\n' ∉ s → r.head? ≠ some '\n') :
    skipLineFeed (leadingLineFeed s ++ r) = r := by
  unfold leadingLineFeed
  split
  · simp [skipLineFeed]
  · rename_i hline
    cases r with
    | nil => rfl
    | cons c r =>
      have hc : c ≠ '\n' := by simpa using h hline
      simp [skipLineFeed, hc]

theorem head?_escapedLong_append (h : '\n' ∉ s) :
    (escapedLong n s ++ '\x22' :: r).head? ≠ some '\n' := by
  cases s with
  | nil => simp [escapedLong]
  | cons c s =>
    by_cases hq : c = '\x22'
    · subst hq
      unfold escapedLong
      split
      · split <;> simp
      · contradiction
    · obtain ⟨t, ht, ⟨d, hd, -, hcases⟩, -⟩ := escapedLong_cons_of_ne hq
      rw [ht, List.append_assoc, List.head?_append, hd]
      rcases hcases with rfl | rfl
      · have hline : d ≠ '\n' := by
          rintro rfl
          exact h List.mem_cons_self
        simpa using hline
      · simp

theorem readString_basic (s rest : List Char) :
    readString '\x22' (s.flatMap escaped ++ '\x22' :: '\n' :: rest) = some (s, '\n' :: rest) := by
  have hquotes : twoQuotes '\x22' (s.flatMap escaped ++ '\x22' :: '\n' :: rest) = none := by
    cases s with
    | nil => simp [twoQuotes]
    | cons c s =>
      refine twoQuotes_of_head?_ne ?_
      obtain ⟨d, hd, -, hne⟩ := head?_escaped c
      simpa [List.head?_append, hd] using hne
  simp [readString, hquotes, readBasic_escaped]

theorem readString_literal (h : Form.literal.Shows s) (rest : List Char) :
    readString '\x27' (s ++ '\x27' :: '\n' :: rest) = some (s, '\n' :: rest) := by
  obtain ⟨hne, hs⟩ := h
  have hquotes : twoQuotes '\x27' (s ++ '\x27' :: '\n' :: rest) = none := by
    cases s with
    | nil => contradiction
    | cons c s => exact twoQuotes_of_head?_ne (by simpa using (hs c List.mem_cons_self).1)
  simp [readString, hquotes, readLiteral_append hs]

theorem readString_longBasic (s rest : List Char) :
    readString '\x22' ('\x22' :: '\x22' :: (leadingLineFeed s ++ (escapedLong 0 s ++
      '\x22' :: '\x22' :: '\x22' :: '\n' :: rest))) = some (s, '\n' :: rest) := by
  simpa [readString, twoQuotes, skipLineFeed_leadingLineFeed head?_escapedLong_append] using
    readLongBasic_escapedLong (by omega) (by simp)

theorem readString_longLiteral (h : Form.longLiteral.Shows s) (rest : List Char) :
    readString '\x27' ('\x27' :: '\x27' :: (leadingLineFeed s ++ (s ++
      '\x27' :: '\x27' :: '\x27' :: '\n' :: rest))) = some (s, '\n' :: rest) := by
  have hline : '\n' ∉ s → (s ++ '\x27' :: '\x27' :: '\x27' :: '\n' :: rest).head? ≠
      some '\n' := by
    cases s with
    | nil => simp
    | cons c s =>
      rw [List.mem_cons, not_or]
      simpa [eq_comm] using fun hc _ => hc
  simpa [readString, twoQuotes, skipLineFeed_leadingLineFeed hline] using
    readLongLiteral_append h.1 h.2 (by simp)

theorem readValue_quote (hq : c = '\x22' ∨ c = '\x27') (depth : Nat) (r : List Char) :
    readValue depth (c :: r) = (readString c r).map fun p => (.string p.1, p.2) := by
  unfold readValue
  exact if_pos hq

/-- From a form that shows a text, the reader takes the text up to the end of the line. -/
theorem readValue_write {f : Form} (h : f.Shows s) (depth : Nat) (rest : List Char) :
    readValue depth (f.write s ++ '\n' :: rest) = some (.string s, '\n' :: rest) := by
  cases f with
  | basic => simp [Form.write, readValue_quote, readString_basic]
  | literal => simp [Form.write, readValue_quote, readString_literal h]
  | longBasic => simp [Form.write, readValue_quote, readString_longBasic]
  | longLiteral => simp [Form.write, readValue_quote, readString_longLiteral h]

theorem readValue_writeString (depth : Nat) (s rest : List Char) :
    readValue depth (writeString s ++ '\n' :: rest) = some (.string s, '\n' :: rest) :=
  readValue_write (shows_formOf s) depth rest

example : writeString ['\x22', '\x27'] = "\"\"\"\"'\"\"\"".toList := by decide

/-! ## Keys -/

theorem quotes_of_isBareChar (h : isBareChar c = true) : c ≠ '\x22' ∧ c ≠ '\x27' := by
  constructor
  · rintro rfl
    exact absurd h (by decide)
  · rintro rfl
    exact absurd h (by decide)

/-- A key is written bare, or in a form of one line that shows it. -/
theorem writeKey_cases (s : List Char) :
    (s ≠ [] ∧ (∀ c ∈ s, isBareChar c = true) ∧ writeKey s = s) ∨
      writeKey s = Form.basic.write s ∨
      (Form.literal.Shows s ∧ writeKey s = Form.literal.write s) := by
  unfold writeKey
  split_ifs with hbare hbasic hliteral
  · exact Or.inl ⟨hbare.1, List.all_eq_true.1 hbare.2, rfl⟩
  · exact Or.inr (Or.inl rfl)
  · obtain ⟨hcontrol, hquote⟩ := hliteral
    refine Or.inr (Or.inr ⟨⟨?_, fun c hc => ⟨?_, ?_⟩⟩, rfl⟩)
    · rintro rfl
      simp at hbasic
    · rintro rfl
      exact hquote hc
    · simpa using List.any_eq_false.1 (by simpa using hcontrol) c hc
  · exact Or.inr (Or.inl rfl)

/-- The key is read up to the first character that cannot belong to a bare key. -/
theorem readKey_writeKey (hstop : ∀ c ∈ r.head?, isBareChar c = false) :
    readKey (writeKey s ++ r) = some (s, r) := by
  rcases writeKey_cases s with ⟨hne, hall, hwritten⟩ | hwritten | ⟨hshows, hwritten⟩
  · have htake := takeWhile_append_of_stop hall hstop
    have hdrop := dropWhile_append_of_stop hall hstop
    cases s with
    | nil => contradiction
    | cons c s =>
      have hc := hall c List.mem_cons_self
      have hquotes := quotes_of_isBareChar hc
      rw [List.cons_append] at htake hdrop
      rw [hwritten, List.cons_append]
      simp only [readKey, hquotes, hc, htake, hdrop, if_true, if_false]
  · simp [hwritten, Form.write, readKey, readBasic_escaped]
  · simp [hwritten, Form.write, readKey, readLiteral_append hshows.2]

/-- A key starts with a quote or with a character of bare keys. -/
theorem writeKey_eq_cons (s : List Char) : ∃ c r, writeKey s = c :: r ∧
    (c = '\x22' ∨ c = '\x27' ∨ isBareChar c = true) := by
  rcases writeKey_cases s with ⟨hne, hall, hwritten⟩ | hwritten | ⟨-, hwritten⟩
  · cases s with
    | nil => contradiction
    | cons c s => exact ⟨c, s, hwritten, Or.inr (Or.inr (hall c List.mem_cons_self))⟩
  · exact ⟨'\x22', _, hwritten, Or.inl rfl⟩
  · exact ⟨'\x27', _, hwritten, Or.inr (Or.inl rfl)⟩

/-! ## Carriage returns -/

theorem return_not_mem_escaped (c : Char) : '\r' ∉ escaped c := by
  rcases escaped_cases c with ⟨e, hwritten, he⟩ | ⟨hc, hwritten⟩ | ⟨hwritten, hc, -⟩
  · rw [hwritten]
    intro h
    obtain rfl : '\r' = e := by simpa using h
    cases he
  · have hdigit : ∀ n < 16, '\r' ≠ hexDigitOf n := by decide
    have hlt := toNat_lt_of_isControl hc
    rw [hwritten]
    simp [numbered, hdigit (c.toNat / 16) (by omega), hdigit (c.toNat % 16) (by omega)]
  · rw [hwritten]
    intro h
    obtain rfl : '\r' = c := by simpa using h
    cases hc

theorem return_not_mem_escapedLong (n : Nat) (s : List Char) : '\r' ∉ escapedLong n s := by
  induction s generalizing n with
  | nil => simp [escapedLong]
  | cons c s ih =>
    unfold escapedLong
    split_ifs with hq h2 hline
    · simp [hq, ih]
    · simp [hq, ih]
    · simp [hline, ih]
    · simp [return_not_mem_escaped, ih]

theorem return_not_mem_write {f : Form} (h : f.Shows s) : '\r' ∉ f.write s := by
  have hleading : '\r' ∉ leadingLineFeed s := by
    unfold leadingLineFeed
    split <;> simp
  cases f with
  | basic => simp [Form.write, return_not_mem_escaped]
  | literal =>
    have hs : '\r' ∉ s := fun hr => absurd (h.2 _ hr).2 (by decide)
    simp [Form.write, hs]
  | longBasic => simp [Form.write, hleading, return_not_mem_escapedLong]
  | longLiteral =>
    have hs : '\r' ∉ s := fun hr => absurd (h.1 _ hr (by decide)) (by decide)
    simp [Form.write, hleading, hs]

theorem return_not_mem_writeString (s : List Char) : '\r' ∉ writeString s :=
  return_not_mem_write (shows_formOf s)

theorem return_not_mem_writeKey (s : List Char) : '\r' ∉ writeKey s := by
  rcases writeKey_cases s with ⟨-, hall, hwritten⟩ | hwritten | ⟨hshows, hwritten⟩
  · rw [hwritten]
    exact fun h => absurd (hall _ h) (by decide)
  · rw [hwritten]
    exact return_not_mem_write (f := .basic) trivial
  · rw [hwritten]
    exact return_not_mem_write hshows

end FactEngine.Toml
