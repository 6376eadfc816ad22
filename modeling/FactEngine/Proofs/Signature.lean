import FactEngine.Proofs.Lists
import FactEngine.Proofs.Text
import FactEngine.Signature

/-!
# Signatures and their texts

A column is well formed if its domain has a name of letters and underscores without ASCII digits,
so that the number behind it cannot be taken for a part of it. What parses is well formed
(`Signature.wellFormed_of_parse`), and a well-formed signature whose order has no blanks at its
ends is parsed from its text (`Signature.parse_text`). The default order of well-formed columns
has no blanks at all.

So a signature that was parsed, or made from columns, is what its text parses to exactly if it is
well formed (`Signature.parse_text_iff_wellFormed`).
-/

namespace FactEngine

open Text

/-! ## Columns -/

namespace Column

variable {c : Column} {token : List Char} {ch : Char}

/-- The domain of the column can be told from its number. -/
structure WellFormed (c : Column) : Prop where
  domain_ne : c.domain ≠ ""
  isName : ∀ ch ∈ c.domain.toList, isAlphanumeric ch = true ∨ ch = '_'
  no_digit : ∀ ch ∈ c.domain.toList, isDigit ch = false

theorem isNameChar_iff : isNameChar ch = true ↔ isAlphanumeric ch = true ∨ ch = '_' := by
  simp [isNameChar]

/-- A token is a name without digits, and digits that write a number of 32 bits. -/
theorem parse_eq_ok_iff : parse token = .ok c ↔ ∃ name ds, token = name ++ ds ∧ name ≠ [] ∧
    (∀ ch ∈ name, isNameChar ch = true ∧ isDigit ch = false) ∧ (∀ ch ∈ ds, isDigit ch = true) ∧
    value ds < UInt32.size ∧ c = ⟨String.ofList name, UInt32.ofNat (value ds)⟩ := by
  constructor
  · intro h
    refine ⟨token.takeWhile (!isDigit ·), token.dropWhile (!isDigit ·),
      List.takeWhile_append_dropWhile.symm, ?_⟩
    simp only [parse] at h
    split at h
    · cases h
    · rename_i hne
      split at h
      · cases h
      · rename_i hname
        split at h
        · rename_i hds
          have hname : ∀ ch ∈ token.takeWhile (!isDigit ·), isNameChar ch = true := by
            simpa using hname
          exact ⟨hne, fun ch hch => ⟨hname ch hch, by simpa using List.mem_takeWhile_imp hch⟩,
            by simpa using hds.1, hds.2, (Except.ok.inj h).symm⟩
        · cases h
  · rintro ⟨name, ds, rfl, hne, hname, hds, hlt, rfl⟩
    have hletters : ∀ ch ∈ name, (!isDigit ch) = true := by
      simpa using fun ch hch => (hname ch hch).2
    have hstop : ∀ ch ∈ ds.head?, (!isDigit ch) = false := by
      simpa using fun ch hch => hds ch (List.mem_of_head? hch)
    have htake := takeWhile_append_of_stop hletters hstop
    have hdrop := dropWhile_append_of_stop hletters hstop
    have hall : name.all isNameChar = true := List.all_eq_true.2 fun ch hch => (hname ch hch).1
    have hdigits : ds.all isDigit = true := List.all_eq_true.2 hds
    simp [parse, htake, hdrop, hne, hall, hdigits, hlt]

theorem wellFormed_of_parse (h : parse token = .ok c) : c.WellFormed := by
  obtain ⟨name, ds, -, hne, hname, -, -, rfl⟩ := parse_eq_ok_iff.1 h
  refine ⟨fun hempty => hne ?_, fun ch hch => ?_, fun ch hch => ?_⟩
  · simpa [← String.toList_inj] using hempty
  · exact isNameChar_iff.1 (hname ch (by simpa using hch)).1
  · exact (hname ch (by simpa using hch)).2

theorem toList_text (c : Column) : c.text.toList = c.domain.toList ++ digits c.number.toNat := by
  simp [text, decimal]

namespace WellFormed

theorem mem_text (h : c.WellFormed) (hch : ch ∈ c.text.toList) :
    isNameChar ch = true ∨ isDigit ch = true := by
  rw [toList_text, List.mem_append] at hch
  exact hch.imp (fun hch => isNameChar_iff.2 (h.isName ch hch)) isDigit_of_mem_digits

/-- A well-formed column is parsed from its text. -/
theorem parse_text (h : c.WellFormed) : parse c.text.toList = .ok c := by
  refine parse_eq_ok_iff.2 ⟨_, _, toList_text c, ?_, fun ch hch => ?_,
    fun ch => isDigit_of_mem_digits, ?_, ?_⟩
  · simpa using h.domain_ne
  · exact ⟨isNameChar_iff.2 (h.isName ch hch), h.no_digit ch hch⟩
  · rw [value_digits]
    exact c.number.toNat_lt_size
  · rw [value_digits, String.ofList_toList, UInt32.ofNat_toNat]

/-- Neither blanks nor the separators of signatures are in the text of a column. -/
theorem not_mem_text (h : c.WellFormed) (hch : ch ∈ c.text.toList) :
    isBlank ch = false ∧ ch ≠ ',' ∧ ch ≠ ':' := by
  rcases h.mem_text hch with hname | hdigit
  · refine ⟨?_, ?_, ?_⟩
    · rw [Bool.eq_false_iff]
      intro hblank
      rcases isNameChar_iff.1 hname with halpha | rfl
      · simp [isAlphanumeric_of_isBlank hblank] at halpha
      · exact absurd hblank (by decide)
    · rintro rfl
      exact absurd hname (by decide)
    · rintro rfl
      exact absurd hname (by decide)
  · obtain ⟨n, hn, rfl⟩ := isDigit_iff.1 hdigit
    have hall : ∀ n < 10, isBlank (digitOf n) = false ∧ digitOf n ≠ ',' ∧ digitOf n ≠ ':' := by
      decide
    exact hall n hn

end WellFormed

end Column

/-! ## Signatures -/

namespace Signature

variable {sig : Signature} {columns : List Column} {cs : List Char} {s : String}

/-- There are columns, and the domain of each can be told from its number. -/
structure WellFormed (sig : Signature) : Prop where
  columns_ne : sig.columns ≠ []
  column : ∀ c ∈ sig.columns, c.WellFormed

/-! ### Parsing -/

/-- The columns are what the pieces between the commas write, blanks around them aside. -/
theorem parseColumns_eq_ok_iff : parseColumns cs = .ok columns ↔
    List.Forall₂ (fun piece c => Column.parse (trimChars piece) = .ok c) (cs.splitOn ',')
      columns := by
  have hpiece : ∀ (token : List Char) (c : Column),
      (if token = [] then .error .emptyColumn else Column.parse token) = Except.ok c ↔
        Column.parse token = .ok c := by
    intro token c
    split
    · rename_i h
      simp [h, Column.parse]
    · rfl
  simp only [parseColumns, mapM_eq_ok_iff, List.forall₂_map_left_iff, hpiece]

/-- A signature is its columns with the order behind the colon, or else with their default order. -/
theorem parseChars_eq_ok_iff : parseChars cs = .ok sig ↔
    parseColumns (columnPart cs) = .ok sig.columns ∧
      ((orderPart cs = none ∧ sig = ofColumns sig.columns) ∨
        ∃ order, orderPart cs = some order ∧ trimChars order ≠ [] ∧
          sig.order = String.ofList (trimChars order)) := by
  obtain ⟨columns, order⟩ := sig
  unfold parseChars
  cases hc : parseColumns (columnPart cs) with
  | error e => simp
  | ok columns' =>
    cases ho : orderPart cs with
    | none =>
      simp only [Option.map_none, ofColumns, Except.ok.injEq, mk.injEq, true_and, reduceCtorEq,
        false_and, exists_false, or_false, and_congr_right_iff]
      rintro rfl
      exact eq_comm
    | some o =>
      cases ht : trimChars o with
      | nil => simp [ht]
      | cons ch o =>
        simp only [Option.map_some, ht, Except.ok.injEq, mk.injEq, reduceCtorEq, false_and,
          Option.some.injEq, exists_eq_left', ne_eq, not_false_eq_true, true_and, false_or,
          and_congr_right_iff]
        exact fun _ => eq_comm

theorem parse_eq_ok_iff : parse s = .ok sig ↔ parseChars s.toList = .ok sig := by
  unfold parse
  cases parseChars s.toList <;> simp

/-! ### What parses -/

theorem wellFormed_of_parse (h : parse s = .ok sig) : sig.WellFormed := by
  obtain ⟨hcolumns, -⟩ := parseChars_eq_ok_iff.1 (parse_eq_ok_iff.1 h)
  have hpieces := parseColumns_eq_ok_iff.1 hcolumns
  refine ⟨fun hnil => ?_, fun c hc => ?_⟩
  · rw [hnil, List.forall₂_nil_right_iff] at hpieces
    exact List.splitOn_ne_nil _ _ hpieces
  · obtain ⟨piece, hpiece⟩ := exists_of_forall₂ hpieces.flip hc
    exact Column.wellFormed_of_parse hpiece

/-- No blanks are in the default order of well-formed columns. -/
theorem isBlank_of_mem_defaultOrder (h : ∀ c ∈ columns, c.WellFormed) {ch : Char}
    (hch : ch ∈ (defaultOrder columns).toList) : isBlank ch = false := by
  rw [defaultOrder, String.toList_intercalate, List.map_map] at hch
  rcases mem_intercalate_singleton (x := 'x') hch with rfl | ⟨text, htext, hch⟩
  · decide
  · obtain ⟨c, hc, rfl⟩ := List.mem_map.1 htext
    exact ((h c hc).not_mem_text hch).1

theorem defaultOrder_ne (h : columns ≠ []) :
    defaultOrder columns ≠ "" := by
  obtain ⟨c, columns, rfl⟩ := List.exists_cons_of_ne_nil h
  have hdigits := digits_ne_nil c.number.toNat
  rw [← String.toList_inj.ne, defaultOrder, String.toList_intercalate]
  cases columns <;> simp [List.intercalate_cons_cons, Column.text, decimal, hdigits]

/-- The order is what stands behind the colon of a text, the blanks around it aside. -/
structure WrittenOrder (sig : Signature) : Prop where
  order_ne : sig.order ≠ ""
  trimmed : Trimmed sig.order.toList

theorem WellFormed.writtenOrder (h : (ofColumns columns).WellFormed) :
    (ofColumns columns).WrittenOrder :=
  ⟨defaultOrder_ne h.columns_ne,
    trimmed_of_forall fun _ => isBlank_of_mem_defaultOrder h.column⟩

theorem writtenOrder_of_parse (h : parse s = .ok sig) : sig.WrittenOrder := by
  obtain ⟨-, ⟨-, hsig⟩ | ⟨order, -, hne, horder⟩⟩ := parseChars_eq_ok_iff.1 (parse_eq_ok_iff.1 h)
  · have hwf := wellFormed_of_parse h
    rw [hsig] at hwf ⊢
    exact hwf.writtenOrder
  · constructor
    · simpa [horder, ← String.toList_inj] using hne
    · simpa [horder] using trimmed_trimChars order

/-! ### Texts -/

theorem toList_text (sig : Signature) : sig.text.toList =
    [','].intercalate (sig.columns.map fun c => c.text.toList) ++ ':' :: sig.order.toList := by
  simp [text, String.toList_intercalate, Function.comp_def]

theorem WellFormed.not_mem_columns (h : sig.WellFormed) :
    ':' ∉ [','].intercalate (sig.columns.map fun c => c.text.toList) := by
  intro hmem
  rcases mem_intercalate_singleton hmem with heq | ⟨text, htext, hch⟩
  · exact absurd heq (by decide)
  · obtain ⟨c, hc, rfl⟩ := List.mem_map.1 htext
    exact ((h.column c hc).not_mem_text hch).2.2 rfl

theorem WellFormed.parseColumns_text (h : sig.WellFormed) :
    parseColumns ([','].intercalate (sig.columns.map fun c => c.text.toList)) =
      .ok sig.columns := by
  rw [parseColumns_eq_ok_iff, List.splitOn_intercalate, List.forall₂_map_left_iff,
    List.forall₂_same]
  · intro c hc
    have htrimmed := trimmed_of_forall fun ch hch => ((h.column c hc).not_mem_text hch).1
    rw [htrimmed.trimChars_eq]
    exact (h.column c hc).parse_text
  · rintro _ htext hch
    obtain ⟨c, hc, rfl⟩ := List.mem_map.1 htext
    exact ((h.column c hc).not_mem_text hch).2.1 rfl
  · simpa using h.columns_ne

/-- A well-formed signature with an order that can stand behind the colon is parsed from its
text. -/
theorem WellFormed.parse_text (h : sig.WellFormed) (horder : sig.WrittenOrder) :
    parse sig.text = .ok sig := by
  have hnot := h.not_mem_columns
  have hall : ∀ ch ∈ [','].intercalate (sig.columns.map fun c => c.text.toList),
      decide (ch ≠ ':') = true :=
    fun ch hch => by simpa using ne_of_mem_of_not_mem hch hnot
  have hstop : ∀ ch ∈ (':' :: sig.order.toList).head?, decide (ch ≠ ':') = false := by simp
  have hcolumns : columnPart sig.text.toList =
      [','].intercalate (sig.columns.map fun c => c.text.toList) := by
    rw [toList_text, columnPart, takeWhile_append_of_stop hall hstop]
  have hrest : orderPart sig.text.toList = some sig.order.toList := by
    rw [toList_text, orderPart, dropWhile_append_of_stop hall hstop]
  rw [parse_eq_ok_iff, parseChars_eq_ok_iff, hcolumns]
  refine ⟨h.parseColumns_text, Or.inr ⟨_, hrest, ?_⟩⟩
  rw [horder.trimmed.trimChars_eq]
  exact ⟨by simpa using horder.order_ne, String.ofList_toList.symm⟩

/-! ### Reading back -/

/-- How signatures come about. -/
inductive Made : Signature → Prop where
  | parsed {s : String} {sig : Signature} (h : parse s = .ok sig) : Made sig
  | ofColumns (columns : List Column) : Made (.ofColumns columns)
  | unary (domain : String) : Made (.unary domain)

theorem Made.writtenOrder (h : sig.Made) (hwf : sig.WellFormed) : sig.WrittenOrder := by
  cases h with
  | parsed h => exact writtenOrder_of_parse h
  | ofColumns columns => exact hwf.writtenOrder
  | unary domain => exact hwf.writtenOrder

/-- A signature that was parsed, or made from columns, is what its text parses to exactly if it has
columns and their domains have names of letters, digits of other scripts and underscores. All
that parses is of this kind, so texts that parse and are printed alike mean the same. -/
theorem parse_text_iff_wellFormed :
    (∀ sig : Signature, sig.Made → (parse sig.text = .ok sig ↔ sig.WellFormed)) ∧
    (∀ s sig, parse s = .ok sig → sig.WellFormed ∧ parse sig.text = .ok sig) ∧
    (∀ s sig s' sig', parse s = .ok sig → parse s' = .ok sig' → sig.text = sig'.text →
      sig = sig') := by
  have hback : ∀ s sig, parse s = .ok sig → parse sig.text = .ok sig :=
    fun s sig h => (wellFormed_of_parse h).parse_text (writtenOrder_of_parse h)
  refine ⟨fun sig hmade => ⟨wellFormed_of_parse, fun h => h.parse_text (hmade.writtenOrder h)⟩,
    fun s sig h => ⟨wellFormed_of_parse h, hback s sig h⟩, fun s sig s' sig' h h' htext => ?_⟩
  have heq := hback s sig h
  rw [htext, hback s' sig' h'] at heq
  exact (Except.ok.inj heq).symm

/-- An order may hold the separators, and a number in front of it any zeros. -/
example : parse " m_٣ , T007:\tT:x,y " = .ok ⟨[⟨"m_٣", 0⟩, ⟨"T", 7⟩], "T:x,y"⟩ ∧
    (⟨[⟨"m_٣", 0⟩, ⟨"T", 7⟩], "T:x,y"⟩ : Signature).text = "m_٣0,T7:T:x,y" := by
  decide +kernel

/-- A digit in the name of a domain is taken for one of the number. -/
example : parse (ofColumns [⟨"T1", 0⟩]).text = .ok (ofColumns [⟨"T", 10⟩]) := by
  decide +kernel

end Signature

end FactEngine
