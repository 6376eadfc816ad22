import FactEngine.Proofs.NameLists
import FactEngine.Proofs.Signature

/-!
# The grammar of signatures

A text is cut at its first colon (`Cut`), and the part in front of it at every comma (`Pieces`).
A piece spells a column if it is, blanks around it aside, a name without ASCII digits and then
ASCII digits that write a number of 32 bits (`Column.Spells`).

These are relations between texts and say nothing of how a text is read. Reading accepts a text
exactly if every piece spells a column and the order behind the colon is not blank, and then it
gives what is spelled (`Signature.parse_follows_grammar`).
-/

namespace FactEngine

open Text

/-! ## Columns -/

namespace Column

/-- The piece is, without the blanks around it, a name of letters, numbers and underscores that
has no ASCII digit, and a numeral of 32 bits, which may be empty. -/
structure Spells (piece name ds : List Char) : Prop where
  stripped : Strips piece (name ++ ds)
  name_ne : name ≠ []
  isName : ∀ ch ∈ name, isAlphanumeric ch = true ∨ ch = '_'
  no_digit : ∀ ch ∈ name, isDigit ch = false
  isDigit : ∀ ch ∈ ds, isDigit ch = true
  numeral_le : numeral ds ≤ 4294967295

variable {piece name ds : List Char} {c : Column}

/-- What a column is called and numbered like is spelled by the piece it is read from. -/
theorem parse_trimChars_eq_ok_iff : parse (trimChars piece) = .ok c ↔
    ∃ ds, Spells piece c.domain.toList ds ∧ c.number.toNat = numeral ds := by
  rw [parse_eq_ok_iff]
  constructor
  · rintro ⟨name, ds, happend, hne, hname, hds, hlt, rfl⟩
    have hstripped := strips_trimChars piece
    rw [happend] at hstripped
    rw [value_eq_numeral] at hlt
    simp only [String.toList_ofList]
    refine ⟨ds, ⟨hstripped, hne, fun ch hch => isNameChar_iff.1 (hname ch hch).1,
      fun ch hch => (hname ch hch).2, hds, Nat.le_of_lt_succ hlt⟩, ?_⟩
    rw [value_eq_numeral, UInt32.toNat_ofNat_of_lt' hlt]
  · rintro ⟨ds, h, hnumber⟩
    refine ⟨c.domain.toList, ds, h.stripped.eq_trimChars.symm, h.name_ne,
      fun ch hch => ⟨isNameChar_iff.2 (h.isName ch hch), h.no_digit ch hch⟩, h.isDigit, ?_, ?_⟩
    · rw [value_eq_numeral]
      exact Nat.lt_succ_of_le h.numeral_le
    · rw [value_eq_numeral, ← hnumber, UInt32.ofNat_toNat, String.ofList_toList]

/-- A piece that spells a name and a numeral is read as a column. -/
theorem Spells.exists_column (h : Spells piece name ds) :
    ∃ c, parse (trimChars piece) = .ok c := by
  refine ⟨⟨String.ofList name, .ofNat (numeral ds)⟩, parse_trimChars_eq_ok_iff.2 ⟨ds, ?_, ?_⟩⟩
  · rwa [String.toList_ofList]
  · exact UInt32.toNat_ofNat_of_lt' (Nat.lt_succ_of_le h.numeral_le)

end Column

/-! ## Signatures -/

namespace Signature

/-- A text is cut at its first colon, if it has one. -/
inductive Cut : List Char → List Char → Option (List Char) → Prop
  | whole {front : List Char} (h : ':' ∉ front) : Cut front front none
  | atColon {front : List Char} (rest : List Char) (h : ':' ∉ front) :
      Cut (front ++ ':' :: rest) front (some rest)

/-- The pieces of a text between its commas. -/
structure Pieces (front : List Char) (pieces : List (List Char)) : Prop where
  ne_nil : pieces ≠ []
  no_comma : ∀ piece ∈ pieces, ',' ∉ piece
  joined : [','].intercalate pieces = front

variable {cs front : List Char} {rest : Option (List Char)} {pieces : List (List Char)}
  {sig : Signature} {s : String}

theorem cut_parts (cs : List Char) : Cut cs (columnPart cs) (orderPart cs) := by
  have hfront : ':' ∉ columnPart cs := fun h => by simpa using List.mem_takeWhile_imp h
  have happend : columnPart cs ++ cs.dropWhile (· ≠ ':') = cs :=
    List.takeWhile_append_dropWhile
  unfold orderPart
  cases hdrop : cs.dropWhile (· ≠ ':') with
  | nil =>
    rw [hdrop, List.append_nil] at happend
    rw [happend] at hfront ⊢
    exact .whole hfront
  | cons ch rest =>
    have hcolon := List.head?_dropWhile_not (· ≠ ':') cs
    rw [hdrop] at hcolon happend
    obtain rfl : ch = ':' := by simpa using hcolon
    have hcut := Cut.atColon rest hfront
    rwa [happend] at hcut

theorem pieces_splitOn (front : List Char) : Pieces front (front.splitOn ',') :=
  ⟨List.splitOn_ne_nil _ _, fun _ hpiece hmem => (mem_of_mem_splitOn hpiece hmem).2 rfl,
    List.intercalate_splitOn ','⟩

/-- Columns are read from pieces that all spell one. -/
theorem exists_parseColumns_iff : (∃ columns, parseColumns cs = .ok columns) ↔
    ∀ piece ∈ cs.splitOn ',', ∃ name ds, Column.Spells piece name ds := by
  simp only [parseColumns_eq_ok_iff]
  constructor
  · rintro ⟨columns, h⟩ piece hpiece
    obtain ⟨c, hc⟩ := exists_of_forall₂ h hpiece
    obtain ⟨ds, hspells, -⟩ := Column.parse_trimChars_eq_ok_iff.1 hc
    exact ⟨_, ds, hspells⟩
  · intro h
    refine exists_forall₂_of_forall fun piece hpiece => ?_
    obtain ⟨name, ds, hspells⟩ := h piece hpiece
    exact hspells.exists_column

/-- A text is read if its columns are and the order behind its colon is not blank. -/
theorem exists_parseChars_iff : (∃ sig, parseChars cs = .ok sig) ↔
    (∃ columns, parseColumns (columnPart cs) = .ok columns) ∧
      ∀ order, orderPart cs = some order → trimChars order ≠ [] := by
  simp only [parseChars_eq_ok_iff]
  constructor
  · rintro ⟨sig, hcolumns, ⟨hnone, -⟩ | ⟨order, hsome, hne, -⟩⟩
    · exact ⟨⟨_, hcolumns⟩, fun order h => by rw [hnone] at h; cases h⟩
    · exact ⟨⟨_, hcolumns⟩, fun order' h => by rwa [← Option.some.inj (hsome.symm.trans h)]⟩
  · rintro ⟨⟨columns, hcolumns⟩, horder⟩
    cases ho : orderPart cs with
    | none => exact ⟨ofColumns columns, hcolumns, Or.inl ⟨rfl, rfl⟩⟩
    | some order =>
      exact ⟨⟨columns, String.ofList (trimChars order)⟩, hcolumns,
        Or.inr ⟨order, rfl, horder order ho, rfl⟩⟩

/-- What a text is refused with carries the text. -/
theorem parse_eq_error (h : ∀ sig, parse s ≠ .ok sig) :
    ∃ fault, parse s = .error (.invalidSignature s fault) := by
  unfold parse at h ⊢
  cases hchars : parseChars s.toList with
  | ok sig =>
    rw [hchars] at h
    exact absurd rfl (h sig)
  | error fault => exact ⟨fault, rfl⟩

/-- A text is a signature exactly if every piece between the commas in front of its first colon
spells a column, and what is behind that colon is not blank. Then the columns are those that are
spelled, in order, and the order is what is behind the colon without the blanks around it, or
the printed columns with `x` between them where there is no colon. Any other text is refused as
it is. -/
theorem parse_follows_grammar (s : String) : ∃ front rest pieces,
    Cut s.toList front rest ∧ Pieces front pieces ∧
    ((∃ sig, parse s = .ok sig) ↔
      (∀ piece ∈ pieces, ∃ name ds, Column.Spells piece name ds) ∧
        ∀ order, rest = some order → ∃ ch ∈ order, isBlank ch = false) ∧
    (∀ sig, parse s = .ok sig →
      List.Forall₂ (fun piece c => ∃ ds, Column.Spells piece c.domain.toList ds ∧
        c.number.toNat = numeral ds) pieces sig.columns ∧
      (rest = none → sig.order = "x".intercalate (sig.columns.map Column.text)) ∧
      ∀ order, rest = some order → Strips order sig.order.toList) ∧
    ((∀ sig, parse s ≠ .ok sig) → ∃ fault, parse s = .error (.invalidSignature s fault)) := by
  refine ⟨_, _, _, cut_parts s.toList, pieces_splitOn _, ?_, fun sig hsig => ?_, parse_eq_error⟩
  · simp only [parse_eq_ok_iff]
    rw [exists_parseChars_iff, exists_parseColumns_iff]
    simp only [ne_eq, trimChars_eq_nil_iff, not_forall, Bool.not_eq_true, exists_prop]
  · obtain ⟨hcolumns, horder⟩ := parseChars_eq_ok_iff.1 (parse_eq_ok_iff.1 hsig)
    refine ⟨(parseColumns_eq_ok_iff.1 hcolumns).imp fun piece c hc =>
      Column.parse_trimChars_eq_ok_iff.1 hc, fun hnone => ?_, fun order hsome => ?_⟩
    · rcases horder with ⟨-, hsig⟩ | ⟨order, hsome, -⟩
      · exact congrArg Signature.order hsig
      · rw [hnone] at hsome
        cases hsome
    · rcases horder with ⟨hnone, -⟩ | ⟨order', hsome', -, htext⟩
      · rw [hnone] at hsome
        cases hsome
      · obtain rfl : order' = order := Option.some.inj (hsome'.symm.trans hsome)
        rw [htext, String.toList_ofList]
        exact strips_trimChars order'

/-- A number may have zeros in front of it, but not more than 32 bits, and a digit of another
script belongs to the name. -/
example : parse "a_٣0000000000004294967295" = .ok (ofColumns [⟨"a_٣", 4294967295⟩]) ∧
    parse "a4294967296:a" =
      .error (.invalidSignature "a4294967296:a" (.invalidInstance "a4294967296")) ∧
    parse "a1b" = .error (.invalidSignature "a1b" (.invalidInstance "a1b")) := by
  decide +kernel

end Signature

end FactEngine
