import FactEngine.Config.File
import FactEngine.Proofs.Entry

/-!
# Configuration files read back

The text of a configuration is read line by line as it was written (`readLines_write`), the lines
build a table with one key for each part of the configuration (`ofLines_lines`), and the table
writes the configuration (`ofTable?_table`). The properties come in ascending order of their keys,
so no key is given twice, and setting them from left to right gives the collection they came from
(`Properties.ofList_entries`).

So what was saved is what is loaded (`Config.load_save`).
-/

namespace FactEngine

open Toml Text

/-! ## Tables -/

namespace Toml

variable {front sub : Table} {k p : List Char} {v : Value}

theorem get?_append_of_none (h : front.get? k = none) (t : Table) :
    Table.get? (front ++ t) k = t.get? k := by
  rw [Table.get?, List.lookup_append, ← Table.get?, h, Option.none_or]
  rfl

/-- A key that a table does not have is none of its keys. -/
theorem get?_eq_none_iff {t : Table} : t.get? k = none ↔ ∀ e ∈ t, e.1 ≠ k := by
  rw [Table.get?, List.lookup_eq_none_iff]
  exact forall₂_congr fun e _ => by rw [bne_iff_ne, ne_comm]

end Toml

/-! ## Properties -/

namespace Properties

theorem insertEntry_of_forall_lt {key value : String} {l : List (String × String)}
    (h : ∀ e ∈ l, e.1 < key) : insertEntry key value l = l ++ [(key, value)] := by
  induction l with
  | nil => rfl
  | cons a l ih =>
    have ha := h a List.mem_cons_self
    have hlt : ¬key < a.1 := String.lt_asymm ha
    have hne : key ≠ a.1 := by
      rintro rfl
      exact String.lt_irrefl _ ha
    rw [insertEntry, if_neg hlt, if_neg hne, ih fun e he => h e (List.mem_cons_of_mem a he)]
    rfl

theorem entries_foldl_set (p : Properties) {l : List (String × String)}
    (h : (p.entries ++ l).Pairwise (·.1 < ·.1)) :
    (l.foldl (fun p e => p.set e.1 e.2) p).entries = p.entries ++ l := by
  induction l generalizing p with
  | nil => simp
  | cons e l ih =>
    have hset : (p.set e.1 e.2).entries = p.entries ++ [e] :=
      insertEntry_of_forall_lt fun a ha =>
        (List.pairwise_append.1 h).2.2 a ha e List.mem_cons_self
    rw [List.foldl_cons, ih, hset, List.append_assoc, List.singleton_append]
    rwa [hset, List.append_assoc, List.singleton_append]

theorem ext_entries {p q : Properties} (h : p.entries = q.entries) : p = q := by
  cases p
  cases q
  cases h
  rfl

/-- Setting the entries from left to right gives the collection. -/
theorem ofList_entries (p : Properties) : ofList p.entries = p :=
  ext_entries (entries_foldl_set empty p.sorted)

end Properties

namespace Toml

variable {front sub : Table} {k p : List Char} {v : Value}

/-- Below the header of the last table, an entry with a new key goes to the end of that table. -/
theorem addLine_entry (hfront : front.get? p = none) (hsub : sub.get? k = none) :
    Document.addLine ⟨front ++ [(p, .table .header sub)], [p]⟩ (.entry [k] v) =
      some ⟨front ++ [(p, .table .header (sub ++ [(k, v)]))], [p]⟩ := by
  have hget : Table.get? (front ++ [(p, .table .header sub)]) p = some (.table .header sub) := by
    rw [get?_append_of_none hfront]
    exact List.lookup_cons_self
  have hmap : front.map (fun e => if e.1 = p then (p, .table .header (sub ++ [(k, v)])) else e) =
      front :=
    (List.map_congr_left fun e he => if_neg (get?_eq_none_iff.1 hfront e he)).trans (List.map_id' _)
  have hinsert : sub.insert true [k] v = some (sub ++ [(k, v)]) := by
    simp [Table.insert, hsub]
  simp [Document.addLine, Table.descend, hget, hinsert, hmap]

theorem foldlM_addLine_entries {l : Table} (hfront : front.get? p = none)
    (hl : (sub ++ l).Pairwise (·.1 ≠ ·.1)) :
    (l.map fun e => Line.entry [e.1] e.2).foldlM Document.addLine
        ⟨front ++ [(p, .table .header sub)], [p]⟩ =
      some ⟨front ++ [(p, .table .header (sub ++ l))], [p]⟩ := by
  induction l generalizing sub with
  | nil => simp
  | cons e l ih =>
    have hsub : sub.get? e.1 = none := get?_eq_none_iff.2 fun a ha =>
      (List.pairwise_append.1 hl).2.2 a ha e List.mem_cons_self
    rw [List.append_cons] at hl
    rw [List.map_cons, List.foldlM_cons, addLine_entry hfront hsub, Option.bind_eq_bind,
      Option.bind_some, ih hl, ← List.append_cons]

end Toml

/-! ## Text of a configuration -/

namespace Config

/-- The entry of a property. -/
def entryOf (e : String × String) : List Char × Value :=
  (e.1.toList, .string e.2.toList)

/-- The lines of a configuration. -/
def lines (c : Config) : List Line :=
  .entry ["strategy".toList] (.string c.strategy.name.toList) ::
  .entry ["verbosity".toList] (.integer c.verbosity.toNat) ::
  .blank ::
  .header ["properties".toList] ::
  (c.properties.entries.map entryOf).map fun e => .entry [e.1] e.2

/-- The table of a configuration. -/
def table (c : Config) : Table :=
  [("strategy".toList, .string c.strategy.name.toList),
    ("verbosity".toList, .integer c.verbosity.toNat),
    ("properties".toList, .table .header (c.properties.entries.map entryOf))]

theorem length_lt_writeEntry (key text rest : List Char) :
    rest.length < (writeEntry key text ++ rest).length := by
  simp [writeEntry]
  omega

theorem readLines_writeEntry {text : List Char} {v : Value} (h : Writes text v)
    (key rest : List Char) :
    readLines (writeEntry key text ++ rest) = (readLines rest).map (.entry [key] v :: ·) :=
  readLines_of_readLine (readLine_writeEntry h key rest) (length_lt_writeEntry key text rest)

theorem readLines_properties (l : List (String × String)) :
    readLines (l.flatMap fun e => writeEntry e.1.toList (writeString e.2.toList)) =
      some ((l.map entryOf).map fun e => .entry [e.1] e.2) := by
  induction l with
  | nil => simp [readLines]
  | cons e l ih =>
    rw [List.flatMap_cons, readLines_writeEntry (writes_writeString e.2.toList), ih]
    rfl

/-- The text of a configuration is read line by line as it was written. -/
theorem readLines_write (c : Config) : readLines c.write = some c.lines := by
  have hheader (rest : List Char) : "\n[properties]\n".toList ++ rest =
      '\n' :: '[' :: (writeKey "properties".toList ++ ']' :: '\n' :: rest) := by
    rfl
  have hverbosity : c.verbosity.toNat < 0x8000000000000000 := by
    have := c.verbosity.toNat_lt
    omega
  rw [write, List.append_assoc, List.append_assoc,
    readLines_writeEntry (writes_writeString _), readLines_writeEntry (writes_digits hverbosity),
    hheader, readLines_of_readLine (readLine_lineFeed _) (by simp),
    readLines_of_readLine (readLine_header _ _) (by simp; omega), readLines_properties]
  rfl

theorem pairwise_entryOf (p : Properties) :
    (p.entries.map entryOf).Pairwise (·.1 ≠ ·.1) := by
  refine List.pairwise_map.2 (p.sorted.imp fun {a b} hlt heq => ?_)
  rw [String.toList_inj.1 heq] at hlt
  exact String.lt_irrefl _ hlt

/-- The lines up to the header of the properties build the table without properties. -/
theorem foldlM_addLine_front (strategy : List Char) (verbosity : Int) :
    [.entry ["strategy".toList] (.string strategy),
        .entry ["verbosity".toList] (.integer verbosity),
        .blank, .header ["properties".toList]].foldlM Document.addLine ⟨[], []⟩ =
      some ⟨[("strategy".toList, .string strategy), ("verbosity".toList, .integer verbosity)] ++
        [("properties".toList, .table .header [])], ["properties".toList]⟩ :=
  rfl

/-- The lines of a configuration build its table. -/
theorem ofLines_lines (c : Config) : Document.ofLines c.lines = some c.table := by
  have hlines : c.lines = [.entry ["strategy".toList] (.string c.strategy.name.toList),
      .entry ["verbosity".toList] (.integer c.verbosity.toNat), .blank,
      .header ["properties".toList]] ++
      (c.properties.entries.map entryOf).map fun e => .entry [e.1] e.2 := rfl
  rw [Document.ofLines, hlines, List.foldlM_append, foldlM_addLine_front, Option.bind_eq_bind,
    Option.bind_some, foldlM_addLine_entries rfl (pairwise_entryOf c.properties)]
  rfl

theorem mapM_propertyOf? (l : List (String × String)) :
    (l.map entryOf).mapM propertyOf? = some l := by
  induction l with
  | nil => rfl
  | cons e l ih =>
    have he : propertyOf? (entryOf e) = some e := by simp [propertyOf?, entryOf]
    simp [List.mapM_cons, he, ih]

theorem ofName?_name (s : Strategy) : Strategy.ofName? s.name = some s := by
  cases s with
  | sequential => rfl
  | parallel => rfl

/-- The table of a configuration writes it. -/
theorem ofTable?_table (c : Config) : ofTable? c.table = some c := by
  have hstrategy : field c.table "strategy" strategyOf? .sequential = some c.strategy := by
    change strategyOf? (.string c.strategy.name.toList) = _
    rw [strategyOf?, String.ofList_toList, ofName?_name]
  have hverbosity : field c.table "verbosity" verbosityOf? 0 = some c.verbosity := by
    have hlt := c.verbosity.toNat_lt_size
    change verbosityOf? (.integer c.verbosity.toNat) = _
    rw [verbosityOf?, if_pos ⟨by omega, by omega⟩, Int.toNat_natCast, UInt8.ofNat_toNat]
  have hproperties : field c.table "properties" propertiesOf? .empty = some c.properties := by
    change propertiesOf? (.table .header (c.properties.entries.map entryOf)) = _
    rw [propertiesOf?, mapM_propertyOf?, Option.map_some, Properties.ofList_entries]
  rw [ofTable?, hstrategy, hverbosity, hproperties]

/-! ### Line ends -/

theorem plainLines_eq {s : List Char} (h : '\r' ∉ s) : plainLines s = s := by
  induction s with
  | nil => rfl
  | cons c s ih =>
    rw [List.mem_cons, not_or] at h
    unfold plainLines
    split
    · rename_i heq
      exact absurd (List.cons.inj heq).1.symm h.1
    · rename_i heq
      cases heq
      rw [ih h.2]
    · rename_i heq
      cases heq

theorem return_not_mem_writeEntry {text : List Char} (h : '\r' ∉ text) (key : List Char) :
    '\r' ∉ writeEntry key text := by
  simp [writeEntry, h, return_not_mem_writeKey]

/-- There are no carriage returns in the text of a configuration. -/
theorem return_not_mem_write (c : Config) : '\r' ∉ c.write := by
  have hdigits : '\r' ∉ digits c.verbosity.toNat := fun h =>
    absurd (isDigit_of_mem_digits h) (by decide)
  have hproperties : '\r' ∉ c.properties.entries.flatMap fun e =>
      writeEntry e.1.toList (writeString e.2.toList) := by
    intro h
    obtain ⟨e, -, he⟩ := List.mem_flatMap.1 h
    exact return_not_mem_writeEntry (return_not_mem_writeString _) _ he
  have hheader : '\r' ∉ "\n[properties]\n".toList := by decide
  unfold write
  rw [List.mem_append, List.mem_append, List.mem_append, not_or, not_or, not_or]
  exact ⟨⟨⟨return_not_mem_writeEntry (return_not_mem_writeString _) _,
    return_not_mem_writeEntry hdigits _⟩, hheader⟩, hproperties⟩

theorem skipMark_write (c : Config) : skipMark c.write = c.write := rfl

/-- A configuration is read from its text. -/
theorem read?_write (c : Config) : read? c.write = some c := by
  rw [read?, parse, skipMark_write, plainLines_eq (return_not_mem_write c), readLines_write,
    Option.bind_some, ofLines_lines, Option.bind_some, ofTable?_table]

end Config

/-! ## Files -/

theorem fromUTF8?_toByteArray (s : String) : String.fromUTF8? s.toByteArray = some s :=
  dif_pos s.isValidUTF8

namespace Files

/-- A file has the content that it was given. -/
theorem read?_of_write? {fs fs' : Files} {name : String} {content : ByteArray}
    (h : fs.write? name content = some fs') : fs'.read? name = some content := by
  unfold write? at h
  split at h
  · obtain rfl := Option.some.inj h
    exact List.lookup_cons_self
  · cases h

end Files

namespace Config

variable {c : Config} {fs fs' : Files} {name : String}

theorem save_eq_ok_iff : c.save fs name = .ok fs' ↔
    fs.write? name (String.ofList c.write).toByteArray = some fs' := by
  unfold save
  cases fs.write? name (String.ofList c.write).toByteArray with
  | none => simp
  | some fs'' => simp

/-- What a file holds after a configuration was saved to it. -/
theorem read?_of_save (h : c.save fs name = .ok fs') :
    fs'.read? name = some (String.ofList c.write).toByteArray :=
  Files.read?_of_write? (save_eq_ok_iff.1 h)

theorem load_of_read? (h : fs.read? name = some (String.ofList c.write).toByteArray) :
    load fs name = .ok c := by
  rw [load, h, Option.bind_some, fromUTF8?_toByteArray]
  simp only [String.toList_ofList, read?_write]

theorem load_of_save (h : c.save fs name = .ok fs') : load fs' name = .ok c :=
  load_of_read? (read?_of_save h)

/-- Saving fails only where no file can be. -/
theorem exists_save (c : Config) (fs : Files) (h : Files.isFileName name = true) :
    ∃ fs', c.save fs name = .ok fs' :=
  ⟨_, save_eq_ok_iff.2 (if_pos h)⟩

theorem roundTrips_eq (c : Config) : c.roundTrips = .ok true := by
  obtain ⟨fs', hsave⟩ : ∃ fs', c.save ⟨[]⟩ "config" = .ok fs' := exists_save c _ (by decide)
  delta roundTrips
  simp [hsave, load_of_save hsave]

/-- Every configuration can be saved under the name of a file, what was saved is loaded from that
file, and configurations with one text, or whose files hold the same, are equal. -/
theorem load_save :
    (∀ (c : Config) (fs : Files) (name : String), Files.isFileName name = true →
      ∃ fs', c.save fs name = .ok fs' ∧ load fs' name = .ok c) ∧
    (∀ (c : Config) (fs fs' : Files) (name : String), c.save fs name = .ok fs' →
      load fs' name = .ok c) ∧
    (∀ c d : Config, c.write = d.write → c = d) ∧
    (∀ (c d : Config) (fs fs' gs gs' : Files) (name name' : String), c.save fs name = .ok fs' →
      d.save gs name' = .ok gs' → fs'.read? name = gs'.read? name' → c = d) := by
  refine ⟨fun c fs name hname => ?_, fun c fs fs' name h => load_of_save h, fun c d h => ?_,
    fun c d fs fs' gs gs' name name' hc hd hread => ?_⟩
  · obtain ⟨fs', hsave⟩ := exists_save c fs hname
    exact ⟨fs', hsave, load_of_save hsave⟩
  · have hcd : read? d.write = some c := h ▸ read?_write c
    exact Option.some.inj (hcd.symm.trans (read?_write d))
  · have hcd : load gs' name' = .ok c := load_of_read? (hread.symm.trans (read?_of_save hc))
    exact Except.ok.inj (hcd.symm.trans (load_of_save hd))

end Config

end FactEngine
