import FactEngine.Exclusion
import FactEngine.Proofs.Precedence
import Mathlib

/-!
# Properties that variables can set

The name of a variable is turned into the key of a property, and not every key is reached : all
keys that come from names are without underscores and capitals (`SetsProperty.isPlain`). Such a key
is its own name behind the prefix (`setsProperty_of_isPlain`), also if it is a word that is
reserved in capitals.

Other keys are out of reach, whatever variables there are (`Config.property_of_not_isPlain`). The
exclusion of types is controlled by keys in a namespace, so there are namespaces in which it cannot
be controlled by variables, and nothing reports it (`Config.variables_reach_plain_keys`).
-/

namespace FactEngine

open Text

/-- The text has neither underscores nor ASCII capitals. -/
def IsPlain (s : String) : Prop :=
  ∀ c ∈ s.toList, c ≠ '_' ∧ c.isUpper = false

theorem isPlain_append {s t : String} : IsPlain (s ++ t) ↔ IsPlain s ∧ IsPlain t := by
  simp only [IsPlain, String.toList_append, List.forall_mem_append]

/-! ## Names and keys -/

/-- Every key that is set is plain. -/
theorem SetsProperty.isPlain {name key : String} (h : SetsProperty name key) :
    key ≠ "" ∧ IsPlain key := by
  obtain ⟨rest, hne, -, hkey⟩ := h.rest
  refine ⟨fun hempty => hne ?_, fun c hc => ?_⟩
  · simpa [hempty, lower] using hkey
  · rw [hkey] at hc
    obtain ⟨d, hd, rfl⟩ := List.mem_map.1 hc
    split
    · exact ⟨by decide, by decide⟩
    · rename_i hd'
      rw [lower, String.toList_ofList] at hd
      obtain ⟨e, -, rfl⟩ := List.mem_map.1 hd
      exact ⟨hd', e.isUpper_toLower_eq_false⟩

/-- A plain key is set by the variable that is called like it, behind the prefix. -/
theorem setsProperty_of_isPlain {key : String} (hne : key ≠ "") (h : IsPlain key) :
    SetsProperty ("FACTDB_" ++ key) key := by
  have hreserved : ∀ word : String, ¬IsPlain word → "FACTDB_" ++ key ≠ "FACTDB_" ++ word := by
    intro word hword heq
    have hkey : key.toList = word.toList := by
      simpa only [String.toList_append, List.append_cancel_left_eq] using congrArg String.toList heq
    exact hword (String.toList_inj.1 hkey ▸ h)
  have hsame : key.toList.map ((fun c => if c = '_' then '.' else c) ∘ Char.toLower) =
      key.toList.map id := by
    refine List.map_congr_left fun c hc => ?_
    obtain ⟨hunderscore, hupper⟩ := h c hc
    rw [Function.comp_apply, Char.toLower_eq_of_not_isUpper (by simp [hupper]), if_neg hunderscore,
      id_eq]
  refine ⟨hreserved "CONFIG" (by simp [IsPlain]), hreserved "STRATEGY" (by simp [IsPlain]),
    hreserved "VERBOSITY" (by simp [IsPlain]), key, hne, rfl, ?_⟩
  rw [lower, String.toList_ofList, List.map_map, hsame, List.map_id]

/-- The keys that names can reach. -/
theorem exists_setsProperty_iff {key : String} :
    (∃ name, SetsProperty name key) ↔ key ≠ "" ∧ IsPlain key :=
  ⟨fun ⟨_, h⟩ => h.isPlain, fun ⟨hne, h⟩ => ⟨_, setsProperty_of_isPlain hne h⟩⟩

/-- What a variable is for is decided by its name. -/
theorem SetsProperty.ofName_eq {name key : String} (h : SetsProperty name key) :
    VariableRole.ofName name = .property key := by
  have hrole := VariableRole.role_ofName name
  generalize VariableRole.ofName name = role at hrole
  cases hrole with
  | file hname => exact (h.ne_file hname).elim
  | strategy hname => exact (h.ne_strategy hname).elim
  | verbosity hname => exact (h.ne_verbosity hname).elim
  | property h' => rw [h'.key_unique h]
  | foreign _ _ hnot => exact (hnot key h).elim

namespace Config

variable {c c' : Config} {env : Environment} {key : String}

/-- Some variable sets the property to its value, whatever is configured before. -/
def Settable (key : String) : Prop :=
  ∃ name, ∀ (c : Config) (value : String), ∃ c', c.mergeEnv [(name, value)] = .ok c' ∧
    c'.property key = some value

theorem mergeEnv_of_setsProperty {name : String} (h : SetsProperty name key) (c : Config)
    (value : String) : c.mergeEnv [(name, value)] = .ok (c.setProperty key value) := by
  rw [mergeEnv, List.foldlM_cons, mergeVariable, h.ofName_eq]
  rfl

/-- A property whose key no name is turned into stays what it was. -/
theorem property_of_not_isPlain (hkey : ¬(key ≠ "" ∧ IsPlain key))
    (h : c.mergeEnv env = .ok c') : c'.property key = c.property key := by
  refine ((overridden_of_mergeEnv h).property key).unset fun e _ hsets => ?_
  exact hkey (exists_setsProperty_iff.1 ⟨e.1, hsets⟩)

theorem settable_iff : Settable key ↔ key ≠ "" ∧ IsPlain key := by
  constructor
  · rintro ⟨name, hname⟩
    by_contra hkey
    obtain ⟨c', h, hset⟩ := hname default ""
    rw [property_of_not_isPlain hkey h] at hset
    cases hset
  · rintro ⟨hne, hkey⟩
    have hsets := setsProperty_of_isPlain hne hkey
    refine ⟨_, fun c value => ⟨_, mergeEnv_of_setsProperty hsets c value, ?_⟩⟩
    simp [property, setProperty]

theorem settable_append_iff {ns key : String} (hne : key ≠ "") (h : IsPlain key) :
    Settable (ns ++ key) ↔ IsPlain ns := by
  rw [settable_iff, isPlain_append, and_iff_left h, and_iff_right]
  exact fun hempty => hne (String.append_eq_empty_iff.1 hempty).2

/-- Variables can set exactly the properties whose keys are not empty and have neither underscores
nor ASCII capitals. The variable called like the key does it, and changes nothing else; no variables
change another property. Hence the list of the excluded types and the flag of the exclusion can be
set by variables exactly if the namespace has neither, and otherwise they stay what they were. -/
theorem variables_reach_plain_keys (key : String) (settings : ExclusionSettings) :
    (Settable key ↔ key ≠ "" ∧ IsPlain key) ∧
    (key ≠ "" → IsPlain key → ∀ (c : Config) (value : String),
      c.mergeEnv [("FACTDB_" ++ key, value)] = .ok (c.setProperty key value)) ∧
    (¬(key ≠ "" ∧ IsPlain key) → ∀ (c c' : Config) (env : Environment),
      c.mergeEnv env = .ok c' → c'.property key = c.property key) ∧
    (Settable settings.listKey ↔ IsPlain settings.ns) ∧
    (Settable settings.flagKey ↔ IsPlain settings.ns) ∧
    (¬IsPlain settings.ns → ∀ (c c' : Config) (env : Environment), c.mergeEnv env = .ok c' →
      settings.list c' = settings.list c ∧ settings.enabled c' = settings.enabled c) := by
  have hlist : Settable settings.listKey ↔ IsPlain settings.ns :=
    settable_append_iff (by decide) (by simp [IsPlain])
  have hflag : Settable settings.flagKey ↔ IsPlain settings.ns :=
    settable_append_iff (by decide) (by simp [IsPlain])
  refine ⟨settable_iff, fun hne h c value => ?_, fun hkey c c' env h => ?_, hlist, hflag,
    fun hns c c' env h => ?_⟩
  · exact mergeEnv_of_setsProperty (setsProperty_of_isPlain hne h) c value
  · exact property_of_not_isPlain hkey h
  · have hkept : ∀ k, (Settable k ↔ IsPlain settings.ns) → c'.property k = c.property k :=
      fun k hk => property_of_not_isPlain (fun hplain => hns (hk.1 (settable_iff.2 hplain))) h
    rw [ExclusionSettings.list, ExclusionSettings.list, propertyOr, propertyOr, hkept _ hlist,
      ExclusionSettings.enabled, ExclusionSettings.enabled, flag, flag, hkept _ hflag]
    exact ⟨rfl, rfl⟩

/-- A reserved word in small letters names a property. -/
example : (default.mergeEnv [("FACTDB_strategy", "fast")]).toOption.map
    (fun c => (c.property "strategy", c.strategy)) = some (some "fast", .sequential) := by
  decide +kernel

end Config

end FactEngine
