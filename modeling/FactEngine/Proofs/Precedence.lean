import FactEngine.Config.File
import FactEngine.Proofs.NameLists

/-!
# Sources of a configuration

A configuration starts from a file or from the default (`Config.Base`), and variables change it
from left to right. What one variable changes is said by `Config.Merged`, and a whole environment
by `Environment.Decides` : of the variables that speak of a setting the last one decides on it, and
without such a variable the setting is what it was before.

A variable is refused for its own value, whatever was set before it and whatever is set later, so
an environment is refused exactly if one of its variables is (`Config.exists_mergeEnv_iff`). Both
together are the precedence of the sources (`Config.resolveWith_precedence`).
-/

namespace FactEngine

open Text

/-! ## Values -/

/-- The text names the strategy, blanks around it and the case of ASCII letters aside. -/
def Strategy.NamedBy (text : String) (st : Strategy) : Prop :=
  ∃ word, Strips text.toList word ∧ word.map Char.toLower = st.name.toList

/-- The text writes the verbosity, blanks around it aside : a plus sign may stand in front of its
digits. -/
def WritesVerbosity (text : String) (v : UInt8) : Prop :=
  ∃ sign ds, Strips text.toList (sign ++ ds) ∧ (sign = [] ∨ sign = ['+']) ∧ ds ≠ [] ∧
    (∀ c ∈ ds, isDigit c = true) ∧ numeral ds ≤ 255 ∧ v.toNat = numeral ds

theorem Strategy.ofName?_eq_some_iff {s : String} {st : Strategy} :
    ofName? s = some st ↔ s = st.name := by
  unfold ofName?
  split
  · rename_i h
    cases st <;> simp [h, name]
  · split
    · rename_i h
      cases st <;> simp [h, name]
    · rename_i hs hp
      cases st <;> simp [hs, hp, name]

theorem Strategy.parse_eq_ok_iff {text : String} {st : Strategy} :
    parse text = .ok st ↔ NamedBy text st := by
  have hname : ofName? (lower (trim text)) = some st ↔ NamedBy text st := by
    rw [ofName?_eq_some_iff, ← String.toList_inj, lower, String.toList_ofList, toList_trim]
    constructor
    · exact fun h => ⟨_, strips_trimChars _, h⟩
    · rintro ⟨word, hword, h⟩
      rwa [← hword.eq_trimChars]
  rw [← hname]
  unfold parse
  cases ofName? (lower (trim text)) <;> simp

theorem verbosity?_eq_some_iff {text : String} {v : UInt8} :
    verbosity? text = some v ↔ WritesVerbosity text v := by
  have hsmall : ∀ n : Nat, n < UInt8.size → (UInt8.ofNat n = v ↔ v.toNat = n) := by
    intro n hn
    rw [← UInt8.toNat_inj, UInt8.toNat_ofNat_of_lt' hn, eq_comm]
  unfold verbosity?
  constructor
  · intro h
    split at h
    · rename_i n hn
      obtain ⟨hlt, hv⟩ := Option.ite_none_right_eq_some.1 h
      obtain ⟨sign, ds, happend, hsign, hne, hds, rfl⟩ := number?_eq_some_iff.1 hn
      refine ⟨sign, ds, ?_, hsign, hne, hds, Nat.le_of_lt_succ hlt,
        (hsmall _ hlt).1 (Option.some.inj hv)⟩
      rw [← happend]
      exact strips_trimChars _
    · cases h
  · rintro ⟨sign, ds, hstrips, hsign, hne, hds, hle, hv⟩
    have hlt : numeral ds < UInt8.size := Nat.lt_succ_of_le hle
    rw [← hstrips.eq_trimChars, number?_eq_some_iff.2 ⟨sign, ds, rfl, hsign, hne, hds, rfl⟩]
    simp only [if_pos hlt, (hsmall _ hlt).2 hv]

/-! ## Variables -/

/-- The variables of the name set the property of the key : the name starts with `FACTDB_`, and
the key is the rest of it, which is not empty, in small ASCII letters and with points for
underscores. Three names with that start are not of this kind. -/
structure SetsProperty (name key : String) : Prop where
  ne_file : name ≠ "FACTDB_CONFIG"
  ne_strategy : name ≠ "FACTDB_STRATEGY"
  ne_verbosity : name ≠ "FACTDB_VERBOSITY"
  rest : ∃ rest, rest ≠ "" ∧ name = "FACTDB_" ++ rest ∧
    key.toList = (lower rest).toList.map fun c => if c = '_' then '.' else c

/-- One name sets one property. -/
theorem SetsProperty.key_unique {name key key' : String} (h : SetsProperty name key)
    (h' : SetsProperty name key') : key = key' := by
  obtain ⟨rest, -, hname, hkey⟩ := h.rest
  obtain ⟨rest', -, hname', hkey'⟩ := h'.rest
  have happend : "FACTDB_".toList ++ rest.toList = "FACTDB_".toList ++ rest'.toList := by
    rw [← String.toList_append, ← String.toList_append, ← hname, ← hname']
  obtain rfl := String.toList_inj.1 (List.append_cancel_left happend)
  exact String.toList_inj.1 (hkey.trans hkey'.symm)

namespace VariableRole

variable {name key : String}

theorem toLower_eq_underscore_iff {c : Char} : c.toLower = '_' ↔ c = '_' := by
  constructor
  · intro h
    unfold Char.toLower at h
    split at h
    · rename_i hupper
      -- the underscore is behind the capital letters, but less than the distance of the small ones
      have hval : c.val + ('a'.val - 'A'.val) = '_'.val := congrArg Char.val h
      have hc : c.val = '_'.val - ('a'.val - 'A'.val) := by rw [← hval, UInt32.add_sub_cancel]
      rw [hc] at hupper
      exact absurd hupper (by decide)
    · exact h
  · rintro rfl
    rfl

theorem toList_propertyKey (rest : String) : (propertyKey rest.toList).toList =
    (lower rest).toList.map fun c => if c = '_' then '.' else c := by
  simp only [propertyKey, lower, String.toList_ofList, List.map_map]
  refine List.map_congr_left fun c _ => ?_
  simp only [Function.comp_apply, toLower_eq_underscore_iff]

/-- What the variables of a name are for. -/
inductive Role (name : String) : VariableRole → Prop
  | file (h : name = "FACTDB_CONFIG") : Role name .file
  | strategy (h : name = "FACTDB_STRATEGY") : Role name .strategy
  | verbosity (h : name = "FACTDB_VERBOSITY") : Role name .verbosity
  | property {key : String} (h : SetsProperty name key) : Role name (.property key)
  | foreign (hstrategy : name ≠ "FACTDB_STRATEGY") (hverbosity : name ≠ "FACTDB_VERBOSITY")
      (h : ∀ key, ¬SetsProperty name key) : Role name .foreign

theorem role_ofName (name : String) : Role name (ofName name) := by
  unfold ofName
  split
  · exact .file ‹_›
  · rename_i hfile
    split
    · exact .strategy ‹_›
    · rename_i hstrategy
      split
      · exact .verbosity ‹_›
      · rename_i hverbosity
        split
        · rename_i c r hprefix
          have happend := List.isPrefixOf?_eq_some_iff_append_eq.1 hprefix
          refine .property ⟨hfile, hstrategy, hverbosity, String.ofList (c :: r), ?_, ?_, ?_⟩
          · simp [← String.toList_inj]
          · rw [← String.toList_inj, String.toList_append, ← happend]
            exact congrArg _ String.toList_ofList.symm
          · rw [← toList_propertyKey, String.toList_ofList]
        · rename_i hprefix
          refine .foreign hstrategy hverbosity fun key hkey => ?_
          obtain ⟨rest, hne, hname, -⟩ := hkey.rest
          obtain ⟨c, r, hcons⟩ := List.exists_cons_of_ne_nil (mt String.toList_eq_nil_iff.1 hne)
          refine hprefix c r (List.isPrefixOf?_eq_some_iff_append_eq.2 ?_)
          rw [← hcons, hname, String.toList_append]

end VariableRole

namespace Config

variable {c c' : Config} {name value : String} {env : Environment}

/-- What a variable changes in a configuration. -/
structure Merged (c : Config) (name value : String) (c' : Config) : Prop where
  strategy : name = "FACTDB_STRATEGY" → c'.strategy.NamedBy value
  strategy_other : name ≠ "FACTDB_STRATEGY" → c'.strategy = c.strategy
  verbosity : name = "FACTDB_VERBOSITY" → WritesVerbosity value c'.verbosity
  verbosity_other : name ≠ "FACTDB_VERBOSITY" → c'.verbosity = c.verbosity
  property : ∀ key, SetsProperty name key → c'.property key = some value
  property_other : ∀ key, ¬SetsProperty name key → c'.property key = c.property key

/-- A variable changes nothing but what it is for. -/
theorem merged_of_mergeVariable (h : c.mergeVariable name value = .ok c') :
    c.Merged name value c' := by
  have hrole := VariableRole.role_ofName name
  unfold mergeVariable at h
  generalize VariableRole.ofName name = role at hrole h
  cases hrole with
  | file hname =>
    obtain rfl := Except.ok.inj h
    refine ⟨fun hs => ?_, fun _ => rfl, fun hv => ?_, fun _ => rfl,
      fun key hkey => (hkey.ne_file hname).elim, fun _ _ => rfl⟩
    · exact absurd (hname.symm.trans hs) (by decide)
    · exact absurd (hname.symm.trans hv) (by decide)
  | strategy hname =>
    simp only at h
    split at h
    · rename_i st hst
      obtain rfl := Except.ok.inj h
      refine ⟨fun _ => Strategy.parse_eq_ok_iff.1 hst, fun hne => (hne hname).elim, fun hv => ?_,
        fun _ => rfl, fun key hkey => (hkey.ne_strategy hname).elim, fun _ _ => rfl⟩
      exact absurd (hname.symm.trans hv) (by decide)
    · cases h
  | verbosity hname =>
    simp only at h
    split at h
    · rename_i v hv
      obtain rfl := Except.ok.inj h
      refine ⟨fun hs => ?_, fun _ => rfl, fun _ => verbosity?_eq_some_iff.1 hv,
        fun hne => (hne hname).elim, fun key hkey => (hkey.ne_verbosity hname).elim,
        fun _ _ => rfl⟩
      exact absurd (hs.symm.trans hname) (by decide)
    · cases h
  | @property key hsets =>
    obtain rfl := Except.ok.inj h
    refine ⟨fun hs => (hsets.ne_strategy hs).elim, fun _ => rfl,
      fun hv => (hsets.ne_verbosity hv).elim, fun _ => rfl, fun k hk => ?_, fun k hk => ?_⟩
    · obtain rfl := hsets.key_unique hk
      simp [Config.property, setProperty]
    · have hne : k ≠ key := fun heq => hk (heq ▸ hsets)
      simp [Config.property, setProperty, hne]
  | foreign hstrategy hverbosity hsets =>
    obtain rfl := Except.ok.inj h
    exact ⟨fun hs => (hstrategy hs).elim, fun _ => rfl, fun hv => (hverbosity hv).elim,
      fun _ => rfl, fun key hkey => (hsets key hkey).elim, fun _ _ => rfl⟩

/-- The value of a variable is one that its name allows. -/
structure Acceptable (name value : String) : Prop where
  strategy : name = "FACTDB_STRATEGY" → ∃ st : Strategy, st.NamedBy value
  verbosity : name = "FACTDB_VERBOSITY" → ∃ v, WritesVerbosity value v

/-- Whether a variable is refused does not depend on what is configured before it. -/
theorem exists_mergeVariable_iff :
    (∃ c', c.mergeVariable name value = .ok c') ↔ Acceptable name value := by
  have hrole := VariableRole.role_ofName name
  unfold mergeVariable
  generalize VariableRole.ofName name = role at hrole
  cases hrole with
  | file hname =>
    refine ⟨fun _ => ⟨fun hs => ?_, fun hv => ?_⟩, fun _ => ⟨c, rfl⟩⟩
    · exact absurd (hname.symm.trans hs) (by decide)
    · exact absurd (hname.symm.trans hv) (by decide)
  | strategy hname =>
    constructor
    · rintro ⟨c', h⟩
      simp only at h
      split at h
      · rename_i st hst
        refine ⟨fun _ => ⟨st, Strategy.parse_eq_ok_iff.1 hst⟩, fun hv => ?_⟩
        exact absurd (hname.symm.trans hv) (by decide)
      · cases h
    · intro h
      obtain ⟨st, hst⟩ := h.strategy hname
      exact ⟨{ c with strategy := st }, by simp only [Strategy.parse_eq_ok_iff.2 hst]⟩
  | verbosity hname =>
    constructor
    · rintro ⟨c', h⟩
      simp only at h
      split at h
      · rename_i v hv
        refine ⟨fun hs => ?_, fun _ => ⟨v, verbosity?_eq_some_iff.1 hv⟩⟩
        exact absurd (hs.symm.trans hname) (by decide)
      · cases h
    · intro h
      obtain ⟨v, hv⟩ := h.verbosity hname
      exact ⟨{ c with verbosity := v }, by simp only [verbosity?_eq_some_iff.2 hv]⟩
  | property hsets =>
    exact ⟨fun _ => ⟨fun hs => (hsets.ne_strategy hs).elim,
      fun hv => (hsets.ne_verbosity hv).elim⟩, fun _ => ⟨_, rfl⟩⟩
  | foreign hstrategy hverbosity hsets =>
    exact ⟨fun _ => ⟨fun hs => (hstrategy hs).elim, fun hv => (hverbosity hv).elim⟩,
      fun _ => ⟨_, rfl⟩⟩

end Config

/-! ## Environments -/

namespace Environment

variable {α : Type} {env : Environment} {p : String → Prop} {means : String → α → Prop}
  {old mid new : α} {name value : String}

/-- Variables with the given names say what a setting is. It was `old` before an environment is
applied and is `new` afterwards : the last variable with such a name decides, and nothing has
changed if there is none. -/
structure Decides (env : Environment) (p : String → Prop) (means : String → α → Prop)
    (old new : α) : Prop where
  last : ∀ before name value after, env = before ++ (name, value) :: after → p name →
    (∀ e ∈ after, ¬p e.1) → means value new
  unset : (∀ e ∈ env, ¬p e.1) → new = old

theorem Decides.nil (old : α) : Decides [] p means old old :=
  ⟨fun before name value after h => by simp at h, fun _ => rfl⟩

/-- One variable more decides if it has such a name, and leaves the decision as it was
otherwise. -/
theorem Decides.concat (h : Decides env p means old mid) (hdecides : p name → means value new)
    (hother : ¬p name → new = mid) : Decides (env ++ [(name, value)]) p means old new := by
  refine ⟨fun before name' value' after happend hp hafter => ?_, fun hunset => ?_⟩
  · rcases List.eq_nil_or_concat after with rfl | ⟨after, e, rfl⟩
    · obtain ⟨-, hlast⟩ := List.append_inj' happend rfl
      obtain ⟨rfl, rfl⟩ : name = name' ∧ value = value' := by simpa using hlast
      exact hdecides hp
    · have happend' : env ++ [(name, value)] = (before ++ (name', value') :: after) ++ [e] := by
        rw [happend]
        simp
      obtain ⟨hfront, hlast⟩ := List.append_inj' happend' rfl
      obtain rfl := List.singleton_inj.1 hlast
      rw [hother (hafter (name, value) (by simp))]
      exact h.last before name' value' after hfront hp fun e he => hafter e (by simp [he])
  · rw [hother (hunset (name, value) (by simp))]
    exact h.unset fun e he => hunset e (List.mem_append_left _ he)

end Environment

namespace Config

variable {c c' : Config} {env : Environment}

/-- Variables are accepted exactly if each of them is. -/
theorem exists_mergeEnv_iff :
    (∃ c', c.mergeEnv env = .ok c') ↔ ∀ e ∈ env, Acceptable e.1 e.2 := by
  induction env generalizing c with
  | nil => exact ⟨fun _ => by simp, fun _ => ⟨c, rfl⟩⟩
  | cons e env ih =>
    rw [mergeEnv, List.foldlM_cons, List.forall_mem_cons, ← exists_mergeVariable_iff (c := c)]
    cases hstep : c.mergeVariable e.1 e.2 with
    | error e =>
      constructor
      · rintro ⟨c', h⟩
        cases h
      · rintro ⟨⟨c', h⟩, -⟩
        cases h
    | ok c₁ =>
      have hrest := ih (c := c₁)
      exact ⟨fun h => ⟨⟨c₁, rfl⟩, hrest.1 h⟩, fun h => hrest.2 h.2⟩

/-- What an environment makes of a configuration : the last variable decides on each setting. -/
structure Overridden (c : Config) (env : Environment) (c' : Config) : Prop where
  strategy : env.Decides (· = "FACTDB_STRATEGY") (fun value st => st.NamedBy value)
    c.strategy c'.strategy
  verbosity : env.Decides (· = "FACTDB_VERBOSITY") WritesVerbosity c.verbosity c'.verbosity
  property : ∀ key, env.Decides (SetsProperty · key) (fun value p => p = some value)
    (c.property key) (c'.property key)

/-- A last variable is applied to what the variables in front of it make. -/
theorem mergeEnv_concat_eq_ok_iff {e : String × String} : c.mergeEnv (env ++ [e]) = .ok c' ↔
    ∃ mid, c.mergeEnv env = .ok mid ∧ mid.mergeVariable e.1 e.2 = .ok c' := by
  rw [mergeEnv, List.foldlM_append, ← mergeEnv]
  cases c.mergeEnv env with
  | error e => simp [bind, Except.bind]
  | ok mid =>
    cases hlast : mid.mergeVariable e.1 e.2 <;>
      simp [bind, Except.bind, pure, Except.pure, hlast]

theorem overridden_of_mergeEnv (h : c.mergeEnv env = .ok c') : c.Overridden env c' := by
  induction env using List.reverseRecOn generalizing c' with
  | nil =>
    obtain rfl := Except.ok.inj h
    exact ⟨.nil _, .nil _, fun _ => .nil _⟩
  | append_singleton env e ih =>
    obtain ⟨mid, hfront, hlast⟩ := mergeEnv_concat_eq_ok_iff.1 h
    obtain ⟨hstrategy, hverbosity, hproperty⟩ := ih hfront
    have hm := merged_of_mergeVariable hlast
    exact ⟨hstrategy.concat hm.strategy hm.strategy_other,
      hverbosity.concat hm.verbosity hm.verbosity_other,
      fun key => (hproperty key).concat (hm.property key) (hm.property_other key)⟩

/-! ## All sources -/

/-- What variables are applied to : the file of a given path, or else the file that the first
variable `FACTDB_CONFIG` names, or else the default. -/
inductive Base (fs : Files) : Option String → Environment → Except Error Config → Prop
  | given (path : String) (env : Environment) : Base fs (some path) env (load fs path)
  | named {before : Environment} (path : String) (after : Environment)
      (h : ∀ e ∈ before, e.1 ≠ "FACTDB_CONFIG") :
      Base fs none (before ++ ("FACTDB_CONFIG", path) :: after) (load fs path)
  | fallback {env : Environment} (h : ∀ e ∈ env, e.1 ≠ "FACTDB_CONFIG") :
      Base fs none env (.ok default)

theorem exists_base (fs : Files) (path : Option String) (env : Environment) :
    ∃ base, Base fs path env base ∧ resolveWith fs path env =
      match base with
      | .ok b => b.mergeEnv env
      | .error e => .error e := by
  cases path with
  | some path => exact ⟨_, .given path env, rfl⟩
  | none =>
    cases hfile : env.configFile? with
    | none =>
      have hnot := List.lookup_eq_none_iff.1 hfile
      refine ⟨_, .fallback fun e he heq => ?_, by rw [resolveWith, Option.none_or, hfile]⟩
      simpa [heq] using hnot e he
    | some path =>
      obtain ⟨before, after, rfl, hnot⟩ := List.lookup_eq_some_iff.1 hfile
      refine ⟨_, .named path after fun e he heq => ?_, ?_⟩
      · simpa [heq] using hnot e he
      · cases hload : load fs path <;> simp only [resolveWith, Option.none_or, hfile, hload]

/-- The effective configuration exists exactly if the base can be loaded and every variable that
sets the strategy or the verbosity has a value of that kind, also one that a later variable
overrides. On every property, on the strategy and on the verbosity the last variable decides, and
without one the base does. A base that cannot be loaded is refused for the same reason. -/
theorem resolveWith_precedence (fs : Files) (path : Option String) (env : Environment) :
    ∃ base, Base fs path env base ∧
      ((∃ c, resolveWith fs path env = .ok c) ↔ (∃ b, base = .ok b) ∧
        (∀ value, ("FACTDB_STRATEGY", value) ∈ env → ∃ st : Strategy, st.NamedBy value) ∧
        ∀ value, ("FACTDB_VERBOSITY", value) ∈ env → ∃ v, WritesVerbosity value v) ∧
      (∀ e, base = .error e → resolveWith fs path env = .error e) ∧
      ∀ b c, base = .ok b → resolveWith fs path env = .ok c →
        (∀ key, env.Decides (SetsProperty · key) (fun value p => p = some value)
          (b.property key) (c.property key)) ∧
        env.Decides (· = "FACTDB_STRATEGY") (fun value st => st.NamedBy value)
          b.strategy c.strategy ∧
        env.Decides (· = "FACTDB_VERBOSITY") WritesVerbosity b.verbosity c.verbosity := by
  obtain ⟨base, hbase, hresolve⟩ := exists_base fs path env
  rw [hresolve]
  refine ⟨base, hbase, ?_, ?_, ?_⟩
  · cases base with
    | error e => simp
    | ok b =>
      simp only [exists_mergeEnv_iff, Except.ok.injEq, exists_eq', true_and]
      constructor
      · exact fun h => ⟨fun value hmem => (h _ hmem).strategy rfl,
          fun value hmem => (h _ hmem).verbosity rfl⟩
      · rintro ⟨hstrategy, hverbosity⟩ ⟨name, value⟩ hmem
        exact ⟨fun hname => hstrategy value (hname ▸ hmem),
          fun hname => hverbosity value (hname ▸ hmem)⟩
  · rintro e rfl
    rfl
  · rintro b c rfl h
    obtain ⟨hstrategy, hverbosity, hproperty⟩ := overridden_of_mergeEnv h
    exact ⟨hproperty, hstrategy, hverbosity⟩

/-- Two names set one property, and the later variable wins; a strategy that is overridden must be
one all the same. -/
example : (resolveWith ⟨[]⟩ none [("FACTDB_A_B", "1"), ("FACTDB_a.b", "2")]).toOption.map
      (·.property "a.b") = some (some "2") ∧
    (resolveWith ⟨[]⟩ none [("FACTDB_STRATEGY", "both"), ("FACTDB_STRATEGY", "parallel")]).toOption
      = none := by
  decide +kernel

end Config

end FactEngine
