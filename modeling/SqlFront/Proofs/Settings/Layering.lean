import Mathlib
import SqlFront.Settings.File

/-!
# Layers of settings

The settings of the environment lie over those of the file. In a layer that is laid over another
only the values count that differ from the built-in ones, so a variable of the environment wins over
the file unless it is set to the built-in value, where the value of the file stays. How the text of
a file is read does not matter.
-/

set_option autoImplicit false

namespace SqlFront

variable {α : Type} {read : String → Except Fault Settings} {file? : Option String}
  {e : Environment} {file : Settings}

/-! ## One field -/

theorem overlaid_getD [DecidableEq α] {builtIn lower : α} {value? : Option α} :
    Settings.overlaid builtIn lower (value?.getD builtIn) =
      if value? = some builtIn then lower else value?.getD lower := by
  cases value? with
  | none => simp [Settings.overlaid]
  | some value => by_cases h : value = builtIn <;> simp [Settings.overlaid, h]

/-- The value of the variable wins exactly if it is not the built-in value over another one. -/
theorem overlaid_getD_iff [DecidableEq α] {builtIn lower : α} {value? : Option α} :
    Settings.overlaid builtIn lower (value?.getD builtIn) = value?.getD lower ↔
      (value? = some builtIn → lower = builtIn) := by
  rw [overlaid_getD]
  constructor
  · rintro h rfl
    rwa [if_pos rfl] at h
  · intro h
    split
    · next hset =>
      rw [hset, h hset]
      rfl
    · rfl

/-! ## The environment -/

structure EnvironmentValues where
  dialect? : Option Dialect := none
  logLevel? : Option String := none
  enabled? : Option Bool := none
  capacity? : Option ℕ := none

structure Environment.HasValues (e : Environment) (v : EnvironmentValues) : Prop where
  dialect : Option.Rel (fun text d => Dialect.ofText text = .ok d) e.dialect? v.dialect?
  logLevel : e.logLevel? = v.logLevel?
  enabled : Option.Rel (fun text b => Environment.boolean text = .ok b) e.enableCaching? v.enabled?
  capacity :
    Option.Rel (fun text n => Environment.capacity text = .ok n) e.cacheCapacity? v.capacity?

theorem valueOr_eq {absent : α} {value : String → Except Fault α} {text? : Option String}
    {value? : Option α} (h : Option.Rel (fun text a => value text = .ok a) text? value?) :
    Environment.valueOr absent value text? = .ok (value?.getD absent) := by
  cases h with
  | some h => exact h
  | none => rfl

variable {v : EnvironmentValues}

theorem ofEnvironment_eq (h : e.HasValues v) : Settings.ofEnvironment e =
    .ok { dialect := v.dialect?.getD ({} : Settings).dialect
          cache := ⟨v.enabled?.getD ({} : CacheSettings).enabled,
            v.capacity?.getD ({} : CacheSettings).capacity⟩
          logLevel := v.logLevel?.getD ({} : Settings).logLevel } := by
  unfold Settings.ofEnvironment
  simp only [valueOr_eq h.dialect, valueOr_eq h.enabled, valueOr_eq h.capacity, h.logLevel]
  rfl

/-! ## The file under it -/

def IsFile (read : String → Except Fault Settings) (file? : Option String) (file : Settings) : Prop :=
  match file? with
  | some text => read text = .ok file
  | none => file = {}

theorem layered_eq {upper : Settings} (hfile : IsFile read file? file)
    (h : Settings.ofEnvironment e = .ok upper) :
    Settings.layered read file? e none none = .ok (file.overlay upper) := by
  cases file? with
  | some text =>
    have hread : read text = .ok file := hfile
    simp only [Settings.layered, hread, h]
    rfl
  | none =>
    obtain rfl : file = {} := hfile
    simp only [Settings.layered, h]
    rfl

/-- With no options of the command line, the settings are those of the file with the variables that
are set over them. A variable wins over its field exactly if it is not set to the built-in value
over another one, and the tables are those of the file. -/
theorem environment_wins_iff (hfile : IsFile read file? file) (he : e.HasValues v) :
    ∃ s, Settings.layered read file? e none none = .ok s ∧
      (s.dialect = v.dialect?.getD file.dialect ↔
        (v.dialect? = some .mysql → file.dialect = .mysql)) ∧
      (s.logLevel = v.logLevel?.getD file.logLevel ↔
        (v.logLevel? = some "info" → file.logLevel = "info")) ∧
      (s.cache.enabled = v.enabled?.getD file.cache.enabled ↔
        (v.enabled? = some true → file.cache.enabled = true)) ∧
      (s.cache.capacity = v.capacity?.getD file.cache.capacity ↔
        (v.capacity? = some Cache.defaultCapacity →
          file.cache.capacity = Cache.defaultCapacity)) ∧
      s.sharding = file.sharding := by
  refine ⟨_, layered_eq hfile (ofEnvironment_eq he), overlaid_getD_iff, overlaid_getD_iff,
    overlaid_getD_iff, overlaid_getD_iff, ?_⟩
  unfold Settings.overlay
  rfl

/-- A file with variables over it, of which one is set to the built-in value of its field. -/
theorem environment_wins_iff_partly :
    IsFile Settings.ofText (some "dialect = \"oracle\"\n") { dialect := .oracle } ∧
    Environment.HasValues { dialect? := some "H2", logLevel? := some "info" }
      { dialect? := some .h2, logLevel? := some "info" } ∧
    ∃ s, Settings.layered Settings.ofText (some "dialect = \"oracle\"\n")
        { dialect? := some "H2", logLevel? := some "info" } none none = .ok s ∧
      (s.dialect = .h2 ↔ (some Dialect.h2 = some .mysql → Dialect.oracle = .mysql)) ∧
      (s.logLevel = "info" ↔ (some "info" = some "info" → "info" = "info")) ∧
      (s.cache.enabled = true ↔ (none = some true → true = true)) ∧
      (s.cache.capacity = Cache.defaultCapacity ↔
        (none = some Cache.defaultCapacity → Cache.defaultCapacity = Cache.defaultCapacity)) ∧
      s.sharding = {} := by
  have hfile : IsFile Settings.ofText (some "dialect = \"oracle\"\n") { dialect := .oracle } := by
    unfold IsFile
    cbv
  have he : Environment.HasValues { dialect? := some "H2", logLevel? := some "info" }
      { dialect? := some .h2, logLevel? := some "info" } :=
    ⟨.some (by cbv), rfl, .none, .none⟩
  exact ⟨hfile, he, environment_wins_iff hfile he⟩

/-- A variable that is set to the built-in dialect leaves the dialect of the file in place. -/
theorem builtin_variable_ignored :
    IsFile Settings.ofText (some "dialect = \"oracle\"\n") { dialect := .oracle } ∧
    Environment.HasValues { dialect? := some "mysql" } { dialect? := some .mysql } ∧
    (Settings.layered Settings.ofText (some "dialect = \"oracle\"\n")
      { dialect? := some "mysql" } none none).map Settings.dialect = .ok .oracle := by
  unfold IsFile
  exact ⟨by cbv, ⟨.some (by cbv), rfl, .none, .none⟩, by cbv⟩

end SqlFront
