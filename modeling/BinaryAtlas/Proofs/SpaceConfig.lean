import BinaryAtlas.Proofs.Json.Reading
import BinaryAtlas.SpaceConfig

/-!
Settings come back from their own text, and from any other text with what it says and the defaults
for what it leaves out.
-/

set_option autoImplicit false

namespace BinaryAtlas

namespace Json

variable {names : List String} {members : List (String × Json)} {values : List (Option Json)}
variable {v : Json} {name : String} {α : Type}

/-- The part of a value with one of these names: a member or, in an array, the item in the place of
the name. -/
def part? (names : List String) (name : String) : Json → Option Json
  | .object members => members.lookup name
  | .array items => items[names.idxOf name]?
  | _ => none

theorem lookup_filter (known : name ∈ names) (members : List (String × Json)) :
    (members.filter (fun m => names.contains m.1)).lookup name = members.lookup name := by
  induction members with
  | nil => rfl
  | cons m members ih =>
    obtain ⟨other, v⟩ := m
    by_cases same : name = other
    · subst same
      simp [known]
    · have apart : (name == other) = false := by simp [same]
      by_cases kept : other ∈ names
      · rw [List.filter_cons_of_pos (by simp [kept]), List.lookup_cons, apart, ih,
          List.lookup_cons, apart]
      · rw [List.filter_cons_of_neg (by simp [kept]), ih, List.lookup_cons, apart]

/-- The fields are read from the parts with their names. -/
theorem eq_parts (nodup : names.Nodup) (read : v.fields? names = some values) :
    values = names.map (fun name => v.part? names name) := by
  cases v with
  | object members =>
    simp only [fields?] at read
    split at read
    · obtain rfl := Option.some.inj read
      exact List.map_congr_left fun name known => lookup_filter known members
    · cases read
  | array items =>
    simp only [fields?] at read
    split at read
    · obtain rfl := Option.some.inj read
      refine List.ext_getElem? fun i => ?_
      rw [List.getElem?_map]
      by_cases within : i < names.length
      · rw [List.getElem?_eq_getElem within, Option.map_some, part?, nodup.idxOf_getElem]
        by_cases given : i < items.length
        · rw [List.getElem?_append_left (by simp [given])]
          simp [given]
        · have place : i - items.length < names.length - items.length := by omega
          simp [List.getElem?_append, given, place]
      · have beyond : ¬ i < items.length := by omega
        simp [List.getElem?_append, within, beyond]
        omega
    · cases read
  | _ => cases read

theorem lookup_names (nodup : (members.map (·.1)).Nodup) :
    (members.map (·.1)).map (fun n => members.lookup n) = members.map fun m => some m.2 := by
  induction members with
  | nil => rfl
  | cons m members ih =>
    obtain ⟨first, v⟩ := m
    simp only [List.map_cons, List.nodup_cons, List.lookup_cons_self] at nodup ⊢
    have apart : ∀ n ∈ members.map (·.1),
        ((first, v) :: members).lookup n = members.lookup n := by
      intro n member
      have other : (n == first) = false := by
        simp only [beq_eq_false_iff_ne]
        rintro rfl
        exact nodup.1 member
      rw [List.lookup_cons, other]
    rw [List.map_congr_left apart, ih nodup.2]

/-- An object with exactly these members has a value for every field. -/
theorem fields?_object (all : members.map (·.1) = names) (nodup : names.Nodup) :
    (Json.object members).fields? names = some (members.map fun m => some m.2) := by
  subst all
  have kept : members.filter (fun m => (members.map (·.1)).contains m.1) = members := by
    rw [List.filter_eq_self]
    intro m member
    exact List.contains_iff_mem.2 (List.mem_map_of_mem member)
  simp only [fields?, kept, nodup, if_true, lookup_names nodup]

/-- Objects with the same names in the same order are told apart by their members. -/
theorem object_ext (names : List String) {others : List (String × Json)} (nodup : names.Nodup)
    (named : members.map (·.1) = names) (alike : others.map (·.1) = names)
    (same : ∀ name ∈ names,
      (Json.object members).part? names name = (Json.object others).part? names name) :
    Json.object members = .object others := by
  have values := lookup_names (named ▸ nodup)
  have values' := lookup_names (alike ▸ nodup)
  rw [named] at values
  rw [alike] at values'
  have second : members.map (·.2) = others.map (·.2) := by
    have all := values.symm.trans ((List.map_congr_left same).trans values')
    have inner := congrArg (List.filterMap id) all
    simpa [List.filterMap_map] using inner
  have both : members.unzip = others.unzip := by
    rw [List.unzip_eq_map, List.unzip_eq_map, named, alike, second]
  rw [← List.zip_unzip members, both, List.zip_unzip]

theorem word?_eq_some {w : Word} (read : word? v = some w) : word w = v := by
  cases v with
  | number n =>
    cases n with
    | integer i =>
      simp only [word?] at read
      split at read
      · rename_i fits
        obtain rfl := Option.some.inj read
        have size : i.toNat < UInt64.size := by
          have : UInt64.size = 0x10000000000000000 := rfl
          omega
        rw [word, nat, UInt64.toNat_ofNat_of_lt' size, Int.toNat_of_nonneg fits.1]
      · cases read
    | decimal => cases read
  | _ => cases read

theorem word?_word (w : Word) : word? (word w) = some w := by
  have fits : (0 : Int) ≤ w.toNat ∧ (w.toNat : Int) < 0x10000000000000000 := by
    have := w.toNat_lt
    omega
  simp only [word, nat, word?, fits, if_true, and_self, Int.toNat_natCast, UInt64.ofNat_toNat]

theorem orDefault_some {read : Json → Option α} {default a : α} (taken : read v = some a) :
    orDefault read default (some v) = some a := by
  rw [orDefault, taken]

theorem orDefault_word (default w : Word) : orDefault word? default (some (word w)) = some w :=
  orDefault_some (word?_word w)

theorem bool?_eq_some {b : Bool} (read : bool? v = some b) : .bool b = v := by
  cases v with
  | bool b' => exact congrArg Json.bool (Option.some.inj read).symm
  | _ => cases read

theorem string?_eq_some {s : String} (read : string? v = some s) : .string s = v := by
  cases v with
  | string s' => exact congrArg Json.string (Option.some.inj read).symm
  | _ => cases read

/-- A setting is written as it was given, or as its default when it was left out. -/
theorem orDefault_written {read : Json → Option α} {write : α → Json} {default a : α}
    {given : Option Json} (faithful : ∀ {v a}, read v = some a → write a = v)
    (taken : orDefault read default given = some a) :
    some (write a) = given.or (some (write default)) := by
  cases given with
  | none => exact congrArg (fun a => some (write a)) (Option.some.inj taken).symm
  | some v => exact congrArg some (faithful taken)

theorem kept_word (interest : Interest) (w : Word) : Kept interest (word w) := by
  have := w.toNat_lt
  show -0x8000000000000000 ≤ (w.toNat : Int) ∧ (w.toNat : Int) < 0x10000000000000000
  omega

/-- An object of settings is wanted with its members, whichever are. -/
theorem kept_object {wanted : List (String × Interest)}
    (each : ∀ m ∈ members, Kept ((Interest.members wanted).ofMember m.1) m.2) :
    Kept (.members wanted) (.object members) := by
  refine ⟨.members wanted, rfl, ?_⟩
  induction members with
  | nil => trivial
  | cons m members ih =>
    obtain ⟨first, others⟩ := List.forall_mem_cons.1 each
    exact ⟨first, ih others⟩

/-- Every part that is left out has the value of a default. -/
def Completes (names : List String) (given default full : Json) : Prop :=
  ∀ name ∈ names, full.part? names name = (given.part? names name).or (default.part? names name)

theorem completes_object {default full : List (String × Json)} (nodup : names.Nodup)
    (named : full.map (·.1) = names) (alike : default.map (·.1) = names)
    (each : full.map (fun m => some m.2) =
      List.zipWith Option.or (names.map fun name => v.part? names name)
        (default.map fun m => some m.2)) :
    v.Completes names (.object default) (.object full) := by
  have full_ := lookup_names (named ▸ nodup)
  have default_ := lookup_names (alike ▸ nodup)
  rw [named] at full_
  rw [alike] at default_
  rw [← full_, ← default_, List.zipWith_map, List.zipWith_self, List.map_inj_left] at each
  exact each

end Json

open Json

namespace AnalysisConfig

theorem ofJson?_toJson (c : AnalysisConfig) : ofJson? c.toJson = some c := by
  have fields : c.toJson.fields? fieldNames = some _ := fields?_object rfl (by decide)
  rw [ofJson?, Option.bind_eq_bind, Option.bind_eq_some_iff]
  refine ⟨_, fields, ?_⟩
  simp only [Option.bind_eq_bind, Option.bind_eq_some_iff, List.map_cons, List.map_nil]
  exact ⟨_, orDefault_some rfl, _, orDefault_word _ _, _, orDefault_word _ _, _, orDefault_word _ _,
    _, orDefault_word _ _, _, orDefault_word _ _, rfl⟩

theorem completes {v : Json} {c : AnalysisConfig} (read : ofJson? v = some c) :
    v.Completes fieldNames (toJson {}) c.toJson := by
  simp only [ofJson?, Option.bind_eq_bind, Option.bind_eq_some_iff] at read
  obtain ⟨values, fields, read⟩ := read
  obtain rfl := eq_parts (by decide) fields
  refine completes_object (by decide) rfl rfl ?_
  simp only [fieldNames, List.map_cons, List.map_nil, Option.bind_eq_some_iff] at read ⊢
  obtain ⟨auto, auto_, size, size_, blocks, blocks_, threads, threads_, least, least_, most, most_,
    same⟩ := read
  obtain rfl := Option.some.inj same
  simp only [List.zipWith_cons_cons, List.zipWith_nil_left, orDefault_written bool?_eq_some auto_,
    orDefault_written word?_eq_some size_, orDefault_written word?_eq_some blocks_,
    orDefault_written word?_eq_some threads_, orDefault_written word?_eq_some least_,
    orDefault_written word?_eq_some most_]

theorem kept_toJson (c : AnalysisConfig) : Kept (.ofNames fieldNames) c.toJson := by
  refine kept_object ?_
  simp only [List.forall_mem_cons]
  exact ⟨trivial, kept_word _ _, kept_word _ _, kept_word _ _, kept_word _ _, kept_word _ _,
    List.forall_mem_nil _⟩

end AnalysisConfig

namespace SearchConfig

theorem ofJson?_toJson (c : SearchConfig) : ofJson? c.toJson = some c := by
  have fields : c.toJson.fields? fieldNames = some _ := fields?_object rfl (by decide)
  rw [ofJson?, Option.bind_eq_bind, Option.bind_eq_some_iff]
  refine ⟨_, fields, ?_⟩
  simp only [Option.bind_eq_bind, Option.bind_eq_some_iff, List.map_cons, List.map_nil]
  exact ⟨_, orDefault_word _ _, _, orDefault_word _ _, _, orDefault_word _ _, rfl⟩

theorem completes {v : Json} {c : SearchConfig} (read : ofJson? v = some c) :
    v.Completes fieldNames (toJson {}) c.toJson := by
  simp only [ofJson?, Option.bind_eq_bind, Option.bind_eq_some_iff] at read
  obtain ⟨values, fields, read⟩ := read
  obtain rfl := eq_parts (by decide) fields
  refine completes_object (by decide) rfl rfl ?_
  simp only [fieldNames, List.map_cons, List.map_nil, Option.bind_eq_some_iff] at read ⊢
  obtain ⟨chunk, chunk_, granularity, granularity_, timeout, timeout_, same⟩ := read
  obtain rfl := Option.some.inj same
  simp only [List.zipWith_cons_cons, List.zipWith_nil_left, orDefault_written word?_eq_some chunk_,
    orDefault_written word?_eq_some granularity_, orDefault_written word?_eq_some timeout_]

theorem kept_toJson (c : SearchConfig) : Kept (.ofNames fieldNames) c.toJson := by
  refine kept_object ?_
  simp only [List.forall_mem_cons]
  exact ⟨kept_word _ _, kept_word _ _, kept_word _ _, List.forall_mem_nil _⟩

end SearchConfig

namespace LinearConfig

theorem ofJson?_toJson (c : LinearConfig) : ofJson? c.toJson = some c := by
  have fields : c.toJson.fields? fieldNames = some _ := fields?_object rfl (by decide)
  rw [ofJson?, Option.bind_eq_bind, Option.bind_eq_some_iff]
  refine ⟨_, fields, ?_⟩
  simp only [Option.bind_eq_bind, Option.bind_eq_some_iff, List.map_cons, List.map_nil]
  exact ⟨_, orDefault_word _ _, _, orDefault_some rfl, _, orDefault_word _ _, rfl⟩

theorem completes {v : Json} {c : LinearConfig} (read : ofJson? v = some c) :
    v.Completes fieldNames (toJson {}) c.toJson := by
  simp only [ofJson?, Option.bind_eq_bind, Option.bind_eq_some_iff] at read
  obtain ⟨values, fields, read⟩ := read
  obtain rfl := eq_parts (by decide) fields
  refine completes_object (by decide) rfl rfl ?_
  simp only [fieldNames, List.map_cons, List.map_nil, Option.bind_eq_some_iff] at read ⊢
  obtain ⟨row, row_, headers, headers_, lines, lines_, same⟩ := read
  obtain rfl := Option.some.inj same
  simp only [List.zipWith_cons_cons, List.zipWith_nil_left, orDefault_written word?_eq_some row_,
    orDefault_written bool?_eq_some headers_, orDefault_written word?_eq_some lines_]

theorem kept_toJson (c : LinearConfig) : Kept (.ofNames fieldNames) c.toJson := by
  refine kept_object ?_
  simp only [List.forall_mem_cons]
  exact ⟨kept_word _ _, trivial, kept_word _ _, List.forall_mem_nil _⟩

end LinearConfig

namespace EntropyConfig

theorem ofJson?_toJson (c : EntropyConfig) : ofJson? c.toJson = some c := by
  have fields : c.toJson.fields? fieldNames = some _ := fields?_object rfl (by decide)
  rw [ofJson?, Option.bind_eq_bind, Option.bind_eq_some_iff]
  refine ⟨_, fields, ?_⟩
  simp only [Option.bind_eq_bind, Option.bind_eq_some_iff, List.map_cons, List.map_nil]
  exact ⟨_, orDefault_word _ _, rfl⟩

theorem completes {v : Json} {c : EntropyConfig} (read : ofJson? v = some c) :
    v.Completes fieldNames (toJson {}) c.toJson := by
  simp only [ofJson?, Option.bind_eq_bind, Option.bind_eq_some_iff] at read
  obtain ⟨values, fields, read⟩ := read
  obtain rfl := eq_parts (by decide) fields
  refine completes_object (by decide) rfl rfl ?_
  simp only [fieldNames, List.map_cons, List.map_nil, Option.bind_eq_some_iff] at read ⊢
  obtain ⟨block, block_, same⟩ := read
  obtain rfl := Option.some.inj same
  simp only [List.zipWith_cons_cons, List.zipWith_nil_left, orDefault_written word?_eq_some block_]

theorem kept_toJson (c : EntropyConfig) : Kept (.ofNames fieldNames) c.toJson := by
  refine kept_object ?_
  simp only [List.forall_mem_cons]
  exact ⟨kept_word _ _, List.forall_mem_nil _⟩

end EntropyConfig

namespace LoggingConfig

theorem ofJson?_toJson (c : LoggingConfig) : ofJson? c.toJson = some c := by
  have fields : c.toJson.fields? fieldNames = some _ := fields?_object rfl (by decide)
  rw [ofJson?, Option.bind_eq_bind, Option.bind_eq_some_iff]
  refine ⟨_, fields, ?_⟩
  simp only [Option.bind_eq_bind, Option.bind_eq_some_iff, List.map_cons, List.map_nil]
  exact ⟨_, orDefault_some rfl, _, orDefault_some rfl, rfl⟩

theorem completes {v : Json} {c : LoggingConfig} (read : ofJson? v = some c) :
    v.Completes fieldNames (toJson {}) c.toJson := by
  simp only [ofJson?, Option.bind_eq_bind, Option.bind_eq_some_iff] at read
  obtain ⟨values, fields, read⟩ := read
  obtain rfl := eq_parts (by decide) fields
  refine completes_object (by decide) rfl rfl ?_
  simp only [fieldNames, List.map_cons, List.map_nil, Option.bind_eq_some_iff] at read ⊢
  obtain ⟨level, level_, json, json_, same⟩ := read
  obtain rfl := Option.some.inj same
  simp only [List.zipWith_cons_cons, List.zipWith_nil_left,
    orDefault_written string?_eq_some level_, orDefault_written bool?_eq_some json_]

theorem kept_toJson (c : LoggingConfig) : Kept (.ofNames fieldNames) c.toJson := by
  refine kept_object ?_
  simp only [List.forall_mem_cons]
  exact ⟨trivial, trivial, List.forall_mem_nil _⟩

end LoggingConfig

namespace SpaceConfig

variable {v : Json} {c : SpaceConfig} {text : String}

/-- The sections, each with the names of its settings. -/
def settingNames : List (String × List String) :=
  [("analysis", AnalysisConfig.fieldNames), ("search", SearchConfig.fieldNames),
    ("linear", LinearConfig.fieldNames), ("entropy", EntropyConfig.fieldNames),
    ("logging", LoggingConfig.fieldNames)]

/-- What a value says of one setting, if it has the section and the section has the setting. -/
def setting? (among : String × List String) (name : String) (v : Json) : Option Json :=
  (v.part? (settingNames.map (·.1)) among.1).bind (part? among.2 name)

theorem ofJson?_toJson (c : SpaceConfig) : ofJson? c.toJson = some c := by
  have fields : c.toJson.fields? (sections.map (·.1)) = some _ := fields?_object rfl (by decide)
  rw [ofJson?, Option.bind_eq_bind, Option.bind_eq_some_iff]
  refine ⟨_, fields, ?_⟩
  simp only [Option.bind_eq_bind, Option.bind_eq_some_iff, List.map_cons, List.map_nil]
  exact ⟨_, orDefault_some c.analysis.ofJson?_toJson, _, orDefault_some c.search.ofJson?_toJson,
    _, orDefault_some c.linear.ofJson?_toJson, _, orDefault_some c.entropy.ofJson?_toJson,
    _, orDefault_some c.logging.ofJson?_toJson, rfl⟩

theorem parts_toJson (c : SpaceConfig) :
    (settingNames.map (·.1)).map (fun name => c.toJson.part? (settingNames.map (·.1)) name) =
      [some c.analysis.toJson, some c.search.toJson, some c.linear.toJson, some c.entropy.toJson,
        some c.logging.toJson] :=
  have nodup : (settingNames.map (·.1)).Nodup := by decide
  lookup_names nodup

theorem setting_written {α : Type} {read : Json → Option α} {write : α → Json} {default a : α}
    {names : List String} {given : Option Json}
    (completes : ∀ {v a}, read v = some a → v.Completes names (write default) (write a))
    (taken : orDefault read default given = some a) :
    ∀ name ∈ names, (write a).part? names name =
      (given.bind (part? names name)).or ((write default).part? names name) := by
  intro name known
  cases given with
  | none =>
    obtain rfl := Option.some.inj taken
    rfl
  | some v => exact completes taken name known

/-- The settings are those that a value gives and, for what it leaves out, the defaults. -/
def Completed (c : SpaceConfig) (v : Json) : Prop :=
  ∀ among ∈ settingNames, ∀ name ∈ among.2, setting? among name c.toJson =
    (setting? among name v).or (setting? among name (toJson {}))

theorem completed_of_read (read : ofJson? v = some c) : c.Completed v := by
  simp only [ofJson?, Option.bind_eq_bind, Option.bind_eq_some_iff] at read
  obtain ⟨values, fields, read⟩ := read
  obtain rfl := eq_parts (by decide) fields
  simp only [sections, List.map_cons, List.map_nil, Option.bind_eq_some_iff] at read
  obtain ⟨analysis, analysis_, search, search_, linear, linear_, entropy, entropy_, logging,
    logging_, same⟩ := read
  obtain rfl := Option.some.inj same
  have parts := parts_toJson ⟨analysis, search, linear, entropy, logging⟩
  have defaults := parts_toJson {}
  simp only [settingNames, List.map_cons, List.map_nil, List.cons.injEq, and_true] at parts defaults
  obtain ⟨a, b, c, d, e⟩ := parts
  obtain ⟨a', b', c', d', e'⟩ := defaults
  simp only [Completed, settingNames, setting?, List.forall_mem_cons, List.map_cons, List.map_nil,
    a, b, c, d, e, a', b', c', d', e', Option.bind_some]
  exact ⟨setting_written AnalysisConfig.completes analysis_,
    setting_written SearchConfig.completes search_,
    setting_written LinearConfig.completes linear_,
    setting_written EntropyConfig.completes entropy_,
    setting_written LoggingConfig.completes logging_, List.forall_mem_nil _⟩

/-- The settings are all that a configuration has. -/
theorem eq_of_settings {d : SpaceConfig}
    (same : ∀ among ∈ settingNames, ∀ name ∈ among.2,
      setting? among name c.toJson = setting? among name d.toJson) : c = d := by
  have parts := parts_toJson c
  have parts' := parts_toJson d
  simp only [settingNames, List.map_cons, List.map_nil, List.cons.injEq, and_true] at parts parts'
  obtain ⟨a₁, a₂, a₃, a₄, a₅⟩ := parts
  obtain ⟨b₁, b₂, b₃, b₄, b₅⟩ := parts'
  simp only [settingNames, setting?, List.forall_mem_cons, List.map_cons, List.map_nil,
    a₁, a₂, a₃, a₄, a₅, b₁, b₂, b₃, b₄, b₅, Option.bind_some] at same
  obtain ⟨analysis, search, linear, entropy, logging, -⟩ := same
  have analysis_ : c.analysis.toJson = d.analysis.toJson :=
    object_ext AnalysisConfig.fieldNames (by decide) rfl rfl analysis
  have search_ : c.search.toJson = d.search.toJson :=
    object_ext SearchConfig.fieldNames (by decide) rfl rfl search
  have linear_ : c.linear.toJson = d.linear.toJson :=
    object_ext LinearConfig.fieldNames (by decide) rfl rfl linear
  have entropy_ : c.entropy.toJson = d.entropy.toJson :=
    object_ext EntropyConfig.fieldNames (by decide) rfl rfl entropy
  have logging_ : c.logging.toJson = d.logging.toJson :=
    object_ext LoggingConfig.fieldNames (by decide) rfl rfl logging
  have json : c.toJson = d.toJson := by
    rw [toJson, toJson, analysis_, search_, linear_, entropy_, logging_]
  exact Option.some.inj ((ofJson?_toJson c).symm.trans (json ▸ ofJson?_toJson d))

theorem kept_toJson (c : SpaceConfig) : Kept (.members sections) c.toJson := by
  refine kept_object ?_
  simp only [List.forall_mem_cons]
  exact ⟨c.analysis.kept_toJson, c.search.kept_toJson, c.linear.kept_toJson, c.entropy.kept_toJson,
    c.logging.kept_toJson, List.forall_mem_nil _⟩

theorem parseUnchecked_eq_ok_iff : parseUnchecked text = .ok c ↔
    ∃ v, parseFor? (.members sections) text = some v ∧ ofJson? v = some c := by
  rw [parseUnchecked, readUnchecked, ← Option.bind_eq_some_iff]
  cases (parseFor? (.members sections) text).bind ofJson? with
  | none => simp
  | some c' => simp

theorem parse_eq_ok_iff :
    parse text = .ok c ↔ parseUnchecked text = .ok c ∧ c.validate = .ok () := by
  simp only [parse, bind, Except.bind, pure, Except.pure]
  constructor
  · intro accepted
    split at accepted
    · cases accepted
    · rename_i read
      split at accepted
      · cases accepted
      · rename_i valid
        obtain rfl := Except.ok.inj accepted
        exact ⟨read, valid⟩
  · rintro ⟨read, valid⟩
    simp only [read, valid]

theorem parse_text (valid : c.validate = .ok ()) : parse c.text = .ok c :=
  parse_eq_ok_iff.2 ⟨parseUnchecked_eq_ok_iff.2
    ⟨c.toJson, parseFor?_pretty c.kept_toJson, ofJson?_toJson c⟩, valid⟩

/-- Settings that are accepted are read back from their own text. Those read from another text are
acceptable, have the values it gives and the defaults for what it leaves out, and no other settings
do. -/
theorem text_roundtrip :
    (∀ c : SpaceConfig, c.validate = .ok () → parse c.text = .ok c) ∧
    ∀ (text : String) (c : SpaceConfig), parse text = .ok c →
      c.validate = .ok () ∧ parse c.text = .ok c ∧
      ∃ v, parseFor? (.members sections) text = some v ∧ c.Completed v ∧
        ∀ d : SpaceConfig, d.Completed v → d = c := by
  refine ⟨fun c valid => parse_text valid, fun text c accepted => ?_⟩
  obtain ⟨unchecked, valid⟩ := parse_eq_ok_iff.1 accepted
  obtain ⟨v, value, read⟩ := parseUnchecked_eq_ok_iff.1 unchecked
  have completed := completed_of_read read
  refine ⟨valid, parse_text valid, v, value, completed, fun d same => eq_of_settings ?_⟩
  intro among section_ name known
  rw [same among section_ name known, completed among section_ name known]

/-- Numbers at the top of their range and a level that has to be escaped. -/
def extremeConfig : SpaceConfig where
  analysis := {
    autoSchedule := false, maxFunctionSize := Word.top, maxBlocksPerFunction := Word.top,
    minStringLength := Word.top, maxStringLength := Word.top }
  search := { progressGranularity := 0, timeoutSeconds := Word.top }
  logging := { level := "\"é\\\n\x01", json := true }

def partialText : String :=
  "\x7b\"linear\": \x7b\"bytes_per_row\": 8, \"wrap\": -1\x7d, \"search\": [1]\x7d"

def partialConfig : SpaceConfig where
  search := { chunkSize := 1 }
  linear := { bytesPerRow := 8 }

theorem extreme_config_and_partial_text :
    (extremeConfig.validate = .ok () ∧ parse extremeConfig.text = .ok extremeConfig) ∧
    parse partialText = .ok partialConfig ∧ partialConfig.validate = .ok () ∧
      parse partialConfig.text = .ok partialConfig := by
  have valid : extremeConfig.validate = .ok () := by decide
  have accepted : parse partialText = .ok partialConfig := by decide +kernel
  obtain ⟨same, again, -⟩ := text_roundtrip.2 partialText partialConfig accepted
  exact ⟨⟨valid, text_roundtrip.1 extremeConfig valid⟩, accepted, same, again⟩

end SpaceConfig

end BinaryAtlas
