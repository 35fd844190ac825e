import Mathlib.Data.List.Induction
import StrategyForm.Proofs.Json.Restored
import StrategyForm.Proofs.Settings.Layers
import StrategyForm.Proofs.Settings.Records
import StrategyForm.Settings.File

/-!
# Settings one by one

Settings are loaded table by table, yet each of the seven comes from its own places alone: its variable, its
entry in the file, its built-in value (`load_setting`). What is set for one leaves its neighbours as
they are, wherever the default of a neighbour is kept.

There is one exception. A file may give a table as the list of its members, which are then told by their
places; a variable for any member of that table puts a table in the place of the list, and the other members
of the list are lost.
-/

namespace StrategyForm
open Keyed (find find_put)

namespace SettingTree

def isEmptyTable : SettingTree → Bool
  | table [] => true
  | _ => false

theorem eq_of_isEmptyTable {t : SettingTree} (h : t.isEmptyTable) : t = table [] := by
  unfold isEmptyTable at h
  split at h
  · rfl
  · cases h

end SettingTree
open SettingTree

/-! ### The seven settings -/

inductive Setting where
  | baseUrl
  | timeoutSecs
  | maxRetries
  | retryBackoffMs
  | ttlSecs
  | level
  | format
deriving DecidableEq, Repr

namespace Setting

def all : List Setting := [baseUrl, timeoutSecs, maxRetries, retryBackoffMs, ttlSecs, level, format]

def table : Setting → String
  | baseUrl | timeoutSecs | maxRetries | retryBackoffMs => "api"
  | ttlSecs => "cache"
  | level | format => "logging"

def name : Setting → String
  | baseUrl => "base_url"
  | timeoutSecs => "timeout_secs"
  | maxRetries => "max_retries"
  | retryBackoffMs => "retry_backoff_ms"
  | ttlSecs => "ttl_secs"
  | level => "level"
  | format => "format"

/-- The place in a table that is given as a list. -/
def place : Setting → Nat
  | baseUrl | ttlSecs | level => 0
  | timeoutSecs | format => 1
  | maxRetries => 2
  | retryBackoffMs => 3

def key (x : Setting) : String := x.table ++ "." ++ x.name

/-- The value among loaded settings, as a leaf. -/
def value (s : Settings) : Setting → SettingTree
  | baseUrl => .text s.api.baseUrl
  | timeoutSecs => .whole s.api.timeoutSecs.toNat
  | maxRetries => .whole s.api.maxRetries.toNat
  | retryBackoffMs => .whole s.api.retryBackoffMs.toNat
  | ttlSecs => .whole s.cache.ttlSecs.toNat
  | level => .text s.logging.level
  | format => .text s.logging.format

/-- The leaf of the setting's own kind that a tree is read as. -/
def read : Setting → SettingTree → Option SettingTree
  | baseUrl | level | format => fun t => t.asText?.map .text
  | timeoutSecs | retryBackoffMs | ttlSecs => fun t => t.asWord64?.map (.whole ·.toNat)
  | maxRetries => fun t => t.asWord32?.map (.whole ·.toNat)

/-- A leaf of the setting's own kind. -/
def IsOf (t : SettingTree) : Setting → Prop
  | baseUrl | level | format => ∃ s, t = .text s
  | timeoutSecs | maxRetries | retryBackoffMs | ttlSecs => ∃ i, t = .whole i

theorem mem_all (x : Setting) : x ∈ all := by cases x <;> decide

theorem path_key (x : Setting) : path x.key = [x.table, x.name] := by cases x <;> decide +kernel

theorem name_eq_iff {x y : Setting} (h : y.table = x.table) : y.name = x.name ↔ y.key = x.key := by
  rw [key, key, h]
  exact ⟨fun e => by rw [e], fun e => String.append_right_inj .. |>.1 e⟩

theorem table_eq_of_key {x y : Setting} (h : y.key = x.key) : y.table = x.table := by
  have paths := congrArg path h
  rw [path_key, path_key] at paths
  exact (List.cons.inj paths).1

/-- A leaf of the setting's kind is taken as it is. -/
theorem eq_of_read {x : Setting} {t v : SettingTree} (h : x.read t = some v) (own : x.IsOf t) : v = t := by
  cases x with
  | baseUrl | level | format =>
    obtain ⟨s, rfl⟩ := own
    exact (Option.some.inj h).symm
  | timeoutSecs | retryBackoffMs | ttlSecs | maxRetries =>
    obtain ⟨i, rfl⟩ := own
    obtain ⟨n, word, rfl⟩ := Option.map_eq_some_iff.1 h
    obtain ⟨m, number, word⟩ := Option.bind_eq_some_iff.1 word
    rw [asNumber?] at number
    split at number
    · obtain rfl := Option.some.inj number
      split at word
      · obtain rfl := Option.some.inj word
        congr 1
        simp only [UInt64.toNat_ofNat', UInt32.toNat_ofNat']
        omega
      · cases word
    · cases number

/-- Each setting is read from its own place in a tree. -/
theorem taken_of_ofTree? {entries : List (String × SettingTree)} {s : Settings} (x : Setting)
    (h : Settings.ofTree? (.table entries) = some s) :
    Taken x.read (x.value {}) ((find x.table entries).bind (·.member? x.name x.place)) (x.value s) := by
  have filled : fill Settings.settingSlots entries {} = some s := h
  have api : Taken (asRecord? ApiSettings.settingSlots {}) {} (find "api" entries) s.api :=
    fill_taken Settings.api [] [_, _] filled (fun _ _ => rfl) trivial
      ⟨slot_leaves fun _ _ => rfl, slot_leaves fun _ _ => rfl⟩
  have cache : Taken (asRecord? CacheSettings.settingSlots {}) {} (find "cache" entries) s.cache :=
    fill_taken Settings.cache [_] [_] filled (fun _ _ => rfl)
      (slot_leaves fun _ _ => rfl) (slot_leaves fun _ _ => rfl)
  have logging : Taken (asRecord? LogSettings.settingSlots {}) {} (find "logging" entries) s.logging :=
    fill_taken Settings.logging [_, _] [] filled (fun _ _ => rfl)
      ⟨slot_leaves fun _ _ => rfl, slot_leaves fun _ _ => rfl⟩ trivial
  cases x with
  | baseUrl =>
    exact (api.member ApiSettings.baseUrl [] [_, _, _] (fun _ _ => rfl) trivial
      ⟨slot_leaves fun _ _ => rfl, slot_leaves fun _ _ => rfl, slot_leaves fun _ _ => rfl⟩).map SettingTree.text
  | timeoutSecs =>
    exact (api.member ApiSettings.timeoutSecs [_] [_, _] (fun _ _ => rfl)
      (slot_leaves fun _ _ => rfl) ⟨slot_leaves fun _ _ => rfl, slot_leaves fun _ _ => rfl⟩).map
        fun n => SettingTree.whole n.toNat
  | maxRetries =>
    exact (api.member ApiSettings.maxRetries [_, _] [_] (fun _ _ => rfl)
      ⟨slot_leaves fun _ _ => rfl, slot_leaves fun _ _ => rfl⟩ (slot_leaves fun _ _ => rfl)).map
        fun n => SettingTree.whole n.toNat
  | retryBackoffMs =>
    exact (api.member ApiSettings.retryBackoffMs [_, _, _] [] (fun _ _ => rfl)
      ⟨slot_leaves fun _ _ => rfl, slot_leaves fun _ _ => rfl, slot_leaves fun _ _ => rfl⟩ trivial).map
        fun n => SettingTree.whole n.toNat
  | ttlSecs =>
    exact (cache.member CacheSettings.ttlSecs [] [] (fun _ _ => rfl)
      trivial trivial).map fun n => SettingTree.whole n.toNat
  | level =>
    exact (logging.member LogSettings.level [] [_] (fun _ _ => rfl) trivial
      (slot_leaves fun _ _ => rfl)).map SettingTree.text
  | format =>
    exact (logging.member LogSettings.format [_] [] (fun _ _ => rfl)
      (slot_leaves fun _ _ => rfl) trivial).map SettingTree.text

/-! ### The built-in layer -/

theorem builtIn_eq : Settings.builtIn =
    .table [("api", .table [("base_url", value {} baseUrl)]),
      ("cache", .table [("ttl_secs", value {} ttlSecs)])] := by
  have api : path "api.base_url" = ["api", "base_url"] := path_key baseUrl
  have cache : path "cache.ttl_secs" = ["cache", "ttl_secs"] := path_key ttlSecs
  simp only [Settings.builtIn, overlay, List.foldl, api, cache]
  rfl

/-- What the built-in layer has of a setting is what the setting is without it. -/
theorem eq_of_builtIn {x : Setting} {leaf : SettingTree}
    (h : (Settings.builtIn.child? x.table).bind (·.child? x.name) = some leaf) : leaf = x.value {} := by
  rw [builtIn_eq] at h
  cases x with
  | baseUrl | ttlSecs => exact (Option.some.inj h).symm
  | _ => cases h

theorem covers_builtIn (x : Setting) :
    Covers (Settings.builtIn.child? x.table) (Settings.builtIn.child? x.table) none := by
  rw [builtIn_eq]
  cases x with
  | baseUrl | timeoutSecs | maxRetries | retryBackoffMs | ttlSecs =>
    exact .ofLeaves fun e member => by rw [List.mem_singleton.1 member]; rfl
  | level | format => exact .inl rfl

/-! ### The environment over the file -/

/-- The leaf that the environment has for a setting. -/
def inEnvironment? (env : Environment) (x : Setting) : Option SettingTree :=
  (env.reverse.find? fun v => Environment.key? v.1 = some x.key).map fun v => Environment.leaf v.2

/-- The environment has a member of the setting's table. -/
def tableSet (env : Environment) (x : Setting) : Bool :=
  all.any fun y => y.table = x.table && (y.inEnvironment? env).isSome

/-- What a table is given as, where members of the table are set one by one or not. -/
def look (x : Setting) (oneByOne : Bool) (t : SettingTree) : Option SettingTree :=
  if oneByOne then t.child? x.name else t.member? x.name x.place

theorem look_table (x : Setting) (oneByOne : Bool) (entries : List (String × SettingTree)) :
    x.look oneByOne (.table entries) = find x.name entries := by
  cases oneByOne <;> rfl

/-- The tree that a file has for a setting; an empty table is none. -/
def inFile? (file : List (String × SettingTree)) (env : Environment) (x : Setting) : Option SettingTree :=
  ((((SettingTree.table []).overlay file).child? x.table).bind (x.look (x.tableSet env))).filter (!isEmptyTable ·)

/-- In a file with one entry to a key, spelt out table by table, that is the entry at the setting's path. -/
theorem inFile?_eq_at? {file : List (String × SettingTree)} {x : Setting} (env : Environment)
    (distinct : (file.map (·.1)).Nodup) (plain : ∀ e ∈ file, (path e.1).head? = some x.table → e.1 = x.table)
    (tables : ∀ t, find x.table file = some t → ∃ members : List (String × SettingTree), t = .table members ∧
      (members.map (·.1)).Nodup ∧ ∀ inner, find x.name members ≠ some (.table inner)) :
    x.inFile? file env = (SettingTree.table file).at? [x.table, x.name] := by
  have single : path x.table = [x.table] := by cases x <;> decide +kernel
  rw [inFile?, child?_overlay]
  show (Option.bind (overlaid x.table file none) _).filter _ = _
  rw [overlaid_of_plain distinct plain single]
  show _ = (find x.table file).bind fun t => (t.child? x.name).bind some
  rw [Option.bind_map]
  cases given : find x.table file with
  | none => rfl
  | some t =>
    obtain ⟨members, rfl, distinct', leaf⟩ := tables t given
    obtain ⟨entries, merged⟩ := merge_table [] members
    have entry := child?_merge distinct' (.table []) x.name
    rw [merged] at entry
    show Option.filter _ (x.look _ (merge (.table []) members)) = (find x.name members).bind some
    rw [merged, look_table]
    refine (congrArg _ entry).trans ?_
    cases found : find x.name members with
    | none => rfl
    | some v =>
      cases v with
      | table inner => exact absurd found (leaf inner)
      | _ => rfl

/-- All settings of the environment are among the seven. -/
def Named (env : Environment) : Prop :=
  ∀ v ∈ env, ∀ key, Environment.key? v.1 = some key → ∃ x : Setting, key = x.key

theorem find_settings (env : Environment) (x : Setting) :
    find x.key env.settings.reverse = x.inEnvironment? env := by
  rw [Environment.settings, ← List.filterMap_reverse, inEnvironment?]
  induction env.reverse with
  | nil => rfl
  | cons v rest ih =>
    rw [List.filterMap_cons, List.find?_cons]
    cases named : Environment.key? v.1 with
    | none => simpa [named] using ih
    | some key =>
      by_cases same : key = x.key
      · simp [named, find, same]
      · simpa [named, find, same] using ih

theorem leaf_ne_table (s : String) (entries : List (String × SettingTree)) :
    Environment.leaf s ≠ .table entries := by
  unfold Environment.leaf
  grind

/-- Each source of the environment sets one member of one table. -/
theorem overlaid_concat {source : List (String × SettingTree)} (x : Setting) (s : String) (table : String)
    (before : Option SettingTree) : overlaid table (source ++ [(x.key, Environment.leaf s)]) before =
      if x.table = table then
        some (.table (Keyed.put x.name (Environment.leaf s) ((overlaid table source before).getD .nothing).entries))
      else overlaid table source before := by
  have leaf : written (Environment.leaf s) [] = fun _ => Environment.leaf s := by
    funext before
    generalize given : Environment.leaf s = t
    cases t with
    | table entries => exact absurd given (leaf_ne_table s entries)
    | _ => rfl
  unfold overlaid
  rw [List.foldl_append, List.foldl_cons, List.foldl_nil, path_key]
  refine if_congr Iff.rfl (congrArg some ?_) rfl
  show setAt _ [x.name] _ = _
  rw [setAt_cons, leaf]

section
variable {source : List (String × SettingTree)}
  (known : ∀ e ∈ source, ∃ (x : Setting) (s : String), e = (x.key, Environment.leaf s))
include known

/-- Each member of a table is what was set for it last, or what it was. -/
theorem child?_overlaid (x : Setting) (before : Option SettingTree) :
    ((overlaid x.table source before).getD .nothing).child? x.name =
      (find x.key source.reverse).or ((before.getD .nothing).child? x.name) := by
  -- from the end of the source, as the last entry of a key is the one that counts
  induction source using List.reverseRecOn with
  | nil => rfl
  | append_singleton source e ih =>
    have earlier := ih fun e member => known e (List.mem_append_left _ member)
    obtain ⟨y, s, rfl⟩ := known e (List.mem_append_right _ (List.mem_singleton_self e))
    rw [overlaid_concat, List.reverse_append, List.reverse_singleton, List.singleton_append, find]
    by_cases table : y.table = x.table
    · rw [if_pos table, Option.getD_some, child?, entries, find_put]
      by_cases name : y.name = x.name
      · rw [if_pos name, if_pos ((name_eq_iff table).1 name), Option.some_or]
      · rw [if_neg name, if_neg fun key => name ((name_eq_iff table).2 key), ← earlier]
        rfl
    · have other : y.key ≠ x.key := fun key => table (table_eq_of_key key)
      rw [if_neg table, if_neg other, earlier]

/-- A table of which a member is set is a table after that. -/
theorem overlaid_eq_table {x : Setting} (set : (find x.key source.reverse).isSome) (before : Option SettingTree) :
    ∃ entries, overlaid x.table source before = some (.table entries) := by
  induction source using List.reverseRecOn with
  | nil => cases set
  | append_singleton source e ih =>
    obtain ⟨y, s, rfl⟩ := known e (List.mem_append_right _ (List.mem_singleton_self e))
    rw [overlaid_concat]
    by_cases table : y.table = x.table
    · exact ⟨_, if_pos table⟩
    · rw [if_neg table]
      refine ih (fun e member => known e (List.mem_append_left _ member)) ?_
      have other : y.key ≠ x.key := fun key => table (table_eq_of_key key)
      rw [List.reverse_append, List.reverse_singleton, List.singleton_append, find, if_neg other] at set
      exact set

/-- Any other table stays what it was. -/
theorem overlaid_eq_self {table : String} (unset : ∀ x : Setting, x.table = table → find x.key source.reverse = none)
    (before : Option SettingTree) : overlaid table source before = before := by
  induction source using List.reverseRecOn with
  | nil => rfl
  | append_singleton source e ih =>
    obtain ⟨y, s, rfl⟩ := known e (List.mem_append_right _ (List.mem_singleton_self e))
    simp only [List.reverse_append, List.reverse_singleton, List.singleton_append, find] at unset
    have other : y.table ≠ table := fun same => by simpa using unset y same
    rw [overlaid_concat, if_neg other]
    refine ih (fun e member => known e (List.mem_append_left _ member)) fun x same => ?_
    have none := unset x same
    rwa [if_neg fun key => other ((table_eq_of_key key).trans same)] at none

end

/-! ### Settings one by one -/

theorem known_of_named {env : Environment} (named : Named env) :
    ∀ e ∈ env.settings, ∃ (x : Setting) (s : String), e = (x.key, Environment.leaf s) := by
  intro e member
  obtain ⟨v, there, given⟩ := List.mem_filterMap.1 member
  obtain ⟨key, spelt, rfl⟩ := Option.map_eq_some_iff.1 given
  obtain ⟨x, rfl⟩ := named v there key spelt
  exact ⟨x, v.2, rfl⟩

theorem overlay_table (entries source : List (String × SettingTree)) :
    ∃ entries', (SettingTree.table entries).overlay source = .table entries' := by
  induction source generalizing entries with
  | nil => exact ⟨entries, rfl⟩
  | cons e rest ih =>
    show ∃ entries', (setAt e.2 (path e.1) (.table entries)).overlay rest = .table entries'
    cases path e.1 with
    | nil => exact ih entries
    | cons name names =>
      rw [setAt_cons]
      exact ih _

theorem read_table_nil (x : Setting) : x.read (.table []) = none := by cases x <;> rfl

theorem isOf_value (x : Setting) (s : Settings) : x.IsOf (x.value s) := by
  cases x <;> exact ⟨_, rfl⟩

/-- Laid over the built-in layer or over nothing, a file gives a setting the same value. -/
theorem taken_alone {x : Setting} {laid alone : Option SettingTree} {v : SettingTree} (oneByOne : Bool)
    (covers : Covers (Settings.builtIn.child? x.table) laid alone)
    (taken : Taken x.read (x.value {}) (laid.bind (x.look oneByOne)) v) :
    Taken x.read (x.value {}) 
      ((alone.bind (x.look oneByOne)).filter (!isEmptyTable ·)) v := by
  have kept : ∀ given : Option SettingTree, Taken x.read (x.value {}) given v →
      Taken x.read (x.value {}) (given.filter (!isEmptyTable ·)) v := by
    intro given taken
    cases given with
    | none => exact taken
    | some t =>
      cases empty : t.isEmptyTable with
      | false => rwa [Option.filter_some, empty]
      | true =>
        rw [eq_of_isEmptyTable empty] at taken
        exact nomatch (read_table_nil x).symm.trans taken
  rcases covers with rfl | ⟨t, t', rfl, table', beside⟩
  · exact kept _ taken
  · have looked : alone.bind (x.look oneByOne) = find x.name t' := by
      cases alone with
      | none => obtain rfl := SettingTree.table.inj table'; rfl
      | some a => rw [Option.getD_some] at table'; rw [table', Option.bind_some, look_table]
    rw [Option.bind_some, look_table] at taken
    rw [looked]
    rcases beside x.name with same | ⟨leaf, builtIn, -, found, empty⟩
    · exact kept _ (same ▸ taken)
    · rw [found] at taken
      have value := eq_of_builtIn builtIn
      subst value
      have v_eq := eq_of_read taken (isOf_value x {})
      cases given : find x.name t' with
      | none => exact v_eq
      | some a =>
        rw [given, Option.getD_some] at empty
        rw [empty]
        exact v_eq

/-- The environment leaves what it has of a setting, else what was there before. -/
theorem looked_overlaid {env : Environment} (named : Named env) (x : Setting) (before : Option SettingTree) :
    (overlaid x.table env.settings before).bind (·.member? x.name x.place) =
      (x.inEnvironment? env).or (before.bind (x.look (x.tableSet env))) := by
  have known := known_of_named named
  by_cases set : x.tableSet env
  · obtain ⟨y, -, given⟩ := List.any_eq_true.1 set
    obtain ⟨table, given⟩ := Bool.and_eq_true_iff.1 given
    rw [← find_settings] at given
    obtain ⟨members, eq⟩ := overlaid_eq_table known given before
    rw [of_decide_eq_true table] at eq
    have member := child?_overlaid known x before
    rw [eq, find_settings] at member
    rw [eq, set]
    refine member.trans (congrArg _ ?_)
    cases before <;> rfl
  · have unset : ∀ y : Setting, y.table = x.table → y.inEnvironment? env = none := by
      intro y table
      by_contra given
      refine set (List.any_eq_true.2 ⟨y, mem_all y, ?_⟩)
      rw [decide_eq_true table, Option.isSome_iff_ne_none.2 given, Bool.and_self]
    rw [overlaid_eq_self known fun y table => (find_settings env y).trans (unset y table), unset x rfl,
      Option.none_or, Bool.eq_false_iff.2 set]
    rfl

theorem taken_layered {file : List (String × SettingTree)} {env : Environment} {s : Settings}
    (named : Named env) (h : Settings.ofLayers? file env = some s) (x : Setting) :
    Taken x.read (x.value {}) ((x.inEnvironment? env).or (x.inFile? file env)) (x.value s) := by
  have layers : ∃ entries, Settings.layered file env = .table entries := by
    rw [Settings.layered, builtIn_eq]
    obtain ⟨entries, eq⟩ := overlay_table _ file
    rw [eq]
    exact overlay_table entries env.settings
  obtain ⟨entries, layered⟩ := layers
  have entry : find x.table entries =
      overlaid x.table env.settings (overlaid x.table file (Settings.builtIn.child? x.table)) := by
    rw [← child?_overlay, ← child?_overlay]
    exact (congrArg (child? · x.table) layered).symm
  have taken := taken_of_ofTree? x ((congrArg Settings.ofTree? layered).symm.trans h)
  rw [entry, looked_overlaid named] at taken
  cases given : x.inEnvironment? env with
  | some t => rw [given] at taken; exact taken
  | none =>
    rw [given, Option.none_or] at taken
    rw [Option.none_or, inFile?, child?_overlay]
    exact taken_alone (x.tableSet env) ((covers_builtIn x).overlaid x.table file) taken

/-- A tree gives a setting its value; a leaf of its kind is the value. -/
def Gives (t : SettingTree) (s : Settings) (x : Setting) : Prop :=
  x.read t = some (x.value s) ∧ (x.IsOf t → x.value s = t)

theorem gives_of_read {t : SettingTree} {s : Settings} {x : Setting} (h : x.read t = some (x.value s)) :
    x.Gives t s := ⟨h, eq_of_read h⟩

end Setting

namespace Settings
open Setting Json.Decoder

/-- The entries of the file that settings are loaded from, if there is one. -/
def consulted (folder : Folder) : Option String → Except LoadFault (List (String × SettingTree))
  | some path => fileEntries folder path
  | none => if folder.contains usualPath then fileEntries folder usualPath else .ok []

theorem load_eq (folder : Folder) (path : Option String) (env : Environment) : load folder path env =
    (consulted folder path).bind fun file =>
      match ofLayers? file env with
      | some s => .ok s
      | none => .error .misshapen := by
  cases path with
  | some path => rfl
  | none =>
    rw [load, consulted]
    by_cases there : folder.contains usualPath
    · rw [if_pos there, if_pos there]
      rfl
    · rw [if_neg there, if_neg there]
      rfl

theorem load_eq_ok {folder : Folder} {path : Option String} {env : Environment} {s : Settings}
    (h : load folder path env = .ok s) : ∃ file, consulted folder path = .ok file ∧ ofLayers? file env = some s := by
  rw [load_eq] at h
  obtain ⟨file, read, h⟩ := bind_ok h
  refine ⟨file, read, ?_⟩
  split at h
  · rename_i s' layered
    rw [layered, Except.ok.inj h]
  · cases h

/-- Loaded settings, one by one: what the environment has, else what the file has, else what is built in. -/
theorem load_setting {folder : Folder} {path : Option String} {env : Environment} {s : Settings}
    (named : Named env) (h : load folder path env = .ok s) :
    ∃ file, consulted folder path = .ok file ∧ ∀ x : Setting,
      (∀ t, x.inEnvironment? env = some t → x.Gives t s) ∧
      (x.inEnvironment? env = none → ∀ t, x.inFile? file env = some t → x.Gives t s) ∧
      (x.inEnvironment? env = none → x.inFile? file env = none → x.value s = x.value {}) := by
  obtain ⟨file, read, layered⟩ := load_eq_ok h
  refine ⟨file, read, fun x => ?_⟩
  have taken := taken_layered named layered x
  refine ⟨fun t given => ?_, fun unset t given => ?_, fun unset absent => ?_⟩
  · rw [given, Option.some_or] at taken
    exact gives_of_read taken
  · rw [unset, given, Option.none_or] at taken
    exact gives_of_read taken
  · rw [unset, absent, Option.none_or] at taken
    exact taken

theorem load_setting_of_neighbours :
    let folder : Folder := ⟨[(usualPath, "[api]\nmax_retries = 5\n[cache]\n[logging]\nlevel = \"debug\"\n")]⟩
    let env : Environment := [("SDUI__API__TIMEOUT_SECS", "7")]
    let s : Settings := { api := { timeoutSecs := 7, maxRetries := 5 }, logging := { level := "debug" } }
    Named env ∧ load folder none env = .ok s ∧ timeoutSecs.Gives (Environment.leaf "7") s := by
  intro folder env s
  have timeout : Environment.key? "SDUI__API__TIMEOUT_SECS" = some timeoutSecs.key := by decide +kernel
  have named : Named env := by
    intro v there key spelt
    obtain rfl := List.mem_singleton.1 there
    exact ⟨timeoutSecs, Option.some.inj (spelt.symm.trans timeout)⟩
  have loaded : load folder none env = .ok s := by decide +kernel
  have given : timeoutSecs.inEnvironment? env = some (Environment.leaf "7") := by
    simp only [inEnvironment?, env, List.reverse_singleton, List.find?, timeout, decide_true, Option.map_some]
  obtain ⟨file, -, settings⟩ := load_setting named loaded
  exact ⟨named, loaded, (settings timeoutSecs).1 _ given⟩

/-- A list in the place of a table gives the table's members without having their keys. -/
theorem load_list_for_table :
    load ⟨[(usualPath, "api = [\"http://list.test/api/v1\", 5]\n")]⟩ none [] =
      .ok { api := { baseUrl := "http://list.test/api/v1", timeoutSecs := 5 } } ∧
    baseUrl.inEnvironment? [] = none ∧
    (∀ file, consulted ⟨[(usualPath, "api = [\"http://list.test/api/v1\", 5]\n")]⟩ none = .ok file →
      (SettingTree.table file).at? [baseUrl.table, baseUrl.name] = none) ∧
    baseUrl.value { api := { baseUrl := "http://list.test/api/v1", timeoutSecs := 5 } } ≠ baseUrl.value {} := by
  refine ⟨by decide +kernel, rfl, fun file read => ?_, fun same => ?_⟩
  · have absent : (consulted ⟨[(usualPath, "api = [\"http://list.test/api/v1\", 5]\n")]⟩ none).toOption.all
        fun file => ((SettingTree.table file).at? [baseUrl.table, baseUrl.name]).isNone := by
      decide +kernel
    rw [read] at absent
    exact Option.isNone_iff_eq_none.1 absent
  · exact absurd (SettingTree.text.inj same) (by decide)

end Settings
end StrategyForm
