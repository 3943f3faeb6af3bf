/-
Module: FixedShape.Proofs.CommandLine.Items
Purpose: The items of a command line, which are paths, flags, and options with their values. They
  are taken one after the other, but what they come to is said for each option by itself.
-/
import FixedShape.CommandLine.Args
import FixedShape.Proofs.CommandLine.Numerals
import Mathlib.Data.List.Induction
import Mathlib.Data.List.TakeWhile

namespace FixedShape.CommandLine

/-! ### Items and their spellings -/

/-- The kind of values of an option. -/
abbrev Setting.Value : Setting → Type
  | .seqLength => Nat
  | .outputLength => Nat
  | .axis => Int64
  | .output => String
  | .input => String
  | .outputName => String

instance : (setting : Setting) → DecidableEq setting.Value
  | .seqLength => inferInstanceAs (DecidableEq Nat)
  | .outputLength => inferInstanceAs (DecidableEq Nat)
  | .axis => inferInstanceAs (DecidableEq Int64)
  | .output => inferInstanceAs (DecidableEq String)
  | .input => inferInstanceAs (DecidableEq String)
  | .outputName => inferInstanceAs (DecidableEq String)

/-- A complete item of a command line. -/
inductive Item where
  | path (text : String)
  | flag (flag : Flag)
  | setting (setting : Setting) (value : setting.Value)
  deriving DecidableEq

/-- The option of an item. Paths have none. -/
def Item.switch? : Item → Option Switch
  | .path _ => none
  | .flag raised => some (.flag raised)
  | .setting assigned _ => some (.setting assigned)

/-- How a flag is spelled. -/
def Flag.spellings : Flag → List String
  | .structural => ["--structural", "--add-padding"]
  | .rejectTruncation => ["--reject-truncation"]
  | .allowUnusedInputs => ["--allow-unused-inputs"]
  | .analyzeOnly => ["--analyze-only"]
  | .verbose => ["-v", "--verbose"]

/-- How an option with a value is spelled. -/
def Setting.spellings : Setting → List String
  | .output => ["-o", "--output"]
  | .seqLength => ["-s", "--seq-length"]
  | .outputLength => ["-a", "--output-length", "--max-audio-samples"]
  | .axis => ["--axis"]
  | .input => ["--input"]
  | .outputName => ["--output-name"]

/-- The option of a spelling, which is a letter behind one dash or a name behind two. -/
def Switch.ofSpelling? (spelling : String) : Option Switch :=
  match spelling.toList with
  | ['-', letter] => Switch.ofShort? letter
  | '-' :: '-' :: chars => if '=' ∈ chars then none else Switch.ofLong? (String.ofList chars)
  | _ => none

/-- Such a letter is no dash, and such a name is not empty and without an equals sign. -/
theorem Switch.ofSpelling?_eq_some {switch : Switch} {spelling : String}
    (h : Switch.ofSpelling? spelling = some switch) :
    (∃ letter, spelling.toList = ['-', letter] ∧ letter ≠ '-' ∧
        Switch.ofShort? letter = some switch) ∨
      ∃ chars, spelling.toList = '-' :: '-' :: chars ∧ chars ≠ [] ∧ '=' ∉ chars ∧
        Switch.ofLong? (String.ofList chars) = some switch := by
  unfold Switch.ofSpelling? at h
  split at h
  · rename_i letter heq
    refine .inl ⟨letter, heq, ?_, h⟩
    rintro rfl
    cases h
  · rename_i chars _ heq
    split at h
    · cases h
    · rename_i hplain
      refine .inr ⟨chars, heq, ?_, hplain, h⟩
      rintro rfl
      cases h
  · cases h

theorem Flag.switch_of_mem (flag : Flag) {spelling : String} (h : spelling ∈ flag.spellings) :
    Switch.ofSpelling? spelling = some (.flag flag) := by
  revert spelling
  cases flag with
  | structural => decide
  | rejectTruncation => decide
  | allowUnusedInputs => decide
  | analyzeOnly => decide
  | verbose => decide

theorem Setting.switch_of_mem (setting : Setting) {spelling : String}
    (h : spelling ∈ setting.spellings) :
    Switch.ofSpelling? spelling = some (.setting setting) := by
  revert spelling
  cases setting with
  | output => decide
  | seqLength => decide
  | outputLength => decide
  | axis => decide
  | input => decide
  | outputName => decide

/-- A text is the value of an option. Numbers have numerals, and 64 bits hold them. -/
def Setting.Writes : (setting : Setting) → setting.Value → String → Prop
  | .seqLength, number, text => Numeral.Natural text.toList number ∧ number < 2 ^ 64
  | .outputLength, number, text => Numeral.Natural text.toList number ∧ number < 2 ^ 64
  | .axis, number, text => Numeral.Integer text.toList number.toInt
  | .output, path, text => text = path
  | .input, name, text => text = name
  | .outputName, name, text => text = name

/-- Items stand on a command line, one behind the other. The value of an option is the next
argument, whatever it looks like. The letter `v` may share its dash with the letters behind it. -/
inductive Spells : List Item → List String → Prop where
  | nil : Spells [] []
  | path {text : String} {items : List Item} {args : List String}
      (head : text.toList.head? ≠ some '-') (rest : Spells items args) :
      Spells (.path text :: items) (text :: args)
  | flag {flag : Flag} {spelling : String} {items : List Item} {args : List String}
      (spelled : spelling ∈ flag.spellings) (rest : Spells items args) :
      Spells (.flag flag :: items) (spelling :: args)
  | setting {setting : Setting} {value : setting.Value} {spelling text : String}
      {items : List Item} {args : List String}
      (spelled : spelling ∈ setting.spellings) (written : setting.Writes value text)
      (rest : Spells items args) :
      Spells (.setting setting value :: items) (spelling :: text :: args)
  | cluster {letter : Char} {letters : List Char} {items : List Item} {args : List String}
      (short : letter ∈ ['o', 's', 'a', 'v'])
      (rest : Spells items (String.ofList ('-' :: letter :: letters) :: args)) :
      Spells (.flag .verbose :: items) (String.ofList ('-' :: 'v' :: letter :: letters) :: args)

/-! ### Taking them one after the other -/

namespace Settings

/-- Sets an option to a value. -/
def put (settings : Settings) : (setting : Setting) → setting.Value → Settings
  | .output, path => { settings with output := some path }
  | .input, name => { settings with inputs := settings.inputs ++ [name] }
  | .outputName, name => { settings with outputName := some name }
  | .seqLength, length =>
    { settings with options := { settings.options with seqLength := length } }
  | .outputLength, length =>
    { settings with options := { settings.options with outputLength := length } }
  | .axis, axis => { settings with options := { settings.options with axis := axis } }

/-- Applies an item. -/
def take (settings : Settings) : Item → Settings
  | .path text => { settings with paths := settings.paths ++ [text] }
  | .flag flag => settings.raise flag
  | .setting setting value => settings.put setting value

theorem assign_of_writes (settings : Settings) {setting : Setting} {value : setting.Value}
    {text : String} (h : setting.Writes value text) :
    settings.assign setting text = .ok (settings.put setting value) := by
  cases setting with
  | output =>
      cases h
      rfl
  | input =>
      cases h
      rfl
  | outputName =>
      cases h
      rfl
  | seqLength =>
      rw [assign, Numeral.length_eq h.1 h.2]
      rfl
  | outputLength =>
      rw [assign, Numeral.length_eq h.1 h.2]
      rfl
  | axis =>
      rw [assign, Numeral.integer_eq h]
      rfl

end Settings

section

variable {settings : Settings} {args : List String}

theorem parseFrom_path {text : String} (h : text.toList.head? ≠ some '-') :
    parseFrom settings (text :: args) =
      parseFrom { settings with paths := settings.paths ++ [text] } args := by
  rw [parseFrom]
  split
  · rename_i heq
    exact absurd (by rw [heq]; rfl) h
  · rename_i heq
    exact absurd (by rw [heq]; rfl) h
  · rename_i heq
    exact absurd (by rw [heq]; rfl) h
  · rfl

theorem splitLong_plain {chars : List Char} (h : '=' ∉ chars) :
    splitLong chars = (String.ofList chars, none) := by
  have hall : chars.takeWhile (· ≠ '=') = chars := by
    rw [List.takeWhile_eq_self_iff]
    intro c hc
    exact decide_eq_true fun heq => h (heq ▸ hc)
  rw [splitLong]
  simp only [hall, List.drop_length]

theorem parseFrom_flag {flag : Flag} {spelling : String} (h : spelling ∈ flag.spellings) :
    parseFrom settings (spelling :: args) = parseFrom (settings.raise flag) args := by
  rcases Switch.ofSpelling?_eq_some (flag.switch_of_mem h) with
    ⟨letter, hchars, hletter, hswitch⟩ | ⟨chars, hchars, hne, hplain, hswitch⟩
  · simp [parseFrom, hchars, hletter, readCluster, hswitch]
  · -- As the name is not empty, this is not the argument behind which all are paths.
    simp [parseFrom, hchars, splitLong_plain hplain, hswitch]

theorem parseFrom_setting {setting : Setting} {spelling text : String} {after : Settings}
    (h : spelling ∈ setting.spellings) (hassign : settings.assign setting text = .ok after) :
    parseFrom settings (spelling :: text :: args) = parseFrom after args := by
  rcases Switch.ofSpelling?_eq_some (setting.switch_of_mem h) with
    ⟨letter, hchars, hletter, hswitch⟩ | ⟨chars, hchars, hne, hplain, hswitch⟩
  · simp [parseFrom, hchars, hletter, readCluster, hswitch, hassign]
  · simp [parseFrom, hchars, splitLong_plain hplain, hswitch, hassign]

theorem parseFrom_cluster {letter : Char} {letters : List Char}
    (h : letter ∈ ['o', 's', 'a', 'v']) :
    parseFrom settings (String.ofList ('-' :: 'v' :: letter :: letters) :: args) =
      parseFrom (settings.raise .verbose) (String.ofList ('-' :: letter :: letters) :: args) := by
  obtain rfl | rfl | rfl | rfl : letter = 'o' ∨ letter = 's' ∨ letter = 'a' ∨ letter = 'v' := by
    simpa using h
  · simp [parseFrom, readCluster, Switch.ofShort?]
  · simp [parseFrom, readCluster, Switch.ofShort?]
  · simp [parseFrom, readCluster, Switch.ofShort?]
  · simp [parseFrom, readCluster, Switch.ofShort?]

/-- The items of a command line are taken in their order, whatever was set before them. -/
theorem parseFrom_of_spells {items : List Item} (h : Spells items args) (settings : Settings) :
    parseFrom settings args = (items.foldl Settings.take settings).finish := by
  induction h generalizing settings with
  | nil => rfl
  | path head _ ih => rw [parseFrom_path head, ih, List.foldl_cons, Settings.take]
  | flag spelled _ ih => rw [parseFrom_flag spelled, ih, List.foldl_cons, Settings.take]
  | setting spelled written _ ih =>
      rw [parseFrom_setting spelled (settings.assign_of_writes written), ih, List.foldl_cons,
        Settings.take]
  | cluster short _ ih => rw [parseFrom_cluster short, ih, List.foldl_cons, Settings.take]

end

/-! ### What they come to -/

namespace Item

/-- The text of a path. -/
def path? : Item → Option String
  | .path text => some text
  | _ => none

/-- The value that an item has for an option. -/
def value? (setting : Setting) : Item → Option setting.Value
  | .setting assigned value => if h : assigned = setting then some (h ▸ value) else none
  | _ => none

/-- The paths among items. -/
def paths (items : List Item) : List String := items.filterMap path?

/-- The values of an option among items. -/
def values (setting : Setting) (items : List Item) : List setting.Value :=
  items.filterMap (value? setting)

/-- The last value of an option among items. -/
def last? (setting : Setting) (items : List Item) : Option setting.Value :=
  (values setting items).getLast?

/-- What items come to, each option by itself. -/
def settings (items : List Item) : Settings where
  paths := paths items
  output := last? .output items
  analyzeOnly := Item.flag .analyzeOnly ∈ items
  verbosity := items.count (.flag .verbose)
  inputs := values .input items
  outputName := last? .outputName items
  options :=
    { seqLength := (last? .seqLength items).getD 512
      outputLength := (last? .outputLength items).getD 192000
      mode := if Item.flag .structural ∈ items then .structural else .declarative
      overflow := if Item.flag .rejectTruncation ∈ items then .reject else .truncate
      axis := (last? .axis items).getD 0
      allowUnusedInputs := Item.flag .allowUnusedInputs ∈ items }

@[simp] theorem path?_path (text : String) : (Item.path text).path? = some text := rfl

@[simp] theorem path?_flag (raised : Flag) : (Item.flag raised).path? = none := rfl

@[simp] theorem path?_setting (assigned : Setting) (value : assigned.Value) :
    (Item.setting assigned value).path? = none := rfl

private theorem filterMap_singleton {α : Type} (f : Item → Option α) (item : Item) :
    [item].filterMap f = (f item).toList := by
  cases h : f item with
  | none => simp [h]
  | some value => simp [h]

section

variable (setting : Setting)

@[simp] theorem value?_path (text : String) : (Item.path text).value? setting = none := rfl

@[simp] theorem value?_flag (raised : Flag) : (Item.flag raised).value? setting = none := rfl

@[simp] theorem value?_setting (value : setting.Value) :
    (Item.setting setting value).value? setting = some value := dif_pos rfl

@[simp] theorem value?_other {assigned : Setting} (h : assigned ≠ setting)
    (value : assigned.Value) : (Item.setting assigned value).value? setting = none := dif_neg h

@[simp] theorem paths_append (items : List Item) (item : Item) :
    paths (items ++ [item]) = paths items ++ item.path?.toList := by
  rw [paths, List.filterMap_append, filterMap_singleton, paths]

@[simp] theorem values_append (items : List Item) (item : Item) :
    values setting (items ++ [item]) = values setting items ++ (item.value? setting).toList := by
  rw [values, List.filterMap_append, filterMap_singleton, values]

@[simp] theorem last?_append (items : List Item) (item : Item) :
    last? setting (items ++ [item]) = (item.value? setting).or (last? setting items) := by
  rw [last?, values_append, List.getLast?_append, last?]
  cases item.value? setting with
  | none => rfl
  | some value => rfl

end

theorem settings_append (items : List Item) (item : Item) :
    settings (items ++ [item]) = (settings items).take item := by
  cases item with
  | path text => simp [settings, Settings.take]
  | flag raised =>
      cases raised with
      | structural => simp [settings, Settings.take, Settings.raise]
      | rejectTruncation => simp [settings, Settings.take, Settings.raise]
      | allowUnusedInputs => simp [settings, Settings.take, Settings.raise]
      | analyzeOnly => simp [settings, Settings.take, Settings.raise]
      | verbose => simp [settings, Settings.take, Settings.raise]
  | setting assigned value =>
      cases assigned with
      | output => simp [settings, Settings.take, Settings.put]
      | seqLength => simp [settings, Settings.take, Settings.put]
      | outputLength => simp [settings, Settings.take, Settings.put]
      | axis => simp [settings, Settings.take, Settings.put]
      | input => simp [settings, Settings.take, Settings.put]
      | outputName => simp [settings, Settings.take, Settings.put]

/-- Items that are taken one after the other come to what each option gets by itself. -/
theorem foldl_take (items : List Item) : items.foldl Settings.take {} = settings items := by
  induction items using List.reverseRecOn with
  | nil => rfl
  | append_singleton items item ih =>
      rw [List.foldl_append, ih, settings_append]
      rfl

end Item

theorem parse_of_spells {items : List Item} {args : List String} (h : Spells items args) :
    parse args = (Item.settings items).finish := by
  rw [parse, parseFrom_of_spells h, Item.foldl_take]

end FixedShape.CommandLine
