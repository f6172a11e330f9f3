import Tidy.Proofs.Outcomes
import Tidy.Settings.File

/-!
# Contents of settings files that are not reported

Most problems of a settings file are reported.  A few are not: bytes that are no text,
numbers and nesting beyond the limits of the notation, an infinite indent, and values that
a report would have to show and that cannot be shown.  `Settings.Escapes` lists them in
terms of the contents, and reading fails without a report exactly on these contents.
-/

namespace Tidy

def Value.Unshowable.fault : Value.Unshowable → Fault
  | .integerTooLong => .integerTooLong
  | .nestedTooDeeply => .nestingLimit .showing

namespace Settings

open Outcome

/-! ## Values that cannot be shown -/

theorem needShown_eq_error_iff
    {Shown : Type} {shown : Except Value.Unshowable Shown} {fault : Fault} :
    needShown shown = .error (.escaping fault) ↔
      ∃ why, shown = .error why ∧ fault = why.fault := by
  cases shown with
  | ok text =>
      constructor
      · intro failed
        cases failed
      · rintro ⟨why, failed, _⟩
        cases failed
  | error why =>
      constructor
      · intro failed
        refine ⟨why, rfl, ?_⟩
        cases why <;> cases failed <;> rfl
      · rintro ⟨other, same, rfl⟩
        cases same
        cases why <;> rfl

theorem needShown_eq_ok_iff
    {Shown : Type} {shown : Except Value.Unshowable Shown} {text : Shown} :
    needShown shown = .ok text ↔ shown = .ok text := by
  cases shown with
  | ok other =>
      constructor
      · intro isOk
        cases isOk
        rfl
      · intro isOk
        cases isOk
        rfl
  | error why =>
      constructor
      · intro isOk
        cases isOk
      · intro isOk
        cases isOk

/-! ## Formatters -/

def NamesFormatters : Value → Prop
  | .text name => (formatterName? (.text name)).isSome = true
  | .list names => ∀ name ∈ names, (formatterName? name).isSome = true
  | _ => False

/-- Whether the first name that is no formatter cannot be shown. -/
def NamesEscape (value : Value) (fault : Fault) : Prop :=
  ∃ names name why, value = .list names ∧
    (names.find? fun name => (formatterName? name).isNone) = some name ∧
    name.plain = .error why ∧ fault = why.fault

theorem readNames_list
    (language : Text) (names : List Value) :
    readNames language (.list names) =
      match names.find? fun name => (formatterName? name).isNone with
      | some name =>
          needShown name.plain >>= fun shown => .error (.unknownFormatter shown language)
      | none => .ok (names.filterMap formatterName?) :=
  rfl

/-- A list of names is read, or its first name that is no formatter is told. -/
theorem readNames_list_cases
    (language : Text) (names : List Value) :
    (∀ name ∈ names, (formatterName? name).isSome = true) ∧
        readNames language (.list names) = .ok (names.filterMap formatterName?) ∨
      ∃ name, (names.find? fun name => (formatterName? name).isNone) = some name ∧
        readNames language (.list names) =
          needShown name.plain >>= fun shown => .error (.unknownFormatter shown language) := by
  rw [readNames_list]
  cases unknown : names.find? fun name => (formatterName? name).isNone with
  | none =>
      have known : ∀ name ∈ names, (formatterName? name).isSome = true := by
        intro name member
        simpa [Option.isSome_iff_ne_none] using List.find?_eq_none.mp unknown name member
      exact Or.inl ⟨known, rfl⟩
  | some name =>
      exact Or.inr ⟨name, rfl, rfl⟩

theorem readNames_eq_ok_iff
    {language : Text} {value : Value} :
    (∃ read, readNames language value = .ok read) ↔ NamesFormatters value := by
  have ofList (names : List Value) :
      (∃ read, readNames language (.list names) = .ok read) ↔
        ∀ name ∈ names, (formatterName? name).isSome = true := by
    rcases readNames_list_cases language names with ⟨known, isRead⟩ | ⟨name, unknown, failed⟩
    · exact ⟨fun _ => known, fun _ => ⟨_, isRead⟩⟩
    · constructor
      · rintro ⟨read, isRead⟩
        rw [failed] at isRead
        obtain ⟨_, _, impossible⟩ := bind_eq_ok_iff.mp isRead
        cases impossible
      · intro known
        have refused := List.find?_some unknown
        have isName := known name (List.mem_of_find?_eq_some unknown)
        rw [Option.isNone_iff_eq_none] at refused
        rw [refused] at isName
        cases isName
  cases value with
  | text name =>
      have single := ofList [.text name]
      rw [List.forall_mem_singleton] at single
      exact single
  | list names =>
      exact ofList names
  | _ =>
      constructor
      · rintro ⟨read, isRead⟩
        cases isRead
      · intro impossible
        cases impossible

theorem readNames_eq_error_iff
    {language : Text} {value : Value} {fault : Fault} :
    readNames language value = .error (.escaping fault) ↔ NamesEscape value fault := by
  have ofList (names : List Value) :
      readNames language (.list names) = .error (.escaping fault) ↔
        NamesEscape (.list names) fault := by
    constructor
    · intro escaped
      rcases readNames_list_cases language names with ⟨_, isRead⟩ | ⟨name, unknown, failed⟩
      · rw [isRead] at escaped
        cases escaped
      · rw [failed, bind_eq_error_iff, needShown_eq_error_iff] at escaped
        rcases escaped with ⟨why, hidden, isFault⟩ | ⟨_, _, impossible⟩
        · exact ⟨names, name, why, rfl, unknown, hidden, isFault⟩
        · cases impossible
    · rintro ⟨_, name, why, isList, unknown, hidden, isFault⟩
      cases isList
      rw [readNames_list, unknown, bind_eq_error_iff, needShown_eq_error_iff]
      exact Or.inl ⟨why, hidden, isFault⟩
  cases value with
  | list names =>
      exact ofList names
  | text name =>
      constructor
      · intro escaped
        obtain ⟨_, other, why, isList, unknown, hidden, _⟩ := (ofList [.text name]).mp escaped
        cases isList
        rw [List.mem_singleton.mp (List.mem_of_find?_eq_some unknown)] at hidden
        cases hidden
      · rintro ⟨_, _, _, isList, _⟩
        cases isList
  | _ =>
      constructor
      · intro escaped
        cases escaped
      · rintro ⟨_, _, _, isList, _⟩
        cases isList

theorem readLanguages_eq_mapM
    (entries : Entries) :
    readLanguages entries =
      entries.mapM fun entry =>
        (readNames entry.1 entry.2).map fun names => (entry.1, names) := by
  induction entries with
  | nil =>
      rfl
  | cons entry rest inductionHypothesis =>
      rw [readLanguages, List.mapM_cons, ← inductionHypothesis]
      cases readNames entry.1 entry.2 <;> rfl

def FormattersTaken (table : Entries) : Prop :=
  match (table.find? "formatters").getD .null with
  | .null => True
  | .table languages => ∀ entry ∈ languages, NamesFormatters entry.2
  | _ => False

/-- Whether the first language whose names cannot be taken has one that cannot be shown. -/
def FormattersEscape (table : Entries) (fault : Fault) : Prop :=
  ∃ before language value after,
    table.find? "formatters" = some (.table (before ++ (language, value) :: after)) ∧
    (∀ entry ∈ before, NamesFormatters entry.2) ∧ NamesEscape value fault

theorem readFormatters_eq_ok_iff
    {table : Entries} :
    (∃ formatters, readFormatters table = .ok formatters) ↔ FormattersTaken table := by
  unfold readFormatters FormattersTaken
  cases (table.find? "formatters").getD .null with
  | null =>
      exact ⟨fun _ => trivial, fun _ => ⟨_, rfl⟩⟩
  | table languages =>
      change (∃ formatters, readLanguages languages = .ok formatters) ↔
        ∀ entry ∈ languages, NamesFormatters entry.2
      rw [readLanguages_eq_mapM, mapM_eq_ok_iff]
      apply forall₂_congr
      intro entry _
      rw [map_eq_ok_iff, readNames_eq_ok_iff]
  | _ =>
      simp

theorem readFormatters_eq_error_iff
    {table : Entries} {fault : Fault} :
    readFormatters table = .error (.escaping fault) ↔ FormattersEscape table fault := by
  have ofLanguages (languages : Entries) :
      readLanguages languages = .error (.escaping fault) ↔
        ∃ before language value after, languages = before ++ (language, value) :: after ∧
          (∀ entry ∈ before, NamesFormatters entry.2) ∧ NamesEscape value fault := by
    simp only [readLanguages_eq_mapM, mapM_eq_error_iff, StopsAt, map_eq_error_iff,
      map_eq_ok_iff, readNames_eq_error_iff, readNames_eq_ok_iff, Prod.exists]
  unfold readFormatters FormattersEscape
  cases found : table.find? "formatters" with
  | none =>
      simp
  | some value =>
      cases value with
      | table languages =>
          have escapes := ofLanguages languages
          simpa using escapes
      | _ =>
          simp

/-! ## Fields -/

def indent? : Value → Option Int
  | .bool flag => some (if flag then 1 else 0)
  | .integer number => some number
  | .double (.finite negative mantissa exponent) =>
      some (Double.truncate negative mantissa exponent)
  | .text text => Text.readInteger? text
  | _ => none

/-- Whether an indent is infinite, or no integer and cannot be shown. -/
def IndentEscapes (value : Value) (fault : Fault) : Prop :=
  (∃ negative, value = .double (.infinite negative)) ∧ fault = .infiniteNumber ∨
    indent? value = none ∧ ∃ why, value.shown = .error why ∧ fault = why.fault

/-- An indent is read, or infinite, or told to be no integer. -/
theorem readIndent_cases
    (value : Value) :
    (∃ number, indent? value = some number ∧ readIndent value = .ok number) ∨
      (∃ negative, value = .double (.infinite negative) ∧
        readIndent value = .error (.escaping .infiniteNumber)) ∨
      indent? value = none ∧
        readIndent value =
          needShown value.shown >>= fun shown => .error (.indentNotInteger shown) := by
  cases value with
  | bool flag =>
      exact Or.inl ⟨_, rfl, rfl⟩
  | integer number =>
      exact Or.inl ⟨_, rfl, rfl⟩
  | double number =>
      cases number with
      | nan =>
          exact Or.inr (Or.inr ⟨rfl, rfl⟩)
      | infinite negative =>
          exact Or.inr (Or.inl ⟨negative, rfl, rfl⟩)
      | finite negative mantissa exponent =>
          exact Or.inl ⟨_, rfl, rfl⟩
  | text text =>
      cases isNumber : Text.readInteger? text with
      | some number =>
          exact Or.inl ⟨number, isNumber, by rw [readIndent, isNumber]⟩
      | none =>
          exact Or.inr (Or.inr ⟨isNumber, by rw [readIndent, isNumber]; rfl⟩)
  | _ =>
      exact Or.inr (Or.inr ⟨rfl, rfl⟩)

theorem readIndent_eq_ok_iff
    {value : Value} {number : Int} :
    readIndent value = .ok number ↔ indent? value = some number := by
  rcases readIndent_cases value with
    ⟨read, isNumber, isRead⟩ | ⟨negative, rfl, failed⟩ | ⟨notNumber, failed⟩
  · rw [isRead, isNumber, Except.ok.injEq, Option.some.injEq]
  · rw [failed]
    simp [indent?]
  · rw [failed, notNumber, bind_eq_ok_iff]
    simp

theorem readIndent_eq_error_iff
    {value : Value} {fault : Fault} :
    readIndent value = .error (.escaping fault) ↔ IndentEscapes value fault := by
  unfold IndentEscapes
  rcases readIndent_cases value with
    ⟨read, isNumber, isRead⟩ | ⟨negative, rfl, failed⟩ | ⟨notNumber, failed⟩
  · rw [isRead, isNumber]
    constructor
    · intro escaped
      cases escaped
    · rintro (⟨⟨negative, rfl⟩, _⟩ | ⟨noNumber, _⟩)
      · cases isNumber
      · cases noNumber
  · rw [failed]
    simp [Value.shown, Value.shownWithin, eq_comm]
  · rw [failed, bind_eq_error_iff, needShown_eq_error_iff]
    constructor
    · rintro (hidden | ⟨_, _, impossible⟩)
      · exact Or.inr ⟨notNumber, hidden⟩
      · cases impossible
    · rintro (⟨⟨negative, rfl⟩, _⟩ | ⟨_, hidden⟩)
      · cases failed
      · exact Or.inl hidden

/-- Whether the texts of a key can be taken: none, one, or a list of values that can be
shown. -/
def TextsTaken : Option Value → Prop
  | none => True
  | some .null => True
  | some (.text _) => True
  | some (.list items) => ∀ item ∈ items, ∃ shown, item.plain = .ok shown
  | some _ => False

/-- Whether the texts of a key are a list with a value that cannot be shown. -/
def TextsEscape (value : Option Value) (fault : Fault) : Prop :=
  ∃ items why, value = some (.list items) ∧ StopsAt Value.plain items why ∧ fault = why.fault

theorem readTexts_eq_ok_iff
    {key : String} {fallback : List Text} {value : Option Value} :
    (∃ texts, readTexts key fallback value = .ok texts) ↔ TextsTaken value := by
  match value with
  | none | some .null | some (.text _) =>
      exact ⟨fun _ => trivial, fun _ => ⟨_, rfl⟩⟩
  | some (.list items) =>
      rw [readTexts, mapM_eq_ok_iff, TextsTaken]
      simp only [needShown_eq_ok_iff]
  | some (.bool _) | some (.integer _) | some (.double _) | some (.date _) | some (.time _)
  | some (.moment _ _ _) | some (.table _) =>
      simp [readTexts, TextsTaken]

theorem readTexts_eq_error_iff
    {key : String} {fallback : List Text} {value : Option Value} {fault : Fault} :
    readTexts key fallback value = .error (.escaping fault) ↔ TextsEscape value fault := by
  unfold TextsEscape
  match value with
  | some (.list items) =>
      rw [readTexts, mapM_eq_error_iff]
      simp only [StopsAt, needShown_eq_error_iff, needShown_eq_ok_iff]
      constructor
      · rintro ⟨before, item, after, split, readable, why, hidden, isFault⟩
        exact ⟨items, why, rfl, ⟨before, item, after, split, readable, hidden⟩, isFault⟩
      · rintro ⟨_, why, isList, ⟨before, item, after, split, readable, hidden⟩, isFault⟩
        cases isList
        exact ⟨before, item, after, split, readable, why, hidden, isFault⟩
  | none | some .null | some (.text _) | some (.bool _) | some (.integer _) | some (.double _)
  | some (.date _) | some (.time _) | some (.moment _ _ _) | some (.table _) =>
      simp [readTexts]

def indentOf (fields : Entries) : Value :=
  (fields.find? "indent").getD (.integer Options.standard.fieldIndent)

/-- Whether fields hold an indent or, behind an indent that can be taken, prefixes that
cannot be told about. -/
def FieldsEscape (fields : Entries) (fault : Fault) : Prop :=
  IndentEscapes (indentOf fields) fault ∨
    (∃ number, indent? (indentOf fields) = some number ∧ 0 ≤ number) ∧
      (TextsEscape (fields.find? "location_prefixes") fault ∨
        TextsTaken (fields.find? "location_prefixes") ∧
          TextsEscape (fields.find? "width_prefixes") fault)

theorem readFields_of_indent
    {fields : Entries} {number : Int}
    (isNumber : indent? (indentOf fields) = some number) :
    readFields fields =
      if number < 0 then .error .indentNegative
      else
        readTexts "fields.location_prefixes" Options.standard.locationPrefixes
            (fields.find? "location_prefixes") >>= fun locationPrefixes =>
          readTexts "fields.width_prefixes" Options.standard.widthPrefixes
              (fields.find? "width_prefixes") >>= fun widthPrefixes =>
            .ok { fieldIndent := number
                  locationPrefixes := locationPrefixes
                  widthPrefixes := widthPrefixes } := by
  unfold readFields
  rw [← indentOf, readIndent_eq_ok_iff.mpr isNumber]
  by_cases negative : number < 0
  · rw [if_pos negative]
    exact if_pos negative
  · rw [if_neg negative]
    exact if_neg negative

theorem readFields_eq_error_iff
    {fields : Entries} {fault : Fault} :
    readFields fields = .error (.escaping fault) ↔ FieldsEscape fields fault := by
  unfold FieldsEscape
  cases isNumber : indent? (indentOf fields) with
  | none =>
      have notRead (number : Int) : ¬ readIndent (indentOf fields) = .ok number := by
        rw [readIndent_eq_ok_iff, isNumber]
        simp
      unfold readFields
      rw [← indentOf, bind_eq_error_iff, readIndent_eq_error_iff]
      simp [notRead]
  | some number =>
      have noEscape : ¬ IndentEscapes (indentOf fields) fault := by
        rw [← readIndent_eq_error_iff, readIndent_eq_ok_iff.mpr isNumber]
        simp
      rw [readFields_of_indent isNumber]
      by_cases negative : number < 0
      · simp [negative, noEscape, Int.not_le.mpr negative]
      · rw [if_neg negative, bind_eq_error_iff, readTexts_eq_error_iff]
        simp only [bind_eq_error_iff, readTexts_eq_error_iff, reduceCtorEq, and_false,
          exists_false, or_false, exists_and_right, readTexts_eq_ok_iff, noEscape, false_or,
          Option.some.injEq, exists_eq_left']
        simp [Int.not_lt.mp negative]

def OptionsEscape (table : Entries) (fault : Fault) : Prop :=
  ∃ fields, table.find? "fields" = some (.table fields) ∧ FieldsEscape fields fault

theorem readOptions_eq_error_iff
    {table : Entries} {fault : Fault} :
    readOptions table = .error (.escaping fault) ↔ OptionsEscape table fault := by
  have noneEscapes : ¬ readFields [] = .error (.escaping fault) := by
    intro escaped
    cases escaped
  unfold readOptions OptionsEscape
  cases found : table.find? "fields" with
  | none =>
      simpa [Value.isVoid] using noneEscapes
  | some value =>
      cases value with
      | table fields =>
          cases fields with
          | nil =>
              simp [Value.isVoid, ← readFields_eq_error_iff]
          | cons field others =>
              simp [Value.isVoid, readFields_eq_error_iff]
      | _ =>
          simp only [Option.getD_some]
          split <;> simp [noneEscapes]

/-! ## Contents -/

/-- Whether a table holds something that stops the reading of settings without a report. -/
def TableEscapes (table : Entries) (fault : Fault) : Prop :=
  FormattersEscape table fault ∨ FormattersTaken table ∧ OptionsEscape table fault

theorem ofValue_eq_error_iff
    {value : Value} {fault : Fault} :
    ofValue value = .error (.escaping fault) ↔
      ∃ table, value = .table table ∧ TableEscapes table fault := by
  cases value with
  | table table =>
      have optionsFail (formatters : List (Text × List String)) :
          (readOptions table >>= fun options =>
              (.ok { formatters := formatters, options := options } : Except Problem Settings)) =
            .error (.escaping fault) ↔ OptionsEscape table fault := by
        rw [bind_eq_error_iff, readOptions_eq_error_iff]
        simp
      have isRead : ofValue (.table table) =
          readFormatters table >>= fun formatters => readOptions table >>= fun options =>
            .ok { formatters := formatters, options := options } := rfl
      rw [isRead, bind_eq_error_iff, readFormatters_eq_error_iff]
      simp only [optionsFail, exists_and_right, readFormatters_eq_ok_iff]
      constructor
      · intro escapes
        exact ⟨table, rfl, escapes⟩
      · rintro ⟨_, isTable, escapes⟩
        cases isTable
        exact escapes
  | _ =>
      simp [ofValue]

/-- Whether characters go beyond the limits of their notation: an integer has too many digits,
or lists and tables nest too deeply. -/
inductive Overruns (extension : String) (characters : List Char) : Fault → Prop
  | tomlDigits {count : Nat} :
      extension = ".toml" →
      Toml.parse (Utf8.withFeeds false characters) = .error (.tooManyDigits count) →
      Overruns extension characters (.tooManyDigits count)
  | tomlNesting :
      extension = ".toml" →
      Toml.parse (Utf8.withFeeds false characters) = .error .nestedTooDeeply →
      Overruns extension characters (.nestingLimit .performing)
  | jsonDigits {count : Nat} :
      extension ≠ ".toml" →
      Json.parse (Utf8.withFeeds true characters) = .error (.tooManyDigits count) →
      Overruns extension characters (.tooManyDigits count)
  | jsonNesting {isList : Bool} :
      extension ≠ ".toml" →
      Json.parse (Utf8.withFeeds true characters) = .error (.nestedTooDeeply isList) →
      Overruns extension characters
        (.nestingLimit (if isList then .readingArray else .readingObject))

def readText (extension : String) (characters : List Char) : Except Problem Value :=
  if extension == ".toml" then readToml characters else readJson characters

theorem readText_eq_error_iff
    {extension : String} {characters : List Char} {fault : Fault} :
    readText extension characters = .error (.escaping fault) ↔
      Overruns extension characters fault := by
  unfold readText
  by_cases isToml : extension = ".toml"
  · rw [if_pos (beq_iff_eq.mpr isToml), readToml]
    constructor
    · intro escaped
      split at escaped
      · cases escaped
      · cases escaped
      · rename_i failed
        cases escaped
        exact .tomlDigits isToml failed
      · rename_i failed
        cases escaped
        exact .tomlNesting isToml failed
    · intro overruns
      cases overruns with
      | tomlDigits _ failed =>
          rw [failed]
      | tomlNesting _ failed =>
          rw [failed]
      | jsonDigits notToml _ =>
          exact absurd isToml notToml
      | jsonNesting notToml _ =>
          exact absurd isToml notToml
  · rw [if_neg (mt beq_iff_eq.mp isToml), readJson]
    constructor
    · intro escaped
      split at escaped
      · cases escaped
      · cases escaped
      · rename_i failed
        cases escaped
        exact .jsonDigits isToml failed
      · rename_i failed
        cases escaped
        exact .jsonNesting isToml failed
    · intro overruns
      cases overruns with
      | tomlDigits isToml' _ =>
          exact absurd isToml' isToml
      | tomlNesting isToml' _ =>
          exact absurd isToml' isToml
      | jsonDigits _ failed =>
          rw [failed]
      | jsonNesting _ failed =>
          rw [failed]

/-- What in the contents of a settings file stops its reading without a report, and with
which fault. -/
inductive Escapes (extension : String) (bytes : List UInt8) : Fault → Prop
  | undecodable {flaw : Utf8.Flaw} :
      Utf8.decode bytes = .error flaw →
      Escapes extension bytes (.undecodable flaw)
  | overrun {characters : List Char} {fault : Fault} :
      Utf8.decode bytes = .ok characters →
      Overruns extension characters fault →
      Escapes extension bytes fault
  | table {characters : List Char} {table : Entries} {fault : Fault} :
      Utf8.decode bytes = .ok characters →
      readText extension characters = .ok (.table table) →
      TableEscapes table fault →
      Escapes extension bytes fault

/-- Reading fails without a report exactly on these contents. -/
theorem ofBytes_eq_error_iff
    {extension : String} {bytes : List UInt8} {fault : Fault} :
    ofBytes extension bytes = .error (.escaping fault) ↔ Escapes extension bytes fault := by
  cases decoded : Utf8.decode bytes with
  | error flaw =>
      have stopped : ofBytes extension bytes = .error (.escaping (.undecodable flaw)) := by
        rw [ofBytes, decoded]
        rfl
      rw [stopped]
      constructor
      · intro escaped
        cases escaped
        exact .undecodable decoded
      · intro escapes
        cases escapes with
        | undecodable failed =>
            cases decoded.symm.trans failed
            rfl
        | overrun isText _ =>
            cases decoded.symm.trans isText
        | table isText _ _ =>
            cases decoded.symm.trans isText
  | ok characters =>
      have isRead : ofBytes extension bytes = readText extension characters >>= ofValue := by
        rw [ofBytes, decoded, readText]
        cases extension == ".toml" <;> rfl
      rw [isRead, bind_eq_error_iff, readText_eq_error_iff]
      simp only [ofValue_eq_error_iff]
      constructor
      · rintro (overruns | ⟨_, isValue, table, rfl, escapes⟩)
        · exact .overrun decoded overruns
        · exact .table decoded isValue escapes
      · intro escapes
        cases escapes with
        | undecodable failed =>
            cases decoded.symm.trans failed
        | overrun isText overruns =>
            cases decoded.symm.trans isText
            exact Or.inl overruns
        | table isText isTable escapes =>
            cases decoded.symm.trans isText
            exact Or.inr ⟨_, isTable, _, rfl, escapes⟩

theorem fault_ne_reported
    (why : Value.Unshowable) (diagnostic : Diagnostic) :
    why.fault ≠ .reported diagnostic := by
  cases why <;> simp [Value.Unshowable.fault]

theorem FieldsEscape.ne_reported
    {fields : Entries} {fault : Fault}
    (escapes : FieldsEscape fields fault) (diagnostic : Diagnostic) :
    fault ≠ .reported diagnostic := by
  rcases escapes with
    (⟨_, rfl⟩ | ⟨_, why, _, rfl⟩) | ⟨_, ⟨_, why, _, _, rfl⟩ | ⟨_, _, why, _, _, rfl⟩⟩
  · simp
  · exact fault_ne_reported why diagnostic
  · exact fault_ne_reported why diagnostic
  · exact fault_ne_reported why diagnostic

theorem TableEscapes.ne_reported
    {table : Entries} {fault : Fault}
    (escapes : TableEscapes table fault) (diagnostic : Diagnostic) :
    fault ≠ .reported diagnostic := by
  rcases escapes with ⟨_, _, _, _, _, _, _, _, why, _, _, _, rfl⟩ | ⟨_, fields, _, escapes⟩
  · exact fault_ne_reported why diagnostic
  · exact escapes.ne_reported diagnostic

/-- A fault of these contents is none that is reported. -/
theorem Escapes.ne_reported
    {extension : String} {bytes : List UInt8} {fault : Fault}
    (escapes : Escapes extension bytes fault) (diagnostic : Diagnostic) :
    fault ≠ .reported diagnostic := by
  cases escapes with
  | undecodable _ =>
      simp
  | overrun _ overruns =>
      cases overruns <;> simp
  | table _ _ escapes =>
      exact escapes.ne_reported diagnostic

end Settings

end Tidy
