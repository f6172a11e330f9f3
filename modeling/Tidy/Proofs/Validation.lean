import Mathlib.Algebra.Group.Nat.Defs
import Tidy.Proofs.Fallback

/-!
# What settings may hold

Every reader of a table judges the part it reads: what it takes is permitted, and what is
permitted it takes or lets a fault pass through.  The judgements are put together as the
readers are.  Whole tables are then judged exactly, up to the ones that escape; and what is
taken names known formatters only and becomes the options as it stands in the table.
-/

namespace Tidy

open Outcome

namespace Settings

/-! ## What is permitted -/

def TextsPermitted : Option Value → Prop
  | none => True
  | some .null => True
  | some (.text _) => True
  | some (.list _) => True
  | some _ => False

def IndentPermitted (fields : Entries) : Prop :=
  ∃ number, indent? (indentOf fields) = some number ∧ 0 ≤ number

def FieldsPermitted (fields : Entries) : Prop :=
  IndentPermitted fields ∧ TextsPermitted (fields.find? "location_prefixes") ∧
    TextsPermitted (fields.find? "width_prefixes")

def OptionsPermitted (table : Entries) : Prop :=
  ((table.find? "fields").getD .null).isVoid = true ∨
    ∃ fields, table.find? "fields" = some (.table fields) ∧ FieldsPermitted fields

def Permitted : Value → Prop
  | .table table => FormattersTaken table ∧ OptionsPermitted table
  | _ => False

/-! ## Readers that judge -/

/-- Whether an outcome is right about what is permitted, as long as no fault passes through. -/
structure Judges {Read : Type} (permitted : Prop) (outcome : Except Problem Read) : Prop where
  permitted_of_ok : ∀ {read}, outcome = .ok read → permitted
  escapes_of_error :
    ∀ {problem}, outcome = .error problem → permitted → ∃ fault, problem = .escaping fault

namespace Judges

variable {Read Next : Type} {permitted others : Prop} {outcome : Except Problem Read}

theorem of_ok_iff
    (isOk : (∃ read, outcome = .ok read) ↔ permitted) :
    Judges permitted outcome where
  permitted_of_ok := fun isRead => isOk.mp ⟨_, isRead⟩
  escapes_of_error := by
    intro problem failed isPermitted
    obtain ⟨read, isRead⟩ := isOk.mpr isPermitted
    cases failed.symm.trans isRead

theorem refuses
    (problem : Problem) (notPermitted : ¬ permitted) :
    Judges permitted (.error problem : Except Problem Read) where
  permitted_of_ok := fun isRead => by cases isRead
  escapes_of_error := fun _ isPermitted => absurd isPermitted notPermitted

theorem takes
    (read : Read) (isPermitted : permitted) :
    Judges permitted (.ok read : Except Problem Read) where
  permitted_of_ok := fun _ => isPermitted
  escapes_of_error := fun failed => by cases failed

theorem congr
    (judges : Judges permitted outcome) (same : permitted ↔ others) :
    Judges others outcome := by
  rw [← same]
  exact judges

/-- What is read step by step is judged step by step. -/
theorem bind
    {next : Read → Except Problem Next}
    (judges : Judges permitted outcome)
    (nextJudges : ∀ read, Judges others (next read)) :
    Judges (permitted ∧ others) (outcome >>= next) where
  permitted_of_ok := by
    intro result isOk
    obtain ⟨read, isRead, isNext⟩ := bind_eq_ok_iff.mp isOk
    exact ⟨judges.permitted_of_ok isRead, (nextJudges read).permitted_of_ok isNext⟩
  escapes_of_error := by
    rintro problem failed ⟨isPermitted, othersPermitted⟩
    rcases bind_eq_error_iff.mp failed with failed | ⟨read, _, failed⟩
    · exact judges.escapes_of_error failed isPermitted
    · exact (nextJudges read).escapes_of_error failed othersPermitted

end Judges

theorem escapes_of_needShown
    {Shown : Type} {shown : Except Value.Unshowable Shown} {problem : Problem}
    (failed : needShown shown = .error problem) :
    ∃ fault, problem = .escaping fault := by
  cases shown with
  | ok text =>
      cases failed
  | error why =>
      cases why <;> cases failed <;> exact ⟨_, rfl⟩

theorem readTexts_judges
    (key : String) (fallback : List Text) (value : Option Value) :
    Judges (TextsPermitted value) (readTexts key fallback value) := by
  match value with
  | none | some .null | some (.text _) =>
      exact .takes _ trivial
  | some (.list items) =>
      refine { permitted_of_ok := fun _ => trivial, escapes_of_error := ?_ }
      intro problem failed _
      obtain ⟨_, item, _, _, _, itemFailed⟩ := mapM_eq_error_iff.mp failed
      exact escapes_of_needShown itemFailed
  | some (.bool _) | some (.integer _) | some (.double _) | some (.date _) | some (.time _)
  | some (.moment _ _ _) | some (.table _) =>
      exact .refuses _ id

theorem readFields_judges
    (fields : Entries) :
    Judges (FieldsPermitted fields) (readFields fields) := by
  cases isNumber : indent? (indentOf fields) with
  | none =>
      have notRead (number : Int) : readIndent (indentOf fields) ≠ .ok number := by
        rw [Ne, readIndent_eq_ok_iff, isNumber]
        simp
      have notPermitted : ¬ FieldsPermitted fields := by
        rintro ⟨⟨number, found, _⟩, _⟩
        cases isNumber.symm.trans found
      cases failed : readIndent (indentOf fields) with
      | ok number =>
          exact absurd failed (notRead number)
      | error problem =>
          have stopped : readFields fields = .error problem := by
            unfold readFields
            rw [← indentOf, failed]
            rfl
          rw [stopped]
          exact .refuses problem notPermitted
  | some number =>
      rw [readFields_of_indent isNumber]
      by_cases negative : number < 0
      · rw [if_pos negative]
        apply Judges.refuses
        rintro ⟨⟨other, found, nonnegative⟩, _⟩
        cases isNumber.symm.trans found
        omega
      · rw [if_neg negative]
        have textsJudge :=
          (readTexts_judges "fields.location_prefixes" Options.standard.locationPrefixes
              (fields.find? "location_prefixes")).bind fun locationPrefixes =>
            (readTexts_judges "fields.width_prefixes" Options.standard.widthPrefixes
                (fields.find? "width_prefixes")).bind fun widthPrefixes =>
              Judges.takes
                { fieldIndent := number
                  locationPrefixes := locationPrefixes
                  widthPrefixes := widthPrefixes : Options } trivial
        apply textsJudge.congr
        have indentPermitted : IndentPermitted fields :=
          ⟨number, isNumber, Int.not_lt.mp negative⟩
        unfold FieldsPermitted
        simp only [indentPermitted, and_true, true_and]

theorem readOptions_judges
    (table : Entries) :
    Judges (OptionsPermitted table) (readOptions table) := by
  unfold readOptions OptionsPermitted
  by_cases isVoid : ((table.find? "fields").getD .null).isVoid = true
  · rw [if_pos isVoid]
    exact .takes _ (Or.inl isVoid)
  · rw [if_neg isVoid]
    cases found : table.find? "fields" with
    | none =>
        rw [found] at isVoid
        exact absurd rfl isVoid
    | some value =>
        rw [found] at isVoid
        cases value with
        | table fields =>
            apply (readFields_judges fields).congr
            constructor
            · intro permitted
              exact Or.inr ⟨fields, rfl, permitted⟩
            · rintro (impossible | ⟨_, same, permitted⟩)
              · exact absurd impossible isVoid
              · cases same
                exact permitted
        | _ =>
            apply Judges.refuses
            rintro (impossible | ⟨_, same, _⟩)
            · exact isVoid impossible
            · cases same

theorem ofValue_judges
    (value : Value) :
    Judges (Permitted value) (ofValue value) := by
  cases value with
  | table table =>
      have judges :=
        (Judges.of_ok_iff (@readFormatters_eq_ok_iff table)).bind fun formatters =>
          (readOptions_judges table).bind fun options =>
            Judges.takes { formatters := formatters, options := options : Settings } trivial
      apply judges.congr
      rw [and_true]
      rfl
  | _ =>
      exact .refuses _ id

/-! ## Judging exactly -/

/-- Whether settings are taken from a value exactly if they may be, and a problem with it is
reported if they may not. -/
def JudgedExactly (value : Value) : Prop :=
  ((∃ settings, ofValue value = .ok settings) ↔ Permitted value) ∧
    (¬ Permitted value →
      ∃ problem, ofValue value = .error problem ∧
        ∀ path, problem.fault path = .reported (problem.diagnostic path))

/-- Values are judged exactly, unless a fault passes through. -/
theorem judgedExactly_iff
    (value : Value) :
    JudgedExactly value ↔ ¬ ∃ fault, ofValue value = .error (.escaping fault) := by
  have judges := ofValue_judges value
  constructor
  · rintro ⟨taken, reported⟩ ⟨fault, escaped⟩
    by_cases permitted : Permitted value
    · obtain ⟨settings, isTaken⟩ := taken.mpr permitted
      cases escaped.symm.trans isTaken
    · obtain ⟨problem, failed, isReported⟩ := reported permitted
      cases escaped.symm.trans failed
      obtain ⟨table, _, escapes⟩ := ofValue_eq_error_iff.mp escaped
      exact escapes.ne_reported _ (isReported (.ofString ""))
  · intro noEscape
    refine ⟨⟨?_, ?_⟩, ?_⟩
    · rintro ⟨settings, isTaken⟩
      exact judges.permitted_of_ok isTaken
    · intro permitted
      cases outcome : ofValue value with
      | ok settings =>
          exact ⟨settings, rfl⟩
      | error problem =>
          obtain ⟨fault, rfl⟩ := judges.escapes_of_error outcome permitted
          exact absurd ⟨fault, outcome⟩ noEscape
    · intro notPermitted
      cases outcome : ofValue value with
      | ok settings =>
          exact absurd (judges.permitted_of_ok outcome) notPermitted
      | error problem =>
          refine ⟨problem, rfl, ?_⟩
          intro path
          rcases problem.fault_cases path with ⟨fault, rfl, _⟩ | reported
          · exact absurd ⟨fault, outcome⟩ noEscape
          · exact reported

/-! ## What is taken -/

/-- Whether texts are those of a key: the fallback when there are none, the only one, or the
values of a list as they are shown. -/
def TextsRead (fallback : List Text) : Option Value → List Text → Prop
  | none, texts => texts = fallback
  | some .null, texts => texts = fallback
  | some (.text text), texts => texts = [text]
  | some (.list items), texts =>
      List.Forall₂ (fun item text => item.plain = .ok text) items texts
  | some _, _ => False

def fieldsOf (table : Entries) : Entries :=
  match table.find? "fields" with
  | some (.table fields) => fields
  | _ => []

/-- Whether options are exactly what some fields say. -/
structure Carries (fields : Entries) (options : Options) : Prop where
  indent : indent? (indentOf fields) = some options.fieldIndent
  indent_nonneg : 0 ≤ options.fieldIndent
  locationPrefixes :
    TextsRead Options.standard.locationPrefixes (fields.find? "location_prefixes")
      options.locationPrefixes
  widthPrefixes :
    TextsRead Options.standard.widthPrefixes (fields.find? "width_prefixes")
      options.widthPrefixes

def NamesKnown (names : List String) : Prop :=
  ∀ name ∈ names, name ∈ Formatter.all.map Formatter.name

theorem textsRead_of_readTexts
    {key : String} {fallback : List Text} {value : Option Value} {texts : List Text}
    (isRead : readTexts key fallback value = .ok texts) :
    TextsRead fallback value texts := by
  match value with
  | none | some .null | some (.text _) =>
      cases isRead
      rfl
  | some (.list items) =>
      exact (forall₂_of_mapM isRead).imp fun item text isText => needShown_eq_ok_iff.mp isText
  | some (.bool _) | some (.integer _) | some (.double _) | some (.date _) | some (.time _)
  | some (.moment _ _ _) | some (.table _) =>
      cases isRead

theorem carries_of_readFields
    {fields : Entries} {options : Options}
    (isRead : readFields fields = .ok options) :
    Carries fields options := by
  obtain ⟨⟨number, isNumber, nonnegative⟩, _⟩ := (readFields_judges fields).permitted_of_ok isRead
  rw [readFields_of_indent isNumber, if_neg (Int.not_lt.mpr nonnegative)] at isRead
  obtain ⟨locationPrefixes, locationsRead, isRest⟩ := bind_eq_ok_iff.mp isRead
  obtain ⟨widthPrefixes, widthsRead, isOptions⟩ := bind_eq_ok_iff.mp isRest
  cases isOptions
  exact
    { indent := isNumber
      indent_nonneg := nonnegative
      locationPrefixes := textsRead_of_readTexts locationsRead
      widthPrefixes := textsRead_of_readTexts widthsRead }

theorem carries_of_readOptions
    {table : Entries} {options : Options}
    (isRead : readOptions table = .ok options) :
    Carries (fieldsOf table) options := by
  apply carries_of_readFields
  unfold readOptions at isRead
  unfold fieldsOf
  cases found : table.find? "fields" with
  | none =>
      rw [found] at isRead
      exact isRead
  | some value =>
      rw [found] at isRead
      cases value with
      | table fields =>
          cases fields <;> exact isRead
      | _ =>
          simp only [Option.getD_some] at isRead
          split at isRead
          · exact isRead
          · cases isRead

theorem mem_names_of_formatterName?
    {value : Value} {name : String}
    (isName : formatterName? value = some name) :
    name ∈ Formatter.all.map Formatter.name := by
  cases value with
  | text text =>
      rw [formatterName?] at isName
      exact List.mem_of_find?_eq_some isName
  | _ =>
      cases isName

theorem namesKnown_of_readNames
    {language : Text} {value : Value} {names : List String}
    (isRead : readNames language value = .ok names) :
    NamesKnown names := by
  have ofList (values : List Value) (isRead : readNames language (.list values) = .ok names) :
      NamesKnown names := by
    rcases readNames_list_cases language values with ⟨_, isNames⟩ | ⟨_, _, failed⟩
    · cases isNames.symm.trans isRead
      intro name member
      obtain ⟨value, _, isName⟩ := List.mem_filterMap.mp member
      exact mem_names_of_formatterName? isName
    · rw [failed] at isRead
      obtain ⟨_, _, impossible⟩ := bind_eq_ok_iff.mp isRead
      cases impossible
  cases value with
  | text name =>
      exact ofList [.text name] isRead
  | list values =>
      exact ofList values isRead
  | _ =>
      cases isRead

theorem namesKnown_of_readFormatters
    {table : Entries} {formatters : List (Text × List String)}
    (isRead : readFormatters table = .ok formatters) :
    ∀ entry ∈ formatters, NamesKnown entry.2 := by
  unfold readFormatters at isRead
  split at isRead
  · cases isRead
    unfold NamesKnown
    decide
  · rename_i languages _
    rw [readLanguages_eq_mapM] at isRead
    intro entry member
    obtain ⟨⟨language, value⟩, _, isEntry⟩ := exists_of_mem_mapM isRead member
    cases namesRead : readNames language value with
    | error problem =>
        rw [namesRead] at isEntry
        cases isEntry
    | ok names =>
        rw [namesRead] at isEntry
        cases isEntry
        exact namesKnown_of_readNames namesRead
  · cases isRead

theorem formattersFor_known
    {settings : Settings}
    (known : ∀ entry ∈ settings.formatters, NamesKnown entry.2)
    (language : Option Text) :
    NamesKnown (settings.formattersFor language) := by
  have noneKnown : NamesKnown [] := fun _ member => absurd member List.not_mem_nil
  unfold formattersFor
  split
  · exact noneKnown
  · rename_i identifier
    split
    · exact noneKnown
    · cases found : settings.formatters.lookup identifier with
      | none =>
          exact noneKnown
      | some names =>
          obtain ⟨before, after, split, _⟩ := List.lookup_eq_some_iff.mp found
          exact known (identifier, names) (by rw [split]; simp)

end Settings

theorem Language.defaultPasses_known
    (language : Language) :
    Settings.NamesKnown language.defaultPasses := by
  unfold Settings.NamesKnown
  cases language <;> decide

theorem Workspace.passesFor_known
    {workspace : Workspace}
    (known : ∀ entry ∈ workspace.settings.formatters, Settings.NamesKnown entry.2)
    (document : Document) :
    Settings.NamesKnown (workspace.passesFor document) := by
  simp only [passesFor]
  split
  · exact Settings.formattersFor_known known document.languageId
  · split
    · exact fun _ member => absurd member List.not_mem_nil
    · exact document.language.defaultPasses_known

namespace Settings

/-! ## Settings of a value -/

def FiniteIndent (value : Value) : Prop :=
  ∀ table negative, value = .table table →
    indentOf (fieldsOf table) ≠ .double (.infinite negative)

theorem finiteIndent_of_indent
    {table : Entries} {number : Int}
    (isNumber : indent? (indentOf (fieldsOf table)) = some number) :
    FiniteIndent (.table table) := by
  rintro _ negative ⟨⟩ isInfinite
  rw [isInfinite] at isNumber
  cases isNumber

/-- As long as the indent is finite, only values that cannot be shown escape. -/
theorem TableEscapes.unshowable
    {table : Entries} {fault : Fault}
    (escapes : TableEscapes table fault) (finite : FiniteIndent (.table table)) :
    ∃ why : Value.Unshowable, fault = why.fault := by
  rcases escapes with
    ⟨_, _, _, _, _, _, _, _, why, _, _, _, isFault⟩ | ⟨_, fields, found, fieldsEscape⟩
  · exact ⟨why, isFault⟩
  · have isFields : fieldsOf table = fields := by
      rw [fieldsOf, found]
    rcases fieldsEscape with
      (⟨⟨negative, isInfinite⟩, _⟩ | ⟨_, why, _, isFault⟩) |
        ⟨_, ⟨_, why, _, _, isFault⟩ | ⟨_, _, why, _, _, isFault⟩⟩
    · rw [← isFields] at isInfinite
      exact absurd isInfinite (finite table negative rfl)
    · exact ⟨why, isFault⟩
    · exact ⟨why, isFault⟩
    · exact ⟨why, isFault⟩

/-- Settings are taken from a value exactly if they may be, and a problem with it is reported
if they may not, unless the value holds something that would have to be shown and that cannot
be.  Taken settings name known formatters only, and so does everything that runs on a
document; their options are exactly what the fields say. -/
theorem ofValue_exact
    {value : Value} (finite : FiniteIndent value) :
    (JudgedExactly value ↔
        ¬ ∃ (table : Entries) (why : Value.Unshowable),
          value = .table table ∧ TableEscapes table why.fault) ∧
      ∀ settings, ofValue value = .ok settings →
        (∀ entry ∈ settings.formatters, NamesKnown entry.2) ∧
          (∃ table, value = .table table ∧ Carries (fieldsOf table) settings.options) ∧
          ∀ (workspace : Workspace) (document : Document),
            workspace.settings.formatters = settings.formatters →
              NamesKnown (workspace.passesFor document) := by
  constructor
  · rw [judgedExactly_iff]
    apply not_congr
    constructor
    · rintro ⟨fault, escaped⟩
      obtain ⟨table, rfl, escapes⟩ := ofValue_eq_error_iff.mp escaped
      obtain ⟨why, rfl⟩ := escapes.unshowable finite
      exact ⟨table, why, rfl, escapes⟩
    · rintro ⟨table, why, isTable, escapes⟩
      exact ⟨why.fault, ofValue_eq_error_iff.mpr ⟨table, isTable, escapes⟩⟩
  · intro settings isTaken
    cases value with
    | table table =>
        obtain ⟨formatters, formattersRead, isRest⟩ := bind_eq_ok_iff.mp isTaken
        obtain ⟨options, optionsRead, isSettings⟩ := bind_eq_ok_iff.mp isRest
        cases isSettings
        have known := namesKnown_of_readFormatters formattersRead
        refine ⟨known, ⟨table, rfl, carries_of_readOptions optionsRead⟩, ?_⟩
        intro workspace document sameFormatters
        apply Workspace.passesFor_known
        rw [sameFormatters]
        exact known
    | _ =>
        cases isTaken

/-- Formatters as one name and as a list of names, and fields whose indent is a text and whose
prefixes are numbers and texts. -/
def variousTable : Entries :=
  [("formatters",
      .table
        [("prisma",
            .list [.text ("sortImports"), .text ("formatModelFields")]),
          ("typescript", .text ("sortImports")),
          ("python", .list [])]),
    ("fields",
      .table
        [("indent", .text (" 4 ")),
          ("location_prefixes", .list [.text ("@x"), .bool true]),
          ("width_prefixes", .null)])]

theorem ofValue_exact_various :
    JudgedExactly (.table variousTable) ∧
      ofValue (.table variousTable) =
        .ok
          { formatters :=
              [("prisma", ["sortImports", "formatModelFields"]), ("typescript", ["sortImports"]),
                ("python", [])]
            options :=
              { fieldIndent := 4, locationPrefixes := ["@x", "True"] } } := by
  have isTaken :
      ofValue (.table variousTable) =
        .ok
          { formatters :=
              [("prisma", ["sortImports", "formatModelFields"]), ("typescript", ["sortImports"]),
                ("python", [])]
            options :=
              { fieldIndent := 4, locationPrefixes := ["@x", "True"] } } := by
    rfl
  have finite : FiniteIndent (.table variousTable) := finiteIndent_of_indent rfl
  refine ⟨(ofValue_exact finite).1.mpr ?_, isTaken⟩
  rintro ⟨table, why, isTable, escapes⟩
  have failed := ofValue_eq_error_iff.mpr ⟨table, isTable, escapes⟩
  cases isTaken.symm.trans failed

theorem shownInteger_eq_error_iff
    {number : Int} :
    Value.shownInteger number = .error .integerTooLong ↔
      10 ^ Text.digitLimit ≤ number.natAbs := by
  have digits :=
    @Nat.length_toDigits_le_iff 10 number.natAbs Text.digitLimit (by decide) (by decide)
  unfold Value.shownInteger
  rw [← Nat.not_lt, ← digits, Nat.not_le]
  split <;> simp [*]

/-- The first integer with more digits than can be shown. -/
def endless : Value :=
  .integer (10 ^ Text.digitLimit : Nat)

theorem plain_endless :
    endless.plain = .error .integerTooLong := by
  have shownInteger (number : Int) :
      (Value.integer number).shown = Value.shownInteger number := rfl
  have isShown : endless.shown = .error .integerTooLong := by
    rw [endless, shownInteger, shownInteger_eq_error_iff]
    exact Nat.le_of_eq (Int.natAbs_natCast _).symm
  exact bind_eq_error_iff.mpr (Or.inl isShown)

def endlessName : Entries :=
  [("formatters", .table [("prisma", .list [endless])])]

def endlessPrefix : Entries :=
  [("fields", .table [("location_prefixes", .list [endless])])]

/-- A formatter that is such an integer is unknown and not reported, and a prefix that is one
may be taken and is not. -/
theorem ofValue_endless :
    FiniteIndent (.table endlessName) ∧ ¬ Permitted (.table endlessName) ∧
      ofValue (.table endlessName) = .error (.escaping .integerTooLong) ∧
      ¬ JudgedExactly (.table endlessName) ∧
      FiniteIndent (.table endlessPrefix) ∧ Permitted (.table endlessPrefix) ∧
      ofValue (.table endlessPrefix) = .error (.escaping .integerTooLong) ∧
      ¬ JudgedExactly (.table endlessPrefix) := by
  have isPermitted : IndentPermitted (fieldsOf endlessPrefix) := ⟨2, rfl, by decide⟩
  have nameEscapes : NamesEscape (.list [endless]) .integerTooLong :=
    ⟨[endless], endless, .integerTooLong, rfl, rfl, plain_endless, rfl⟩
  have prefixEscapes : TextsEscape (some (.list [endless])) .integerTooLong :=
    ⟨[endless], .integerTooLong, rfl, ⟨[], endless, [], rfl, by simp, plain_endless⟩, rfl⟩
  have nameStops : ofValue (.table endlessName) = .error (.escaping .integerTooLong) := by
    apply ofValue_eq_error_iff.mpr
    exact ⟨endlessName, rfl, Or.inl ⟨[], _, _, [], rfl, by simp, nameEscapes⟩⟩
  have prefixStops : ofValue (.table endlessPrefix) = .error (.escaping .integerTooLong) := by
    apply ofValue_eq_error_iff.mpr
    exact ⟨endlessPrefix, rfl,
      Or.inr ⟨trivial, _, rfl, Or.inr ⟨isPermitted, Or.inl prefixEscapes⟩⟩⟩
  refine ⟨finiteIndent_of_indent rfl, ?_, nameStops, ?_, finiteIndent_of_indent rfl, ?_,
    prefixStops, ?_⟩
  · rintro ⟨named, _⟩
    have known : (formatterName? endless).isSome = true :=
      named _ List.mem_cons_self endless List.mem_cons_self
    cases known
  · intro exactly
    exact (judgedExactly_iff _).mp exactly ⟨_, nameStops⟩
  · exact ⟨trivial, Or.inr ⟨_, rfl, isPermitted, trivial, trivial⟩⟩
  · intro exactly
    exact (judgedExactly_iff _).mp exactly ⟨_, prefixStops⟩

end Settings

end Tidy
