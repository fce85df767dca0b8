import AshA2A.Elicitation
import AshA2A.Schema.Projection

/-! Answers that are taken, against what their schema asks. -/

namespace AshA2A.Elicitation

open Json (Schema fitsBounds fitsCount TextKeywords)
open Json.Schema (conforms conforms_anyOf conformsAll_iff keyed)

/-! ## Where the two differ -/

/-- The bounds that are numbers hold. -/
def fitsNumbers (minimum maximum : Option Json.Bound) (value : Rat) : Bool :=
  (minimum.bind Bound.number?).all (· ≤ value) && (maximum.bind Bound.number?).all (value ≤ ·)

/-- Taken though it does not conform. -/
inductive Lax (graphemes : Graphemes) : Schema → Json → Prop where
  /-- Grapheme clusters are counted where code points are meant. -/
  | length {keywords : TextKeywords} {text : String} (listed : keywords.lists text)
    (taken : keywords.fits (graphemes text)) (wrong : ¬ keywords.fits text.toList.length) :
    Lax graphemes (.string keywords) (.string text)
  /-- A bound is a decimal, which is not looked at. -/
  | integerBound {minimum maximum : Option Json.Bound} {value : Int} (taken : fitsNumbers minimum maximum value)
    (wrong : ¬ fitsBounds minimum maximum value) : Lax graphemes (.integer minimum maximum) (.int value)
  | numberBound {minimum maximum : Option Json.Bound} {json : Json} {value : Rat} (number : number? json = some value)
    (taken : fitsNumbers minimum maximum value) (wrong : ¬ fitsBounds minimum maximum value) :
    Lax graphemes (.number minimum maximum) json
  /-- Nothing is asked of what should be an object. -/
  | anyObject {value : Json} (wrong : ¬ conforms .anyObject value) : Lax graphemes .anyObject value
  | object {properties : List (String × Schema)} {required : List String} {value : Json}
    (wrong : ¬ conforms (.object properties required) value) : Lax graphemes (.object properties required) value
  | const {text : String} {value : Json} (wrong : ¬ conforms (.const text) value) : Lax graphemes (.const text) value
  /-- Of an item only the type is looked at. -/
  | items {items : Schema} {minItems maxItems : Option Nat} {values : List Json}
    (counted : fitsCount minItems maxItems values.length) (taken : ∀ value ∈ values, passes (typeCheck value items))
    {value : Json} (among : value ∈ values) (wrong : ¬ conforms items value) :
    Lax graphemes (.array items minItems maxItems) (.array values)
  /-- So it is of a branch. -/
  | branch {branches : List Schema} {value : Json} (taken : branches.any (matchBranch value))
    (wrong : ∀ branch ∈ branches, ¬ conforms branch value) : Lax graphemes (.anyOf branches) value
  | branches {branches : List Schema} {value : Json} (taken : branches.countP (matchBranch value) = 1)
    (wrong : ¬ conforms (.oneOf branches) value) : Lax graphemes (.oneOf branches) value

/-- Refused though it conforms. -/
inductive Strict (graphemes : Graphemes) : Schema → Json → Prop where
  | length {keywords : TextKeywords} {text : String} (listed : keywords.lists text)
    (right : keywords.fits text.toList.length) (refused : ¬ keywords.fits (graphemes text)) :
    Strict graphemes (.string keywords) (.string text)
  /-- An integer that is written as a float. -/
  | float {minimum maximum : Option Json.Bound} {value : Rat} (right : value.den = 1)
    (within : fitsBounds minimum maximum value) : Strict graphemes (.integer minimum maximum) (.float value)
  | item {items : Schema} {minItems maxItems : Option Nat} {values : List Json}
    (right : conforms (.array items minItems maxItems) (.array values)) {value : Json} (among : value ∈ values)
    (refused : ¬ passes (typeCheck value items)) : Strict graphemes (.array items minItems maxItems) (.array values)
  | branch {branches : List Schema} {value : Json} (right : conforms (.anyOf branches) value)
    (refused : ∀ branch ∈ branches, ¬ matchBranch value branch) : Strict graphemes (.anyOf branches) value
  | branches {branches : List Schema} {value : Json} (right : conforms (.oneOf branches) value)
    (refused : branches.countP (matchBranch value) ≠ 1) : Strict graphemes (.oneOf branches) value

/-! ## Properties -/

section Properties
variable {graphemes : Graphemes} {name : String} {value : Json} {sub : Schema}

theorem fitsNumbers_of_fitsBounds {minimum maximum : Option Json.Bound} {value : Rat}
    (within : fitsBounds minimum maximum value) : fitsNumbers minimum maximum value := by
  obtain ⟨least, most⟩ := Bool.and_eq_true_iff.mp within
  refine Bool.and_eq_true_iff.mpr ⟨?_, ?_⟩
  · cases minimum with
    | none => rfl
    | some bound => cases bound <;> first | exact least | rfl
  · cases maximum with
    | none => rfl
    | some bound => cases bound <;> first | exact most | rfl

theorem passes_iff {ε : Type} {result : Except ε Unit} : passes result ↔ result = .ok () := by
  cases result <;> simp [passes]

theorem brokenBound_iff {α : Type} {least most : Option α} {tooLow tooHigh : α → Bool} {short long : α → Reason} :
    brokenBound least most tooLow tooHigh short long = none ↔
      (least.all fun min => !tooLow min) ∧ most.all fun max => !tooHigh max := by
  have filtered (bound : Option α) (broken : α → Bool) :
      bound.filter broken = none ↔ bound.all fun value => !broken value := by
    cases bound with
    | none => exact iff_of_true rfl rfl
    | some value => cases given : broken value <;> simp [Option.filter, given]
  unfold brokenBound
  rw [← filtered, ← filtered]
  cases least.filter tooLow with
  | none => exact Option.map_eq_none_iff.trans (and_iff_right rfl).symm
  | some min => exact iff_of_false nofun fun both => nomatch both.1

theorem broken_empty_iff {broken : Option Reason} :
    (broken.toList.map fun reason => (⟨some name, reason⟩ : Violation)) = [] ↔ broken = none := by
  cases broken <;> simp

theorem lengthConstraints_iff {keywords : TextKeywords} {text : String} :
    lengthConstraints graphemes name (.string text) (.string keywords) = [] ↔ keywords.fits (graphemes text) := by
  refine broken_empty_iff.trans (brokenBound_iff.trans ?_)
  simp only [TextKeywords.fits, fitsCount, Bool.and_eq_true, ← decide_not, Nat.not_lt]

theorem boundConstraints_iff {minimum maximum : Option Json.Bound} {number : Rat} (given : number? value = some number) :
    (boundConstraints name value (.integer minimum maximum) = [] ↔ fitsNumbers minimum maximum number) ∧
      (boundConstraints name value (.number minimum maximum) = [] ↔ fitsNumbers minimum maximum number) := by
  simp only [boundConstraints, given, broken_empty_iff, brokenBound_iff, fitsNumbers, Bool.and_eq_true, ← decide_not,
    Rat.not_lt, and_self]

theorem countCheck_iff {count : Nat} {minItems maxItems : Option Nat} :
    countCheck count minItems maxItems = .ok () ↔ fitsCount minItems maxItems count := by
  have unbroken : countCheck count minItems maxItems = .ok () ↔
      brokenBound minItems maxItems (fun min => count < min) (fun max => max < count) .fewer .more = none := by
    unfold countCheck
    cases brokenBound minItems maxItems (fun min => count < min) (fun max => max < count) .fewer .more <;> simp
  refine unbroken.trans (brokenBound_iff.trans ?_)
  simp only [fitsCount, Bool.and_eq_true, ← decide_not, Nat.not_lt]

theorem enumCheckResult_iff {keywords : TextKeywords} {text : String} :
    enumCheckResult (.string text) (.string keywords) = [] ↔ keywords.lists text := by
  obtain ⟨_, _, enum, _, _⟩ := keywords
  cases enum with
  | none => exact iff_of_true rfl rfl
  | some enum =>
    show (if enum.contains text then _ else _) = [] ↔ enum.contains text
    split <;> simp_all

/-! ### What is taken -/

/-- Two of the scalar checks look at a text. -/
theorem checkProperty_string {keywords : TextKeywords} {text : String} :
    checkProperty graphemes name (.string text) (.string keywords) = [] ↔
      keywords.lists text ∧ keywords.fits (graphemes text) := by
  show List.map _ (enumCheckResult _ _ ++ lengthConstraints _ _ _ _ ++ boundConstraints _ _ _) = [] ↔ _
  rw [List.map_eq_nil_iff, List.append_eq_nil_iff, List.append_eq_nil_iff, enumCheckResult_iff, lengthConstraints_iff]
  exact and_iff_left rfl

/-- And one at a number. -/
theorem scalarConstraints_bounds {minimum maximum : Option Json.Bound} {number : Rat} (given : number? value = some number)
    (complete : Violation → Violation) :
    ((scalarConstraints graphemes name value (.integer minimum maximum)).map complete = [] ↔
      fitsNumbers minimum maximum number) ∧
    ((scalarConstraints graphemes name value (.number minimum maximum)).map complete = [] ↔
      fitsNumbers minimum maximum number) := by
  obtain ⟨integer, number⟩ : (boundConstraints name value (.integer minimum maximum) = [] ↔ _) ∧
    (boundConstraints name value (.number minimum maximum) = [] ↔ _) := boundConstraints_iff given
  simp only [scalarConstraints, enumCheckResult, lengthConstraints, List.nil_append, List.map_eq_nil_iff, integer, number,
    and_self]

theorem checkProperty_integer {minimum maximum : Option Json.Bound} {int : Int} :
    checkProperty graphemes name (.int int) (.integer minimum maximum) = [] ↔ fitsNumbers minimum maximum int :=
  (scalarConstraints_bounds rfl _).1

theorem checkProperty_number {minimum maximum : Option Json.Bound} {number : Rat} (given : number? value = some number) :
    checkProperty graphemes name value (.number minimum maximum) = [] ↔ fitsNumbers minimum maximum number := by
  cases value with
  | int int => exact (scalarConstraints_bounds given _).2
  | float float => exact (scalarConstraints_bounds given _).2
  | _ => cases given

theorem checkProperty_array {items : Schema} {minItems maxItems : Option Nat} {values : List Json} :
    checkProperty graphemes name (.array values) (.array items minItems maxItems) = [] ↔
      fitsCount minItems maxItems values.length ∧ ∀ value ∈ values, passes (typeCheck value items) := by
  rw [← countCheck_iff]
  have typed : typeCheck (.array values) (.array items minItems maxItems) = .ok () := rfl
  cases counted : countCheck values.length minItems maxItems with
  | error reason => simp [checkProperty, constraintViolations, typed, counted]
  | ok done =>
    rw [and_iff_right rfl]
    simp only [checkProperty, constraintViolations, typed, counted, List.flatMap_eq_nil_iff]
    constructor
    · intro all value member
      obtain ⟨index, within, rfl⟩ := List.getElem_of_mem member
      have unbroken := all (values[index], index) (List.mk_mem_zipIdx_iff_getElem?.mpr (List.getElem?_eq_getElem within))
      cases typed : typeCheck values[index] items <;> simp_all [passes]
    · intro all item member
      have fits := passes_iff.mp (all item.1 (List.fst_mem_of_mem_zipIdx member))
      simp [fits]

/-- A value of another type is refused. -/
theorem checkProperty_refused {reason : Reason} (typed : typeCheck value sub = .error reason)
    (single : (∀ branches, sub ≠ .anyOf branches) ∧ ∀ branches, sub ≠ .oneOf branches) :
    checkProperty graphemes name value sub ≠ [] := by
  cases sub with
  | anyOf branches => exact absurd rfl (single.1 branches)
  | oneOf branches => exact absurd rfl (single.2 branches)
  | _ => simp only [checkProperty, typed]; exact List.cons_ne_nil _ _

/-! ### Where taking and conforming come apart -/

variable (graphemes name value sub) in
/-- The two kinds of difference, each as it is described and as it shows. -/
structure Compared : Prop where
  strict : Strict graphemes sub value ↔ conforms sub value ∧ checkProperty graphemes name value sub ≠ []
  lax : Lax graphemes sub value ↔ checkProperty graphemes name value sub = [] ∧ ¬ conforms sub value

/-- Neither taken nor conforming. -/
theorem Compared.neither (refused : checkProperty graphemes name value sub ≠ []) (wrong : ¬ conforms sub value)
    (fair : ¬ Strict graphemes sub value) (just : ¬ Lax graphemes sub value) : Compared graphemes name value sub :=
  ⟨iff_of_false fair fun both => wrong both.1, iff_of_false just fun both => refused both.1⟩

/-- Nothing is asked. -/
theorem Compared.always (taken : checkProperty graphemes name value sub = []) (fair : ¬ Strict graphemes sub value)
    (lax : Lax graphemes sub value ↔ ¬ conforms sub value) : Compared graphemes name value sub :=
  ⟨iff_of_false fair fun both => both.2 taken, lax.trans (and_iff_right taken).symm⟩

theorem compared_string {keywords : TextKeywords} : Compared graphemes name value (.string keywords) := by
  cases value with
  | string text =>
    have conforming : conforms (.string keywords) (.string text) ↔
        keywords.lists text ∧ keywords.fits text.toList.length := by rw [conforms, Bool.and_eq_true]
    constructor
    · rw [conforming, ne_eq, checkProperty_string]
      constructor
      · rintro ⟨listed, right, refused⟩
        exact ⟨⟨listed, right⟩, fun both => refused both.2⟩
      · rintro ⟨⟨listed, right⟩, refused⟩
        exact .length listed right fun fits => refused ⟨listed, fits⟩
    · rw [conforming, checkProperty_string]
      constructor
      · rintro ⟨listed, taken, wrong⟩
        exact ⟨⟨listed, taken⟩, fun both => wrong both.2⟩
      · rintro ⟨⟨listed, taken⟩, wrong⟩
        exact .length listed taken fun fits => wrong ⟨listed, fits⟩
  | _ =>
    refine .neither (checkProperty_refused rfl ⟨by simp, by simp⟩) (by simp [conforms]) ?_ ?_ <;>
    · intro differs
      cases differs

theorem compared_integer {minimum maximum : Option Json.Bound} : Compared graphemes name value (.integer minimum maximum) := by
  cases value with
  | int int =>
    have conforming : conforms (.integer minimum maximum) (.int int) = fitsBounds minimum maximum int := by rw [conforms]
    constructor
    · rw [conforming, ne_eq, checkProperty_integer]
      refine iff_of_false ?_ fun both => both.2 (fitsNumbers_of_fitsBounds both.1)
      intro strict
      cases strict
    · rw [conforming, checkProperty_integer]
      constructor
      · intro lax
        cases lax with
        | integerBound taken wrong => exact ⟨taken, wrong⟩
      · exact fun both => .integerBound both.1 both.2
  | float float =>
    have conforming : conforms (.integer minimum maximum) (.float float) ↔
        float.den = 1 ∧ fitsBounds minimum maximum float := by rw [conforms, Bool.and_eq_true, decide_eq_true_iff]
    have refused : checkProperty graphemes name (.float float) (.integer minimum maximum) ≠ [] :=
      checkProperty_refused rfl ⟨by simp, by simp⟩
    constructor
    · rw [conforming, and_iff_left refused]
      constructor
      · intro strict
        cases strict with
        | float right within => exact ⟨right, within⟩
      · exact fun both => .float both.1 both.2
    · refine iff_of_false ?_ fun both => refused both.1
      intro lax
      cases lax
  | _ =>
    refine .neither (checkProperty_refused rfl ⟨by simp, by simp⟩) (by simp [conforms]) ?_ ?_ <;>
    · intro differs
      cases differs

theorem compared_number {minimum maximum : Option Json.Bound} : Compared graphemes name value (.number minimum maximum) := by
  have compare {number : Rat} (given : number? value = some number)
      (conforming : conforms (.number minimum maximum) value = fitsBounds minimum maximum number) :
      Compared graphemes name value (.number minimum maximum) := by
    constructor
    · rw [conforming, ne_eq, checkProperty_number given]
      refine iff_of_false ?_ fun both => both.2 (fitsNumbers_of_fitsBounds both.1)
      intro strict
      cases strict
    · rw [conforming, checkProperty_number given]
      constructor
      · rintro (_ | _ | ⟨given', taken, wrong⟩)
        cases given.symm.trans given'
        exact ⟨taken, wrong⟩
      · exact fun both => .numberBound given both.1 both.2
  cases value with
  | int int => exact compare rfl (by rw [conforms])
  | float float => exact compare rfl (by rw [conforms])
  | _ =>
    refine .neither (checkProperty_refused rfl ⟨by simp, by simp⟩) (by simp [conforms]) ?_ ?_
    · intro strict
      cases strict
    · rintro (_ | _ | ⟨given, _, _⟩)
      cases given

theorem compared_array {items : Schema} {minItems maxItems : Option Nat} :
    Compared graphemes name value (.array items minItems maxItems) := by
  cases value with
  | array values =>
    have conforming : conforms (.array items minItems maxItems) (.array values) ↔
        fitsCount minItems maxItems values.length ∧ ∀ value ∈ values, conforms items value := by
      rw [conforms, Bool.and_eq_true, List.all_eq_true]
    constructor
    · rw [ne_eq, checkProperty_array]
      constructor
      · intro strict
        cases strict with
        | item right among refused => exact ⟨right, fun both => refused (both.2 _ among)⟩
      · rintro ⟨right, refused⟩
        obtain ⟨value, among, other⟩ : ∃ value ∈ values, ¬ passes (typeCheck value items) := by
          by_contra all
          exact refused ⟨(conforming.mp right).1, fun value member => of_not_not fun other => all ⟨value, member, other⟩⟩
        exact .item right among other
    · rw [conforming, checkProperty_array]
      constructor
      · intro lax
        cases lax with
        | items counted taken among wrong => exact ⟨⟨counted, taken⟩, fun both => wrong (both.2 _ among)⟩
      · rintro ⟨⟨counted, taken⟩, wrong⟩
        obtain ⟨value, among, other⟩ : ∃ value ∈ values, ¬ conforms items value := by
          by_contra all
          exact wrong ⟨counted, fun value member => of_not_not fun other => all ⟨value, member, other⟩⟩
        exact .items counted taken among other
  | _ =>
    refine .neither (checkProperty_refused rfl ⟨by simp, by simp⟩) (by simp [conforms]) ?_ ?_ <;>
    · intro differs
      cases differs

theorem anyOf_iff {branches : List Schema} : anyOf name value branches = [] ↔ branches.any (matchBranch value) := by
  unfold anyOf
  split <;> simp_all

theorem oneOf_iff {branches : List Schema} : oneOf name value branches = [] ↔ branches.countP (matchBranch value) = 1 := by
  unfold oneOf
  match branches.countP (matchBranch value) with
  | 0 => exact iff_of_false nofun nofun
  | 1 => exact iff_of_true rfl rfl
  | _ + 2 => exact iff_of_false nofun nofun

theorem compared (graphemes : Graphemes) (name : String) (value : Json) (sub : Schema) :
    Compared graphemes name value sub := by
  cases sub with
  | string keywords => exact compared_string
  | integer minimum maximum => exact compared_integer
  | number minimum maximum => exact compared_number
  | array items minItems maxItems => exact compared_array
  | boolean =>
    have fair : ¬ Strict graphemes .boolean value := by
      intro strict
      cases strict
    have just : ¬ Lax graphemes .boolean value := by
      intro lax
      cases lax
    cases value with
    | bool value => exact .always rfl fair (iff_of_false just (by simp [conforms]))
    | _ => exact .neither (checkProperty_refused rfl ⟨by simp, by simp⟩) (by simp [conforms]) fair just
  | anyObject =>
    refine .always rfl ?_ ⟨?_, .anyObject⟩
    · intro strict
      cases strict
    · intro lax
      cases lax with
      | anyObject wrong => exact wrong
  | object properties required =>
    refine .always rfl ?_ ⟨?_, .object⟩
    · intro strict
      cases strict
    · intro lax
      cases lax with
      | object wrong => exact wrong
  | const text =>
    refine .always rfl ?_ ⟨?_, .const⟩
    · intro strict
      cases strict
    · intro lax
      cases lax with
      | const wrong => exact wrong
  | anyOf branches =>
    have taken : checkProperty graphemes name value (.anyOf branches) = [] ↔ branches.any (matchBranch value) := anyOf_iff
    constructor
    · rw [ne_eq, taken, List.any_eq_true]
      constructor
      · intro strict
        cases strict with
        | branch right refused =>
          refine ⟨right, ?_⟩
          rintro ⟨branch, member, matched⟩
          exact refused branch member matched
      · exact fun both => .branch both.1 fun branch member matched => both.2 ⟨branch, member, matched⟩
    · rw [taken, conforms_anyOf]
      constructor
      · intro lax
        cases lax with
        | branch taken wrong =>
          refine ⟨taken, ?_⟩
          rintro ⟨branch, member, right⟩
          exact wrong branch member right
      · exact fun both => .branch both.1 fun branch member right => both.2 ⟨branch, member, right⟩
  | oneOf branches =>
    have taken : checkProperty graphemes name value (.oneOf branches) = [] ↔ branches.countP (matchBranch value) = 1 :=
      oneOf_iff
    constructor
    · rw [ne_eq, taken]
      constructor
      · intro strict
        cases strict with
        | branches right refused => exact ⟨right, refused⟩
      · exact fun both => .branches both.1 both.2
    · rw [taken]
      constructor
      · intro lax
        cases lax with
        | branches taken wrong => exact ⟨taken, wrong⟩
      · exact fun both => .branches both.1 both.2

end Properties

/-! ## Answers -/

/-- A property that the answer has. -/
structure Present (properties : List (String × Schema)) (data : Json) (name : String) (sub : Schema) (value : Json) :
    Prop where
  asked : (name, sub) ∈ properties
  answered : data.get? name = some value

/-- One property is taken that does not conform, and every other is taken. -/
def Slips (graphemes : Graphemes) : Schema → Json → Prop
  | .object properties required, .object entries =>
    keyed properties required (.object entries) ∧
      (∃ name sub value, Present properties (.object entries) name sub value ∧ Lax graphemes sub value) ∧
      ∀ name sub value, Present properties (.object entries) name sub value →
        Lax graphemes sub value ∨ conforms sub value ∧ ¬ Strict graphemes sub value
  | _, _ => False

/-- One property is refused that conforms, as every other does. -/
def Lost (graphemes : Graphemes) : Schema → Json → Prop
  | .object properties required, .object entries =>
    keyed properties required (.object entries) ∧
      (∃ name sub value, Present properties (.object entries) name sub value ∧ Strict graphemes sub value) ∧
      ∀ name sub value, Present properties (.object entries) name sub value → conforms sub value
  | _, _ => False

section Answers
variable {graphemes : Graphemes} {properties : List (String × Schema)} {required : List String} {data : Json}
  {entries : List (String × Json)}

theorem keyViolations_iff : unknownKeyViolations data properties ++ requiredViolations required data = [] ↔
    keyed properties required data := by
  simp only [unknownKeyViolations, requiredViolations, keyed, List.append_eq_nil_iff, List.map_eq_nil_iff,
    List.filter_eq_nil_iff, Bool.and_eq_true, List.all_eq_true]
  refine and_congr (forall₂_congr fun entry _ => ?_) (forall₂_congr fun name _ => ?_)
  · simp
  · cases data.get? name <;> simp

theorem propertyViolations_iff : propertyViolations graphemes properties data = [] ↔
    ∀ name sub value, Present properties data name sub value → checkProperty graphemes name value sub = [] := by
  unfold propertyViolations
  rw [List.flatMap_eq_nil_iff]
  constructor
  · intro all name sub value present
    have taken := all (name, sub) present.asked
    simpa only [present.answered] using taken
  · rintro all ⟨name, sub⟩ asked
    cases answered : data.get? name with
    | none => simp only [answered]
    | some value => simpa only [answered] using all name sub value ⟨asked, answered⟩

theorem validate_iff : validate graphemes (.object properties required) (.object entries) = .ok () ↔
    keyed properties required (.object entries) ∧ ∀ name sub value,
      Present properties (.object entries) name sub value → checkProperty graphemes name value sub = [] := by
  rw [← keyViolations_iff, ← propertyViolations_iff, ← List.append_eq_nil_iff]
  show validateMap graphemes properties required (.object entries) = .ok () ↔ _
  unfold validateMap
  split
  case h_1 none => exact iff_of_true rfl none
  case h_2 some => exact iff_of_false nofun some

theorem conforms_iff : conforms (.object properties required) (.object entries) ↔
    keyed properties required (.object entries) ∧ ∀ name sub value,
      Present properties (.object entries) name sub value → conforms sub value := by
  rw [conforms, Bool.and_eq_true, conformsAll_iff]
  exact and_congr_right fun _ =>
    ⟨fun all name sub value present => all (name, sub) present.asked value present.answered,
      fun all property asked value answered => all property.1 property.2 value ⟨asked, answered⟩⟩

/-- What an action or a skill has for a schema. -/
theorem emitted_object {attributes : List (Schema.Projection.Attribute Schema.Projection.AshType)}
    {action : Schema.Projection.Action} {schema : Schema}
    (emitted : Schema.Projection.forAction attributes action = .ok schema ∨
      ∃ mapping, Schema.Projection.forSkill mapping attributes action = .ok schema) :
    ∃ properties required, schema = .object properties required := by
  unfold Schema.Projection.forAction Schema.Projection.forSkill at emitted
  cases projected : Schema.Projection.fieldsSchema false (Schema.Projection.fields attributes action) with
  | error fault => simp only [projected] at emitted; obtain given | ⟨_, given⟩ := emitted <;> nomatch given
  | ok fields =>
    simp only [projected] at emitted
    obtain given | ⟨_, given⟩ := emitted <;> exact ⟨_, _, (Except.ok.inj given).symm⟩

theorem taken_iff {name : String} {sub : Schema} {value : Json} : checkProperty graphemes name value sub = [] ↔
    Lax graphemes sub value ∨ conforms sub value ∧ ¬ Strict graphemes sub value := by
  obtain ⟨strict, lax⟩ := compared graphemes name value sub
  rw [strict, lax]
  tauto

theorem slips_iff : Slips graphemes (.object properties required) data ↔
    validate graphemes (.object properties required) data = .ok () ∧ ¬ conforms (.object properties required) data := by
  cases data with
  | object entries =>
    rw [validate_iff, conforms_iff]
    constructor
    · rintro ⟨keys, ⟨name, sub, value, present, lax⟩, all⟩
      refine ⟨⟨keys, fun name sub value present => taken_iff.mpr (all name sub value present)⟩, fun right => ?_⟩
      exact ((compared graphemes name value sub).lax.mp lax).2 (right.2 name sub value present)
    · rintro ⟨⟨keys, taken⟩, wrong⟩
      refine ⟨keys, ?_, fun name sub value present => taken_iff.mp (taken name sub value present)⟩
      by_contra none
      refine wrong ⟨keys, fun name sub value present => ?_⟩
      have fair : ¬ Lax graphemes sub value := fun lax => none ⟨name, sub, value, present, lax⟩
      exact ((taken_iff.mp (taken name sub value present)).resolve_left fair).1
  | _ => exact iff_of_false id fun both => nomatch both.1

theorem lost_iff : Lost graphemes (.object properties required) data ↔
    conforms (.object properties required) data ∧ validate graphemes (.object properties required) data ≠ .ok () := by
  cases data with
  | object entries =>
    rw [ne_eq, validate_iff, conforms_iff]
    constructor
    · rintro ⟨keys, ⟨name, sub, value, present, strict⟩, all⟩
      refine ⟨⟨keys, all⟩, fun taken => ?_⟩
      exact ((compared graphemes name value sub).strict.mp strict).2 (taken.2 name sub value present)
    · rintro ⟨⟨keys, right⟩, refused⟩
      refine ⟨keys, ?_, right⟩
      by_contra none
      refine refused ⟨keys, fun name sub value present => taken_iff.mpr (.inr ⟨right name sub value present, ?_⟩)⟩
      exact fun strict => none ⟨name, sub, value, present, strict⟩
  | _ => exact iff_of_false id fun both => nomatch both.1

/-- An answer is taken just where it conforms, unless a property slips through or is lost. -/
theorem validate_conforms_iff {attributes : List (Schema.Projection.Attribute Schema.Projection.AshType)}
    {action : Schema.Projection.Action} {schema : Schema}
    (emitted : Schema.Projection.forAction attributes action = .ok schema ∨
      ∃ mapping, Schema.Projection.forSkill mapping attributes action = .ok schema) :
    ((validate graphemes schema data = .ok () ↔ conforms schema data) ↔
      ¬ Slips graphemes schema data ∧ ¬ Lost graphemes schema data) ∧
    ((validate graphemes schema data = .ok () → conforms schema data) ↔ ¬ Slips graphemes schema data) := by
  obtain ⟨properties, required, rfl⟩ := emitted_object emitted
  rw [slips_iff, lost_iff]
  tauto

end Answers

/-! ### An item below its minimum -/

def ofTags : Schema.Projection.Action := ⟨[⟨"tags", .array (.integer (some 1) none) none none, false, true⟩], []⟩

def tagsSchema : Schema := .object [("tags", .array (.integer (some (.number 1)) none) none none)] ["tags"]

theorem forAction_tags : Schema.Projection.forAction [] ofTags = .ok tagsSchema := rfl

def zero : Json := .object [("tags", .array [.int 0])]

theorem validate_conforms_iff_zero : Schema.Projection.forAction [] ofTags = .ok tagsSchema ∧
    ((validate String.length tagsSchema zero = .ok () ↔ conforms tagsSchema zero) ↔
      ¬ Slips String.length tagsSchema zero ∧ ¬ Lost String.length tagsSchema zero) :=
  ⟨forAction_tags, (validate_conforms_iff (.inl forAction_tags)).1⟩

theorem zero_slips : ¬ ∀ attributes action schema data, Schema.Projection.forAction attributes action = .ok schema →
    validate String.length schema data = .ok () → conforms schema data := fun sound =>
  absurd (sound [] ofTags tagsSchema zero forAction_tags rfl) (by decide)

end AshA2A.Elicitation
