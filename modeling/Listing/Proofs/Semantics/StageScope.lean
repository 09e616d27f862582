/-
# The fields that stages mention

Lookups put documents under labels, which begin with one of two stems. A stage of a pipeline may
mention a field under a label only where an earlier stage has looked it up: a stage adds its label
to those that are there, a removal takes labels away, and stages that make new documents leave none.

A filter mentions the fields that it tests. An expression mentions the fields that it names, and a
value of the request in it mentions what the store takes for the name of a field.
-/
import Listing.Document.Totals
import Listing.Proofs.DocumentLiterals

namespace Listing.Document

/-- What labels begin with. -/
def labelStems : List String := [Joins.defaultStem, totalsStem]

/-- A name that begins like a label. -/
def IsLabelled (name : String) : Prop := ∃ stem ∈ labelStems, stem.toList <+: name.toList

instance (name : String) : Decidable (IsLabelled name) :=
  inferInstanceAs (Decidable (∃ stem ∈ labelStems, stem.toList <+: name.toList))

/-- A field under a label is one under a label that is there. -/
def InScope (labels : List String) (field : String) : Prop :=
  IsLabelled field → ∃ label ∈ labels, Within label field

/-- The field that a text names behind its sign. A second sign is that of a variable, which holds a
document; the name then begins behind the dot. -/
def named (s : String) : String :=
  match s.toList with
  | '$' :: '$' :: cs => String.ofList ((cs.dropWhile (· != '.')).drop 1)
  | '$' :: cs => String.ofList cs
  | cs => String.ofList cs

mutual
/-- The fields that a value names in an expression: a text does so behind a dollar sign, and among
the arguments of an operator every text may. -/
def references (operands : Bool) : Json → List String
  | .string s => if operands || isMarked s then [named s] else []
  | .array items => referencesOfAll operands items
  | .object entries => referencesOfEntries operands entries
  | .null | .bool _ | .int _ | .double _ => []

/-- The fields that several values name. -/
def referencesOfAll (operands : Bool) : List Json → List String
  | [] => []
  | v :: vs => references operands v ++ referencesOfAll operands vs

/-- The fields that the entries of an object name. -/
def referencesOfEntries (operands : Bool) : List (String × Json) → List String
  | [] => []
  | (key, v) :: entries =>
    references (operands || isMarked key) v ++ referencesOfEntries operands entries
end

theorem referencesOfAll_eq_flatMap (operands : Bool) (vs : List Json) :
    referencesOfAll operands vs = vs.flatMap (references operands) := by
  induction vs with
  | nil => rfl
  | cons v vs ih => rw [referencesOfAll, ih, List.flatMap_cons]

namespace Expr

mutual
/-- The fields that an expression mentions, those that its values name included. -/
def mentions : Expr → List String
  | .field path => [path]
  | .value v => references false v
  | .apply _ arguments => mentionsOfAll arguments
  | .regexMatch input pattern _ => mentions input ++ references false (.string pattern)

/-- The fields that several expressions mention. -/
def mentionsOfAll : List Expr → List String
  | [] => []
  | e :: es => mentions e ++ mentionsOfAll es
end

/-- Values mention what they name. -/
theorem mentionsOfAll_values (vs : List Json) :
    mentionsOfAll (vs.map .value) = vs.flatMap (references false) := by
  induction vs with
  | nil => rfl
  | cons v vs ih => rw [List.map_cons, mentionsOfAll, ih, mentions, List.flatMap_cons]

end Expr

namespace Filter

mutual
/-- The fields that a filter tests, or mentions in its expressions. -/
def mentions : Filter → List String
  | .field path _ => [path]
  | .and filters | .or filters | .nor filters => mentionsOfAll filters
  | .expr e => e.mentions

/-- The fields that several filters mention. -/
def mentionsOfAll : List Filter → List String
  | [] => []
  | f :: fs => mentions f ++ mentionsOfAll fs
end

theorem mentionsOfAll_eq_flatMap (fs : List Filter) : mentionsOfAll fs = fs.flatMap mentions := by
  induction fs with
  | nil => rfl
  | cons f fs ih => rw [mentionsOfAll, ih, List.flatMap_cons]

end Filter

/-- The fields that an accumulator reads. -/
def Accumulator.mentions : Accumulator → List String
  | .countAll | .documents => []
  | .countPresent field | .over _ field => [field]
  | .identities => ["_id"]

/-- The fields that an entry of a projection reads. -/
def Projection.mentions (label : String) : Projection → List String
  | .hidden => []
  | .shown => [label]
  | .renamed field | .firstOf field _ => [field]

namespace Stage

/-- The fields that a stage mentions. -/
def mentions : Stage → List String
  | .lookup _ localField _ _ => [localField]
  | .unwind field _ | .promote field => [field]
  | .keep filter => filter.mentions
  | .sort keys => keys.map (·.1)
  | .skip _ | .limit _ | .unset _ | .count _ => []
  | .group by_ fields => by_.map (·.2) ++ fields.flatMap fun field => field.2.mentions
  | .lengths fields => fields
  | .project fields => fields.flatMap fun field => field.2.mentions field.1

/-- The label that a stage looks up documents under. -/
def label? : Stage → Option String
  | .lookup _ _ _ label => some label
  | _ => none

/-- Whether documents keep their fields in a stage. -/
def keepsFields : Stage → Bool
  | .unset _ | .count _ | .group .. | .project _ | .promote _ => false
  | _ => true

/-- The labels that are there after a stage. -/
def labelsAfter (labels : List String) : Stage → List String
  | .lookup _ _ _ label => labels ++ [label]
  | .unset fields => labels.filter (· ∉ fields)
  | .count _ | .group .. | .project _ | .promote _ => []
  | _ => labels

/-- A stage mentions no field that begins like a label. -/
def IsPlain (stage : Stage) : Prop := ∀ field ∈ stage.mentions, ¬ IsLabelled field

end Stage

/-- The labels that stages look up documents under, in order. -/
def lookupLabels (stages : List Stage) : List String := stages.filterMap Stage.label?

/-- The labels that are there after some stages. -/
def labelsAfter (labels : List String) (stages : List Stage) : List String :=
  stages.foldl Stage.labelsAfter labels

/-- Every stage mentions only fields under labels that are there. -/
def WellScoped (labels : List String) : List Stage → Prop
  | [] => True
  | stage :: stages =>
    (∀ field ∈ stage.mentions, InScope labels field) ∧ WellScoped (stage.labelsAfter labels) stages

/-- What lies below a name begins like a label only if the name does: stems have no dots. -/
theorem isLabelled_of_below {name rest : String} (hlabelled : IsLabelled (name ++ "." ++ rest)) :
    IsLabelled name := by
  obtain ⟨stem, hstem, hbegins⟩ := hlabelled
  refine ⟨stem, hstem, ?_⟩
  have hdotless : '.' ∉ stem.toList :=
    (show ∀ stem ∈ labelStems, '.' ∉ stem.toList by decide) stem hstem
  have hwhole : (name ++ "." ++ rest).toList = name.toList ++ ['.'] ++ rest.toList := by
    rw [String.toList_append, String.toList_append]
    rfl
  rw [hwhole] at hbegins
  rcases Nat.lt_or_ge name.toList.length stem.toList.length with hlonger | hshorter
  · have hdot : name.toList ++ ['.'] <+: stem.toList :=
      List.prefix_of_prefix_length_le (List.prefix_append _ _) hbegins (by simpa using hlonger)
    exact absurd (hdot.subset (by simp)) hdotless
  · rw [List.append_assoc] at hbegins
    exact List.prefix_of_prefix_length_le hbegins (List.prefix_append _ _) hshorter

/-- A name that does not begin like a label stays so with what lies below it. -/
theorem not_isLabelled_below {name : String} (hname : ¬ IsLabelled name) (rest : String) :
    ¬ IsLabelled (name ++ "." ++ rest) := fun hlabelled => hname (isLabelled_of_below hlabelled)

theorem isLabelled_aliasName {stem : String} (hstem : stem ∈ labelStems) (route : Route) :
    IsLabelled (route.aliasName stem) := by
  refine ⟨stem, hstem, ?_⟩
  rw [Route.aliasName, String.toList_append]
  exact List.prefix_append _ _

/-- Only a field that begins like a label lies below one. -/
theorem isLabelled_of_within {label field : String} (hlabel : IsLabelled label)
    (hwithin : Within label field) : IsLabelled field := by
  obtain ⟨stem, hstem, hbegins⟩ := hlabel
  refine ⟨stem, hstem, hbegins.trans ?_⟩
  rcases hwithin with rfl | ⟨rest, rfl⟩
  · exact List.prefix_refl _
  · rw [String.toList_append, String.toList_append, List.append_assoc]
    exact List.prefix_append _ _

theorem Within.below {field path : String} (hwithin : Within field path) (rest : String) :
    Within field (path ++ "." ++ rest) := by
  rcases hwithin with rfl | ⟨name, rfl⟩
  · exact .inr ⟨rest, rfl⟩
  · exact .inr ⟨name ++ "." ++ rest, by simp only [String.append_assoc]⟩

namespace InScope

variable {labels more : List String} {field : String}

theorem of_plain (hplain : ¬ IsLabelled field) : InScope labels field :=
  fun hlabelled => absurd hlabelled hplain

theorem mono (hscope : InScope labels field) (hmore : labels ⊆ more) : InScope more field := by
  intro hlabelled
  obtain ⟨label, hlabel, hwithin⟩ := hscope hlabelled
  exact ⟨label, hmore hlabel, hwithin⟩

/-- With a field, all that lies below it is in scope. -/
theorem of_within (hscope : InScope labels field) {path : String} (hwithin : Within field path) :
    InScope labels path := by
  rcases hwithin with rfl | ⟨rest, rfl⟩
  · exact hscope
  · intro hlabelled
    obtain ⟨label, hlabel, hfield⟩ := hscope (isLabelled_of_below hlabelled)
    exact ⟨label, hlabel, hfield.below rest⟩

end InScope

section Stages

variable {labels more : List String} {stages after : List Stage}

theorem wellScoped_append :
    WellScoped labels (stages ++ after) ↔
      WellScoped labels stages ∧ WellScoped (labelsAfter labels stages) after := by
  induction stages generalizing labels with
  | nil => simp [WellScoped, labelsAfter]
  | cons stage stages ih =>
      rw [List.cons_append, WellScoped, WellScoped, ih, and_assoc]
      rfl

/-- Stages that mention nothing that begins like a label are well scoped anywhere. -/
theorem wellScoped_of_plain (hplain : ∀ stage ∈ stages, stage.IsPlain) :
    WellScoped labels stages := by
  induction stages generalizing labels with
  | nil => trivial
  | cons stage stages ih =>
      have hfirst := hplain stage List.mem_cons_self
      exact ⟨fun field hfield => .of_plain (hfirst field hfield),
        ih fun other hother => hplain other (List.mem_cons_of_mem _ hother)⟩

theorem lookupLabels_append (stages after : List Stage) :
    lookupLabels (stages ++ after) = lookupLabels stages ++ lookupLabels after :=
  List.filterMap_append

/-- A stage in which documents keep their fields adds its label, if it has one. -/
theorem Stage.labelsAfter_of_keepsFields {stage : Stage} (hkeeps : stage.keepsFields = true) :
    stage.labelsAfter labels = labels ++ stage.label?.toList := by
  cases stage with
  | lookup => rfl
  | unset | count | group | project | promote => cases hkeeps
  | _ => exact (List.append_nil labels).symm

/-- Stages in which documents keep their fields add their labels. -/
theorem labelsAfter_of_keepsFields (hkeeps : ∀ stage ∈ stages, stage.keepsFields = true) :
    labelsAfter labels stages = labels ++ lookupLabels stages := by
  induction stages generalizing labels with
  | nil => exact (List.append_nil labels).symm
  | cons stage stages ih =>
      rw [labelsAfter, List.foldl_cons,
        Stage.labelsAfter_of_keepsFields (hkeeps stage List.mem_cons_self)]
      refine (ih fun other hother => hkeeps other (List.mem_cons_of_mem _ hother)).trans ?_
      rw [List.append_assoc]
      cases hlabel : stage.label? <;> simp [lookupLabels, hlabel]

/-- While documents keep their fields, nothing that is in scope leaves it. -/
theorem wellScoped_of_inScope (hkeeps : ∀ stage ∈ stages, stage.keepsFields = true)
    (hscope : ∀ stage ∈ stages, ∀ field ∈ stage.mentions, InScope labels field) :
    WellScoped labels stages := by
  induction stages generalizing labels with
  | nil => trivial
  | cons stage stages ih =>
      refine ⟨hscope stage List.mem_cons_self, ?_⟩
      rw [Stage.labelsAfter_of_keepsFields (hkeeps stage List.mem_cons_self)]
      refine ih (fun other hother => hkeeps other (List.mem_cons_of_mem _ hother)) ?_
      intro other hother field hfield
      exact (hscope other (List.mem_cons_of_mem _ hother) field hfield).mono
        (List.subset_append_left _ _)

end Stages
end Listing.Document
