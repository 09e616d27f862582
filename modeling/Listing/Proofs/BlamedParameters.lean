/-
# Errors of leaves

Whatever is wrong with a leaf of a filter, the error names the parameter of the leaf: when its key
and its operand are parsed, when it is validated, and when a store compiles it. The parameter is
handed on from one step to the next, so this is followed through them once.
-/
import Listing.Proofs.Refusal
import Listing.Proofs.Semantics.FilterPlaces

namespace Listing

/-- If there is an error, it names the parameter. -/
def Blames {α : Type} (param : String) (x : Result α) : Prop := ∀ e, x = .error e → e.param = param

section

variable {α β : Type} {param : String}

namespace Blames

theorem ok (a : α) : Blames param (.ok a : Result α) := nofun

theorem error {e : QueryError} (he : e.param = param) : Blames param (.error e : Result α) := by
  rintro _ ⟨⟩
  exact he

theorem bind {x : Result α} {f : α → Result β} (hx : Blames param x)
    (hf : ∀ a, Blames param (f a)) : Blames param (x >>= f) := by
  cases x with
  | error e => exact .error (hx e rfl)
  | ok a => exact hf a

theorem map {x : Result α} (hx : Blames param x) (f : α → β) : Blames param (f <$> x) := by
  cases x with
  | error e => exact .error (hx e rfl)
  | ok a => exact .ok (f a)

theorem foldlM {f : β → α → Result β} (hf : ∀ b a, Blames param (f b a)) (items : List α) (b : β) :
    Blames param (items.foldlM f b) := by
  induction items generalizing b with
  | nil => exact .ok b
  | cons a items ih => exact .bind (hf b a) ih

theorem forM {f : α → Result Unit} (hf : ∀ a, Blames param (f a)) (items : List α) :
    Blames param (items.forM f) := by
  induction items with
  | nil => exact .ok ()
  | cons a items ih => exact .bind (hf a) fun _ => ih

end Blames

/-! ### Parsing and validation -/

variable (registry : Registry) (resource : Resource) (c : Comparison)

theorem Registry.blames_locate (param : String) (path : Path) :
    Blames param (registry.locate resource param path) := by
  refine .bind ?_ fun route => ?_
  · unfold route
    split
    · exact .ok _
    · exact .error rfl
  · dsimp only
    split
    · exact .ok _
    · exact .error rfl

theorem Operand.blames_ofComparison (attr : Attribute) :
    Blames c.param (Operand.ofComparison c attr) := by
  unfold ofComparison
  dsimp only
  split
  · exact .ok _
  · exact .error rfl

theorem FilterDocument.blames_readLeaf (place key : String) (value : Json) :
    Blames place (readLeaf resource place key value) := by
  unfold readLeaf
  split
  · exact .error rfl
  · refine .bind ?_ fun f => .ok _
    unfold FullText.ofKey
    split
    · exact .error rfl
    · dsimp only
      split
      · exact .error rfl
      · exact .ok _
  · exact .ok _

theorem Comparison.blames_validate : Blames c.param (c.validate registry resource) := by
  refine .bind (registry.blames_locate resource _ _) fun located => ?_
  dsimp only
  split
  · exact .error rfl
  · exact .bind (Operand.blames_ofComparison c _) fun _ => .ok _

theorem FullText.blames_validate (f : FullText) : Blames f.param (f.validate resource) := by
  unfold validate
  split
  · exact .error rfl
  · refine .forM (fun name => ?_) _
    unfold validateAttribute
    split
    · exact .error rfl
    · split
      · exact .ok _
      · exact .error rfl

end

/-! ### The relational stores -/

namespace Sql

variable (t : Target) (param : String)

theorem Target.blames_columnOf (stem : String) (located : Located) :
    Blames param (t.columnOf stem param located) := by
  refine .bind ?_ fun _ => .ok _
  unfold checkReferences
  split
  · exact .error rfl
  · exact .ok _

theorem Target.blames_call (name : String) (arguments : List Expr) :
    Blames param (t.call param name arguments) := by
  unfold call
  dsimp only
  split
  · exact .ok _
  · exact .error rfl

theorem Target.blames_test (op : Operator) (kind : Kind) (e : Expr) (operand : Operand) :
    Blames param (t.test param op kind e operand) := by
  unfold test
  dsimp only
  split
  all_goals try exact .ok _
  · split
    · exact .ok _
    · exact .error rfl
  · unfold searchTest
    split
    · exact .ok _
    · exact .ok _
    · exact .error rfl
  · split
    · exact .ok _
    · exact .error rfl

theorem Target.blames_comparison (stem : String) (c : Comparison) :
    Blames c.param (t.comparison stem c) := by
  refine .bind (t.registry.blames_locate t.resource _ _) fun located => ?_
  refine .bind (t.blames_columnOf _ stem located) fun column => ?_
  refine .bind (Operand.blames_ofComparison c _) fun operand => ?_
  split
  · exact .bind (t.blames_test _ _ _ _ _) fun _ => .ok _
  · refine .bind (.foldlM (fun e name => t.blames_call _ name [e]) _ _) fun e => ?_
    split
    · exact t.blames_call _ _ _
    · exact .bind (t.blames_test _ _ _ _ _) fun _ => .ok _

end Sql

/-! ### Document stores -/

namespace Document

variable (param : String)

theorem blames_fieldFilter (op : Operator) (attr : Attribute) (field : String) (operand : Operand) :
    Blames param (fieldFilter param op attr field operand) := by
  unfold fieldFilter
  dsimp only
  split
  all_goals try exact .ok _
  · split
    · exact .ok _
    · exact .error rfl
  · split <;> exact .ok _
  · exact .error rfl

theorem blames_exprTest (op : Operator) (e : Expr) (operand : Operand) :
    Blames param (exprTest param op e operand) := by
  unfold exprTest
  dsimp only
  split
  all_goals try exact .ok _
  · split
    · exact .ok _
    · exact .error rfl
  · exact .error rfl

theorem Target.blames_call (t : Target) (name : String) (arguments : List Expr) :
    Blames param (t.call param name arguments) := by
  unfold call
  split
  · exact .ok _
  · exact .error rfl

theorem Target.blames_comparison (t : Target) (stem : String) (c : Comparison) :
    Blames c.param (t.comparison stem c) := by
  refine .bind (t.registry.blames_locate t.resource _ _) fun located => ?_
  refine .bind (Operand.blames_ofComparison c _) fun operand => ?_
  split
  · exact .bind (blames_fieldFilter _ _ _ _ _) fun _ => .ok _
  · refine .bind (.foldlM (fun e name => t.blames_call _ name [e]) _ _) fun e => ?_
    split
    · exact .bind (t.blames_call _ _ _) fun _ => .ok _
    · exact .bind (blames_exprTest _ _ _ _) fun _ => .ok _

end Document

/-! ### Search indexes -/

namespace SearchIndex

variable (param : String)

theorem Target.blames_field (t : Target) (path : Path) : Blames param (t.field param path) := by
  refine .bind (t.registry.blames_locate t.resource _ _) fun located => ?_
  refine .bind ?_ fun _ => .ok _
  unfold checkEmbedded
  split
  · exact .error rfl
  · exact .ok _

theorem blames_fieldClause (op : Operator) (field : Field) (operand : Operand) :
    Blames param (fieldClause param op field operand) := by
  unfold fieldClause
  dsimp only
  split
  all_goals try exact .ok _
  · split
    · exact .ok _
    · exact .error rfl
  · split <;> exact .ok _
  · exact .error rfl

theorem Target.blames_comparison (t : Target) (c : Comparison) :
    Blames c.param (t.comparison c) := by
  unfold comparison
  split
  · exact .error rfl
  · refine .bind (t.blames_field _ _) fun field => ?_
    refine .bind (Operand.blames_ofComparison c _) fun operand => ?_
    exact .bind (blames_fieldClause _ _ _ _) fun _ => .ok _

end SearchIndex

namespace FilterDocument

/-- An error for a leaf names the parameter of the leaf. -/
theorem RaisedFor.param {leaf : Filter} {e : QueryError} (hraised : RaisedFor leaf e) :
    ∀ param ∈ leaf.param?, e.param = param := by
  intro param hparam
  cases leaf with
  | node => cases hparam
  | comparison c =>
      cases hparam
      cases hraised with
      | validation registry resource he => exact c.blames_validate registry resource e he
      | relational t stem he => exact t.blames_comparison stem c e (by rwa [Sql.Target.condition] at he)
      | document t stem he =>
          exact t.blames_comparison stem c e (by rwa [Document.Target.condition] at he)
      | searchIndex t he => exact t.blames_comparison c e (by rwa [SearchIndex.Target.condition] at he)
  | fullText f =>
      cases hparam
      cases hraised with
      | validation registry resource he => exact f.blames_validate resource e he
      | relational t stem he => simp [Sql.Target.condition] at he
      | document t stem he => simp [Document.Target.condition] at he
      | searchIndex t he => simp [SearchIndex.Target.condition] at he

end FilterDocument
end Listing
