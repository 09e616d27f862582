/-
# What the text of a statement depends on

The text that is sent has a mark in the place of every value, so it depends only on the skeleton of
what is written: which pieces are text, and where the values stand. Blanking an expression replaces
all of its values by one and the same, and leaves the skeleton as it is. Two statements that are
equal once blanked have the same text and bind the same number of values.
-/
import Listing.Sql.Query
import Listing.Sql.Printer

namespace Listing.Sql

namespace Fragment

/-- The pieces of a fragment without its values. -/
def skeleton (f : Fragment) : List (Option String) :=
  f.map fun
    | .text s => some s
    | .value _ => none

@[simp]
theorem skeleton_nil : skeleton [] = [] := rfl

@[simp]
theorem skeleton_text (s : String) (f : Fragment) :
    skeleton (.text s :: f) = some s :: f.skeleton := rfl

@[simp]
theorem skeleton_value (v : Value) (f : Fragment) :
    skeleton (.value v :: f) = none :: f.skeleton := rfl

@[simp]
theorem skeleton_append (f g : Fragment) : skeleton (f ++ g) = f.skeleton ++ g.skeleton :=
  List.map_append

@[simp]
theorem skeleton_bracketed (f : Fragment) :
    f.bracketed.skeleton = some "(" :: (f.skeleton ++ [some ")"]) := by
  simp [bracketed]

/-- Joined fragments have a skeleton that depends only on theirs. -/
theorem skeleton_join_congr (separator : String) {fs gs : List Fragment}
    (hfs : fs.map skeleton = gs.map skeleton) :
    (join separator fs).skeleton = (join separator gs).skeleton := by
  induction fs generalizing gs with
  | nil =>
      rw [List.map_nil, eq_comm, List.map_eq_nil_iff] at hfs
      rw [hfs]
  | cons f fs ih =>
      cases gs with
      | nil => simp at hfs
      | cons g gs =>
          rw [List.map_cons, List.map_cons, List.cons.injEq] at hfs
          obtain ⟨hf, htail⟩ := hfs
          cases fs with
          | nil =>
              rw [List.map_nil, eq_comm, List.map_eq_nil_iff] at htail
              rw [htail, join, join, hf]
          | cons f' fs =>
              cases gs with
              | nil => simp at htail
              | cons g' gs =>
                  have hjoin : ∀ (f f' : Fragment) fs, join separator (f :: f' :: fs) =
                      f ++ .text separator :: join separator (f' :: fs) := fun _ _ _ => rfl
                  rw [hjoin, hjoin, skeleton_append, skeleton_append, skeleton_text,
                    skeleton_text, hf, ih htail]

/-- The text with marks depends only on the skeleton. -/
theorem markedFrom_congr (d : Dialect) {f g : Fragment} (hfg : f.skeleton = g.skeleton)
    (count : Nat) : markedFrom d count f = markedFrom d count g := by
  induction f generalizing g count with
  | nil =>
      rw [skeleton_nil, eq_comm, skeleton, List.map_eq_nil_iff] at hfg
      rw [hfg]
  | cons piece f ih =>
      cases g with
      | nil => simp [skeleton] at hfg
      | cons piece' g =>
          cases piece with
          | text s =>
              cases piece' with
              | value v => simp at hfg
              | text s' =>
                  rw [skeleton_text, skeleton_text, List.cons.injEq, Option.some.injEq] at hfg
                  rw [markedFrom, markedFrom, hfg.1, ih hfg.2]
          | value v =>
              cases piece' with
              | text s' => simp at hfg
              | value v' =>
                  rw [skeleton_value, skeleton_value, List.cons.injEq] at hfg
                  rw [markedFrom, markedFrom, ih hfg.2]

/-- As many values are bound as the skeleton has places for them. -/
theorem length_values (f : Fragment) :
    f.values.length = (f.skeleton.filter Option.isNone).length := by
  induction f with
  | nil => rfl
  | cons piece f ih =>
      cases piece with
      | text s => simpa [values] using ih
      | value v => simpa [values] using ih

end Fragment

/-- The value that stands for every value. -/
def blankValue : Value := .scalar .null

namespace Expr

mutual
/-- An expression with the same value in all places. -/
def blank : Expr → Expr
  | .value _ => .value blankValue
  | .call function arguments => .call function (blankAll arguments)
  | .countDistinct e => .countDistinct e.blank
  | .compare comparator e _ => .compare comparator e.blank blankValue
  | .between e _ _ => .between e.blank blankValue blankValue
  | .among e values => .among e.blank (values.map fun _ => blankValue)
  | .like e _ => .like e.blank ""
  | .isNull e => .isNull e.blank
  | .isNotNull e => .isNotNull e.blank
  | .template text arguments => .template text (blankAll arguments)
  | .and left right => .and left.blank right.blank
  | .or left right => .or left.blank right.blank
  | .not e => .not e.blank
  | e => e

/-- Several expressions with the same value in all places. -/
def blankAll : List Expr → List Expr
  | [] => []
  | e :: es => e.blank :: blankAll es
end

@[simp]
theorem isTerm_blank (e : Expr) : e.blank.isTerm = e.isTerm := by
  cases e <;> simp [blank, isTerm]

@[simp]
theorem isSimpleTest_blank (e : Expr) : e.blank.isSimpleTest = e.isSimpleTest := by
  cases e <;> simp [blank, isSimpleTest]

section Brackets

variable {e : Expr} {f g : Fragment}

theorem skeleton_asOperand (hfg : f.skeleton = g.skeleton) :
    (e.blank.asOperand f).skeleton = (e.asOperand g).skeleton := by
  rw [asOperand, asOperand, isTerm_blank]
  split
  · exact hfg
  · rw [Fragment.skeleton_bracketed, Fragment.skeleton_bracketed, hfg]

theorem skeleton_asClause (hfg : f.skeleton = g.skeleton) :
    (e.blank.asClause f).skeleton = (e.asClause g).skeleton := by
  rw [asClause, asClause, isTerm_blank, isSimpleTest_blank]
  split
  · exact hfg
  · rw [Fragment.skeleton_bracketed, Fragment.skeleton_bracketed, hfg]

theorem skeleton_asLeftOfAnd (hfg : f.skeleton = g.skeleton) :
    (e.blank.asLeftOfAnd f).skeleton = (e.asLeftOfAnd g).skeleton := by
  cases e with
  | and left right => exact hfg
  | _ => exact skeleton_asClause hfg

theorem skeleton_asLeftOfOr (hfg : f.skeleton = g.skeleton) :
    (e.blank.asLeftOfOr f).skeleton = (e.asLeftOfOr g).skeleton := by
  cases e with
  | or left right => exact hfg
  | _ => exact skeleton_asClause hfg

end Brackets

/-- A filled template has a skeleton that depends only on those of its arguments. -/
theorem skeleton_fillTemplate (d : Dialect) (text : String) {fs gs : List Fragment}
    (hfs : fs.map Fragment.skeleton = gs.map Fragment.skeleton) :
    (fillTemplate d text fs).skeleton = (fillTemplate d text gs).skeleton := by
  unfold fillTemplate
  induction Template.parts d text with
  | nil => rfl
  | cons part parts ih =>
      rw [List.flatMap_cons, List.flatMap_cons, Fragment.skeleton_append,
        Fragment.skeleton_append, ih]
      cases part with
      | text c => rfl
      | hole position =>
          have hget := congrArg (fun skeletons => skeletons[position]?) hfs
          simp only [List.getElem?_map] at hget
          cases hf : fs[position]? <;> cases hg : gs[position]? <;> simp_all

mutual
/-- Blanking leaves the skeleton of what is written as it is. -/
theorem skeleton_write_blank (d : Dialect) :
    ∀ e : Expr, (e.blank.write d).skeleton = (e.write d).skeleton
  | .column .. | .ownColumn _ | .value _ | .countRows | .truth _ => by simp [blank, write]
  | .call function arguments => by
      have harguments := Fragment.skeleton_join_congr ", " (skeleton_writeAll_blank d arguments)
      simp [blank, write, harguments]
  | .countDistinct e => by
      simp [blank, write, skeleton_write_blank d e]
  | .compare comparator e v => by
      simp [blank, write, skeleton_asOperand (skeleton_write_blank d e)]
  | .between e low high => by
      simp [blank, write, skeleton_asOperand (skeleton_write_blank d e)]
  | .among e [] => by simp [blank, write]
  | .among e (v :: values) => by
      have hvalues : (((v :: values).map fun _ => blankValue).map fun v => [Piece.value v]).map
          Fragment.skeleton = ((v :: values).map fun v => [Piece.value v]).map
          Fragment.skeleton := by
        rw [List.map_map, List.map_map, List.map_map]
        rfl
      have hjoined := Fragment.skeleton_join_congr ", " hvalues
      simp only [List.map_cons] at hjoined
      simp only [blank, List.map_cons, write, Fragment.skeleton_append, Fragment.skeleton_text,
        skeleton_asOperand (skeleton_write_blank d e), hjoined]
  | .like e pattern => by
      simp [blank, write, skeleton_asOperand (skeleton_write_blank d e)]
  | .isNull e => by
      simp [blank, write, skeleton_asOperand (skeleton_write_blank d e)]
  | .isNotNull e => by
      simp [blank, write, skeleton_asOperand (skeleton_write_blank d e)]
  | .template text arguments => by
      rw [blank, write, write]
      exact skeleton_fillTemplate d text (skeleton_writeAll_blank d arguments)
  | .and left right => by
      simp [blank, write, skeleton_asLeftOfAnd (skeleton_write_blank d left),
        skeleton_asClause (skeleton_write_blank d right)]
  | .or left right => by
      simp [blank, write, skeleton_asLeftOfOr (skeleton_write_blank d left),
        skeleton_asClause (skeleton_write_blank d right)]
  | .not e => by
      simp [blank, write, skeleton_asClause (skeleton_write_blank d e)]

theorem skeleton_writeAll_blank (d : Dialect) : ∀ es : List Expr,
    (writeAll d (blankAll es)).map Fragment.skeleton = (writeAll d es).map Fragment.skeleton
  | [] => rfl
  | e :: es => by
      rw [blankAll, writeAll, writeAll, List.map_cons, List.map_cons, skeleton_write_blank d e,
        skeleton_writeAll_blank d es]
end

end Expr

/-- A restriction with the same value in all places. -/
def Restriction.blank : Restriction → Restriction
  | .nothing => .nothing
  | .holds condition => .holds condition.blank
  | .keyAmong query => .keyAmong { query with condition := query.condition.map Expr.blank }

/-- A select with the same value in all places of its restriction. -/
def Select.blank (s : Select) : Select := { s with restriction := s.restriction.blank }

/-- A statement with the same value in all places of its restriction. -/
def Statement.blank : Statement → Statement
  | .select s => .select s.blank
  | .ranked r => .ranked { r with inner := r.inner.blank }

theorem skeleton_writeWhere_blank (d : Dialect) (condition : Option Expr) :
    (writeWhere d (condition.map Expr.blank)).skeleton = (writeWhere d condition).skeleton := by
  cases condition with
  | none => rfl
  | some e => simp [writeWhere, e.skeleton_write_blank d]

theorem Restriction.skeleton_write_blank (d : Dialect) (r : Restriction) :
    (r.blank.write d).skeleton = (r.write d).skeleton := by
  cases r with
  | nothing => rfl
  | holds condition => exact skeleton_writeWhere_blank d (some condition)
  | keyAmong query =>
      simp [blank, write, KeyQuery.write, skeleton_writeWhere_blank]

theorem Select.skeleton_write_blank (d : Dialect) (s : Select) :
    (s.blank.write d).skeleton = (s.write d).skeleton := by
  simp only [blank, write, Fragment.skeleton_append, Fragment.skeleton_text,
    s.restriction.skeleton_write_blank d]
  rfl

theorem Statement.skeleton_write_blank (d : Dialect) (s : Statement) :
    (s.blank.write d).skeleton = (s.write d).skeleton := by
  cases s with
  | select s => exact s.skeleton_write_blank d
  | ranked r =>
      simp only [blank, write, Ranked.write, Fragment.skeleton_append, Fragment.skeleton_text,
        Fragment.skeleton_bracketed, r.inner.skeleton_write_blank d, List.cons_append]

/-- A statement as it is sent, without its values: the text, and how many values it binds. -/
def Prepared.shape (p : Prepared) : String × Nat := (p.text, p.values.length)

/-- Statements that are equal once blanked are sent in the same shape. -/
theorem Statement.shape_prepare_congr (d : Dialect) {s s' : Statement} (hs : s.blank = s'.blank) :
    (s.prepare d).shape = (s'.prepare d).shape := by
  have hskeleton : (s.write d).skeleton = (s'.write d).skeleton := by
    rw [← s.skeleton_write_blank d, hs, s'.skeleton_write_blank d]
  have htext : (s.write d).marked d = (s'.write d).marked d :=
    Fragment.markedFrom_congr d hskeleton 0
  have hvalues : (s.write d).values.length = (s'.write d).values.length := by
    rw [Fragment.length_values, hskeleton, ← Fragment.length_values]
  rw [prepare, prepare, Prepared.shape, Prepared.shape, htext, hvalues]

/-- The shapes in which the statements of a query are sent: page, count and totals. -/
def Query.shapes (q : Query) :
    (String × Nat) × Option (String × Nat) × Option (String × Nat) :=
  (((Statement.select q.page).prepare q.dialect).shape,
    q.count.map fun s => ((Statement.select s).prepare q.dialect).shape,
    q.totals.map fun totals => (totals.statement.prepare q.dialect).shape)

end Listing.Sql
