/-
# The groups that totals list

Totals list groups in their order. With a limit they list the first groups of each parent: those
that come first where all groups are listed.

A select with a limit ranks groups by a window function, which numbers the groups of each part in an
order of its own and may do so in any way where that order leaves groups alike. It keeps those with
a small number and orders them again. A pipeline does the same in steps: it sorts the documents of
groups, gathers those of a parent in a list, cuts the lists, unwinds them, and sorts what is left. A
search has a number of buckets for each level.

What an accumulator or a metric computes is left to the store, and so is what it finds.
-/
import Listing.Proofs.FirstOfEach
import Listing.Proofs.Semantics.GroupRows

namespace Listing

/-- Each direction puts all values in a linear order. -/
structure Collation.IsLinear (c : Collation) : Prop where
  trans : ∀ direction, Std.TransCmp (c.compare direction)
  differ : ∀ {direction x y}, c.compare direction x y = .eq → x = y

theorem Datum.eq_of_keys {x y : Datum} (hrank : x.rank = y.rank) (hsize : x.size = y.size)
    (hletters : x.letters = y.letters) : x = y := by
  cases x <;> cases y <;> simp_all [rank, size, letters]
  case bool.bool a b => cases a <;> cases b <;> simp_all

theorem Datum.eq_of_compare {x y : Datum} (halike : x.compare y = .eq) : x = y := by
  obtain ⟨hrank, hrest⟩ := Ordering.then_eq_eq.1 halike
  obtain ⟨hsize, hletters⟩ := Ordering.then_eq_eq.1 hrest
  exact eq_of_keys (Std.LawfulEqCmp.eq_of_compare hrank) (Std.LawfulEqCmp.eq_of_compare hsize)
    (Std.LawfulEqCmp.eq_of_compare hletters)

theorem Collation.isLinear_standard : standard.IsLinear where
  trans := isLawful_standard.trans
  differ {direction _ _} halike := match direction with
    | .ascending => Datum.eq_of_compare halike
    | .descending => (Datum.eq_of_compare halike).symm

namespace Aggregate

variable (a : Aggregate)

/-- The parent of a group: the values of all groups but the innermost one. -/
def parent (row : GroupRow) : List Datum := a.groupBy.dropLast.map fun path => row (.group path)

/-- All metrics descending, in the order in which they were asked for. -/
def metricOrder : List (GroupKey × Direction) := a.metrics.map fun m => (.metric m, .descending)

/-- Of all rows that are shown, the first ones of each parent are kept, in the same order. -/
def KeepsFirst (n : Nat) (shown kept : List GroupRow) : Prop :=
  kept.Sublist shown ∧
    ∀ parent, kept.filter (a.parent · = parent) = (shown.filter (a.parent · = parent)).take n

/-- In no parent do the metrics leave one of the first groups alike with one of the others. -/
def IsDecided (c : Collation) (n : Nat) (shown : List GroupRow) : Prop :=
  ∀ parent, ∀ row ∈ (shown.filter (a.parent · = parent)).take n,
    ∀ row' ∈ (shown.filter (a.parent · = parent)).drop n, c.compareBy a.metricOrder row row' ≠ .eq

end Aggregate

namespace Sql

/-- Numbers for the groups of each part, in an order. -/
structure Window where
  partition : List Expr
  order : List (Expr × Direction)

/-- A place for an expression in the order of a window. -/
def Window.term : Direction → String
  | .ascending => hole ++ " ASC"
  | .descending => hole ++ " DESC"

/-- The text of a window, with a hole for each expression. -/
def Window.text (w : Window) : String :=
  let partition :=
    if w.partition.isEmpty then "" else "PARTITION BY " ++ holes ", " w.partition ++ " "
  "ROW_NUMBER() OVER (" ++ partition ++ "ORDER BY " ++
    ", ".intercalate (w.order.map fun e => Window.term e.2) ++ ")"

/-- The expression of the numbers of a window. -/
def Window.expr (w : Window) : Expr := .template w.text (w.partition ++ w.order.map (·.1))

section Groups

variable (c : Collation) (engine : Engine) (db : Database)

/-- A select is accepted and may list these groups, in this order. -/
structure Select.Lists (s : Select) (groups : List (List Scope)) : Prop where
  distinct : s.Distinct
  resolves : s.Resolves
  arranged : ∃ all : List (List Scope), all.Perm (s.groups engine (s.found engine db)) ∧
    Sorted (s.compareGroups c engine) all ∧ groups = s.cut all

/-- The part of a group in a window. -/
def Window.part (w : Window) (group : List Scope) : List Datum :=
  w.partition.map (engine.evalGroup group)

/-- The comparison of two groups by the order of a window. -/
def Window.compareGroups (w : Window) (group group' : List Scope) : Ordering :=
  c.compareBy w.order (engine.evalGroup group) (engine.evalGroup group')

/-- An arrangement in which a window may number groups. -/
def Window.Arranges (w : Window) (groups arranged : List (List Scope)) : Prop :=
  arranged.Perm groups ∧
    ∀ part, Sorted (w.compareGroups c engine) (arranged.filter (w.part engine · = part))

/-- A select that ranks groups is accepted and may list these groups, in this order. -/
structure Ranked.Lists (r : Ranked) (groups : List (List Scope)) : Prop where
  ranked : ∃ (all arranged : List (List Scope)) (w : Window), r.inner.Lists c engine db all ∧
    .named w.expr r.rank ∈ r.inner.columns ∧ w.Arranges c engine all arranged ∧
    groups.Perm (((numbered (w.part engine) [] arranged).filter (·.2 ≤ r.bound)).map (·.1))
  ordered : Sorted (r.compareGroups c engine) groups

/-- The row of totals that a select returns for a group that it has ranked. -/
def Ranked.groupRow (a : Aggregate) (r : Ranked) (group : List Scope) : GroupRow :=
  a.row (r.labels.map ((r.env (r.inner.output engine group)).column r.aliasName))

/-- A statement of totals may return these rows, in this order. -/
def Statement.Shows (a : Aggregate) : Statement → List GroupRow → Prop
  | .select s, rows =>
    ∃ groups, s.Lists c engine db groups ∧ rows = groups.map (s.groupRow a engine)
  | .ranked r, rows =>
    ∃ groups, r.Lists c engine db groups ∧ rows = groups.map (r.groupRow engine a)

end Groups
end Sql

namespace Document

/-- A document of a pipeline of totals: its values under paths, and its lists of documents. -/
structure GroupDoc where
  fields : Fields
  lists : String → List GroupDoc

/-- What a store computes of documents. -/
structure Accumulation where
  accumulate : Accumulator → List GroupDoc → Datum
  /-- What the stages leave that find documents and join others to them. -/
  found : Stage → List GroupDoc → List GroupDoc
  /-- The length of a list that was accumulated. -/
  length : Datum → Datum

/-- The values of a document by which it is grouped. -/
def groupKey (groupBy : List (String × String)) (d : GroupDoc) : List Datum :=
  groupBy.map fun entry => d.fields entry.2

/-- What a projection shows of a document. -/
def projected (shape : List (String × Projection)) (d : GroupDoc) : GroupDoc where
  fields name := match shape.lookup name with
    | some .shown => d.fields name
    | some (.renamed field) => d.fields field
    | _ => .null
  lists name := match shape.lookup name with
    | some .shown => d.lists name
    | some (.renamed field) => d.lists field
    | some (.firstOf field n) => (d.lists field).take n
    | _ => []

/-- A document with one document in the place of a list. -/
def GroupDoc.holding (d : GroupDoc) (name : String) (item : GroupDoc) : GroupDoc where
  fields := d.fields
  lists other := if other = name then [item] else d.lists other

namespace Accumulation

variable (store : Accumulation) (c : Collation)

/-- The document of a group. -/
def grouped (groupBy : List (String × String)) (fields : List (String × Accumulator))
    (key : List Datum) (members : List GroupDoc) : GroupDoc where
  fields name := ((groupBy.map (idField ·.1)).zip key).lookup name |>.getD
    (((fields.lookup name).map (store.accumulate · members)).getD .null)
  lists name := match fields.lookup name with
    | some .documents => members
    | _ => []

/-- A document with lengths in the place of lists that were accumulated. -/
def withLengths (names : List String) (d : GroupDoc) : GroupDoc where
  fields name := if name ∈ names then store.length (d.fields name) else d.fields name
  lists := d.lists

/-- A stage leaves `out` of the documents `docs`. -/
def Leaves : Stage → List GroupDoc → List GroupDoc → Prop
  | .sort keys, docs, out =>
    out.Perm docs ∧ Sorted (fun d d' => c.compareBy keys d.fields d'.fields) out
  | .limit n, docs, out => out = docs.take n
  | .group groupBy fields, docs, out =>
    out.Perm ((docs.map (groupKey groupBy)).eraseDups.map fun key =>
      store.grouped groupBy fields key (docs.filter (groupKey groupBy · = key)))
  | .lengths names, docs, out => out = docs.map (store.withLengths names)
  | .project shape, docs, out => out = docs.map (projected shape)
  | .unwind name false, docs, out => out = docs.flatMap fun d => (d.lists name).map (d.holding name)
  | .promote name, docs, out => List.Forall₂ (fun d item => d.lists name = [item]) docs out
  | stage, docs, out => out = store.found stage docs

/-- Stages leave `out` of the documents `docs`, one after the other. -/
def Runs : List Stage → List GroupDoc → List GroupDoc → Prop
  | [], docs, out => out = docs
  | stage :: stages, docs, out =>
    ∃ between, store.Leaves c stage docs between ∧ Runs stages between out

end Accumulation

/-- The row of totals that a document of the result holds. -/
def resultRow (d : GroupDoc) : GroupRow := fun key => d.fields key.label

end Document

namespace SearchIndex

/-- What an index computes of documents. -/
structure Statistics (α : Type) where
  /-- The values of a field in a document. -/
  values : String → α → List Datum
  /-- A function of a field over documents. -/
  metric : String → String → List α → Datum

namespace Statistics

variable {α : Type} (index : Statistics α) (c : Collation)

/-- The values of a field in documents, each of which has a bucket. -/
def keys (field : String) (docs : List α) : List Datum :=
  (docs.flatMap (index.values field)).eraseDups

/-- The documents in the bucket of a value. -/
def inside (field : String) (docs : List α) (key : Datum) : List α :=
  docs.filter fun d => key ∈ index.values field d

/-- The bucket of a value. -/
def bucket (field : String) (inner : Aggregations) (docs : List α) (key : Datum) : Bucket :=
  fun name =>
    if name = keyOrder then key
    else if name = countOrder then .number (index.inside field docs key).length
    else match inner.lookup name with
      | some (.metric function field') => index.metric function field' (index.inside field docs key)
      | _ => .null

/-- Aggregations may list these paths of buckets of some documents, in this order. -/
def Lists : Aggregations → List α → List (List Bucket) → Prop
  | [(_, .buckets field size order inner)], docs, paths =>
    ∃ (arranged : List Datum) (below : Datum → List (List Bucket)),
      arranged.Perm (index.keys field docs) ∧
      Sorted (fun key key' => c.compareBy order (index.bucket field inner docs key)
        (index.bucket field inner docs key')) arranged ∧
      (∀ key, Lists inner (index.inside field docs key) (below key)) ∧
      paths = (arranged.take size).flatMap fun key =>
        (below key).map (index.bucket field inner docs key :: ·)
  | _, _, paths => paths = [[]]

end Statistics
end SearchIndex
end Listing
