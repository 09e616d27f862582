/-
# The trees of totals

Every store gives totals as flat rows; a response nests them, with one tree for each metric. The
keys of a tree are groups, one level for each dimension, and its leaves are values of the metric.
Rows are put into the tree one after the other: a row makes the levels that are missing, shares
those that are there, and writes its value at the end.

Nothing is lost on the way. A level above the leaves is always an object, so putting a row in never
stops halfway, and what the tree holds is what the rows say: a leaf for the groups of every row,
with the value of the last row of these groups, and no key that does not lead to one.
-/
import Listing.Proofs.RouteOrder
import Listing.Totals

namespace Listing

/-- What stands in a value at the end of some keys, each in the object that the one before it leads
to. -/
def Json.at? (value : Json) : List String → Option Json
  | [] => some value
  | key :: keys => (value.get? key).bind (·.at? keys)

@[simp]
theorem Json.at?_nil (value : Json) : value.at? [] = some value := rfl

theorem Json.at?_object_cons (entries : List (String × Json)) (key : String) (keys : List String) :
    (Json.object entries).at? (key :: keys) = (entries.lookup key).bind (·.at? keys) := rfl

/-- Items that are written under names of their own are found under them. -/
theorem lookup_foldl_insertEntry {α β : Type} {name : β → String}
    (hname : Function.Injective name) (value : β → α) {items : List β} {item : β}
    (hitem : item ∈ items) (entries : List (String × α)) :
    (items.foldl (fun entries item => insertEntry (name item) (value item) entries) entries).lookup
      (name item) = some (value item) := by
  classical
  induction items using List.reverseRecOn with
  | nil => cases hitem
  | append_singleton items last ih =>
      rw [List.foldl_append, List.foldl_cons, List.foldl_nil]
      by_cases hlast : item = last
      · rw [hlast]
        exact lookup_insertEntry_self (name last) (value last) _
      · rw [lookup_insertEntry_ne fun heq => hlast (hname heq)]
        exact ih ((List.mem_append.1 hitem).resolve_right fun hmem =>
          hlast (List.mem_singleton.1 hmem))

namespace Totals

/-! ### Trees of one depth -/

/-- Objects inside of objects, so many levels deep, in none of which a key occurs twice. What stands
below the last level may be anything. -/
def IsNested : Nat → Json → Prop
  | 0, _ => True
  | depth + 1, value => ∃ entries : Row, value = .object entries ∧
      (entries.map Prod.fst).Nodup ∧ ∀ entry ∈ entries, IsNested depth entry.2

theorem isNested_empty (depth : Nat) : IsNested depth (.object []) := by
  cases depth with
  | zero => trivial
  | succ depth => exact ⟨[], rfl, List.nodup_nil, by simp⟩

/-- The entries of the object under a key; without the key there are none. -/
def below (key : String) (tree : Row) : Row :=
  match tree.lookup key with
  | some (.object inner) => inner
  | _ => []

section

variable {depth : Nat} {tree : Row} {key : String} {keys path : List String} {value : Json}

/-- Above the last level, a key leads to an object. -/
theorem lookup_of_isNested (key : String) (htree : IsNested (depth + 2) (.object tree)) :
    tree.lookup key = none ∨ tree.lookup key = some (.object (below key tree)) := by
  obtain ⟨_, heq, -, hinner⟩ := htree
  cases heq
  cases hfound : tree.lookup key with
  | none => exact .inl rfl
  | some inner =>
      obtain ⟨entries, rfl, -⟩ := hinner _ (mem_of_lookup hfound)
      exact .inr (by rw [below, hfound])

theorem isNested_below (htree : IsNested (depth + 2) (.object tree)) :
    IsNested (depth + 1) (.object (below key tree)) := by
  rcases lookup_of_isNested key htree with hnone | hsome
  · rw [below, hnone]
    exact isNested_empty _
  · obtain ⟨_, heq, -, hinner⟩ := htree
    cases heq
    exact hinner _ (mem_of_lookup hsome)

/-- Putting a value in never meets a value that is no object: the level below is there, or it is
made. -/
theorem insert_cons (htree : IsNested (depth + 2) (.object tree)) (hkeys : keys ≠ []) :
    insert value (key :: keys) tree =
      insertEntry key (.object (insert value keys (below key tree))) tree := by
  cases keys with
  | nil => exact absurd rfl hkeys
  | cons first rest =>
      rcases lookup_of_isNested key htree with hnone | hsome
      · simp only [insert, below, hnone]
      · simp only [insert, hsome]

theorem isNested_insertEntry (htree : IsNested (depth + 1) (.object tree))
    (hvalue : IsNested depth value) :
    IsNested (depth + 1) (.object (insertEntry key value tree)) := by
  obtain ⟨_, heq, hnodup, hinner⟩ := htree
  cases heq
  refine ⟨_, rfl, nodup_insertEntry hnodup, fun entry hentry => ?_⟩
  rcases mem_insertEntry hentry with rfl | hold
  · exact hvalue
  · exact hinner entry hold

/-- A tree keeps its depth. -/
theorem isNested_insert (htree : IsNested path.length (.object tree)) (hpath : path ≠ []) :
    IsNested path.length (.object (insert value path tree)) := by
  induction path generalizing tree with
  | nil => exact absurd rfl hpath
  | cons key path ih =>
      cases path with
      | nil => exact isNested_insertEntry htree trivial
      | cons next path =>
          rw [insert_cons htree (List.cons_ne_nil next path)]
          exact isNested_insertEntry htree (ih (isNested_below htree) (List.cons_ne_nil next path))

/-- What is found behind a key is found in the entries below it. -/
theorem at?_cons (htree : IsNested (depth + 2) (.object tree)) (hkeys : keys ≠ []) :
    (Json.object tree).at? (key :: keys) = (Json.object (below key tree)).at? keys := by
  rw [Json.at?_object_cons]
  rcases lookup_of_isNested key htree with hnone | hsome
  · cases keys with
    | nil => exact absurd rfl hkeys
    | cons next keys =>
        rw [below, hnone]
        rfl
  · rw [hsome, Option.bind_some]

/-- A value is put at the end of its keys and nowhere else. -/
theorem at?_insert (htree : IsNested path.length (.object tree)) (hpath : path ≠ [])
    (hlength : keys.length = path.length) :
    (Json.object (insert value path tree)).at? keys =
      if keys = path then some value else (Json.object tree).at? keys := by
  induction path generalizing tree keys with
  | nil => exact absurd rfl hpath
  | cons key path ih =>
      cases keys with
      | nil => cases hlength
      | cons first keys =>
          have hrest : keys.length = path.length := Nat.succ.inj hlength
          cases path with
          | nil =>
              rw [List.length_eq_zero_iff.1 hrest, insert, Json.at?_object_cons,
                Json.at?_object_cons]
              by_cases hfirst : first = key
              · rw [hfirst, lookup_insertEntry_self, if_pos rfl]
                rfl
              · rw [lookup_insertEntry_ne hfirst, if_neg (by simpa using hfirst)]
          | cons next path =>
              have hnext : next :: path ≠ [] := List.cons_ne_nil next path
              have hkeys : keys ≠ [] := by
                rintro rfl
                cases hrest
              rw [insert_cons htree hnext]
              by_cases hfirst : first = key
              · rw [hfirst, Json.at?_object_cons, lookup_insertEntry_self, Option.bind_some,
                  ih (isNested_below htree) hnext hrest, at?_cons htree hkeys]
                simp only [List.cons.injEq, true_and]
              · rw [Json.at?_object_cons, lookup_insertEntry_ne hfirst, Json.at?_object_cons,
                  if_neg fun heq => hfirst (List.cons.inj heq).1]

/-- Putting a value in adds the levels on the way to it and no others. -/
theorem isSome_at?_insert (htree : IsNested path.length (.object tree)) (hpath : path ≠ [])
    (hlength : keys.length < path.length) :
    ((Json.object (insert value path tree)).at? keys).isSome ↔
      ((Json.object tree).at? keys).isSome ∨ keys <+: path := by
  induction path generalizing tree keys with
  | nil => exact absurd rfl hpath
  | cons key path ih =>
      cases keys with
      | nil => simp
      | cons first keys =>
          have hrest : keys.length < path.length := Nat.lt_of_succ_lt_succ hlength
          cases path with
          | nil => cases hrest
          | cons next path =>
              have hnext : next :: path ≠ [] := List.cons_ne_nil next path
              rw [insert_cons htree hnext, List.cons_prefix_cons, Json.at?_object_cons]
              by_cases hfirst : first = key
              · rw [hfirst, lookup_insertEntry_self, Option.bind_some,
                  ih (isNested_below htree) hnext hrest]
                cases keys with
                | nil => simp
                | cons second keys =>
                    rw [at?_cons htree (List.cons_ne_nil second keys)]
                    simp
              · rw [lookup_insertEntry_ne hfirst, Json.at?_object_cons]
                simp [hfirst]

/-- Short of the leaves, some keys lead to an object in which no key occurs twice. -/
theorem object_of_at? {tree inner : Json} (htree : IsNested depth tree)
    (hlength : keys.length < depth) (hfound : tree.at? keys = some inner) :
    ∃ entries : Row, inner = .object entries ∧ (entries.map Prod.fst).Nodup := by
  induction keys generalizing tree depth with
  | nil =>
      cases hfound
      cases depth with
      | zero => cases hlength
      | succ depth =>
          obtain ⟨entries, rfl, hnodup, -⟩ := htree
          exact ⟨entries, rfl, hnodup⟩
  | cons key keys ih =>
      cases depth with
      | zero => cases hlength
      | succ depth =>
          obtain ⟨entries, rfl, -, hinner⟩ := htree
          rw [Json.at?_object_cons] at hfound
          obtain ⟨next, hnext, hfound⟩ := Option.bind_eq_some_iff.1 hfound
          exact ih (hinner _ (mem_of_lookup hnext)) (Nat.lt_of_succ_lt_succ hlength) hfound

end

/-! ### The tree of a metric -/

/-- The keys of the groups of a row, outermost group first. -/
def groupKeys (dimensions : List String) (row : Row) : List String :=
  dimensions.map (groupKey row)

/-- The last of some rows that has these groups. -/
def lastOf (dimensions : List String) (rows : List Row) (keys : List String) : Option Row :=
  (rows.filter fun row => groupKeys dimensions row == keys).getLast?

/-- The value holds the groups of some rows, one level of keys for each dimension, and nothing else:
its leaves are those of the rows, and every level above them is there for the sake of a leaf. -/
structure Holds (value : Json) (dimensions : List String) (metric : String) (rows : List Row) :
    Prop where
  /-- A key for each dimension leads to a leaf exactly if a row has these groups. The leaf is the
  metric of the last such row. -/
  leaf : ∀ keys, keys.length = dimensions.length →
    value.at? keys = (lastOf dimensions rows keys).map (metricValue · metric)
  /-- Fewer keys lead on exactly if the groups of a row begin with them. -/
  level : ∀ keys, keys.length < dimensions.length →
    ((value.at? keys).isSome ↔ keys = [] ∨ ∃ row ∈ rows, keys <+: groupKeys dimensions row)
  /-- There they lead to an object in which no key occurs twice. -/
  object : ∀ keys inner, keys.length < dimensions.length → value.at? keys = some inner →
    ∃ entries : Row, inner = .object entries ∧ (entries.map Prod.fst).Nodup

variable {dimensions : List String}

/-- Of the rows up to some row, the last one with its groups is the row itself. -/
theorem lastOf_append_singleton (rows : List Row) (row : Row) (keys : List String) :
    lastOf dimensions (rows ++ [row]) keys =
      if keys = groupKeys dimensions row then some row else lastOf dimensions rows keys := by
  unfold lastOf
  by_cases hkeys : keys = groupKeys dimensions row
  · have hrow : ([row].filter fun row => groupKeys dimensions row == keys) = [row] := by
      simp [hkeys]
    rw [if_pos hkeys, List.filter_append, hrow, List.getLast?_concat]
  · have hrow : ([row].filter fun row => groupKeys dimensions row == keys) = [] := by
      simp [Ne.symm hkeys]
    rw [if_neg hkeys, List.filter_append, hrow, List.append_nil]

theorem length_groupKeys (dimensions : List String) (row : Row) :
    (groupKeys dimensions row).length = dimensions.length :=
  List.length_map _

theorem tree_append_singleton (metric : String) (rows : List Row) (row : Row) :
    tree dimensions metric (rows ++ [row]) =
      insert (metricValue row metric) (groupKeys dimensions row) (tree dimensions metric rows) := by
  rw [tree, List.foldl_append]
  rfl

section

variable (hdimensions : dimensions ≠ []) (metric : String) (rows : List Row)

include hdimensions

theorem groupKeys_ne_nil (row : Row) : groupKeys dimensions row ≠ [] := by
  simpa [groupKeys] using hdimensions

theorem isNested_tree : IsNested dimensions.length (.object (tree dimensions metric rows)) := by
  induction rows using List.reverseRecOn with
  | nil => exact isNested_empty _
  | append_singleton rows row ih =>
      rw [tree_append_singleton]
      rw [← length_groupKeys dimensions row] at ih ⊢
      exact isNested_insert ih (groupKeys_ne_nil hdimensions row)

/-- The leaves of a tree: row by row, the one that comes last decides. -/
theorem at?_tree {keys : List String} (hkeys : keys.length = dimensions.length) :
    (Json.object (tree dimensions metric rows)).at? keys =
      (lastOf dimensions rows keys).map (metricValue · metric) := by
  induction rows using List.reverseRecOn with
  | nil =>
      cases keys with
      | nil => exact absurd (List.length_eq_zero_iff.1 hkeys.symm) hdimensions
      | cons key keys => rfl
  | append_singleton rows row ih =>
      have htree := isNested_tree hdimensions metric rows
      rw [← length_groupKeys dimensions row] at htree hkeys
      rw [tree_append_singleton, at?_insert htree (groupKeys_ne_nil hdimensions row) hkeys, ih,
        lastOf_append_singleton]
      split <;> rfl

/-- The levels of a tree: each is on the way to the leaf of a row. -/
theorem isSome_at?_tree {keys : List String} (hkeys : keys.length < dimensions.length) :
    ((Json.object (tree dimensions metric rows)).at? keys).isSome ↔
      keys = [] ∨ ∃ row ∈ rows, keys <+: groupKeys dimensions row := by
  induction rows using List.reverseRecOn with
  | nil => cases keys <;> simp [tree, Json.at?_object_cons]
  | append_singleton rows row ih =>
      have htree := isNested_tree hdimensions metric rows
      rw [← length_groupKeys dimensions row] at htree hkeys
      rw [tree_append_singleton,
        isSome_at?_insert htree (groupKeys_ne_nil hdimensions row) hkeys, ih, or_assoc]
      simp only [List.mem_append, List.mem_singleton, or_and_right, exists_or, exists_eq_left]

/-- The tree of a metric holds the groups of its rows. -/
theorem holds_tree : Holds (.object (tree dimensions metric rows)) dimensions metric rows where
  leaf _ hkeys := at?_tree hdimensions metric rows hkeys
  level _ hkeys := isSome_at?_tree hdimensions metric rows hkeys
  object _ _ hkeys := object_of_at? (isNested_tree hdimensions metric rows) hkeys

end

/-! ### The totals of a response -/

/-- The entries of totals are named after the metrics, each of them once. -/
theorem map_fst_shape (dimensions metrics : List String) (rows : List Row) :
    (shape dimensions metrics rows).map Prod.fst = (metrics.map (stem ++ ·)).eraseDups := by
  induction metrics using List.reverseRecOn with
  | nil => rfl
  | append_singleton metrics metric ih =>
      have hlast : shape dimensions (metrics ++ [metric]) rows =
          insertEntry (stem ++ metric) (ofMetric dimensions rows metric)
            (shape dimensions metrics rows) := by
        rw [shape, List.foldl_append]
        rfl
      rw [hlast, map_fst_insertEntry, ih, List.map_append, List.map_singleton,
        eraseDups_append_singleton]
      simp only [List.mem_eraseDups]

/-- The name of an entry tells its metric. -/
theorem stem_injective : Function.Injective (stem ++ ·) :=
  fun _ _ heq => (String.append_right_inj stem).1 heq

/-- The totals of a response have one entry for each metric. With groups, it holds the groups of
all rows. -/
theorem shape_holds {dimensions : List String} (hdimensions : dimensions ≠ [])
    (metrics : List String) (rows : List Row) :
    ((shape dimensions metrics rows).map Prod.fst).Nodup ∧
      (∀ name, name ∈ (shape dimensions metrics rows).map Prod.fst ↔
        ∃ metric ∈ metrics, name = stem ++ metric) ∧
      ∀ metric ∈ metrics, ∃ value, (shape dimensions metrics rows).lookup (stem ++ metric) =
        some value ∧ Holds value dimensions metric rows := by
  refine ⟨?_, fun name => ?_, fun metric hmetric => ?_⟩
  · rw [map_fst_shape]
    exact nodup_eraseDups _
  · rw [map_fst_shape, List.mem_eraseDups, List.mem_map]
    simp only [eq_comm]
  · have hgrouped : ofMetric dimensions rows metric = .object (tree dimensions metric rows) := by
      unfold ofMetric
      rw [if_neg (by simpa using hdimensions)]
    refine ⟨_, lookup_foldl_insertEntry stem_injective (ofMetric dimensions rows) hmetric [], ?_⟩
    rw [hgrouped]
    exact holds_tree hdimensions metric rows

/-- Pieces by category and year. The chairs of 2024 come twice, and of the pieces without a category
there is no number. -/
def furniture : List Row := [
  [("category__name", .string "Chairs"), ("year", .int 2023), ("count", .int 2)],
  [("category__name", .string "Chairs"), ("year", .int 2024), ("count", .int 1)],
  [("category__name", .null), ("year", .int 2024)],
  [("category__name", .string "Chairs"), ("year", .int 2024), ("count", .int 7)]]

/-- The later number of chairs counts, and null is a key like others. -/
theorem shape_holds_furniture :
    ["category__name", "year"] ≠ [] ∧
      ∃ value, (shape ["category__name", "year"] ["count", "count"] furniture).lookup
          "total_count" = some value ∧
        Holds value ["category__name", "year"] "count" furniture ∧
        value.at? ["Chairs", "2024"] = some (.int 7) ∧
        value.at? ["null", "2024"] = some .null ∧ value.at? ["null", "2023"] = none := by
  have hdimensions : ["category__name", "year"] ≠ [] := by decide
  obtain ⟨-, -, hentries⟩ := shape_holds hdimensions ["count", "count"] furniture
  obtain ⟨value, hvalue, hholds⟩ := hentries "count" (by decide)
  exact ⟨hdimensions, value, hvalue, hholds, hholds.leaf ["Chairs", "2024"] rfl,
    hholds.leaf ["null", "2024"] rfl, hholds.leaf ["null", "2023"] rfl⟩

end Totals
end Listing
