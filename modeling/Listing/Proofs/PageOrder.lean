/-
# Pages are in the order that was asked for

The items of an order are read from left to right: the first one that tells two records apart
decides, in its own direction. Rows are ordered by one term for each item and searches by one sort
key for each, so they compare records as the items do.

Documents are sorted by a keyed map, in which a field has one direction. A field that is named again
keeps its place there and takes the new direction. That is harmless if the first and the last item
that name a field agree, as what stands between them and what comes after the first has no effect.
Otherwise some documents come in another order than the one that was asked for.
-/
import Listing.Proofs.Compiling
import Listing.Proofs.PageDocuments
import Listing.Proofs.PageRows
import Listing.Proofs.Semantics.DocumentFilter
import Listing.Proofs.Semantics.Ordering
import Listing.Proofs.Semantics.SearchClause

namespace Listing

/-- The attributes that an order names, each with its direction. -/
def Registry.locateOrder (registry : Registry) (resource : Resource) (order : Order) :
    Result (List (Located × Direction)) :=
  order.mapM fun item => do
    return (← registry.locate resource Param.order item.path, item.direction)

/-- What is compiled for every item of an order is compiled for the attributes that it names. -/
theorem Registry.locateOrder_of_mapM {registry : Registry} {resource : Resource} {β : Type}
    {f : OrderItem → Result β} (finish : Located × Direction → β)
    (hstep : ∀ item y, f item = .ok y → ∃ found,
      registry.locate resource Param.order item.path = .ok found ∧
        y = finish (found, item.direction)) {order : Order} {ys : List β}
    (hmap : order.mapM f = .ok ys) :
    ∃ located, registry.locateOrder resource order = .ok located ∧ ys = located.map finish := by
  refine Result.exists_mapM_eq_ok_map (fun item y hy => ?_) hmap
  obtain ⟨found, hfound, rfl⟩ := hstep item y hy
  exact ⟨(found, item.direction), by rw [hfound]; rfl, rfl⟩

/-- Every key is named in one direction only. -/
def IsOneWay {κ : Type} (keys : List (κ × Direction)) : Prop :=
  ∀ first ∈ keys, ∀ later ∈ keys, later.1 = first.1 → later.2 = first.2

/-- Every key is named in the same direction first and last. -/
def EndsAgree {κ : Type} [BEq κ] (keys : List (κ × Direction)) : Prop :=
  ∀ key, keys.lookup key = keys.reverse.lookup key

theorem IsOneWay.endsAgree {κ : Type} [BEq κ] [LawfulBEq κ] {keys : List (κ × Direction)}
    (honeWay : IsOneWay keys) : EndsAgree keys := by
  intro key
  cases hfirst : keys.lookup key with
  | none =>
      rw [List.lookup_eq_none_iff] at hfirst
      rw [eq_comm, List.lookup_eq_none_iff]
      exact fun later hlater => hfirst later (List.mem_reverse.1 hlater)
  | some d =>
      have hmem := mem_of_lookup hfirst
      have hfound : (keys.reverse.lookup key).isSome = true := by
        rw [List.lookup_isSome_iff]
        exact ⟨(key, d), by simp [hmem]⟩
      obtain ⟨d', hlast⟩ := Option.isSome_iff_exists.1 hfound
      have hsame : d' = d :=
        honeWay _ hmem _ (List.mem_reverse.1 (mem_of_lookup hlast)) rfl
      rw [hlast, hsame]

namespace Document

/-- The keys of the sorts of a pipeline. -/
def sortsOf (stages : List Stage) : List (List (String × Direction)) :=
  stages.filterMap fun
    | .sort keys => some keys
    | _ => none

theorem sortsOf_append (stages more : List Stage) :
    sortsOf (stages ++ more) = sortsOf stages ++ sortsOf more :=
  List.filterMap_append

theorem mem_sortsOf {stages : List Stage} {keys : List (String × Direction)} :
    keys ∈ sortsOf stages ↔ .sort keys ∈ stages := by
  rw [sortsOf, List.mem_filterMap]
  constructor
  · rintro ⟨stage, hstage, hsort⟩
    split at hsort
    · cases hsort
      exact hstage
    · cases hsort
  · exact fun hmem => ⟨_, hmem, rfl⟩

theorem sortsOf_eq_nil {stages : List Stage} (hnone : ∀ keys, .sort keys ∉ stages) :
    sortsOf stages = [] :=
  List.eq_nil_iff_forall_not_mem.2 fun keys hkeys => hnone keys (mem_sortsOf.1 hkeys)

/-- A pipeline that sorts once. -/
theorem sortsOf_single {before after : List Stage} (hbefore : ∀ keys, .sort keys ∉ before)
    (hafter : ∀ keys, .sort keys ∉ after) (keys : List (String × Direction)) :
    sortsOf (before ++ .sort keys :: after) = [keys] := by
  rw [sortsOf_append, sortsOf_eq_nil hbefore, List.nil_append]
  show keys :: sortsOf after = [keys]
  rw [sortsOf_eq_nil hafter]

/-- Stages that find documents and join others to them. -/
def Stage.finds : Stage → Bool
  | .lookup .. | .unwind _ true | .keep _ => true
  | _ => false

theorem sort_notMem_of_finds {stages : List Stage} (hfinds : ∀ stage ∈ stages, stage.finds)
    (keys : List (String × Direction)) : .sort keys ∉ stages :=
  fun hmem => nomatch hfinds _ hmem

theorem finds_lookupStages (relation : Relation) (collection localField label : String) :
    ∀ stage ∈ lookupStages relation collection localField label, stage.finds := by
  unfold lookupStages
  split <;> simp [Stage.finds]

theorem finds_lookups (joins : Joins) : ∀ stage ∈ lookups joins, stage.finds := by
  intro stage hmem
  obtain ⟨route, _, hstage⟩ := List.mem_flatMap.1 hmem
  unfold reach at hstage
  cases hlast : route.getLast? with
  | none => simp [hlast] at hstage
  | some hop =>
      rw [hlast, Option.map_some] at hstage
      split at hstage
      · rename_i hlooked
        split at hlooked <;> cases hlooked
        exact finds_lookupStages _ _ _ _ stage hstage
      · cases hstage

/-- Documents are found and joined before anything else. -/
theorem finds_base (joins : Joins) (condition : Option Filter) :
    ∀ stage ∈ lookups joins ++ condition.toList.map .keep, stage.finds := by
  intro stage hmem
  rcases List.mem_append.1 hmem with hlookup | hkeep
  · exact finds_lookups joins stage hlookup
  · obtain ⟨filter, -, rfl⟩ := List.mem_map.1 hkeep
    rfl

section Sorting

variable {keys : List (String × Direction)}

/-- A sort names the fields that were named, each where it was named first. -/
theorem map_fst_sortKeys (keys : List (String × Direction)) :
    (sortKeys keys).map (·.1) = (Collation.firstKeys keys).map (·.1) := by
  induction keys using List.reverseRecOn with
  | nil => rfl
  | append_singleton keys key ih =>
      rw [sortKeys, List.foldl_append, List.foldl_cons, List.foldl_nil]
      refine (map_fst_insertEntry key.1 key.2 (sortKeys keys)).trans ?_
      rw [Collation.firstKeys_append_singleton, show (sortKeys keys).map Prod.fst = _ from ih]
      by_cases hnamed : key.1 ∈ keys.map (·.1)
      · rw [if_pos (Collation.mem_map_firstKeys.2 hnamed), if_pos hnamed]
      · rw [if_neg fun hmem => hnamed (Collation.mem_map_firstKeys.1 hmem), if_neg hnamed,
          List.map_append, List.map_singleton]

/-- Of entries that are written one after the other, the last one under a name is found. -/
theorem lookup_written {β : Type} (entries : List (String × β)) (name : String) :
    (entries.foldl (fun acc entry => insertEntry entry.1 entry.2 acc) []).lookup name =
      entries.reverse.lookup name := by
  induction entries using List.reverseRecOn with
  | nil => rfl
  | append_singleton entries entry ih =>
      rw [List.foldl_append, List.foldl_cons, List.foldl_nil, List.reverse_append,
        List.reverse_singleton, List.singleton_append, List.lookup_cons]
      by_cases hname : name = entry.1
      · rw [hname, beq_self_eq_true, lookup_insertEntry_self]
      · rw [beq_false_of_ne hname, lookup_insertEntry_ne hname, ih]

/-- A sort takes the direction in which a field was named last. -/
theorem lookup_sortKeys (keys : List (String × Direction)) (field : String) :
    (sortKeys keys).lookup field = keys.reverse.lookup field :=
  lookup_written keys field

theorem sortKeys_eq_firstKeys (hends : EndsAgree keys) :
    sortKeys keys = Collation.firstKeys keys := by
  refine Collation.eq_of_lookup (map_fst_sortKeys keys) ?_ fun field => ?_
  · rw [map_fst_sortKeys]
    exact Collation.nodup_firstKeys keys
  · rw [lookup_sortKeys, Collation.lookup_firstKeys, hends field]

variable {c : Collation}

/-- A sort whose fields have one direction each compares documents as the keys that it was given. -/
theorem compareBy_sortKeys_of_isOneWay (honeWay : IsOneWay keys) (x y : Fields) :
    c.compareBy (sortKeys keys) x y = c.compareBy keys x y := by
  rw [sortKeys_eq_firstKeys honeWay.endsAgree]
  refine c.compareBy_firstKeys fun first hfirst later hlater hsame halike => ?_
  rw [hsame, honeWay first hfirst later hlater hsame]
  exact halike

/-- A document that has one field. -/
def Fields.only (field : String) (v : Datum) : Fields := fun other =>
  if other = field then v else .null

/-- A sort compares all documents as the keys that it was given exactly if these name every field in
the same direction first and last. -/
theorem compareBy_sortKeys_iff (hlawful : c.IsLawful) (hdirections : c.HasDirections) :
    (∀ x y : Fields, c.compareBy (sortKeys keys) x y = c.compareBy keys x y) ↔ EndsAgree keys := by
  have hfirst (x y : Fields) :
      c.compareBy (Collation.firstKeys keys) x y = c.compareBy keys x y := by
    refine c.compareBy_firstKeys fun first _ later _ hsame halike => ?_
    rw [hsame]
    exact hlawful.alike halike
  constructor
  · intro hcompare field
    have hnodup := Collation.nodup_firstKeys keys
    cases hfield : keys.lookup field with
    | none =>
        rw [List.lookup_eq_none_iff] at hfield
        rw [eq_comm, List.lookup_eq_none_iff]
        exact fun later hlater => hfield later (List.mem_reverse.1 hlater)
    | some d =>
        obtain ⟨d', hlast⟩ := Option.isSome_iff_exists.1 (show
            (keys.reverse.lookup field).isSome = true from by
          rw [List.lookup_isSome_iff]
          exact ⟨(field, d), List.mem_reverse.2 (mem_of_lookup hfield), beq_self_eq_true field⟩)
        obtain ⟨a, b, hdiffer⟩ := hdirections
        -- Two documents that differ in this field only, in values that show the direction.
        have hself (v : Datum) : Fields.only field v field = v := if_pos rfl
        have hothers (other : String) (hother : other ≠ field) :
            Fields.only field a other = Fields.only field b other :=
          (if_neg hother).trans (if_neg hother).symm
        have hsame : c.compare d' a b = c.compare d a b := by
          have hsorted := hcompare (Fields.only field a) (Fields.only field b)
          rw [← hfirst, c.compareBy_of_lookup hlawful
            (by rw [map_fst_sortKeys]; exact Collation.nodup_firstKeys keys)
            ((lookup_sortKeys keys field).trans hlast) hothers,
            c.compareBy_of_lookup hlawful (Collation.nodup_firstKeys keys)
            ((Collation.lookup_firstKeys keys field).trans hfield) hothers, hself, hself] at hsorted
          exact hsorted
        rw [hlast]
        cases d <;> cases d'
        case ascending.ascending | descending.descending => rfl
        case ascending.descending => exact absurd hsame.symm hdiffer
        case descending.ascending => exact absurd hsame hdiffer
  · intro hends x y
    rw [sortKeys_eq_firstKeys hends, hfirst]

end Sorting
/-- The keys that an order asks to sort by; the primary key where it asks for none. -/
def Target.requestedKeys (t : Target) (located : List (Located × Direction)) :
    List (String × Direction) :=
  if located.isEmpty then t.resource.primaryKey.map (·, .ascending)
  else located.map fun item => (fieldOf Joins.defaultStem item.1, item.2)

/-- A page is sorted once, by the keys that its order asks for. -/
theorem Target.sortsOf_pipeline {t : Target} {request : Request} {query : Query}
    (hcompile : t.compile request = .ok query) :
    ∃ located, t.registry.locateOrder t.resource request.order = .ok located ∧
      sortsOf query.pipeline = [sortKeys (t.requestedKeys located)] := by
  obtain ⟨condition, order, -, horder, -, -, hpipeline, -⟩ := compile_eq_shared hcompile
  obtain ⟨keys, hkeys, hrest⟩ := Result.bind_eq_ok.1 horder
  cases hrest
  obtain ⟨located, hlocated, rfl⟩ := Registry.locateOrder_of_mapM
    (fun item => (fieldOf Joins.defaultStem item.1, item.2)) (by
      intro item key hkey
      obtain ⟨field, hfield, hrest⟩ := Result.bind_eq_ok.1 hkey
      cases hrest
      obtain ⟨found, hfound, hrest⟩ := Result.bind_eq_ok.1 hfield
      cases hrest
      exact ⟨found, hfound, rfl⟩) hkeys
  refine ⟨located, hlocated, ?_⟩
  have hbefore (keys : List (String × Direction)) : .sort keys ∉ t.sharedStages request condition :=
    sort_notMem_of_finds (finds_base _ condition) keys
  have hafter (keys : List (String × Direction)) : .sort keys ∉ cutStages request.paging ++
      (unsetStages (lookupFields (t.joinsOf Joins.defaultStem request.pagePaths)) ++
        (t.loaded request).flatMap loadStages) := by
    simp only [List.mem_append, List.mem_flatMap, not_or, not_exists, not_and]
    refine ⟨?_, ?_, fun hop _ => sort_notMem_of_finds (finds_lookupStages _ _ _ _) keys⟩
    · unfold cutStages
      split <;> simp
    · unfold unsetStages
      split <;> simp
  rw [← sortsOf_single hbefore hafter (sortKeys (t.requestedKeys located)), hpipeline,
    Target.requestedKeys, List.isEmpty_map]
  simp only [List.append_assoc, List.cons_append, List.nil_append]

end Document

namespace Sql

/-- The comparison of two rows by the order of a select. -/
def Select.compareRows (c : Collation) (engine : Engine) (s : Select) (x y : Env) : Ordering :=
  c.compareBy (s.orderBy.map fun term => (term.expr, term.direction))
    (engine.eval [x] x) (engine.eval [y] y)

/-- The columns, under their tables, that an order asks to sort by; the primary key where it asks
for none. -/
def Target.requestedKeys (t : Target) (located : List (Located × Direction)) :
    List ((String × String) × Direction) :=
  if located.isEmpty then
    t.resource.primaryKey.map fun column => ((t.resource.storage, column), .ascending)
  else located.map fun item =>
    ((t.tableOf Joins.defaultStem item.1.route, item.1.attr.columnName), item.2)

/-- A page is ordered by the columns that its order asks for. -/
theorem Target.orderBy_page {t : Target} {request : Request} {query : Query}
    (hcompile : t.compile request = .ok query) :
    ∃ located, t.registry.locateOrder t.resource request.order = .ok located ∧
      query.page.orderBy =
        (t.requestedKeys located).map fun key => ⟨.column key.1.1 key.1.2, key.2⟩ := by
  obtain ⟨_, terms, _, _, -, hterms, -, -, rfl⟩ := compile_eq_ok_iff.1 hcompile
  obtain ⟨located, hlocated, rfl⟩ := Registry.locateOrder_of_mapM
    (fun item => (⟨.column (t.tableOf Joins.defaultStem item.1.route)
      item.1.attr.columnName, item.2⟩ : OrderTerm)) (by
      intro item term hterm
      obtain ⟨found, hfound, hrest⟩ := Result.bind_eq_ok.1 hterm
      split at hrest
      · cases hrest
      · obtain ⟨column, hcolumn, hpure⟩ := Result.bind_eq_ok.1 hrest
        cases hpure
        obtain ⟨_, rfl⟩ := columnOf_eq_ok hcolumn
        exact ⟨found, hfound, rfl⟩) hterms
  refine ⟨located, hlocated, ?_⟩
  rw [page, requestedKeys, List.isEmpty_map]
  split
  · rw [keyOrder, List.map_map]
    rfl
  · rw [List.map_map]
    rfl

end Sql

namespace SearchIndex

/-- The path of the value of an attribute in one piece. -/
def sortPath (located : Located) : String :=
  let column := located.attr.columnName
  let path := if located.route.isEmpty then column else objectPath located.route ++ "." ++ column
  match located.attr.keywordField with
  | some keyword => path ++ "." ++ keyword
  | none => path

/-- A search is sorted by the attributes that its order asks for. -/
theorem Target.sort_compile {t : Target} {request : Request} {query : Query}
    (hcompile : t.compile request = .ok query) :
    ∃ located, t.registry.locateOrder t.resource request.order = .ok located ∧
      (query.sort.map fun key => (key.field, key.direction)) =
        located.map fun item => (sortPath item.1, item.2) := by
  obtain ⟨_, sort, _, _, -, hsort, -, -, rfl⟩ := compile_eq_ok_iff.1 hcompile
  obtain ⟨located, hlocated, rfl⟩ := Registry.locateOrder_of_mapM
    (fun item => (⟨sortPath item.1, item.2, listPaths item.1.route⟩ : SortKey)) (by
      intro item key hkey
      obtain ⟨field, hfield, hrest⟩ := Result.bind_eq_ok.1 hkey
      cases hrest
      obtain ⟨found, hfound, hrest⟩ := Result.bind_eq_ok.1 hfield
      obtain ⟨_, _, hrest⟩ := Result.bind_eq_ok.1 hrest
      cases hrest
      exact ⟨found, hfound, rfl⟩) hsort
  refine ⟨located, hlocated, ?_⟩
  rw [List.map_map]
  rfl

end SearchIndex

/-- Rows and searches are ordered as the request asks. Documents are sorted once, and in the order
that the request asks for if this names every field in one direction; where a collation leaves the
same values alike in both directions, exactly if it names every field in the same direction first
and last. -/
theorem pages_order_as_requested (c : Collation) (request : Request) :
    (∀ (t : Document.Target) (query : Document.Query), t.compile request = .ok query →
      ∃ located keys, t.registry.locateOrder t.resource request.order = .ok located ∧
        Document.sortsOf query.pipeline = [keys] ∧
        (IsOneWay (t.requestedKeys located) → ∀ x y : Document.Fields,
          c.compareBy keys x y = c.compareBy (t.requestedKeys located) x y) ∧
        (c.IsLawful → c.HasDirections →
          ((∀ x y : Document.Fields,
            c.compareBy keys x y = c.compareBy (t.requestedKeys located) x y) ↔
              EndsAgree (t.requestedKeys located)))) ∧
    (∀ (t : Sql.Target) (query : Sql.Query), t.compile request = .ok query →
      ∃ located, t.registry.locateOrder t.resource request.order = .ok located ∧
        ∀ engine x y, query.page.compareRows c engine x y =
          c.compareBy (t.requestedKeys located) (fun key => x.column key.1 key.2)
            (fun key => y.column key.1 key.2)) ∧
    ∀ (t : SearchIndex.Target) (query : SearchIndex.Query), t.compile request = .ok query →
      ∃ located, t.registry.locateOrder t.resource request.order = .ok located ∧
        ∀ x y : SearchIndex.Fields,
          c.compareBy (query.sort.map fun key => (key.field, key.direction)) x y =
            c.compareBy located (x ∘ SearchIndex.sortPath) (y ∘ SearchIndex.sortPath) := by
  refine ⟨fun t query hcompile => ?_, fun t query hcompile => ?_, fun t query hcompile => ?_⟩
  · obtain ⟨located, hlocated, hsorts⟩ := t.sortsOf_pipeline hcompile
    exact ⟨located, _, hlocated, hsorts, Document.compareBy_sortKeys_of_isOneWay,
      Document.compareBy_sortKeys_iff⟩
  · obtain ⟨located, hlocated, horder⟩ := t.orderBy_page hcompile
    refine ⟨located, hlocated, fun engine x y => ?_⟩
    rw [Sql.Select.compareRows, horder, List.map_map]
    exact c.compareBy_map (fun key : String × String => Sql.Expr.column key.1 key.2)
      (t.requestedKeys located) (engine.eval [x] x) (engine.eval [y] y)
  · obtain ⟨located, hlocated, hsort⟩ := t.sort_compile hcompile
    refine ⟨located, hlocated, fun x y => ?_⟩
    rw [hsort]
    exact c.compareBy_map SearchIndex.sortPath located x y

namespace Catalogue

/-- Products with a name and a price, in any store. -/
def product : Resource where
  name := "product"
  storage := "products"
  attributes := [{ name := "name", kind := .string }, { name := "price", kind := .numeric }]

def registry (backend : Backend) : Registry where
  entries := [⟨product, backend⟩]

def documents : Document.Target where
  functions := []
  registry := registry (.document [])
  resource := product

def table : Sql.Target where
  dialect := .postgres
  functions := []
  registry := registry (.relational .postgres [])
  resource := product

def index : SearchIndex.Target where
  registry := registry .searchIndex
  resource := product

/-- An order by the name, and then by what is given. -/
def byName (more : Order) : Request where
  order := ⟨⟨[], "name"⟩, .ascending⟩ :: more

/-- A name that is asked for again, in the same direction, changes nothing. -/
theorem pages_order_as_requested_again :
    ∃ query keys, documents.compile
        (byName [⟨⟨[], "price"⟩, .descending⟩, ⟨⟨[], "name"⟩, .ascending⟩]) = .ok query ∧
      Document.sortsOf query.pipeline = [keys] ∧
      ∀ x y : Document.Fields, Collation.standard.compareBy keys x y =
        Collation.standard.compareBy
          [("name", .ascending), ("price", .descending), ("name", .ascending)] x y := by
  obtain ⟨located, keys, hlocated, hsorts, _, hiff⟩ :=
    (pages_order_as_requested Collation.standard
      (byName [⟨⟨[], "price"⟩, .descending⟩, ⟨⟨[], "name"⟩, .ascending⟩])).1 documents _ rfl
  cases hlocated
  refine ⟨_, keys, rfl, hsorts, ?_⟩
  refine (hiff Collation.isLawful_standard Collation.hasDirections_standard).2
    (IsOneWay.endsAgree ?_)
  unfold IsOneWay
  decide +kernel

def named (name : String) : Document.Fields := Document.Fields.only "name" (.text name)

/-- A name that is asked for again in the other direction reverses the order of documents. -/
theorem page_order_reverses_byName :
    ∃ query located, (byName [⟨⟨[], "name"⟩, .descending⟩]).validate documents.registry product =
        .ok () ∧
      documents.compile (byName [⟨⟨[], "name"⟩, .descending⟩]) = .ok query ∧
      documents.registry.locateOrder product (byName [⟨⟨[], "name"⟩, .descending⟩]).order =
        .ok located ∧
      Document.sortsOf query.pipeline = [[("name", .descending)]] ∧
      Collation.standard.compareBy (documents.requestedKeys located)
        (named "Desk") (named "Lamp") = .lt ∧
      Collation.standard.compareBy [("name", .descending)] (named "Desk") (named "Lamp") = .gt := by
  refine ⟨_, _, rfl, rfl, rfl, rfl, ?_, ?_⟩
  · decide +kernel
  · decide +kernel

end Catalogue
end Listing
