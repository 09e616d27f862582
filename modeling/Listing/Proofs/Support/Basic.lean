/-
# The parts of a request that a store may lack

The comparisons and the paths of a request, the functions that a comparison names, and the relations
that are to be loaded. What a store lacks is stated of these parts, without reference to the query
that is compiled for it.

`Comparison.Ready` collects what reading and validation make sure of at one comparison. It is all
that the compilers of comparisons need.
-/
import Listing.Proofs.Reading
import Listing.Proofs.Validity

namespace Listing

/-- The comparisons of a filter, from left to right. -/
def Filter.comparisons (filter : Filter) : List Comparison :=
  filter.leaves.filterMap fun
    | .comparison c => some c
    | _ => none

/-- The comparisons of a request. -/
def Request.comparisons (request : Request) : List Comparison :=
  request.filter.toList.flatMap Filter.comparisons

/-- The paths of a request: of its filter, its order, and its groups and totals. -/
def Request.paths (request : Request) : List Path :=
  request.comparisons.map (·.path) ++ request.order.map (·.path) ++ request.aggregate.paths

/-- The functions that a comparison names. -/
def Comparison.functionNames (c : Comparison) : List String :=
  (c.function.map (·.names)).getD []

/-- The comparison is a call of a predicate, without an operator after it. -/
def Comparison.IsCall (c : Comparison) : Prop := ∃ f ∈ c.function, f.compare = none

/-- The relations of a resource that are to be loaded. -/
def Fetch.Selects (fetch : Fetch) (resource : Resource) (relation : Relation) : Prop :=
  match fetch with
  | .none => False
  | .named names => ∃ name ∈ names, resource.relation? name = some relation
  | .all => relation ∈ resource.relations

/-- What reading and validation make sure of at a comparison. -/
structure Comparison.Ready (c : Comparison) (registry : Registry) (resource : Resource) :
    Prop where
  wellFormed : c.WellFormed
  valid : c.validate registry resource = .ok ()

namespace Filter

theorem mem_comparisons {filter : Filter} {c : Comparison} :
    c ∈ filter.comparisons ↔ .comparison c ∈ filter.leaves := by
  rw [comparisons, List.mem_filterMap]
  constructor
  · rintro ⟨leaf, hleaf, hc⟩
    split at hc
    · cases hc
      exact hleaf
    · cases hc
  · intro hleaf
    exact ⟨_, hleaf, rfl⟩

theorem comparisons_node (connective : Connective) (children : List Filter) :
    (node connective children).comparisons = children.flatMap comparisons := by
  rw [comparisons, leaves_node, List.filterMap_flatMap]
  rfl

/-- The paths of a node are those of its children. -/
theorem paths_node (connective : Connective) (children : List Filter) :
    paths (.node connective children) = children.flatMap paths := by
  rw [paths, leaves_node, List.filterMap_flatMap]
  rfl

/-- A compiler of trees is refused if it is at one of the comparisons: full-text searches never
are, and a node is put together from its children. -/
theorem refusedIff_tree {α : Type} {compile : Filter → Result α} {ready lacks : Comparison → Prop}
    (hcomparison : ∀ c, ready c → RefusedIff (compile (.comparison c)) (lacks c))
    (hfullText : ∀ f, RefusedIff (compile (.fullText f)) False)
    (hnode : ∀ connective children, ∃ combine : List α → α, compile (.node connective children) =
      children.mapM compile >>= fun parts => .ok (combine parts))
    {f : Filter} (hready : ∀ c ∈ f.comparisons, ready c) :
    RefusedIff (compile f) (∃ c ∈ f.comparisons, lacks c) := by
  induction f with
  | comparison c =>
      have hmem : ∀ c', c' ∈ (Filter.comparison c).comparisons ↔ c' = c := by
        simp [comparisons, leaves]
      exact (hcomparison c (hready c ((hmem c).2 rfl))).congr (by simp [hmem])
  | fullText f => exact (hfullText f).congr (by simp [comparisons, leaves])
  | node connective children ih =>
      obtain ⟨combine, hcombine⟩ := hnode connective children
      rw [comparisons_node] at hready ⊢
      have hchildren : RefusedIff (children.mapM compile) _ :=
        RefusedIff.mapM fun child hchild => ih child hchild fun c hc =>
          hready c (List.mem_flatMap.2 ⟨child, hchild, hc⟩)
      rw [hcombine]
      apply (hchildren.bind fun parts _ => RefusedIff.ok _).congr
      simp only [or_false, List.mem_flatMap]
      constructor
      · rintro ⟨child, hchild, c, hc, hlacks⟩
        exact ⟨c, ⟨child, hchild, hc⟩, hlacks⟩
      · rintro ⟨c, ⟨child, hchild, hc⟩, hlacks⟩
        exact ⟨child, hchild, c, hc, hlacks⟩

end Filter

theorem Request.mem_comparisons (request : Request) {c : Comparison} :
    c ∈ request.comparisons ↔ ∃ f ∈ request.filter, c ∈ f.comparisons := by
  simp [comparisons]

/-- The paths of a request by where they stand. -/
theorem Request.mem_paths (request : Request) {path : Path} :
    path ∈ request.paths ↔ (∃ c ∈ request.comparisons, c.path = path) ∨
      (∃ item ∈ request.order, item.path = path) ∨ path ∈ request.aggregate.paths := by
  rw [paths, List.mem_append, List.mem_append, List.mem_map, List.mem_map, or_assoc]

theorem Request.path_mem_of_comparison (request : Request) {c : Comparison}
    (hc : c ∈ request.comparisons) : c.path ∈ request.paths :=
  request.mem_paths.2 (Or.inl ⟨c, hc, rfl⟩)

theorem Request.path_mem_of_filter (request : Request) {path : Path}
    (hpath : path ∈ (request.filter.map Filter.paths).getD []) : path ∈ request.paths := by
  cases hfilter : request.filter with
  | none => simp [hfilter] at hpath
  | some f =>
      rw [hfilter] at hpath
      obtain ⟨leaf, hleaf, hsome⟩ := List.mem_filterMap.1 (show path ∈ f.paths from hpath)
      split at hsome
      · rename_i c
        cases hsome
        exact request.path_mem_of_comparison
          (request.mem_comparisons.2 ⟨f, hfilter, Filter.mem_comparisons.2 hleaf⟩)
      · cases hsome

theorem Request.path_mem_of_order (request : Request) {item : OrderItem}
    (hitem : item ∈ request.order) : item.path ∈ request.paths :=
  request.mem_paths.2 (Or.inr (Or.inl ⟨item, hitem, rfl⟩))

theorem Request.path_mem_of_totals (request : Request) {path : Path}
    (hpath : path ∈ request.aggregate.paths) : path ∈ request.paths :=
  request.mem_paths.2 (Or.inr (Or.inr hpath))

/-- A path of totals is that of a group or of a metric. -/
theorem Aggregate.exists_paths_iff (a : Aggregate) (p : Path → Prop) :
    (∃ path ∈ a.paths, p path) ↔
      (∃ path ∈ a.groupBy, p path) ∨ ∃ m ∈ a.metrics, ∃ path, m.path = some path ∧ p path := by
  simp only [Aggregate.paths, List.mem_append, List.mem_filterMap, or_and_right, exists_or]
  refine or_congr Iff.rfl ⟨?_, ?_⟩
  · rintro ⟨path, ⟨m, hm, hpath⟩, hp⟩
    exact ⟨m, hm, path, hpath, hp⟩
  · rintro ⟨m, hm, path, hpath, hp⟩
    exact ⟨path, ⟨m, hm, hpath⟩, hp⟩

/-- The filter of a request is refused if it is at one of its comparisons. -/
theorem Request.refusedIff_filter (request : Request) {α : Type} {compile : Filter → Result α}
    {lacks : Comparison → Prop}
    (hfilter : ∀ f ∈ request.filter, RefusedIff (compile f) (∃ c ∈ f.comparisons, lacks c)) :
    RefusedIff (request.filter.mapM compile) (∃ c ∈ request.comparisons, lacks c) := by
  apply (RefusedIff.optionMapM hfilter).congr
  simp only [Request.mem_comparisons]
  constructor
  · rintro ⟨f, hf, c, hc, hlacks⟩
    exact ⟨c, ⟨f, hf, hc⟩, hlacks⟩
  · rintro ⟨c, ⟨f, hf, hc⟩, hlacks⟩
    exact ⟨f, hf, c, hc, hlacks⟩

namespace FunctionChain

/-- The functions of a chain are those applied to the attribute, and the predicate. -/
theorem names_eq (f : FunctionChain) : f.names = f.transforms ++ f.predicate?.toList := by
  unfold transforms predicate?
  cases f.compare with
  | some op => simp
  | none =>
      rcases List.eq_nil_or_concat f.names with hnil | ⟨names, name, hnames⟩
      · simp [hnil]
      · simp [hnames]

/-- A chain without an operator that names a function ends in a predicate. -/
theorem exists_predicate? {f : FunctionChain} (hcompare : f.compare = none)
    (hnames : f.names ≠ []) : ∃ name, f.predicate? = some name := by
  refine ⟨f.names.getLast hnames, ?_⟩
  rw [predicate?, hcompare]
  exact List.getLast?_eq_some_getLast hnames

end FunctionChain

namespace Comparison.Ready

variable {c : Comparison} {registry : Registry} {resource : Resource}

/-- The operand of a comparison without a chain: two bounds for a range. -/
theorem bounds_of_plain (hfunction : c.function = none)
    {attr : Attribute} {operand : Operand} (hoperand : Operand.ofComparison c attr = .ok operand)
    (hrange : c.operator.positive = .range) : ∃ low high, operand = .bounds low high := by
  obtain ⟨low, high, hbounds, _⟩ := Operand.bounds_of_readFor (Operator.arity_range hrange)
    (Operand.readFor_of_ofComparison hfunction hoperand)
  exact ⟨low, high, hbounds⟩

/-- The operand of a compared chain: two bounds for a range. -/
theorem bounds_of_compared (hready : c.Ready registry resource) {f : FunctionChain}
    (hfunction : c.function = some f) {op : Operator} (hcompare : f.compare = some op)
    {attr : Attribute} {operand : Operand} (hoperand : Operand.ofComparison c attr = .ok operand)
    (hrange : op.positive = .range) : ∃ low high, operand = .bounds low high := by
  have hwell := hready.wellFormed
  rw [Comparison.WellFormed, hfunction] at hwell
  obtain ⟨low, high, hbounds, _⟩ := Operand.bounds_of_readFor (Operator.arity_range hrange)
    (Operand.readFor_of_compared hfunction hcompare (hwell.2.2 op hcompare).2 hoperand)
  exact ⟨low, high, hbounds⟩

end Comparison.Ready

namespace Request

variable {request : Request} {registry : Registry} {resource : Resource}

/-- The comparisons of a request that was read and is valid are ready. -/
theorem ready_of_valid
    (hread : ∀ f ∈ request.filter, f.Built Filter.IsReadLeaf)
    (hvalid : request.IsValid registry resource) :
    ∀ c ∈ request.comparisons, c.Ready registry resource := by
  intro c hmem
  obtain ⟨f, hf, hc⟩ := request.mem_comparisons.1 hmem
  have hleaf := Filter.mem_comparisons.1 hc
  exact ⟨(hread f hf).of_mem_leaves _ hleaf, hvalid.leaves f hf _ hleaf⟩

end Request

/-- What was found to load are the relations that are selected. -/
theorem Resource.mem_of_fetched {resource : Resource} {fetch : Fetch} {relations : List Relation}
    (hfetched : resource.fetched fetch = .ok relations) (relation : Relation) :
    relation ∈ relations ↔ fetch.Selects resource relation := by
  cases fetch with
  | none =>
      cases hfetched
      simp [Fetch.Selects]
  | all =>
      cases hfetched
      simp [Fetch.Selects]
  | named names =>
      rw [Resource.fetched] at hfetched
      induction names generalizing relations with
      | nil =>
          cases hfetched
          simp [Fetch.Selects]
      | cons name names ih =>
          rw [List.mapM_cons] at hfetched
          obtain ⟨first, hfirst, hrest⟩ := Result.bind_eq_ok.1 hfetched
          obtain ⟨others, hothers, hcons⟩ := Result.bind_eq_ok.1 hrest
          cases hcons
          have hsome : resource.relation? name = some first := by
            split at hfirst
            · rename_i hfound
              cases hfirst
              exact hfound
            · cases hfirst
          have htail := ih hothers
          simp only [Fetch.Selects] at htail ⊢
          rw [List.mem_cons, htail]
          simp [hsome, eq_comm]

namespace Fetch

theorem mem_insertSorted {name other : String} {names : List String} :
    other ∈ insertSorted name names ↔ other = name ∨ other ∈ names := by
  induction names with
  | nil => simp [insertSorted]
  | cons n names ih =>
      rw [insertSorted]
      split
      · exact List.mem_cons
      · split
        · rename_i heq
          simp [heq]
        · rw [List.mem_cons, ih, List.mem_cons]
          exact or_left_comm

/-- A name is put in its place, unless it is there. -/
theorem pairwise_insertSorted (name : String) {names : List String}
    (hsorted : names.Pairwise (· < ·)) : (insertSorted name names).Pairwise (· < ·) := by
  induction names with
  | nil => exact List.pairwise_singleton _ _
  | cons n names ih =>
      obtain ⟨hfirst, hrest⟩ := List.pairwise_cons.1 hsorted
      rw [insertSorted]
      split
      · rename_i hless
        refine List.pairwise_cons.2 ⟨fun other hother => ?_, hsorted⟩
        rcases List.mem_cons.1 hother with rfl | hmem
        · exact hless
        · exact String.lt_trans hless (hfirst other hmem)
      · split
        · exact hsorted
        · rename_i hnotLess hne
          refine List.pairwise_cons.2 ⟨fun other hother => ?_, ih hrest⟩
          rcases mem_insertSorted.1 hother with rfl | hmem
          · exact Decidable.byContradiction fun hgreater =>
              hne (String.le_antisymm (String.not_lt.1 hgreater) (String.not_lt.1 hnotLess))
          · exact hfirst other hmem

/-- The names that a request gives are loaded once. -/
theorem nodup_sortedNames (names : List String) : (sortedNames names).Nodup := by
  have hsorted : ∀ seen : List String, seen.Pairwise (· < ·) →
      (names.foldl (fun acc name => insertSorted name acc) seen).Pairwise (· < ·) := by
    induction names with
    | nil => exact fun _ hseen => hseen
    | cons name names ih => exact fun seen hseen => ih _ (pairwise_insertSorted name hseen)
  exact (hsorted [] .nil).imp fun hless heq => absurd (heq ▸ hless) (String.lt_irrefl _)

/-- The names that a request gives are different. -/
def IsDistinct : Fetch → Prop
  | .named names => names.Nodup
  | .none | .all => True

theorem isDistinct_read (values : List String) : (read values).IsDistinct := by
  unfold read
  dsimp only
  split
  · trivial
  · split
    · trivial
    · exact nodup_sortedNames _

end Fetch

/-- A request that was read loads no relation twice. -/
theorem Request.fetch_ofParams {params : Params} {resource : Resource} {options : Options}
    {request : Request} (hread : Request.ofParams params resource options = .ok request) :
    request.fetch.IsDistinct := by
  obtain ⟨_, _, hread⟩ := Request.ofParams_eq_ok_iff.1 hread
  rw [hread.fetch]
  exact Fetch.isDistinct_read _

/-- What was found to load has different names, where the relations of the resource do. -/
theorem Resource.nodup_fetched {resource : Resource} {fetch : Fetch} {relations : List Relation}
    (hnames : (resource.relations.map (·.name)).Nodup) (hfetch : fetch.IsDistinct)
    (hfetched : resource.fetched fetch = .ok relations) : (relations.map (·.name)).Nodup := by
  cases fetch with
  | none =>
      cases hfetched
      exact .nil
  | all =>
      cases hfetched
      exact hnames
  | named names =>
      have hfound : relations.map (·.name) = names.map id := by
        refine Result.map_eq_of_mapM_eq_ok (fun name relation hrelation => ?_) hfetched
        split at hrelation
        · rename_i hsome
          cases hrelation
          unfold Resource.relation? at hsome
          simpa using List.find?_some hsome
        · cases hrelation
      rw [hfound, List.map_id]
      exact hfetch

/-- A relation that is to be loaded belongs to the resource. -/
theorem Fetch.Selects.mem {fetch : Fetch} {resource : Resource} {relation : Relation}
    (hselects : fetch.Selects resource relation) : relation ∈ resource.relations := by
  cases fetch with
  | none => cases hselects
  | all => exact hselects
  | named names =>
      obtain ⟨name, _, hrelation⟩ := hselects
      exact List.mem_of_find?_eq_some hrelation

end Listing
