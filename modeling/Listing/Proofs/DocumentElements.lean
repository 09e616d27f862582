/-
# Comparisons of the elements of a list

Comparisons that go through one relation to many compile, in a document store, to filters on paths
below the field of the relation. A filter on such a path is the one that the comparison has on an
element by itself, put below the field. What a conjunction of them says follows: on a list with one
element it says that the element satisfies all of them; on longer lists it says only, of
comparisons that one value can meet, that for each of them there is some element.

So the conjunction does not ask for one element that satisfies all, as a search index does with
one clause on the objects of the list.
-/
import Listing.Document.Condition
import Listing.Proofs.Refusal
import Listing.Proofs.RouteOrder
import Listing.Proofs.Semantics.DocumentLists
import Listing.Proofs.Support.Document
import Listing.Proofs.Validity
import Listing.SearchIndex.Condition

namespace Listing

/-- An attribute that is found through some relations is found from their end. -/
theorem Registry.locate_append {registry : Registry} {start : Resource} {param attr : String}
    {names rest : List String} {route : Route} {located : Located}
    (hwalk : registry.walk start names = (route, none))
    (hlocate : registry.locate start param ⟨names ++ rest, attr⟩ = .ok located) :
    registry.locate (route.destination start) param ⟨rest, attr⟩ =
        .ok { located with route := (registry.walk (route.destination start) rest).1 } ∧
      located.route = route ++ (registry.walk (route.destination start) rest).1 := by
  have hwhole := walk_of_locate hlocate
  rw [walk_append hwalk, Prod.mk.injEq] at hwhole
  obtain ⟨hroute, hbad⟩ := hwhole
  refine ⟨?_, hroute.symm⟩
  cases hrest : registry.walk (route.destination start) rest with
  | mk further bad =>
      rw [hrest] at hbad
      cases hbad
      simp only [locate, Registry.route, walk_append hwalk, hrest, bind, Except.bind,
        Route.destination_append] at hlocate ⊢
      cases hattr : (Route.destination (route.destination start) further).attribute? attr with
      | none => simp [hattr] at hlocate
      | some found =>
          rw [hattr] at hlocate
          cases hlocate
          rfl

/-- The comparison from the end of the first relations on. -/
def Comparison.beyond (c : Comparison) (count : Nat) : Comparison :=
  { c with path := ⟨c.path.relations.drop count, c.path.attr⟩ }

/-- The operators that one value of a path can meet. -/
def Operator.isPointwise : Operator → Bool
  | .exact | .gt | .gte | .lt | .lte | .among | .overlap | .isNull | .iexact | .icontains
  | .startsWith | .istartsWith | .endsWith | .iendsWith | .hasKey | .hasAny => true
  | _ => false

theorem Operator.positive_of_isPointwise {op : Operator} (hop : op.isPointwise = true) :
    op.positive = op ∧ op.isNegated = false := by
  cases op <;> first
    | exact ⟨rfl, rfl⟩
    | cases hop

namespace Document

/-- The same target for the resource at the end of a route. -/
def Target.atEnd (t : Target) (route : Route) : Target :=
  { t with resource := route.destination t.resource }

/-- Below what a route reaches, a name lies where it lies below the rest of the route, if that is
embedded. -/
theorem below_append {stem field : String} {before : Route}
    (hfield : fieldOfReversed stem before = some field) {rest : Route}
    (hembedded : ∀ hop ∈ rest, hop.relation.embedded = true) (name : String) :
    below (fieldOfReversed stem (rest ++ before)) name =
      field ++ "." ++ below (fieldOfReversed stem rest) name := by
  induction rest generalizing name with
  | nil =>
      rw [List.nil_append, hfield]
      rfl
  | cons hop rest ih =>
      have hhop := hembedded hop List.mem_cons_self
      have hrest := ih fun other hother => hembedded other (List.mem_cons_of_mem hop hother)
      rw [List.cons_append, fieldOfReversed, fieldOfReversed, if_pos hhop, if_pos hhop, hrest]
      simp [below, String.append_assoc]

/-- The field of an attribute whose route goes on inside of what another route reaches. -/
theorem fieldOf_append {stem field : String} {route rest : Route}
    (hfield : fieldOfRoute stem route = some field)
    (hembedded : ∀ hop ∈ rest, hop.relation.embedded = true) (attr : Attribute)
    (owner : Resource) :
    fieldOf stem ⟨attr, owner, route ++ rest⟩ =
      field ++ "." ++ fieldOf stem ⟨attr, owner, rest⟩ := by
  unfold fieldOf fieldOfRoute
  dsimp only
  rw [List.reverse_append]
  exact below_append hfield (fun hop hhop => hembedded hop (List.mem_reverse.1 hhop)) _

section FieldFilter

variable {param : String} {op : Operator} {attr : Attribute} {field path : String}
  {operand : Operand}

theorem containment_under : containment (field ++ "." ++ path) =
    fun item => (containment path item).map (Filter.under field) := by
  funext item
  cases item with
  | object entries => simp [containment, Filter.under, String.append_assoc]
  | _ => rfl

theorem hasKey_under :
    hasKey (field ++ "." ++ path) = fun key => (hasKey path key).under field := by
  funext key
  simp [hasKey, Filter.under, String.append_assoc]

/-- An operator that computes nothing puts the same filter below a field as on a document by
itself. -/
theorem fieldFilter_under (hundated : op ∉ [Operator.year, .month, .day]) :
    fieldFilter param op attr (field ++ "." ++ path) operand =
      Filter.under field <$> fieldFilter param op attr path operand := by
  unfold fieldFilter
  cases op
  case range => cases operand <;> rfl
  case contains =>
    dsimp only
    split
    · rfl
    · simp only [Functor.map, Except.map, Filter.under_all, List.map_flatMap, containment_under]
  case hasKey => simp only [Functor.map, Except.map, hasKey_under]
  case hasAll =>
    simp only [Functor.map, Except.map, Filter.under_all, List.map_map, Function.comp_def,
      hasKey_under]
  case hasAny =>
    simp only [Functor.map, Except.map, Filter.under, Filter.underEach_eq_map, List.map_map,
      Function.comp_def, hasKey_under]
  case year | month | day => simp at hundated
  all_goals rfl

/-- An operator that computes nothing gives a filter that computes nothing. -/
theorem isPlain_fieldFilter (hundated : op ∉ [Operator.year, .month, .day]) {f : Filter}
    (hfilter : fieldFilter param op attr path operand = .ok f) : f.isPlain = true := by
  unfold fieldFilter at hfilter
  cases op
  case range =>
    cases operand <;> cases hfilter
    rfl
  case contains =>
    dsimp only at hfilter
    split at hfilter
    · cases hfilter
      rfl
    · cases hfilter
      refine Filter.isPlain_all fun f hf => ?_
      obtain ⟨item, _, hf⟩ := List.mem_flatMap.1 hf
      cases item with
      | object entries =>
          obtain ⟨entry, _, rfl⟩ := List.mem_map.1 hf
          rfl
      | _ =>
          rw [List.mem_singleton.1 hf]
          rfl
  case hasAll =>
    cases hfilter
    refine Filter.isPlain_all fun f hf => ?_
    obtain ⟨key, _, rfl⟩ := List.mem_map.1 hf
    rfl
  case hasAny =>
    cases hfilter
    rw [Filter.isPlain, Filter.arePlain_eq_all, List.all_map, List.all_eq_true]
    intro key _
    rfl
  case year | month | day => simp at hundated
  all_goals first
    | (cases hfilter; rfl)
    | cases hfilter

/-- A pointwise operator gives a filter that one value meets. -/
theorem isPointwise_fieldFilter (hop : op.isPointwise = true) {f : Filter}
    (hfilter : fieldFilter param op attr path operand = .ok f) : f.IsPointwise := by
  unfold fieldFilter at hfilter
  cases op
  case hasAny =>
    cases hfilter
    refine .or _ fun f hf => ?_
    obtain ⟨key, _, rfl⟩ := List.mem_map.1 hf
    exact .field _ _ rfl
  all_goals first
    | (cases hfilter; exact .field _ _ rfl)
    | cases hop

end FieldFilter

namespace Target

/-- Names that lead from the resource to what a field of its documents holds. -/
structure Reaches (t : Target) (stem : String) (names : List String) (route : Route)
    (field : String) : Prop where
  walk : t.registry.walk t.resource names = (route, none)
  field : fieldOfRoute stem route = some field

/-- A comparison of the elements at the end of a route: it goes through the route and then stays
inside of the elements, and it computes nothing. -/
structure ComparesElements (t : Target) (names : List String) (route : Route) (c : Comparison) :
    Prop where
  through : names <+: c.path.relations
  inside : ∀ hop ∈ (t.registry.walk (route.destination t.resource)
    (c.path.relations.drop names.length)).1, hop.relation.embedded = true
  plain : c.function = none
  undated : c.operator.positive ∉ [Operator.year, .month, .day]

variable {t : Target} {stem field : String} {names : List String} {route : Route}

/-- What a comparison without functions compiles to. -/
theorem comparison_eq_ok {c : Comparison} (hplain : c.function = none) {f : Filter} :
    t.comparison stem c = .ok f ↔ ∃ located operand g,
      t.registry.locate t.resource c.param c.path = .ok located ∧
      Operand.ofComparison c located.attr = .ok operand ∧
      fieldFilter c.param c.operator.positive located.attr (fieldOf stem located) operand = .ok g ∧
      Filter.negateIf c.operator.isNegated g = f := by
  unfold comparison
  rw [hplain]
  simp only [Result.bind_eq_ok, pure, Except.pure, Except.ok.injEq, exists_and_left]

/-- A comparison of elements compiles to the filter that it has on an element by itself, put below
the field of the elements. -/
theorem comparison_eq_under (hreaches : t.Reaches stem names route field) {c : Comparison}
    (hcompares : t.ComparesElements names route c) {f : Filter}
    (hcompile : t.comparison stem c = .ok f) :
    ∃ g, (t.atEnd route).comparison stem (c.beyond names.length) = .ok g ∧ f = g.under field ∧
      g.isPlain = true ∧ (c.operator.isPointwise = true → g.IsPointwise) := by
  obtain ⟨rest, hrest⟩ := hcompares.through
  have hdrop : c.path.relations.drop names.length = rest := by
    rw [← hrest, List.drop_left]
  have hinside := hcompares.inside
  rw [hdrop] at hinside
  obtain ⟨located, operand, positive, hlocate, hoperand, hpositive, rfl⟩ :=
    (comparison_eq_ok hcompares.plain).1 hcompile
  have hpath : c.path = ⟨names ++ rest, c.path.attr⟩ := by rw [hrest]
  rw [hpath] at hlocate
  obtain ⟨hlocateEnd, hroute⟩ := Registry.locate_append hreaches.walk hlocate
  have hfield := fieldOf_append hreaches.field hinside located.attr located.owner
  rw [← hroute] at hfield
  rw [hfield, fieldFilter_under hcompares.undated] at hpositive
  obtain ⟨g, hg, rfl⟩ := Result.map_eq_ok.1 hpositive
  refine ⟨.negateIf c.operator.isNegated g, ?_, (Filter.under_negateIf field _ g).symm, ?_, ?_⟩
  · have hbeyond : (c.beyond names.length).path = ⟨rest, c.path.attr⟩ := by
      rw [Comparison.beyond, hdrop]
    have hplain : (c.beyond names.length).function = none := hcompares.plain
    refine (comparison_eq_ok hplain).2 ⟨{ located with
      route := (t.registry.walk (route.destination t.resource) rest).1 }, operand, g, ?_,
      hoperand, hg, rfl⟩
    rw [hbeyond]
    exact hlocateEnd
  · rw [Filter.isPlain_negateIf]
    exact isPlain_fieldFilter hcompares.undated hg
  · intro hpointwise
    obtain ⟨hpositive, hnegated⟩ := Operator.positive_of_isPointwise hpointwise
    rw [hnegated]
    rw [hpositive] at hg
    exact isPointwise_fieldFilter hpointwise hg

/-- An element satisfies a comparison: the filter that it has on an element by itself holds. -/
def Satisfies (t : Target) (engine : ListEngine) (stem : String) (names : List String)
    (route : Route) (element : Values) (c : Comparison) : Prop :=
  ∃ g, (t.atEnd route).comparison stem (c.beyond names.length) = .ok g ∧
    engine.holds element g = true

/-- A document satisfies a filter of a request. -/
def Accepts (t : Target) (engine : ListEngine) (stem : String) (values : Values)
    (f : Listing.Filter) : Prop :=
  ∃ g, t.condition stem f = .ok g ∧ engine.holds values g = true

/-- A comparison that goes through some relations, and maybe further. -/
def through? (names : List String) : Listing.Filter → Option Comparison
  | .comparison c => if names <+: c.path.relations then some c else none
  | _ => none

/-- The comparisons among the children of a node that go through some relations. -/
def comparisonsThrough (names : List String) (children : List Listing.Filter) : List Comparison :=
  children.filterMap (through? names)

/-- The other children of a node. -/
def othersThan (names : List String) (children : List Listing.Filter) : List Listing.Filter :=
  children.filter fun child => (through? names child).isNone

theorem eq_of_through? {child : Listing.Filter} {c : Comparison}
    (hthrough : through? names child = some c) : child = .comparison c := by
  unfold through? at hthrough
  split at hthrough
  · split at hthrough
    · rw [Option.some.inj hthrough]
    · cases hthrough
  · cases hthrough

/-- The children of a node are its comparisons through some relations and the others. -/
theorem forall_mem_children {children : List Listing.Filter} {p : Listing.Filter → Prop} :
    (∀ child ∈ children, p child) ↔
      (∀ c ∈ comparisonsThrough names children, p (.comparison c)) ∧
        ∀ other ∈ othersThan names children, p other := by
  constructor
  · intro hall
    refine ⟨fun c hc => ?_, fun other hother => hall other (List.mem_filter.1 hother).1⟩
    obtain ⟨child, hchild, hthrough⟩ := List.mem_filterMap.1 hc
    rw [← eq_of_through? hthrough]
    exact hall child hchild
  · rintro ⟨hcomparisons, hothers⟩ child hchild
    cases hthrough : through? names child with
    | none => exact hothers child (List.mem_filter.2 ⟨hchild, by simp [hthrough]⟩)
    | some c =>
        rw [eq_of_through? hthrough]
        exact hcomparisons c (List.mem_filterMap.2 ⟨child, hchild, hthrough⟩)

variable {engine : ListEngine} {values : Values} {elements : List Values}
  {children : List Listing.Filter} {f : Filter}

/-- Whether a document satisfies a filter is decided by what the filter compiles to. -/
theorem accepts_iff {given : Listing.Filter} (hcompile : t.condition stem given = .ok f) :
    t.Accepts engine stem values given ↔ engine.holds values f = true :=
  Result.exists_ok_iff hcompile

/-- A document satisfies a conjunction if it satisfies each child. -/
theorem accepts_and (hcompile : t.condition stem (.node .and children) = .ok f) :
    t.Accepts engine stem values (.node .and children) ↔
      ∀ child ∈ children, t.Accepts engine stem values child := by
  rw [accepts_iff hcompile]
  rw [condition, conditions_eq_mapM] at hcompile
  obtain ⟨parts, hparts, hf⟩ := Result.bind_eq_ok.1 hcompile
  cases hf
  rw [ListEngine.holds_and]
  constructor
  · intro hholds child hchild
    obtain ⟨part, hpart, hcondition⟩ := Result.mapM_eq_ok_mem hparts hchild
    exact ⟨part, hcondition, hholds part hpart⟩
  · intro hchildren part hpart
    obtain ⟨child, hchild, hcondition⟩ := Result.mem_of_mapM_eq_ok hparts hpart
    exact (accepts_iff hcondition).1 (hchildren child hchild)

/-- Every child of a conjunction that compiles does so itself. -/
theorem condition_of_mem_comparisonsThrough
    (hcompile : t.condition stem (.node .and children) = .ok f) {c : Comparison}
    (hc : c ∈ comparisonsThrough names children) :
    ∃ g, t.condition stem (.comparison c) = .ok g := by
  rw [condition, conditions_eq_mapM] at hcompile
  obtain ⟨parts, hparts, _⟩ := Result.bind_eq_ok.1 hcompile
  obtain ⟨child, hchild, hthrough⟩ := List.mem_filterMap.1 hc
  obtain ⟨g, _, hg⟩ := Result.mapM_eq_ok_mem hparts hchild
  rw [eq_of_through? hthrough] at hg
  exact ⟨g, hg⟩

section Conjunction

variable (hreaches : t.Reaches stem names route field)
  (hcompile : t.condition stem (.node .and children) = .ok f)
  (hcompares : ∀ c ∈ comparisonsThrough names children, t.ComparesElements names route c)

include hreaches hcompile hcompares

/-- What a comparison among the children says of a document is said of what lies below the field,
in the words of the comparison of an element. -/
theorem exists_accepts_iff {c : Comparison} (hc : c ∈ comparisonsThrough names children) :
    ∃ g : Filter, g.isPlain = true ∧ (c.operator.isPointwise = true → g.IsPointwise) ∧
      (t.Accepts engine stem values (.comparison c) ↔
        engine.holds values (g.under field) = true) ∧
      ∀ element, t.Satisfies engine stem names route element c ↔
        engine.holds element g = true := by
  obtain ⟨f', hcondition⟩ := condition_of_mem_comparisonsThrough hcompile hc
  have haccepts : t.Accepts engine stem values (.comparison c) ↔
      engine.holds values f' = true := accepts_iff hcondition
  rw [condition] at hcondition
  obtain ⟨g, hg, rfl, hplain, hpointwise⟩ :=
    comparison_eq_under hreaches (hcompares c hc) hcondition
  exact ⟨g, hplain, hpointwise, haccepts, fun element => Result.exists_ok_iff hg⟩

variable (hstores : Stores values field elements)

include hstores

/-- On a list of any length a conjunction of comparisons that one value can meet says of each of
them that some element satisfies it, and not that one element satisfies all. -/
theorem accepts_and_iff_each
    (hpointwise : ∀ c ∈ comparisonsThrough names children, c.operator.isPointwise = true) :
    t.Accepts engine stem values (.node .and children) ↔
      (∀ c ∈ comparisonsThrough names children,
        ∃ element ∈ elements, t.Satisfies engine stem names route element c) ∧
      ∀ other ∈ othersThan names children, t.Accepts engine stem values other := by
  rw [accepts_and hcompile, forall_mem_children]
  refine and_congr_left fun _ => forall₂_congr fun c hc => ?_
  obtain ⟨g, _, hpoint, haccepts, hsatisfies⟩ :=
    exists_accepts_iff hreaches hcompile hcompares hc
  rw [haccepts, ListEngine.holds_under_of_pointwise hstores (hpoint (hpointwise c hc)),
    List.any_eq_true]
  exact exists_congr fun element => and_congr_right fun _ => (hsatisfies element).symm

/-- On a list of one element a conjunction says that the element satisfies all comparisons. -/
theorem accepts_and_iff_element (hsingle : elements.length = 1) :
    t.Accepts engine stem values (.node .and children) ↔
      (∃ element ∈ elements, ∀ c ∈ comparisonsThrough names children,
        t.Satisfies engine stem names route element c) ∧
      ∀ other ∈ othersThan names children, t.Accepts engine stem values other := by
  obtain ⟨element, rfl⟩ := List.length_eq_one_iff.1 hsingle
  have hself : (∃ e ∈ [element], ∀ c ∈ comparisonsThrough names children,
      t.Satisfies engine stem names route e c) ↔ ∀ c ∈ comparisonsThrough names children,
        t.Satisfies engine stem names route element c := by simp
  rw [accepts_and hcompile, forall_mem_children, hself]
  refine and_congr_left fun _ => forall₂_congr fun c hc => ?_
  obtain ⟨g, hplain, _, haccepts, hsatisfies⟩ :=
    exists_accepts_iff hreaches hcompile hcompares hc
  rw [haccepts, hsatisfies, ListEngine.holds_under hstores g hplain]

end Conjunction

end Target

namespace Wares

/-- Variants of a ware, which are stored inside of it. -/
def variant : Resource where
  name := "variant"
  storage := "variants"
  attributes := [{ name := "sku", kind := .string }, { name := "stock", kind := .numeric }]

def ware : Resource where
  name := "ware"
  storage := "wares"
  attributes := [{ name := "name", kind := .string }]
  relations := [.within "variants" "variant" true]

def target : Target where
  functions := []
  registry := { entries := [⟨ware, .documentWith []⟩, ⟨variant, .documentWith []⟩] }
  resource := ware

/-- A comparison of a number or a text of the variants. -/
def compare (attr : String) (operator : Operator) (value : Json) : Listing.Filter :=
  .comparison ⟨"variants__" ++ attr, ⟨["variants"], attr⟩, operator, none, value⟩

/-- The variant A, and a variant that is in stock. -/
def children : List Listing.Filter :=
  [compare "sku" .exact (.string "A"), compare "stock" .gt (.int 0)]

/-- A variant with a stock. -/
def item (sku : String) (stock : Rat) : Values := fun path =>
  if path = "sku" then [.text sku] else if path = "stock" then [.number stock] else []

/-- A ware with some variants; the first nine characters of a path lead to them. -/
def document (variants : List Values) : Values := fun path =>
  variants.flatMap fun element => element (String.ofList (path.toList.drop 9))

def engine : ListEngine where
  compare _ _ _ := false
  holdsAll _ _ := false
  regex _ _ _ := false
  expr _ _ := false
  computed _ _ := false

theorem stores_document (variants : List Values) :
    Stores (document variants) "variants" variants := by
  intro path
  simp [document]

theorem reaches_variants : target.Reaches Joins.defaultStem ["variants"]
    [⟨.within "variants" "variant" true, variant⟩] "variants" := ⟨rfl, rfl⟩

/-- The comparisons of the variants. -/
theorem comparisonsThrough_children : Target.comparisonsThrough ["variants"] children =
    [⟨"variants__sku", ⟨["variants"], "sku"⟩, .exact, none, .string "A"⟩,
      ⟨"variants__stock", ⟨["variants"], "stock"⟩, .gt, none, .int 0⟩] := rfl

theorem comparesElements_children : ∀ c ∈ Target.comparisonsThrough ["variants"] children,
    target.ComparesElements ["variants"] [⟨.within "variants" "variant" true, variant⟩] c := by
  intro c hc
  rw [comparisonsThrough_children] at hc
  simp only [List.mem_cons, List.not_mem_nil, or_false] at hc
  rcases hc with rfl | rfl
  · exact ⟨by decide, by simp [Registry.walk], rfl, by decide⟩
  · exact ⟨by decide, by simp [Registry.walk], rfl, by decide⟩

/-- What the conjunction compiles to. -/
def filter : Filter :=
  .and [.field "variants.sku" (.compare .eq (.string "A")),
    .field "variants.stock" (.compare .gt (.int 0))]

theorem condition_children :
    target.condition Joins.defaultStem (.node .and children) = .ok filter := rfl

/-- A ware whose only variant is A and is in stock is found. -/
theorem accepts_and_iff_element_single :
    target.Accepts engine Joins.defaultStem (document [item "A" 5]) (.node .and children) := by
  have hiff : target.Accepts engine Joins.defaultStem (document [item "A" 5])
      (.node .and children) ↔ _ :=
    Target.accepts_and_iff_element reaches_variants condition_children comparesElements_children
      (stores_document [item "A" 5]) rfl
  have hothers : Target.othersThan ["variants"] children = [] := rfl
  rw [hiff, hothers]
  refine ⟨⟨item "A" 5, List.mem_cons_self, fun c hc => ?_⟩, by simp⟩
  rw [comparisonsThrough_children] at hc
  simp only [List.mem_cons, List.not_mem_nil, or_false] at hc
  rcases hc with rfl | rfl
  · exact ⟨_, rfl, by decide⟩
  · exact ⟨_, rfl, by decide⟩

/-- A ware is found although no variant of it is both A and in stock, where a search index asks for
one variant that is both. -/
theorem accepts_and_of_two_elements :
    Stores (document [item "A" 0, item "B" 5]) "variants" [item "A" 0, item "B" 5] ∧
      target.Accepts engine Joins.defaultStem (document [item "A" 0, item "B" 5])
        (.node .and children) ∧
      (¬ ∃ element ∈ [item "A" 0, item "B" 5],
        ∀ c ∈ Target.comparisonsThrough ["variants"] children,
          target.Satisfies engine Joins.defaultStem ["variants"]
            [⟨.within "variants" "variant" true, variant⟩] element c) ∧
      SearchIndex.Target.condition ⟨target.registry, ware⟩ (.node .and children) =
        .ok ⟨.nested "variants" (.all [.term "variants.sku" (.string "A"),
          .range "variants.stock" [(.gt, .int 0)]]), []⟩ := by
  refine ⟨stores_document _, ⟨filter, condition_children, by decide⟩, ?_, rfl⟩
  rintro ⟨element, helement, hall⟩
  rw [comparisonsThrough_children, List.forall_mem_cons, List.forall_mem_singleton] at hall
  obtain ⟨⟨sku, hsku, hskuHolds⟩, stock, hstock, hstockHolds⟩ := hall
  cases hsku
  cases hstock
  simp only [List.mem_cons, List.not_mem_nil, or_false] at helement
  rcases helement with rfl | rfl
  · exact absurd hstockHolds (by decide)
  · exact absurd hskuHolds (by decide)

end Wares
end Document
end Listing
