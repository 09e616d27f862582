/-
# What validation and registration make sure of

The checks of a request and of a registry, turned into facts. Every path of a valid request leads
to an attribute, every comparison has an operand, and the relations that are to be loaded exist; in
a registry every relation leads to a registered resource. The compilers look all of this up again,
so these facts are what keeps their look-ups from failing.
-/
import Listing.Proofs.FilterTree
import Listing.Proofs.Refusal
import Listing.Validation

namespace Listing

namespace Resource

/-- Names that pass their check are different from each other and from those already seen. -/
theorem nodup_of_checkNames {resource : String} {seen names : List String}
    (hcheck : checkNames resource seen names = .ok ()) :
    names.Nodup ∧ ∀ name ∈ names, name ∉ seen := by
  induction names generalizing seen with
  | nil => exact ⟨.nil, nofun⟩
  | cons name names ih =>
      rw [checkNames] at hcheck
      split at hcheck
      · cases hcheck
      · split at hcheck
        · cases hcheck
        · rename_i hseen
          have hfresh : name ∉ seen := by simpa using hseen
          obtain ⟨hnodup, hrest⟩ := ih hcheck
          refine ⟨List.nodup_cons.2 ⟨fun hmem => hrest name hmem List.mem_cons_self, hnodup⟩, ?_⟩
          intro other hother
          rcases List.mem_cons.1 hother with rfl | hmem
          · exact hfresh
          · exact fun hbefore => hrest other hmem (List.mem_cons_of_mem _ hbefore)

/-- The relations of a resource that passes its check have different names. -/
theorem nodup_relations {r : Resource} (hcheck : r.check = .ok ()) :
    (r.relations.map (·.name)).Nodup := by
  obtain ⟨_, hnames, _⟩ := Result.bind_eq_ok.1 hcheck
  exact (List.nodup_append.1 (nodup_of_checkNames hnames).1).2.1

/-- Where names are different, what has a name is found by it. -/
theorem find?_of_nodup {α : Type} {name : α → String} {xs : List α}
    (hnodup : (xs.map name).Nodup) {x : α} (hx : x ∈ xs) :
    xs.find? (name · == name x) = some x := by
  obtain ⟨before, after, rfl⟩ := List.append_of_mem hx
  rw [List.map_append, List.map_cons, List.nodup_append] at hnodup
  refine List.find?_eq_some_iff_append.2 ⟨by simp, before, after, rfl, fun other hother => ?_⟩
  have hne := hnodup.2.2 (name other) (List.mem_map_of_mem hother) (name x) List.mem_cons_self
  simpa using hne

/-- A relation of a resource that passes its check is found by its name. -/
theorem relation?_of_mem {r : Resource} (hcheck : r.check = .ok ()) {relation : Relation}
    (hrelation : relation ∈ r.relations) : r.relation? relation.name = some relation :=
  find?_of_nodup (nodup_relations hcheck) hrelation

/-- An attribute of a resource that passes its check is found by its name. -/
theorem attribute?_of_mem {r : Resource} (hcheck : r.check = .ok ()) {attr : Attribute}
    (hattr : attr ∈ r.attributes) : r.attribute? attr.name = some attr := by
  obtain ⟨_, hnames, _⟩ := Result.bind_eq_ok.1 hcheck
  exact find?_of_nodup (List.nodup_append.1 (nodup_of_checkNames hnames).1).1 hattr

end Resource

namespace Registry

/-- A built registry holds the given entries, and has passed the checks of their relations. -/
theorem build_eq_ok {options : Options} {entries : List Entry} {registry : Registry}
    (hbuild : build options entries = .ok registry) :
    registry.entries = entries ∧ checkEntries [] entries = .ok () ∧
      registry.checkRelations = .ok () := by
  obtain ⟨_, hentries, hrest⟩ := Result.bind_eq_ok.1 hbuild
  obtain ⟨_, hrelations, hregistry⟩ := Result.bind_eq_ok.1 hrest
  cases hregistry
  exact ⟨rfl, hentries, hrelations⟩

/-- Every entry passes the check of its resource. -/
theorem check_of_mem {seen : List String} {entries : List Entry}
    (hchecked : checkEntries seen entries = .ok ()) : ∀ entry ∈ entries,
      entry.resource.check = .ok () := by
  induction entries generalizing seen with
  | nil => nofun
  | cons entry entries ih =>
      obtain ⟨_, hfirst, hrest⟩ := Result.bind_eq_ok.1 hchecked
      split at hrest
      · cases hrest
      · exact List.forall_mem_cons.2 ⟨hfirst, ih hrest⟩

/-- A relation of a registered resource leads to a registered resource. -/
theorem resource?_target {registry : Registry} (hchecked : registry.checkRelations = .ok ())
    {owner : Entry} (howner : owner ∈ registry.entries) {relation : Relation}
    (hrelation : relation ∈ owner.resource.relations) :
    ∃ target, registry.resource? relation.target = some target := by
  have hcheck := Result.forM_eq_ok.1 (Result.forM_eq_ok.1 hchecked owner howner) relation hrelation
  unfold checkRelation at hcheck
  cases htarget : registry.entry? relation.target with
  | none => simp [htarget] at hcheck
  | some target => exact ⟨target.resource, by simp [resource?, htarget]⟩

/-- A path that leads to an attribute walks all of its relations. -/
theorem walk_of_locate {registry : Registry} {start : Resource} {param : String} {path : Path}
    {located : Located} (hlocate : registry.locate start param path = .ok located) :
    registry.walk start path.relations = (located.route, none) := by
  obtain ⟨route, hroute, hattr⟩ := Result.bind_eq_ok.1 hlocate
  dsimp only at hattr
  split at hattr
  · cases hattr
    unfold Registry.route at hroute
    split at hroute
    · rename_i hwalk
      cases hroute
      exact hwalk
    · cases hroute
  · cases hattr

/-- A path leads to an attribute of the resource at the end of its route. -/
theorem attr_mem_of_locate {registry : Registry} {start : Resource} {param : String} {path : Path}
    {located : Located} (hlocate : registry.locate start param path = .ok located) :
    located.attr ∈ (located.route.destination start).attributes := by
  obtain ⟨route, _, hattr⟩ := Result.bind_eq_ok.1 hlocate
  dsimp only at hattr
  split at hattr
  · rename_i hfound
    cases hattr
    exact List.mem_of_find?_eq_some hfound
  · cases hattr

/-- A relation that is walked belongs to the first resource or to one that is registered, and leads
to its target. -/
theorem mem_walk {registry : Registry} {start : Resource} {names : List String} {hop : Hop}
    (hhop : hop ∈ (registry.walk start names).1) :
    (hop.relation ∈ start.relations ∨
      ∃ entry ∈ registry.entries, hop.relation ∈ entry.resource.relations) ∧
    registry.resource? hop.relation.target = some hop.target := by
  induction names generalizing start with
  | nil => simp [walk] at hhop
  | cons name names ih =>
      rw [walk] at hhop
      split at hhop
      · simp at hhop
      · rename_i first hfirst
        obtain ⟨relation, hrelation, hrest⟩ := Option.bind_eq_some_iff.1 hfirst
        obtain ⟨target, htarget, hmake⟩ := Option.bind_eq_some_iff.1 hrest
        cases hmake
        rcases List.mem_cons.1 hhop with rfl | htail
        · exact ⟨.inl (List.mem_of_find?_eq_some hrelation), htarget⟩
        · obtain ⟨howner | hregistered, hleads⟩ := ih htail
          · obtain ⟨entry, hentry, rfl⟩ := Option.map_eq_some_iff.1 htarget
            exact ⟨.inr ⟨entry, List.mem_of_find?_eq_some hentry, howner⟩, hleads⟩
          · exact ⟨.inr hregistered, hleads⟩

section Everywhere

variable {registry : Registry} {start : Resource} {p : Resource → Prop}
  (hentries : ∀ entry ∈ registry.entries, p entry.resource) (hstart : p start)

include hentries hstart

/-- What holds of every registered resource, and of the first one, holds of those that own the
relations of a walk and of those that it leads to. -/
theorem holds_of_walk {names : List String} {hop : Hop}
    (hhop : hop ∈ (registry.walk start names).1) :
    (∃ owner, p owner ∧ hop.relation ∈ owner.relations) ∧ p hop.target := by
  obtain ⟨howner, htarget⟩ := mem_walk hhop
  obtain ⟨entry, hentry, htarget⟩ := Option.map_eq_some_iff.1 htarget
  refine ⟨?_, htarget ▸ hentries entry (List.mem_of_find?_eq_some hentry)⟩
  rcases howner with hfirst | ⟨owner, howner, hrelation⟩
  · exact ⟨start, hstart, hfirst⟩
  · exact ⟨owner.resource, hentries owner howner, hrelation⟩

/-- It holds along the route to an attribute, and of the resource at its end. -/
theorem holds_of_locate {param : String} {path : Path} {located : Located}
    (hlocate : registry.locate start param path = .ok located) :
    (∀ hop ∈ located.route, ∃ owner, p owner ∧ hop.relation ∈ owner.relations) ∧
      p (located.route.destination start) := by
  have hwalked : ∀ hop ∈ located.route, hop ∈ (registry.walk start path.relations).1 := by
    rw [walk_of_locate hlocate]
    exact fun _ hhop => hhop
  refine ⟨fun hop hhop => (holds_of_walk hentries hstart (hwalked hop hhop)).1, ?_⟩
  rw [Route.destination]
  cases hlast : located.route.getLast? with
  | none => exact hstart
  | some hop => exact (holds_of_walk hentries hstart (hwalked hop (List.mem_of_getLast? hlast))).2

end Everywhere

/-- A path walks a relation with a property. -/
def Crosses (registry : Registry) (start : Resource) (path : Path) (p : Relation → Prop) : Prop :=
  ∃ hop ∈ (registry.walk start path.relations).1, p hop.relation

/-- What a path that was found crosses is on its route. -/
theorem crosses_iff_of_locate {registry : Registry} {start : Resource} {param : String}
    {path : Path} {located : Located} (hlocate : registry.locate start param path = .ok located)
    {p : Relation → Prop} :
    registry.Crosses start path p ↔ ∃ hop ∈ located.route, p hop.relation := by
  rw [Crosses, walk_of_locate hlocate]

end Registry

/-- A valid comparison finds its attribute, whose kind has the operator, and can be given an
operand. -/
theorem Comparison.validate_eq_ok {c : Comparison} {registry : Registry} {resource : Resource}
    (hvalid : c.validate registry resource = .ok ()) :
    ∃ located operand, registry.locate resource c.param c.path = .ok located ∧
      c.operator.accepts located.attr.kind = true ∧
      Operand.ofComparison c located.attr = .ok operand := by
  obtain ⟨located, hlocate, hrest⟩ := Result.bind_eq_ok.1 hvalid
  dsimp only at hrest
  split at hrest
  · cases hrest
  · rename_i haccepts
    obtain ⟨operand, hoperand, _⟩ := Result.bind_eq_ok.1 hrest
    exact ⟨located, operand, hlocate, by simpa using haccepts, hoperand⟩

/-- The parts of a valid request. -/
structure Request.IsValid (request : Request) (registry : Registry) (resource : Resource) :
    Prop where
  leaves : ∀ filter ∈ request.filter, ∀ leaf ∈ filter.leaves,
    leaf.validateLeaf registry resource = .ok ()
  order : ∀ item ∈ request.order, item.validate registry resource = .ok ()
  metrics : ∀ m ∈ request.aggregate.metrics, m.validate registry resource = .ok ()
  groups : ∀ path ∈ request.aggregate.groupBy, validateGroup registry resource path = .ok ()
  fetched : ∃ relations, resource.fetched request.fetch = .ok relations

theorem Request.isValid_of_validate {request : Request} {registry : Registry}
    {resource : Resource} (hvalid : request.validate registry resource = .ok ()) :
    request.IsValid registry resource := by
  obtain ⟨_, hleaves, hrest⟩ := Result.bind_eq_ok.1 hvalid
  obtain ⟨_, horder, hrest⟩ := Result.bind_eq_ok.1 hrest
  obtain ⟨_, hmetrics, hrest⟩ := Result.bind_eq_ok.1 hrest
  obtain ⟨_, hgroups, hrest⟩ := Result.bind_eq_ok.1 hrest
  obtain ⟨relations, hfetched, _⟩ := Result.bind_eq_ok.1 hrest
  refine ⟨?_, Result.forM_eq_ok.1 horder, Result.forM_eq_ok.1 hmetrics,
    Result.forM_eq_ok.1 hgroups, ⟨relations, hfetched⟩⟩
  intro filter hfilter
  have hvisit : filter.forEachLeaf (Filter.validateLeaf registry resource) = .ok () := by
    rwa [hfilter] at hleaves
  rw [Filter.forEachLeaf_eq] at hvisit
  exact Result.forM_eq_ok.1 hvisit

/-- An attribute to sort by is found. -/
theorem OrderItem.locate_of_validate {item : OrderItem} {registry : Registry}
    {resource : Resource} (hvalid : item.validate registry resource = .ok ()) :
    ∃ located, registry.locate resource Param.order item.path = .ok located := by
  obtain ⟨located, hlocate, _⟩ := Result.bind_eq_ok.1 hvalid
  exact ⟨located, hlocate⟩

/-- The attribute of a total is found. -/
theorem Metric.locate_of_validate {m : Metric} {registry : Registry} {resource : Resource}
    (hvalid : m.validate registry resource = .ok ()) {path : Path} (hpath : m.path = some path) :
    ∃ located, registry.locate resource Param.totals path = .ok located := by
  rw [Metric.validate, hpath] at hvalid
  obtain ⟨located, hlocate, _⟩ := Result.bind_eq_ok.1 hvalid
  exact ⟨located, hlocate⟩

/-- The attribute of a group is found. -/
theorem locate_of_validateGroup {registry : Registry} {resource : Resource} {path : Path}
    (hvalid : validateGroup registry resource path = .ok ()) :
    ∃ located, registry.locate resource Param.groupBy path = .ok located := by
  obtain ⟨located, hlocate, _⟩ := Result.bind_eq_ok.1 hvalid
  exact ⟨located, hlocate⟩

namespace Operator

theorem arity_positive (op : Operator) : op.positive.arity = op.arity := by cases op <;> rfl

/-- Only one positive operator takes two bounds. -/
theorem arity_range {op : Operator} (hop : op.positive = .range) : op.arity = .range := by
  rw [← arity_positive, hop]
  rfl

end Operator

namespace Operand

/-- The operand of an operator for one value. -/
theorem one_of_readFor {op : Operator} (harity : op.arity = .binary) {kind elementKind : Kind}
    {value : Json} {operand : Operand} (hread : readFor op kind elementKind value = .ok operand) :
    ∃ s, readSingle op kind value = .ok s ∧ operand = .one s := by
  rw [readFor, harity] at hread
  obtain ⟨s, hs, hoperand⟩ := Result.bind_eq_ok.1 hread
  cases hoperand
  exact ⟨s, hs, rfl⟩

/-- The operand of an operator for a list. -/
theorem many_of_readFor {op : Operator} (harity : op.arity = .list) {kind elementKind : Kind}
    {value : Json} {operand : Operand} (hread : readFor op kind elementKind value = .ok operand) :
    ∃ given items, readList op value = .ok given ∧
      given.mapM (Scalar.read (itemKind op kind elementKind)) = .ok items ∧
      operand = .many items := by
  rw [readFor, harity] at hread
  obtain ⟨given, hgiven, hrest⟩ := Result.bind_eq_ok.1 hread
  obtain ⟨items, hitems, hoperand⟩ := Result.bind_eq_ok.1 hrest
  cases hoperand
  exact ⟨given, items, hgiven, hitems, rfl⟩

/-- The bounds of a range are two values of the kind. -/
theorem bounds_of_readFor {op : Operator} (harity : op.arity = .range) {kind elementKind : Kind}
    {value : Json} {operand : Operand} (hread : readFor op kind elementKind value = .ok operand) :
    ∃ low high, operand = .bounds low high ∧ (∃ v, Scalar.read kind v = .ok low) ∧
      ∃ v, Scalar.read kind v = .ok high := by
  rw [readFor, harity] at hread
  obtain ⟨items, _, hitems⟩ := Result.bind_eq_ok.1 hread
  split at hitems
  · obtain ⟨a, ha, hrest⟩ := Result.bind_eq_ok.1 hitems
    obtain ⟨b, hb, hoperand⟩ := Result.bind_eq_ok.1 hrest
    cases hoperand
    unfold between
    split
    · exact ⟨b, a, rfl, ⟨_, hb⟩, ⟨_, ha⟩⟩
    · exact ⟨a, b, rfl, ⟨_, ha⟩, ⟨_, hb⟩⟩
  · cases hitems

/-- The operand of a comparison without a chain is read for the kind of the attribute. -/
theorem readFor_of_ofComparison {c : Comparison} {attr : Attribute} {operand : Operand}
    (hfunction : c.function = .none) (hoperand : ofComparison c attr = .ok operand) :
    readFor c.operator attr.kind attr.elementKind c.value = .ok operand := by
  rw [ofComparison, hfunction] at hoperand
  dsimp only at hoperand
  split at hoperand
  · rename_i hread
    cases hoperand
    exact hread
  · cases hoperand

/-- The operand of a compared chain is read without regard to the attribute. -/
theorem readFor_of_compared {c : Comparison} {attr : Attribute} {operand : Operand}
    {f : FunctionChain} {op : Operator} (hfunction : c.function = some f)
    (hcompare : f.compare = some op) (hpredicate : c.operator ≠ .predicate)
    (hoperand : ofComparison c attr = .ok operand) :
    readFor op .scalar .scalar c.value = .ok operand := by
  rw [ofComparison, hfunction] at hoperand
  simp only [hpredicate, if_false, hcompare] at hoperand
  split at hoperand
  · rename_i hread
    cases hoperand
    exact hread
  · cases hoperand

end Operand
end Listing
