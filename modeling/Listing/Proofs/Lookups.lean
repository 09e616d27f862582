/-
# Lookups leave every document once

The stages of a relation look up what it leads to, and unwind it if the relation is to one. They
leave one document for each that they are given as long as relations to one find at most one: then
all that they do is to put what was found under a label.

The local key of a reference is read from the listed document, or from what was put under the label
of its anchor. Neither changes when more is looked up, because all labels are different. A document
at the label of an anchor that is reached by relations to one is one of its collection, so it has a
single key as well.
-/
import Listing.Proofs.Semantics.FoundDocuments

namespace Listing

namespace Route

variable {route first : Route}

theorem isReference_iff :
    route.isReference = true ↔ ∃ hop ∈ route.getLast?, hop.relation.embedded = false := by
  cases hlast : route.getLast? <;> simp [isReference, hlast]

theorem anchor_prefix (route : Route) : route.anchor <+: route.dropLast := by
  rw [anchor]
  exact List.rdropWhile_prefix _ _

theorem anchor_begins (route : Route) : route.anchor <+: route :=
  route.anchor_prefix.trans (List.dropLast_prefix route)

/-- The beginning of a route up to its last reference. -/
def holder (route : Route) : Route := route.rdropWhile (·.relation.embedded)

/-- The path to a field at the end of a route, from the document that its last reference leads
to. -/
def pathTo (route : Route) (name : String) : String :=
  (route.rtakeWhile (·.relation.embedded)).foldr (·.relation.name ++ "." ++ ·) name

theorem holder_begins (route : Route) : route.holder <+: route := List.rdropWhile_prefix _ _

/-- Up to its last reference, a route ends with a reference. -/
theorem isReference_holder (hfirst : route.holder ≠ []) : route.holder.isReference = true := by
  refine isReference_iff.2 ⟨_, List.getLast?_eq_some_getLast hfirst, ?_⟩
  exact Bool.eq_false_iff.2 (List.rdropWhile_last_not _ _ hfirst)

/-- An anchor ends with a reference. -/
theorem isReference_anchor (hanchor : route.anchor ≠ []) : route.anchor.isReference = true :=
  isReference_holder hanchor

/-- A beginning of a route through relations to one goes through relations to one. -/
theorem isToMany_of_begins (hbegins : first <+: route) (hone : route.isToMany = false) :
    first.isToMany = false := by
  rw [isToMany, List.any_eq_false] at hone ⊢
  exact fun hop hhop => hone hop (hbegins.subset hhop)

/-- Whether the last relation of a route is a reference to many. -/
def endsInMany (route : Route) : Bool :=
  route.getLast?.any fun hop => hop.relation.many && !hop.relation.embedded

theorem isReference_of_endsInMany (hends : route.endsInMany = true) : route.isReference = true := by
  cases hlast : route.getLast? <;> simp_all [endsInMany, isReference]

theorem destination_of_last {start : Resource} {hop : Hop} (hlast : hop ∈ route.getLast?) :
    route.destination start = hop.target := by
  rw [destination, Option.mem_def.1 hlast]
  rfl

end Route

namespace Document

variable {store : Store} {routes : List Route} {route : Route} {hop : Hop} {start : Resource}

/-- The field that a name has at the end of a route: below the label of the last reference, or of
the listed document itself, at the end of the embedded relations that follow. -/
theorem below_fieldOfRoute (stem : String) (route : Route) (name : String) :
    below (fieldOfRoute stem route) name = if route.holder = [] then route.pathTo name
      else route.holder.aliasName stem ++ "." ++ route.pathTo name := by
  induction route using List.reverseRecOn generalizing name with
  | nil => rfl
  | append_singleton route hop ih =>
      have hfield : fieldOfRoute stem (route ++ [hop]) =
          if hop.relation.embedded
            then some (below (fieldOfRoute stem route) hop.relation.name)
            else some (Route.aliasName stem (route ++ [hop])) := by
        simp [fieldOfRoute, fieldOfReversed]
      rw [hfield]
      cases hembedded : hop.relation.embedded with
      | true =>
          have hnested : below (some (below (fieldOfRoute stem route) hop.relation.name)) name =
              below (fieldOfRoute stem route) (hop.relation.name ++ "." ++ name) := by
            cases fieldOfRoute stem route <;> simp [below, String.append_assoc]
          rw [if_pos rfl, hnested, ih]
          simp [Route.holder, Route.pathTo, hembedded]
      | false => simp [Route.holder, Route.pathTo, hembedded, below]

/-- The local field of the lookup at the end of a route. -/
def localField (route : Route) (hop : Hop) : String :=
  below (fieldOfRoute Joins.defaultStem route.dropLast) hop.relation.localKey

/-- The local field of a lookup holds the local keys of its relation. -/
theorem keysAt_localField (hplain : route.anchor ≠ [] → '.' ∉ route.anchor.label.toList) (d : Doc) :
    keysAt (localField route hop) d = Store.localKeys route hop d := by
  rw [localField, below_fieldOfRoute, Store.localKeys]
  by_cases hanchor : route.anchor = []
  · have hholder : Route.holder route.dropLast = [] := hanchor
    simp only [hholder, hanchor, if_true]
    rfl
  · have hholder : Route.holder route.dropLast ≠ [] := hanchor
    simp only [hholder, hanchor, if_false]
    exact keysAt_append (hplain hanchor) _ d

theorem labelsOf_append_reference (hreference : route.isReference = true) :
    labelsOf (routes ++ [route]) = labelsOf routes ++ [route.label] := by
  simp [labelsOf, hreference]

theorem label_mem_labelsOf (hroute : route ∈ routes) (hreference : route.isReference = true) :
    route.label ∈ labelsOf routes :=
  List.mem_map_of_mem (List.mem_filter.2 ⟨hroute, hreference⟩)

/-- The labels of more routes are more labels. -/
theorem labelsOf_subset_append (routes : List Route) (route : Route) :
    labelsOf routes ⊆ labelsOf (routes ++ [route]) := by
  rw [labelsOf, labelsOf, List.filter_append, List.map_append]
  exact List.subset_append_left _ _

namespace Store

section Attach

variable {label : String} {keys : List Json}

/-- What a relation leads to changes no field but its label. -/
theorem lookup_attach_ne {name : String} (hname : name ≠ label) (d : Doc) :
    (store.attach hop label keys d).lookup name = d.lookup name := by
  unfold attach
  dsimp only
  split
  · exact lookup_insertEntry_ne hname _ d
  · split
    · exact lookup_without_of_not_mem (by simpa using hname) d
    · exact lookup_insertEntry_ne hname _ d

/-- A relation to one puts a document of its target under its label, or nothing. -/
theorem lookup_attach_one (hone : hop.relation.many = false) (d : Doc) :
    ∀ v ∈ (store.attach hop label keys d).lookup label,
      ∃ r ∈ store.documents hop.target.storage, v = .object r := by
  intro v hv
  unfold attach at hv
  simp only [hone, Bool.false_eq_true, if_false] at hv
  split at hv
  · rw [lookup_without_self] at hv
    cases hv
  · rename_i r rest hfound
    rw [lookup_insertEntry_self] at hv
    cases hv
    refine ⟨r, ?_, rfl⟩
    have hmem : r ∈ store.related hop.target.storage hop.relation.foreignKey keys :=
      hfound ▸ List.mem_cons_self
    exact (List.mem_filter.1 hmem).1

/-- Unwinding the list of at most one found document puts this document in its place. -/
theorem unwound_eq_attach (hone : hop.relation.many = false) (d : Doc)
    (hfound : (store.related hop.target.storage hop.relation.foreignKey keys).length ≤ 1) :
    unwound label true (insertEntry label (.array
      ((store.related hop.target.storage hop.relation.foreignKey keys).map .object)) d) =
        [store.attach hop label keys d] := by
  rw [unwound_insertEntry, attach]
  simp only [hone, Bool.false_eq_true, if_false]
  match store.related hop.target.storage hop.relation.foreignKey keys, hfound with
  | [], _ => rfl
  | [r], _ => rfl

/-- The stages of a relation put what it leads to under its label, if a relation to one finds at
most one document. -/
theorem runs_lookupStages {localField : String} {docs : List Doc}
    (hfound : hop.relation.many = false → ∀ d ∈ docs, (store.related hop.target.storage
      hop.relation.foreignKey (keysAt localField d)).length ≤ 1) (out : List Doc) :
    store.Runs (lookupStages hop.relation hop.target.storage localField label) docs out ↔
      out = docs.map fun d => store.attach hop label (keysAt localField d) d := by
  cases hmany : hop.relation.many with
  | true =>
      have hattach : ∀ d : Doc, store.attach hop label (keysAt localField d) d =
          insertEntry label (.array ((store.related hop.target.storage hop.relation.foreignKey
            (keysAt localField d)).map .object)) d := fun d => by simp [attach, hmany]
      rw [lookupStages, hmany, if_pos rfl, runs_single, Leaves]
      simp only [hattach]
  | false =>
      have hunwound : ∀ d ∈ docs, unwound label true (insertEntry label (.array
          ((store.related hop.target.storage hop.relation.foreignKey
            (keysAt localField d)).map .object)) d) =
              [store.attach hop label (keysAt localField d) d] :=
        fun d hd => unwound_eq_attach hmany d (hfound hmany d hd)
      simp only [lookupStages, hmany, Bool.false_eq_true, if_false, Runs, Leaves, exists_eq_left,
        List.flatMap_map]
      rw [List.flatMap_congr hunwound, ← List.map_eq_flatMap]

end Attach

theorem followAll_append (d : Doc) :
    store.followAll (routes ++ [route]) d = store.follow route (store.followAll routes d) := by
  rw [followAll, List.foldl_append]
  rfl

theorem follow_reference (hlast : hop ∈ route.getLast?) (hreference : hop.relation.embedded = false)
    (d : Doc) :
    store.follow route d = store.attach hop route.label (localKeys route hop d) d := by
  rw [follow, Option.mem_def.1 hlast]
  simp [hreference]

theorem follow_of_not_reference (hreference : route.isReference = false) (d : Doc) :
    store.follow route d = d := by
  cases hlast : route.getLast? with
  | none => simp [follow, hlast]
  | some hop =>
      have hembedded : hop.relation.embedded = true := by
        simpa [Route.isReference, hlast] using hreference
      simp [follow, hlast, hembedded]

/-- What is known of a document from which routes were followed: only labels were added to it, and
a label that is reached by relations to one holds a document of its collection. -/
structure Extends (store : Store) (routes : List Route) (listed d : Doc) : Prop where
  own : ∀ name ∉ labelsOf routes, d.lookup name = listed.lookup name
  one : ∀ route ∈ routes, ∀ hop ∈ route.getLast?, hop.relation.embedded = false →
    route.isToMany = false →
    ∀ v ∈ d.lookup route.label, ∃ r ∈ store.documents hop.target.storage, v = .object r

variable {listed d : Doc}

theorem extends_refl (d : Doc) : store.Extends [] d d :=
  ⟨fun _ _ => rfl, fun _ hroute => nomatch hroute⟩

/-- Following one more route keeps what is known. -/
theorem Extends.follow (hextends : store.Extends routes listed d)
    (hdistinct : (labelsOf (routes ++ [route])).Nodup) :
    store.Extends (routes ++ [route]) listed (store.follow route d) := by
  cases hreference : route.isReference with
  | true =>
      obtain ⟨hop, hlast, hseparate⟩ := Route.isReference_iff.1 hreference
      rw [labelsOf_append_reference hreference] at hdistinct
      have hfresh : route.label ∉ labelsOf routes := fun hmem =>
        (List.nodup_append.1 hdistinct).2.2 _ hmem _ (List.mem_singleton_self _) rfl
      rw [follow_reference hlast hseparate]
      constructor
      · intro name hname
        rw [labelsOf_append_reference hreference, List.mem_append, List.mem_singleton,
          not_or] at hname
        rw [lookup_attach_ne hname.2, hextends.own name hname.1]
      · intro other hother last hends hapart hone v hv
        rcases List.mem_append.1 hother with hbefore | hnew
        · have hmem := label_mem_labelsOf hbefore (Route.isReference_iff.2 ⟨last, hends, hapart⟩)
          have hne : other.label ≠ route.label := fun heq => hfresh (heq ▸ hmem)
          rw [lookup_attach_ne hne] at hv
          exact hextends.one other hbefore last hends hapart hone v hv
        · obtain rfl := List.mem_singleton.1 hnew
          obtain rfl := Option.mem_unique hends hlast
          have hmany : last.relation.many = false := by
            rw [Route.isToMany, List.any_eq_false] at hone
            simpa using hone last (List.mem_of_getLast? hlast)
          exact lookup_attach_one hmany d v hv
  | false =>
      rw [follow_of_not_reference hreference]
      constructor
      · intro name hname
        exact hextends.own name fun hmem => hname (labelsOf_subset_append routes route hmem)
      · intro other hother last hends hapart hone
        rcases List.mem_append.1 hother with hbefore | hnew
        · exact hextends.one other hbefore last hends hapart hone
        · obtain rfl := List.mem_singleton.1 hnew
          rw [Route.isReference_iff.2 ⟨last, hends, hapart⟩] at hreference
          cases hreference

/-- What makes the last relation of a route find at most one document: no relation on the way is to
many, its keys are single, and no label takes the place of its local key. -/
structure FindsOne (store : Store) (start : Resource) (labels : List String) (route : Route)
    (hop : Hop) : Prop where
  one : route.isToMany = false
  leads : store.LeadsToOne (route.anchor.destination start).storage
    (route.within hop.relation.localKey) hop
  apart : route.anchor = [] → firstName (route.within hop.relation.localKey) ∉ labels

theorem FindsOne.mono {labels fewer : List String} (hfinds : store.FindsOne start labels route hop)
    (hfewer : fewer ⊆ labels) : store.FindsOne start fewer route hop :=
  ⟨hfinds.one, hfinds.leads, fun hanchor hmem => hfinds.apart hanchor (hfewer hmem)⟩

/-- An anchor that is not the listed document was followed before. -/
theorem anchor_mem (hordered : Joins.IsOrdered routes)
    (hfollows : route.dropLast = [] ∨ route.dropLast ∈ routes) (hanchor : route.anchor ≠ []) :
    route.anchor ∈ routes := by
  have hbegins := route.anchor_prefix
  rcases hfollows with hempty | hbefore
  · rw [hempty, List.prefix_nil] at hbegins
    exact absurd hbegins hanchor
  · exact hordered.mem_of_begins hbefore hanchor hbegins

/-- Such a relation has at most one local key in a document from which the routes before it were
followed. -/
theorem Extends.length_localKeys (hextends : store.Extends routes listed d)
    (hordered : Joins.IsOrdered routes)
    (hfollows : route.dropLast = [] ∨ route.dropLast ∈ routes)
    (hlisted : listed ∈ store.documents start.storage)
    (hfinds : store.FindsOne start (labelsOf routes) route hop) :
    (localKeys route hop d).length ≤ 1 := by
  rw [localKeys]
  by_cases hanchor : route.anchor = []
  · rw [if_pos hanchor, keysAt_congr (hextends.own _ (hfinds.apart hanchor))]
    apply hfinds.leads.single
    rw [hanchor]
    exact hlisted
  · rw [if_neg hanchor]
    obtain ⟨last, hlast, hseparate⟩ := Route.isReference_iff.1 (Route.isReference_anchor hanchor)
    have hone : route.anchor.isToMany = false := Route.isToMany_of_begins
      route.anchor_begins hfinds.one
    cases hput : d.lookup route.anchor.label with
    | none => simp [valuesAt_null]
    | some v =>
        obtain ⟨r, hr, rfl⟩ := hextends.one _ (anchor_mem hordered hfollows hanchor) last hlast
          hseparate hone v hput
        apply hfinds.leads.single r
        rw [Route.destination_of_last hlast]
        exact hr

end Store

section Routes

variable {stem : String}

/-- The lookups of more routes come after those of the first. -/
theorem lookups_append (start : Resource) (stem : String) (routes more : List Route) :
    lookups { start, stem, routes := routes ++ more } =
      lookups { start, stem, routes } ++ lookups { start, stem, routes := more } :=
  List.flatMap_append

/-- A reference is looked up from where the route before it ends. -/
theorem lookups_reference (hlast : hop ∈ route.getLast?)
    (hreference : hop.relation.embedded = false) :
    lookups { start, stem, routes := [route] } =
      lookupStages hop.relation hop.target.storage
        (below (fieldOfRoute stem route.dropLast) hop.relation.localKey)
        (route.aliasName stem) := by
  simp [lookups, reach, Option.mem_def.1 hlast, hreference]

/-- Nothing is looked up for an embedded relation. -/
theorem lookups_of_not_reference (hreference : route.isReference = false) :
    lookups { start, stem, routes := [route] } = [] := by
  cases hlast : route.getLast? with
  | none => simp [lookups, reach, hlast]
  | some hop =>
      have hembedded : hop.relation.embedded = true := by
        simpa [Route.isReference, hlast] using hreference
      simp [lookups, reach, hlast, hembedded]

/-- The stages of a relation look its documents up, or unwind them. -/
theorem eq_of_mem_lookupStages {relation : Relation} {collection localField label : String}
    {stage : Stage} (hstage : stage ∈ lookupStages relation collection localField label) :
    stage = .lookup collection localField relation.foreignKey label ∨
      stage = .unwind label true := by
  unfold lookupStages at hstage
  dsimp only at hstage
  split at hstage
  · exact .inl (List.mem_singleton.1 hstage)
  · simpa using hstage

/-- A stage of the lookups is one of a reference. -/
theorem mem_lookups {joins : Joins} {stage : Stage} (hstage : stage ∈ lookups joins) :
    ∃ route ∈ joins.routes, ∃ hop ∈ route.getLast?, hop.relation.embedded = false ∧
      stage ∈ lookupStages hop.relation hop.target.storage
        (below (fieldOfRoute joins.stem route.dropLast) hop.relation.localKey)
        (route.aliasName joins.stem) := by
  obtain ⟨route, hroute, hstage⟩ := List.mem_flatMap.1 hstage
  dsimp only [reach] at hstage
  cases hlast : route.getLast? with
  | none => simp [hlast] at hstage
  | some hop =>
      cases hseparate : hop.relation.embedded with
      | true => simp [hlast, hseparate] at hstage
      | false =>
          simp only [hlast, hseparate, Option.map_some, Bool.false_eq_true, if_false] at hstage
          exact ⟨route, hroute, hop, hlast, hseparate, hstage⟩

/-- Lists of references to many are unwound after the lookups. -/
theorem unwindStages_eq (joins : Joins) : unwindStages joins =
    (joins.routes.filter (·.endsInMany)).map fun route =>
      .unwind (route.aliasName joins.stem) true := by
  rw [unwindStages, ← List.filterMap_eq_filter, List.map_filterMap]
  refine List.filterMap_congr fun route _ => ?_
  cases hlast : route.getLast? with
  | none => simp [Route.endsInMany, hlast, Option.guard]
  | some hop =>
      cases hmany : hop.relation.many <;> cases hseparate : hop.relation.embedded <;>
        simp [Route.endsInMany, hlast, hmany, hseparate, Option.guard]

end Routes

/-- The stages that look up what the last relation of a route leads to. -/
def stagesOf (route : Route) : List Stage :=
  match reach Joins.defaultStem route with
  | some (.lookedUp _ stages) => stages
  | _ => []

theorem stagesOf_eq (start : Resource) (route : Route) :
    stagesOf route = lookups { start, stem := Joins.defaultStem, routes := [route] } :=
  (List.flatMap_singleton _ _).symm

theorem stagesOf_reference (hlast : hop ∈ route.getLast?)
    (hreference : hop.relation.embedded = false) :
    stagesOf route = lookupStages hop.relation hop.target.storage (localField route hop)
      route.label :=
  (stagesOf_eq hop.target route).trans (lookups_reference hlast hreference)

theorem stagesOf_of_not_reference (hreference : route.isReference = false) :
    stagesOf route = [] :=
  (stagesOf_eq default route).trans (lookups_of_not_reference hreference)

namespace Store

/-- The stages of a route follow it from every document, if a relation to one finds at most one. -/
theorem runs_stagesOf {docs : List Doc}
    (hplain : route.anchor ≠ [] → '.' ∉ route.anchor.label.toList)
    (hfound : ∀ hop ∈ route.getLast?, hop.relation.refersToOne = true → ∀ d ∈ docs,
      (store.related hop.target.storage hop.relation.foreignKey
        (localKeys route hop d)).length ≤ 1) (out : List Doc) :
    store.Runs (stagesOf route) docs out ↔ out = docs.map (store.follow route) := by
  cases hreference : route.isReference with
  | true =>
      obtain ⟨hop, hlast, hseparate⟩ := Route.isReference_iff.1 hreference
      have hsingle : hop.relation.many = false → ∀ d ∈ docs,
          (store.related hop.target.storage hop.relation.foreignKey
            (keysAt (localField route hop) d)).length ≤ 1 := by
        intro hone d hd
        rw [keysAt_localField hplain]
        exact hfound hop hlast (by simp [Relation.refersToOne, hseparate, hone]) d hd
      have hfollow : ∀ d : Doc, store.attach hop route.label
          (keysAt (localField route hop) d) d = store.follow route d := fun d => by
        rw [keysAt_localField hplain, follow_reference hlast hseparate]
      rw [stagesOf_reference hlast hseparate, runs_lookupStages hsingle]
      simp only [hfollow]
  | false =>
      have hfollow : store.follow route = id := funext (follow_of_not_reference hreference)
      rw [stagesOf_of_not_reference hreference, hfollow, List.map_id, Runs]

/-- Looking up what the routes of a query lead to leaves every document once, with all of it. -/
theorem runs_lookups (hordered : Joins.IsOrdered routes) (hdistinct : (labelsOf routes).Nodup)
    (hplain : ∀ label ∈ labelsOf routes, '.' ∉ label.toList)
    (hfinds : ∀ route ∈ routes, ∀ hop ∈ route.getLast?, hop.relation.refersToOne = true →
      store.FindsOne start (labelsOf routes) route hop)
    {docs : List Doc} (hdocs : docs ⊆ store.documents start.storage) :
    (∀ out, store.Runs (routes.flatMap stagesOf) docs out ↔
      out = docs.map (store.followAll routes)) ∧
    ∀ d ∈ docs, store.Extends routes d (store.followAll routes d) := by
  induction hordered with
  | nil =>
      refine ⟨fun out => ?_, fun d _ => extends_refl d⟩
      rw [show store.followAll [] = id from rfl, List.map_id]
      rfl
  | snoc routes route hordered hnonempty hfollows ih =>
      have hless := labelsOf_subset_append routes route
      obtain ⟨hruns, hextends⟩ := ih
        (hdistinct.sublist (by simp [labelsOf]))
        (fun label hlabel => hplain label (hless hlabel))
        (fun other hother hop hlast hone =>
          (hfinds other (List.mem_append_left _ hother) hop hlast hone).mono hless)
      constructor
      · intro out
        have hanchor : route.anchor ≠ [] → '.' ∉ route.anchor.label.toList := by
          intro hanchor
          exact hplain _ (hless (label_mem_labelsOf (anchor_mem hordered hfollows hanchor)
            (Route.isReference_anchor hanchor)))
        rw [List.flatMap_append, runs_append, List.flatMap_singleton]
        simp only [hruns, exists_eq_left]
        rw [runs_stagesOf hanchor, List.map_map]
        · simp only [Function.comp_def, ← followAll_append]
        · intro hop hlast hone followed hfollowed
          obtain ⟨d, hd, rfl⟩ := List.mem_map.1 hfollowed
          have hlast' := hfinds route (by simp) hop hlast hone
          exact length_related_le_one hlast'.leads.unique
            ((hextends d hd).length_localKeys hordered hfollows (hdocs hd) (hlast'.mono hless))
      · intro d hd
        rw [followAll_append]
        exact (hextends d hd).follow hdistinct

end Store

theorem lookups_eq (joins : Joins) (hstem : joins.stem = Joins.defaultStem) :
    lookups joins = joins.routes.flatMap stagesOf := by
  rw [lookups, hstem]
  rfl

/-- Lookups add the aliases of all references. -/
theorem lookupFields_eq_map (joins : Joins) : lookupFields joins =
    (joins.routes.filter Route.isReference).map (·.aliasName joins.stem) := by
  rw [lookupFields, ← List.filterMap_eq_filter, List.map_filterMap]
  refine List.filterMap_congr fun route _ => ?_
  cases hlast : route.getLast? with
  | none => simp [reach, Route.isReference, hlast, Option.guard]
  | some hop =>
      cases hembedded : hop.relation.embedded <;>
        simp [reach, Route.isReference, hlast, hembedded, Option.guard]

theorem lookupFields_eq (joins : Joins) (hstem : joins.stem = Joins.defaultStem) :
    lookupFields joins = labelsOf joins.routes := by
  rw [lookupFields_eq_map, hstem]
  rfl

namespace Target

/-- The table of the routes that some paths use. -/
def joinsOf (t : Target) (stem : String) (paths : List Path) : Joins :=
  { start := t.resource, stem, routes := t.registry.routesUsed t.resource paths }

/-- What is collected of the paths of a query. -/
theorem addPaths_noJoins (t : Target) (stem : String) (paths : List Path) :
    (t.noJoins stem).addPaths t.registry paths = t.joinsOf stem paths :=
  Registry.addPaths_empty stem

/-- The stages that page, count and totals begin with. -/
def sharedStages (t : Target) (request : Request) (condition : Option Filter) : List Stage :=
  lookups (t.joinsOf Joins.defaultStem request.pagePaths) ++ condition.toList.map .keep

end Target

end Document
end Listing
