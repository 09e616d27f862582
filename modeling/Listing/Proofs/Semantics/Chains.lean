/-
# Chains of related documents

A chain has one document for every reference that some routes use, and this document is related to
the one of the reference before it, or to the listed document where there is none before. Where
nothing is related, a chain has no document. So a chain is what a left join makes of a row.

Lookups put lists of documents under labels, and unwinding takes one document out of each list.
While the lists are unwound, a document stands for the part of a chain that was taken so far. It
stays a part of a chain as long as nothing is looked up from a list: then all that a list holds is
related to the same document, whichever of its elements is taken.
-/
import Listing.Proofs.Lookups
import Listing.Proofs.Semantics.StageScope
import Mathlib.Logic.Function.Basic

namespace Listing

namespace Route

/-- The anchor of a route is shorter. -/
theorem anchor_ne_self {route : Route} (hnonempty : route ≠ []) : route.anchor ≠ route := by
  intro heq
  have hlength := route.anchor_prefix.length_le
  have hpos := List.length_pos_iff.2 hnonempty
  rw [heq, List.length_dropLast] at hlength
  omega

end Route

namespace Document

/-- The document that is taken for each reference, if any. -/
abbrev Chain := Route → Option Doc

namespace Chain

variable (chain : Chain) (listed : Doc)

/-- The document of a chain in which the end of a route is found; null stands for a missing one. -/
def holderOf (route : Route) : Json :=
  if route.holder = [] then .object listed else ((chain route.holder).map .object).getD .null

/-- The values of a chain in a field at the end of a route. -/
def valuesOf (route : Route) (name : String) : List Json :=
  valuesAt (pathNames (route.pathTo name)) (chain.holderOf listed route)

/-- Taking a document changes no field but those that are found in it. -/
theorem valuesOf_update {changed route : Route} (hother : route.holder ≠ changed)
    (pick : Option Doc) (name : String) :
    Chain.valuesOf (Function.update chain changed pick) listed route name =
      chain.valuesOf listed route name := by
  rw [valuesOf, valuesOf, holderOf, holderOf, Function.update_of_ne hother]

end Chain

/-- One of the documents that were found is taken; none only if there is none. -/
def Picks (found : List Doc) : Option Doc → Prop
  | some r => r ∈ found
  | none => found = []

namespace Store

variable (store : Store) (chain : Chain) (listed : Doc)

/-- The documents that the last relation of a route leads to from those of a chain. -/
def foundBy (route : Route) (hop : Hop) : List Doc :=
  store.related hop.target.storage hop.relation.foreignKey
    (chain.valuesOf listed route.dropLast hop.relation.localKey)

/-- A chain has one of the documents that each reference leads to from those that it has. -/
def IsChain (routes : List Route) : Prop :=
  ∀ route ∈ routes, ∀ hop ∈ route.getLast?, hop.relation.embedded = false →
    Picks (store.foundBy chain listed route hop) (chain route)

/-- A document with the list of all that the last relation of a route leads to from it. -/
def withFound (stem : String) (route : Route) (hop : Hop) (d : Doc) : Doc :=
  insertEntry (route.aliasName stem) (.array ((store.related hop.target.storage
    hop.relation.foreignKey (keysAt (below (fieldOfRoute stem route.dropLast)
      hop.relation.localKey) d)).map .object)) d

/-- A document holds what was taken for a route, which is one of the documents that it leads to. -/
def HasTaken (stem : String) (d : Doc) (route : Route) : Prop :=
  ∀ hop ∈ route.getLast?, hop.relation.embedded = false →
    d.lookup (route.aliasName stem) = (chain route).map .object ∧
      Picks (store.foundBy chain listed route hop) (chain route)

/-- A document holds the list of all documents that a route leads to. -/
def HasFound (stem : String) (d : Doc) (route : Route) : Prop :=
  ∀ hop ∈ route.getLast?, hop.relation.embedded = false →
    d.lookup (route.aliasName stem) =
      some (.array ((store.foundBy chain listed route hop).map .object))

/-- A document of a pipeline stands for a part of a chain: it has the fields of a listed document,
lists under the labels of references that are pending, and under the others what was taken. -/
structure Fits (stem : String) (routes pending : List Route) (d : Doc) : Prop where
  own : ∀ name, ¬ IsLabelled name → d.lookup name = listed.lookup name
  taken : ∀ route ∈ routes, route ∉ pending → store.HasTaken chain listed stem d route
  waiting : ∀ route ∈ pending, store.HasFound chain listed stem d route

end Store

section Fields

/-- The first name of a path begins it. -/
theorem firstName_begins (path : String) : (firstName path).toList <+: path.toList := by
  have hfirst : ∀ cs : List Char, (Text.splitWhere (· == '.') cs).headD [] <+: cs := by
    intro cs
    induction cs with
    | nil => exact List.prefix_refl _
    | cons c cs ih =>
        rw [Text.splitWhere]
        split
        · exact List.nil_prefix
        · cases hrest : Text.splitWhere (· == '.') cs with
          | nil => exact absurd hrest (Text.splitWhere_ne_nil _ _)
          | cons first rest =>
              rw [hrest] at ih
              simpa [Text.growFirst] using ih
  have hname : (firstName path).toList = (Text.splitWhere (· == '.') path.toList).headD [] := by
    rw [firstName, pathNames, Text.splitOnChar]
    cases hpieces : Text.splitWhere (· == '.') path.toList <;> simp
  rw [hname]
  exact hfirst _

/-- A field with the first name of a path that does not begin like a label does not either. -/
theorem not_isLabelled_firstName {path : String} (hpath : ¬ IsLabelled path) :
    ¬ IsLabelled (firstName path) := by
  rintro ⟨stem, hstem, hbegins⟩
  exact hpath ⟨stem, hstem, hbegins.trans (firstName_begins path)⟩

/-- A field at the end of a route has the values of the chain that a document stands for, if the
document of its last reference was taken. -/
theorem keysAt_below {stem : String} {route : Route} {name : String} {chain : Chain}
    {listed d : Doc} (hplain : route.holder = [] → ¬ IsLabelled (route.pathTo name))
    (hdotless : route.holder ≠ [] → '.' ∉ (route.holder.aliasName stem).toList)
    (hown : ∀ name, ¬ IsLabelled name → d.lookup name = listed.lookup name)
    (htaken : route.holder ≠ [] →
      d.lookup (route.holder.aliasName stem) = (chain route.holder).map .object) :
    keysAt (below (fieldOfRoute stem route) name) d = chain.valuesOf listed route name := by
  rw [below_fieldOfRoute, Chain.valuesOf, Chain.holderOf]
  by_cases hholder : route.holder = []
  · have hfirst := hown _ (not_isLabelled_firstName (hplain hholder))
    rw [if_pos hholder, if_pos hholder]
    exact keysAt_congr hfirst
  · rw [if_neg hholder, if_neg hholder, ← htaken hholder]
    exact keysAt_append (hdotless hholder) _ d

/-- Unwinding takes one element out of a list. -/
theorem mem_unwound {label : String} {found : List Doc} {d out : Doc}
    (hlist : d.lookup label = some (.array (found.map .object)))
    (hout : out ∈ unwound label true d) :
    ∃ pick, Picks found pick ∧ out.lookup label = pick.map .object ∧
      ∀ name ≠ label, out.lookup name = d.lookup name := by
  rw [unwound, hlist] at hout
  cases found with
  | nil =>
      obtain rfl := List.mem_singleton.1 hout
      refine ⟨none, rfl, lookup_without_self label d, fun name hname => ?_⟩
      exact lookup_without_of_not_mem (by simpa using hname) d
  | cons r found =>
      obtain ⟨item, hitem, rfl⟩ := List.mem_map.1 hout
      obtain ⟨taken, htaken, rfl⟩ := List.mem_map.1 hitem
      exact ⟨some taken, htaken, lookup_insertEntry_self _ _ _,
        fun name hname => lookup_insertEntry_ne hname _ d⟩

/-- What unwinding leaves differs in no other field. -/
theorem lookup_unwound_ne {label name : String} {keepEmpty : Bool} {d out : Doc}
    (hname : name ≠ label) (hout : out ∈ unwound label keepEmpty d) :
    out.lookup name = d.lookup name := by
  have hwithout : (without [label] d).lookup name = d.lookup name :=
    lookup_without_of_not_mem (by simpa using hname) d
  unfold unwound at hout
  split at hout
  · split at hout
    · rw [List.mem_singleton.1 hout, hwithout]
    · cases hout
  · obtain ⟨item, _, rfl⟩ := List.mem_map.1 hout
    exact lookup_insertEntry_ne hname _ d
  · split at hout
    · rw [List.mem_singleton.1 hout]
    · cases hout
  · split at hout
    · rw [List.mem_singleton.1 hout]
    · cases hout
  · rw [List.mem_singleton.1 hout]

/-- A stage finds documents, and changes nothing but labels in them. -/
def Stage.ChangesLabels : Stage → Prop
  | .lookup _ _ _ label | .unwind label _ => IsLabelled label
  | .keep _ => True
  | _ => False

/-- Such a stage leaves all other fields of a document as they are. -/
theorem Stage.ChangesLabels.lookup_eq {store : Store} {stage : Stage} {docs outs : List Doc}
    (hstage : stage.ChangesLabels) (hleaves : store.Leaves stage docs outs) :
    ∀ out ∈ outs, ∃ d ∈ docs, ∀ name, ¬ IsLabelled name → out.lookup name = d.lookup name := by
  intro out hout
  cases stage with
  | lookup collection localField foreignField label =>
      rw [hleaves] at hout
      obtain ⟨d, hd, rfl⟩ := List.mem_map.1 hout
      refine ⟨d, hd, fun name hname => lookup_insertEntry_ne ?_ _ d⟩
      rintro rfl
      exact hname hstage
  | unwind label keepEmpty =>
      rw [hleaves] at hout
      obtain ⟨d, hd, hout⟩ := List.mem_flatMap.1 hout
      refine ⟨d, hd, fun name hname => lookup_unwound_ne ?_ hout⟩
      rintro rfl
      exact hname hstage
  | keep filter =>
      rw [hleaves] at hout
      exact ⟨out, (List.mem_filter.1 hout).1, fun _ _ => rfl⟩
  | _ => cases hstage

end Fields

namespace Store

variable {store : Store} {stem : String} {routes pending : List Route} {route fresh : Route}
  {hop : Hop} {chain : Chain} {listed d out : Doc}

/-- What lookups from the documents of a chain need: labels are different and no paths, fields of
the listed document are not named like labels, and nothing is looked up from a list. -/
structure Correlated (stem : String) (routes : List Route) : Prop where
  stems : stem ∈ labelStems
  ordered : Joins.IsOrdered routes
  distinct : (routes.map (·.aliasName stem)).Nodup
  dotless : ∀ route ∈ routes, '.' ∉ (route.aliasName stem).toList
  plain : ∀ route ∈ routes, ∀ hop ∈ route.getLast?, route.anchor = [] →
    ¬ IsLabelled (route.within hop.relation.localKey)
  single : ∀ route ∈ routes, route.isReference = true → route.anchor.endsInMany = false

/-- Taking a document for a route does not change what is found from others. -/
theorem foundBy_update (hanchor : route.anchor ≠ fresh) (pick : Option Doc) :
    store.foundBy (Function.update chain fresh pick) listed route hop =
      store.foundBy chain listed route hop := by
  have hother : Route.holder route.dropLast ≠ fresh := hanchor
  rw [foundBy, foundBy, Chain.valuesOf_update chain listed hother]

/-- A route that is not empty and comes after others is the anchor of none of them. -/
theorem anchor_ne_of_fresh (hordered : Joins.IsOrdered routes) (hfresh : fresh ∉ routes)
    (hnonempty : fresh ≠ []) (hroute : route ∈ routes) : route.anchor ≠ fresh := by
  intro heq
  exact hfresh (heq ▸ hordered.mem_of_begins hroute (heq ▸ hnonempty) route.anchor_begins)

section Other

variable (hanchor : route.isReference = true → route.anchor ≠ fresh)
  (hlabel : route.aliasName stem ≠ fresh.aliasName stem)
  (hsame : ∀ name ≠ fresh.aliasName stem, out.lookup name = d.lookup name)

include hanchor hlabel hsame

theorem HasTaken.update (htaken : store.HasTaken chain listed stem d route) (pick : Option Doc) :
    store.HasTaken (Function.update chain fresh pick) listed stem out route := by
  intro hop hlast hseparate
  obtain ⟨hlookup, hpicks⟩ := htaken hop hlast hseparate
  have hother : route ≠ fresh := fun heq => hlabel (heq ▸ rfl)
  have hfrom := hanchor (Route.isReference_iff.2 ⟨hop, hlast, hseparate⟩)
  rw [hsame _ hlabel, Function.update_of_ne hother, foundBy_update hfrom]
  exact ⟨hlookup, hpicks⟩

theorem HasFound.update (hfound : store.HasFound chain listed stem d route) (pick : Option Doc) :
    store.HasFound (Function.update chain fresh pick) listed stem out route := by
  intro hop hlast hseparate
  have hfrom := hanchor (Route.isReference_iff.2 ⟨hop, hlast, hseparate⟩)
  rw [hsame _ hlabel, foundBy_update hfrom]
  exact hfound hop hlast hseparate

end Other

namespace Fits

variable (hfits : store.Fits chain listed stem routes pending d)

include hfits

theorem of_mem_iff {pending' : List Route}
    (hpending : ∀ route, route ∈ pending' ↔ route ∈ pending) :
    store.Fits chain listed stem routes pending' d where
  own := hfits.own
  taken route hroute hother := hfits.taken route hroute fun hmem => hother ((hpending route).2 hmem)
  waiting route hroute := hfits.waiting route ((hpending route).1 hroute)

/-- A route that is no reference adds nothing. -/
theorem skip (hreference : fresh.isReference = false) :
    store.Fits chain listed stem (routes ++ [fresh]) pending d where
  own := hfits.own
  taken route hroute hother := by
    rcases List.mem_append.1 hroute with hbefore | hnew
    · exact hfits.taken route hbefore hother
    · rw [List.mem_singleton.1 hnew]
      intro hop hlast hseparate
      rw [Route.isReference_iff.2 ⟨hop, hlast, hseparate⟩] at hreference
      cases hreference
  waiting := hfits.waiting

/-- What a lookup finds for a route is what the route leads to from the documents of the chain, if
that of its anchor was taken. The list of it is pending. -/
theorem lookup (hroutes : Correlated stem (routes ++ [fresh])) (hlast : hop ∈ fresh.getLast?)
    (hbefore : fresh.anchor ≠ [] → fresh.anchor ∈ routes)
    (hpending : pending ⊆ routes) (htaken : fresh.anchor ∉ pending)
    (hanchors : ∀ route ∈ routes, route.anchor ≠ fresh) :
    store.Fits chain listed stem (routes ++ [fresh]) (fresh :: pending)
      (store.withFound stem fresh hop d) := by
  have hfresh : fresh ∈ routes ++ [fresh] := by simp
  have hlabel : ∀ route ∈ routes, route.aliasName stem ≠ fresh.aliasName stem := by
    intro route hroute
    have hdistinct := hroutes.distinct
    rw [List.map_append, List.map_singleton, List.nodup_append] at hdistinct
    exact hdistinct.2.2 _ (List.mem_map_of_mem hroute) _ (List.mem_singleton_self _)
  have hkeys : keysAt (below (fieldOfRoute stem fresh.dropLast) hop.relation.localKey) d =
      chain.valuesOf listed fresh.dropLast hop.relation.localKey := by
    refine keysAt_below (hroutes.plain fresh hfresh hop hlast) (fun hanchor => ?_) hfits.own
      fun hanchor => ?_
    · exact hroutes.dotless _ (List.mem_append_left _ (hbefore hanchor))
    · have hreference := Route.isReference_anchor hanchor
      obtain ⟨last, hend, hapart⟩ := Route.isReference_iff.1 hreference
      exact (hfits.taken _ (hbefore hanchor) htaken last hend hapart).1
  rw [withFound, hkeys]
  generalize hfound : store.related hop.target.storage hop.relation.foreignKey
    (chain.valuesOf listed fresh.dropLast hop.relation.localKey) = found
  have hsame : ∀ name ≠ fresh.aliasName stem,
      (insertEntry (fresh.aliasName stem) (.array (found.map .object)) d).lookup name =
        d.lookup name := fun name hname => lookup_insertEntry_ne hname _ d
  have hchain : Function.update chain fresh (chain fresh) = chain := Function.update_eq_self _ _
  refine ⟨fun name hname => ?_, fun route hroute hother => ?_, fun route hroute => ?_⟩
  · rw [hsame name fun heq => hname (heq ▸ isLabelled_aliasName hroutes.stems fresh)]
    exact hfits.own name hname
  · rw [List.mem_cons, not_or] at hother
    obtain ⟨hne, hother⟩ := hother
    have hmem := (List.mem_append.1 hroute).resolve_right (by simpa using hne)
    have hdone := (hfits.taken route hmem hother).update (fun _ => hanchors route hmem)
      (hlabel route hmem) hsame (chain fresh)
    rwa [hchain] at hdone
  · rcases List.mem_cons.1 hroute with rfl | hmem
    · intro last hend _
      obtain rfl := Option.mem_unique hlast hend
      rw [foundBy, hfound]
      exact lookup_insertEntry_self _ _ _
    · have hlist := (hfits.waiting route hmem).update (fun _ => hanchors route (hpending hmem))
        (hlabel route (hpending hmem)) hsame (chain fresh)
      rwa [hchain] at hlist

omit hfits in
/-- Taking an element of the list of a reference leaves a document that stands for a longer part of
a chain, if nothing was looked up from the list. -/
theorem take (hfits : store.Fits chain listed stem routes (fresh :: pending) d)
    (hroutes : Correlated stem routes)
    (hpending : ∀ route ∈ fresh :: pending, route ∈ routes) (hother : fresh ∉ pending)
    (hreference : fresh.isReference = true)
    (hanchors : ∀ route ∈ routes, route.isReference = true → route.anchor ≠ fresh)
    (hout : out ∈ unwound (fresh.aliasName stem) true d) :
    ∃ pick, store.Fits (Function.update chain fresh pick) listed stem routes pending out := by
  obtain ⟨hop, hlast, hseparate⟩ := Route.isReference_iff.1 hreference
  have hfresh := hpending fresh List.mem_cons_self
  obtain ⟨pick, hpick, htaken, hsame⟩ :=
    mem_unwound (hfits.waiting fresh List.mem_cons_self hop hlast hseparate) hout
  have hlabel : ∀ route ∈ routes, route ≠ fresh → route.aliasName stem ≠ fresh.aliasName stem :=
    fun route hroute hne heq =>
      hne (List.inj_on_of_nodup_map hroutes.distinct hroute hfresh heq)
  refine ⟨pick, fun name hname => ?_, fun route hroute hdone => ?_, fun route hroute => ?_⟩
  · rw [hsame name fun heq => hname (heq ▸ isLabelled_aliasName hroutes.stems fresh)]
    exact hfits.own name hname
  · by_cases heq : route = fresh
    · subst heq
      intro hop' hlast' hseparate'
      obtain rfl := Option.mem_unique hlast hlast'
      rw [Function.update_self, foundBy_update (hanchors route hroute hreference)]
      exact ⟨htaken, hpick⟩
    · have hbefore := hfits.taken route hroute (by simp [heq, hdone])
      exact hbefore.update (hanchors route hroute) (hlabel route hroute heq) hsame pick
  · have hne : route ≠ fresh := fun heq => hother (heq ▸ hroute)
    have hmem := hpending route (List.mem_cons_of_mem fresh hroute)
    exact (hfits.waiting route (List.mem_cons_of_mem fresh hroute)).update (hanchors route hmem)
      (hlabel route hmem hne) hsame pick

end Fits

theorem Correlated.of_append {more : List Route} (hroutes : Correlated stem (routes ++ more))
    (hordered : Joins.IsOrdered routes) : Correlated stem routes where
  stems := hroutes.stems
  ordered := hordered
  distinct := hroutes.distinct.sublist (by simp)
  dotless route hroute := hroutes.dotless route (List.mem_append_left _ hroute)
  plain route hroute := hroutes.plain route (List.mem_append_left _ hroute)
  single route hroute := hroutes.single route (List.mem_append_left _ hroute)

variable {source docs outs : List Doc}

/-- Every document stands for a part of a chain from one of the listed documents. -/
def AllFit (store : Store) (stem : String) (source : List Doc) (routes pending : List Route)
    (docs : List Doc) : Prop :=
  ∀ d ∈ docs, ∃ listed ∈ source, ∃ chain, store.Fits chain listed stem routes pending d

/-- Stages that change nothing but labels leave the fields of listed documents. -/
theorem allFit_of_runs {stages : List Stage} (hstages : ∀ stage ∈ stages, stage.ChangesLabels)
    (hdocs : store.AllFit stem source [] [] docs) (hruns : store.Runs stages docs outs) :
    store.AllFit stem source [] [] outs := by
  induction stages generalizing docs with
  | nil =>
      cases hruns
      exact hdocs
  | cons stage stages ih =>
      obtain ⟨hstage, hrest⟩ := List.forall_mem_cons.1 hstages
      obtain ⟨between, hleaves, hruns⟩ := hruns
      refine ih hrest (fun out hout => ?_) hruns
      obtain ⟨d, hd, hsame⟩ := hstage.lookup_eq hleaves out hout
      obtain ⟨listed, hlisted, chain, hfit⟩ := hdocs d hd
      exact ⟨listed, hlisted, chain,
        fun name hname => (hsame name hname).trans (hfit.own name hname), List.forall_mem_nil _, List.forall_mem_nil _⟩

section Lookup

variable (hroutes : Correlated stem (routes ++ [fresh])) (hordered : Joins.IsOrdered routes)
  (hnonempty : fresh ≠ []) (hfollows : fresh.dropLast = [] ∨ fresh.dropLast ∈ routes)
  (hfits : store.AllFit stem source routes (routes.filter (·.endsInMany)) docs)
  (hlast : hop ∈ fresh.getLast?) (hseparate : hop.relation.embedded = false)

include hroutes hordered hnonempty

theorem anchor_ne_of_last : ∀ route ∈ routes ++ [fresh], route.anchor ≠ fresh := by
  have hdistinct := List.nodup_append.1 (List.Nodup.of_map _ hroutes.distinct)
  have hfresh : fresh ∉ routes := fun hmem => hdistinct.2.2 _ hmem _ (by simp) rfl
  intro route hroute
  rcases List.mem_append.1 hroute with hbefore | hnew
  · exact anchor_ne_of_fresh hordered hfresh hnonempty hbefore
  · rw [List.mem_singleton.1 hnew]
    exact Route.anchor_ne_self hnonempty

include hfollows hfits hlast hseparate

/-- With the list of what its last relation leads to, documents stand for chains of one more
route. -/
theorem AllFit.withFound : store.AllFit stem source (routes ++ [fresh])
    (fresh :: routes.filter (·.endsInMany)) (docs.map (store.withFound stem fresh hop)) := by
  have hreference := Route.isReference_iff.2 ⟨hop, hlast, hseparate⟩
  have hanchors := anchor_ne_of_last hroutes hordered hnonempty
  intro out hout
  obtain ⟨d, hd, rfl⟩ := List.mem_map.1 hout
  obtain ⟨listed, hlisted, chain, hfit⟩ := hfits d hd
  refine ⟨listed, hlisted, chain, hfit.lookup hroutes hlast (anchor_mem hordered hfollows)
    List.filter_sublist.subset ?_ fun route hroute => ?_⟩
  · simp [hroutes.single fresh (by simp) hreference]
  · exact hanchors route (List.mem_append_left _ hroute)

/-- Unwinding this list takes one document for the route. -/
theorem AllFit.unwound : store.AllFit stem source (routes ++ [fresh])
    (routes.filter (·.endsInMany)) ((docs.map (store.withFound stem fresh hop)).flatMap
      (Document.unwound (fresh.aliasName stem) true)) := by
  have hreference := Route.isReference_iff.2 ⟨hop, hlast, hseparate⟩
  have hanchors := anchor_ne_of_last hroutes hordered hnonempty
  have hdistinct := List.nodup_append.1 (List.Nodup.of_map _ hroutes.distinct)
  have hpending : ∀ route ∈ fresh :: routes.filter (·.endsInMany), route ∈ routes ++ [fresh] := by
    simp +contextual
  intro out hout
  obtain ⟨found, hfound, hout⟩ := List.mem_flatMap.1 hout
  obtain ⟨listed, hlisted, chain, hfit⟩ :=
    hfits.withFound hroutes hordered hnonempty hfollows hlast hseparate found hfound
  obtain ⟨pick, htaken⟩ := hfit.take hroutes hpending
    (fun hmem => hdistinct.2.2 _ (List.mem_filter.1 hmem).1 _ (by simp) rfl) hreference
    (fun route hroute _ => hanchors route hroute) hout
  exact ⟨listed, hlisted, _, htaken⟩

omit hlast hseparate in
/-- Looking up what the last relation of a route leads to makes chains longer. -/
theorem AllFit.lookups {start : Resource}
    (hruns : store.Runs (Document.lookups { start, stem, routes := [fresh] }) docs outs) :
    store.AllFit stem source (routes ++ [fresh]) ((routes ++ [fresh]).filter (·.endsInMany))
      outs := by
  have hfilter : (routes ++ [fresh]).filter (·.endsInMany) = routes.filter (·.endsInMany) ++
      if fresh.endsInMany then [fresh] else [] := by
    cases hends : fresh.endsInMany <;> simp [hends]
  cases hreference : fresh.isReference with
  | false =>
      have hends : fresh.endsInMany = false := Bool.eq_false_iff.2 fun hends => by
        rw [Route.isReference_of_endsInMany hends] at hreference
        cases hreference
      rw [lookups_of_not_reference hreference] at hruns
      cases hruns
      rw [hfilter, hends, if_neg Bool.false_ne_true, List.append_nil]
      intro d hd
      obtain ⟨listed, hlisted, chain, hfit⟩ := hfits d hd
      exact ⟨listed, hlisted, chain, hfit.skip hreference⟩
  | true =>
      obtain ⟨hop, hlast, hseparate⟩ := Route.isReference_iff.1 hreference
      have hends : fresh.endsInMany = hop.relation.many := by
        simp [Route.endsInMany, Option.mem_def.1 hlast, hseparate]
      rw [lookups_reference hlast hseparate, lookupStages] at hruns
      rw [hfilter, hends]
      cases hmany : hop.relation.many with
      | true =>
          rw [hmany, if_pos rfl, runs_single] at hruns
          intro out hout
          rw [hruns] at hout
          obtain ⟨listed, hlisted, chain, hfit⟩ :=
            hfits.withFound hroutes hordered hnonempty hfollows hlast hseparate out hout
          exact ⟨listed, hlisted, chain, hfit.of_mem_iff fun route => by simp [or_comm]⟩
      | false =>
          rw [hmany, if_neg Bool.false_ne_true] at hruns
          obtain ⟨_, rfl, _, rfl, rfl⟩ := hruns
          rw [if_neg Bool.false_ne_true, List.append_nil]
          exact hfits.unwound hroutes hordered hnonempty hfollows hlast hseparate

end Lookup

/-- After all lookups, lists are pending for the references to many, and one document is taken for
every other reference. -/
theorem allFit_lookups (hroutes : Correlated stem routes) {start : Resource}
    (hdocs : store.AllFit stem source [] [] docs)
    (hruns : store.Runs (Document.lookups { start, stem, routes }) docs outs) :
    store.AllFit stem source routes (routes.filter (·.endsInMany)) outs := by
  have hordered := hroutes.ordered
  induction hordered generalizing outs with
  | nil =>
      cases hruns
      exact hdocs
  | snoc routes route hordered hnonempty hfollows ih =>
      rw [lookups_append, runs_append] at hruns
      obtain ⟨between, hbefore, hlast⟩ := hruns
      exact AllFit.lookups hroutes hordered hnonempty hfollows
        (ih (hroutes.of_append hordered) hbefore) hlast

/-- Unwinding the pending lists completes the chains. -/
theorem allFit_unwinds (hroutes : Correlated stem routes) (hnodup : pending.Nodup)
    (hpending : ∀ route ∈ pending, route ∈ routes ∧ route.endsInMany = true)
    (hdocs : store.AllFit stem source routes pending docs)
    (hruns : store.Runs (pending.map fun route => .unwind (route.aliasName stem) true) docs outs) :
    store.AllFit stem source routes [] outs := by
  induction pending generalizing docs with
  | nil =>
      cases hruns
      exact hdocs
  | cons fresh pending ih =>
      obtain ⟨hother, hnodup⟩ := List.nodup_cons.1 hnodup
      obtain ⟨hmany, hrest⟩ := List.forall_mem_cons.1 hpending
      obtain ⟨_, rfl, hruns⟩ := hruns
      refine ih hnodup hrest (fun out hout => ?_) hruns
      obtain ⟨d, hd, hout⟩ := List.mem_flatMap.1 hout
      obtain ⟨listed, hlisted, chain, hfit⟩ := hdocs d hd
      have hanchors : ∀ route ∈ routes, route.isReference = true → route.anchor ≠ fresh := by
        intro route hroute hreference heq
        have hsingle := hroutes.single route hroute hreference
        rw [heq, hmany.2] at hsingle
        cases hsingle
      obtain ⟨pick, htaken⟩ := hfit.take hroutes (fun route hroute => (hpending route hroute).1)
        hother (Route.isReference_of_endsInMany hmany.2) hanchors hout
      exact ⟨listed, hlisted, _, htaken⟩

/-- A document for which nothing is pending stands for a whole chain, and has its values. -/
theorem Fits.isChain (hfits : store.Fits chain listed stem routes [] d) :
    store.IsChain chain listed routes := fun route hroute hop hlast hseparate =>
  (hfits.taken route hroute List.not_mem_nil hop hlast hseparate).2

end Store
end Document
end Listing
