/-
# Pages and counts repeat no document

The pipelines of a page and of a count look up what filter and order need, and unwind what a
relation to one leads to. That every document of the listed collection is returned at most once, and
counted once if the filter finds it, rests on what is unwound: a single document, as long as no
relation on the way is to many.

Lookups check the relation itself only. A reference to one behind a relation to many is unwound as
well, and then the listed document is repeated for every related document.
-/
import Listing.Proofs.Lookups
import Listing.Proofs.Refusal
import Listing.Proofs.Semantics.Datum
import Listing.Validation
import Mathlib.Data.List.Perm.Basic

namespace Listing

namespace Paging

variable (paging : Paging)

theorem cut_map {α β : Type} (f : α → β) (xs : List α) :
    paging.cut (xs.map f) = (paging.cut xs).map f := by
  cases hlimit : paging.limit <;> simp [cut, hlimit, List.map_drop, List.map_take]

theorem cut_sublist {α : Type} (xs : List α) : (paging.cut xs).Sublist xs := by
  cases hlimit : paging.limit with
  | none => simp [cut, hlimit, List.drop_sublist]
  | some n =>
      simp only [cut, hlimit, Option.map_some, Option.getD_some]
      exact (List.take_sublist _ _).trans (List.drop_sublist _ _)

end Paging

namespace Document

/-- The stages that load a relation under its name. -/
def loadStages (hop : Hop) : List Stage :=
  lookupStages hop.relation hop.target.storage hop.relation.localKey hop.relation.name

/-- The stages that cut a page. -/
def cutStages (paging : Paging) : List Stage :=
  (if paging.offset = 0 then [] else [.skip paging.offset]) ++ paging.limit.toList.map .limit

/-- The stages that take the labels of a query away again. -/
def unsetStages (labels : List String) : List Stage :=
  if labels.isEmpty then [] else [.unset labels]

namespace Store

variable {store : Store}

/-- Loading relations leaves every document once, with what they lead to, if a relation to one has a
single key that no relation before it replaces. -/
theorem runs_loadStages {hops : List Hop} {docs : List Doc}
    (hinOrder : hops.Pairwise fun before hop => hop.relation.many = false →
      firstName hop.relation.localKey ≠ before.relation.name)
    (hkeys : ∀ hop ∈ hops, hop.relation.many = false →
      store.IsUnique hop.target.storage hop.relation.foreignKey ∧
        ∀ d ∈ docs, (keysAt hop.relation.localKey d).length ≤ 1) (out : List Doc) :
    store.Runs (hops.flatMap loadStages) docs out ↔ out = docs.map (store.load hops) := by
  induction hops generalizing docs with
  | nil =>
      rw [show store.load [] = id from rfl, List.map_id]
      rfl
  | cons hop hops ih =>
      obtain ⟨hfirst, hrest⟩ := List.pairwise_cons.1 hinOrder
      have hfound : hop.relation.many = false → ∀ d ∈ docs, (store.related hop.target.storage
          hop.relation.foreignKey (keysAt hop.relation.localKey d)).length ≤ 1 := by
        intro hone d hd
        obtain ⟨hunique, hsingle⟩ := hkeys hop List.mem_cons_self hone
        exact length_related_le_one hunique (hsingle d hd)
      rw [List.flatMap_cons, runs_append]
      simp only [loadStages, runs_lookupStages hfound, exists_eq_left]
      refine (ih hrest fun next hnext hone => ?_).trans ?_
      · obtain ⟨hunique, hsingle⟩ := hkeys next (List.mem_cons_of_mem hop hnext) hone
        refine ⟨hunique, fun loaded hloaded => ?_⟩
        obtain ⟨d, hd, rfl⟩ := List.mem_map.1 hloaded
        rw [keysAt_congr (lookup_attach_ne (hfirst next hnext hone) d)]
        exact hsingle d hd
      · rw [List.map_map]
        rfl

/-- Skipping and limiting leaves the part of the documents that a page shows. -/
theorem runs_cutStages (paging : Paging) (docs out : List Doc) :
    store.Runs (cutStages paging) docs out ↔ out = paging.cut docs := by
  have hskip : ∀ between, store.Runs (if paging.offset = 0 then [] else [.skip paging.offset])
      docs between ↔ between = docs.drop paging.offset := by
    intro between
    split
    · rename_i hzero
      rw [hzero, List.drop_zero, Runs]
    · exact runs_single
  rw [cutStages, runs_append]
  simp only [hskip, exists_eq_left]
  cases hlimit : paging.limit with
  | none => simp [Paging.cut, hlimit, Runs]
  | some n => simp [Paging.cut, hlimit, runs_single, Leaves]

theorem runs_unsetStages (labels : List String) (docs out : List Doc) :
    store.Runs (unsetStages labels) docs out ↔ out = docs.map (without labels) := by
  cases labels with
  | nil =>
      rw [show without [] = id from funext without_nil, List.map_id]
      rfl
  | cons label labels => simp [unsetStages, runs_single, Leaves]

end Store

namespace Target

variable {t : Target} {store : Store} {request : Request} {query : Query}

/-- The stages of the relations that a request wants loaded. -/
theorem fetchStages_eq_ok {stages : List Stage}
    (hstages : t.fetchStages request.fetch = .ok stages) :
    stages = (t.loaded request).flatMap loadStages := by
  obtain ⟨relations, hfetched, hrest⟩ := Result.bind_eq_ok.1 hstages
  obtain ⟨parts, hparts, hflat⟩ := Result.bind_eq_ok.1 hrest
  cases hflat
  rw [loaded, hfetched]
  dsimp only
  clear hstages hrest
  generalize relations.filter (! ·.embedded) = references at hparts ⊢
  induction references generalizing parts with
  | nil =>
      cases hparts
      rfl
  | cons relation references ih =>
      rw [List.mapM_cons] at hparts
      obtain ⟨first, hfirst, hparts⟩ := Result.bind_eq_ok.1 hparts
      obtain ⟨others, hothers, hcons⟩ := Result.bind_eq_ok.1 hparts
      cases hcons
      cases htarget : t.registry.resource? relation.target with
      | none => simp [htarget] at hfirst
      | some target =>
          rw [htarget] at hfirst
          cases hfirst
          simp [htarget, ih others hothers, loadStages]

/-- The stages that page and count have in common. -/
def baseStages (t : Target) (request : Request) (condition : Option Filter) : List Stage :=
  (t.routesUsed request).flatMap stagesOf ++ condition.toList.map .keep

/-- The further stages of a page. -/
def pageStages (t : Target) (request : Request) (order : List (String × Direction)) : List Stage :=
  .sort order :: (cutStages request.paging ++
    (unsetStages (labelsOf (t.routesUsed request)) ++ (t.loaded request).flatMap loadStages))

/-- What a request is compiled to. -/
theorem compile_eq_shared (hcompile : t.compile request = .ok query) :
    ∃ condition order, request.filter.mapM (t.condition Joins.defaultStem) = .ok condition ∧
      t.order request.order = .ok order ∧
      t.totals (t.sharedStages request condition) request.aggregate = .ok query.totals ∧
      query.collection = t.resource.storage ∧
      query.pipeline = t.sharedStages request condition ++ [.sort order] ++
        cutStages request.paging ++
        unsetStages (lookupFields (t.joinsOf Joins.defaultStem request.pagePaths)) ++
        (t.loaded request).flatMap loadStages ∧
      query.countPipeline = if request.paging.wantTotal
        then some (t.sharedStages request condition ++ [.count countLabel]) else none := by
  have hjoins := t.addPaths_noJoins Joins.defaultStem request.pagePaths
  obtain ⟨condition, hcondition, hrest⟩ := Result.bind_eq_ok.1 hcompile
  obtain ⟨order, horder, hrest⟩ := Result.bind_eq_ok.1 hrest
  obtain ⟨fetch, hfetch, hrest⟩ := Result.bind_eq_ok.1 hrest
  obtain ⟨totals, htotals, hrest⟩ := Result.bind_eq_ok.1 hrest
  cases hrest
  refine ⟨condition, order, hcondition, horder, ?_, rfl, ?_, ?_⟩
  · rw [sharedStages, ← hjoins]
    exact htotals
  · rw [sharedStages, ← hjoins, cutStages, unsetStages, ← fetchStages_eq_ok hfetch]
    simp only [List.append_assoc]
    rfl
  · rw [sharedStages, ← hjoins]
    rfl

/-- What page and count of a request are compiled to, by its routes. -/
theorem compile_eq_ok (hcompile : t.compile request = .ok query) :
    ∃ condition order, request.filter.mapM (t.condition Joins.defaultStem) = .ok condition ∧
      query.collection = t.resource.storage ∧
      query.pipeline = t.baseStages request condition ++ t.pageStages request order ∧
      query.countPipeline = if request.paging.wantTotal
        then some (t.baseStages request condition ++ [.count countLabel]) else none := by
  obtain ⟨condition, order, hcondition, -, -, hcollection, hpipeline, hcount⟩ :=
    compile_eq_shared hcompile
  have hbase : t.sharedStages request condition = t.baseStages request condition := by
    rw [sharedStages, lookups_eq _ rfl]
    rfl
  refine ⟨condition, order, hcondition, hcollection, ?_, hbase ▸ hcount⟩
  rw [hpipeline, hbase, pageStages, lookupFields_eq _ rfl]
  simp only [List.append_assoc, List.singleton_append]
  rfl

section Found

variable (hkeys : t.HasKeys store request) (hapart : t.NamesApart request)
  (hone : t.OneBeforeMany request)

include hkeys hapart hone

/-- Looking up what a request needs leaves every document once, with all that is related to it, and
without a change to what it had. -/
theorem runs_related :
    (∀ out, store.Runs ((t.routesUsed request).flatMap stagesOf)
      (store.documents t.resource.storage) out ↔
        out = (store.documents t.resource.storage).map (t.withRelated store request)) ∧
    ∀ d ∈ store.documents t.resource.storage,
      store.Extends (t.routesUsed request) d (t.withRelated store request d) := by
  refine Store.runs_lookups (t.registry.isOrdered_routesUsed _ _) hapart.distinct
    (fun label hlabel => hapart.plain label (List.mem_append_left _ hlabel)) ?_
    (List.Subset.refl _)
  intro route hroute hop hlast hends
  exact ⟨hone route hroute hop hlast hends, hkeys.used route hroute hop hlast hends,
    hapart.used route hroute hop hlast hends⟩

/-- The stages that page and count have in common leave the documents that are found. -/
theorem runs_baseStages {condition : Option Filter}
    (hcondition : request.filter.mapM (t.condition Joins.defaultStem) = .ok condition)
    (out : List Doc) :
    store.Runs (t.baseStages request condition) (store.documents t.resource.storage) out ↔
      out = (t.foundDocuments store request).map (t.withRelated store request) := by
  have hfinds : t.finds store request = fun d =>
      condition.all (store.passes · (t.withRelated store request d)) := by
    funext d
    rw [finds, hcondition]
  rw [baseStages, Store.runs_append]
  simp only [(runs_related hkeys hapart hone).1, exists_eq_left]
  rw [foundDocuments, hfinds]
  cases condition with
  | none => simp [Store.Runs]
  | some filter =>
      simp only [Option.toList_some, List.map_cons, List.map_nil, Store.runs_single, Store.Leaves,
        Option.all_some, List.filter_map]
      rfl

/-- Loading relations leaves what is shown of every document. -/
theorem runs_loaded {docs : List Doc} (hdocs : docs ⊆ store.documents t.resource.storage)
    (out : List Doc) :
    store.Runs ((t.loaded request).flatMap loadStages)
      (docs.map fun d => without (labelsOf (t.routesUsed request)) (t.withRelated store request d))
      out ↔ out = docs.map (t.shown store request) := by
  rw [Store.runs_loadStages hapart.inOrder, List.map_map]
  · rfl
  · intro hop hloaded hmany
    obtain ⟨hunique, hsingle⟩ := hkeys.loaded hop hloaded hmany
    refine ⟨hunique, fun extended hextended => ?_⟩
    obtain ⟨d, hd, rfl⟩ := List.mem_map.1 hextended
    have hfirst := hapart.loaded hop hloaded hmany
    have hown := ((runs_related hkeys hapart hone).2 d (hdocs hd)).own _ hfirst
    rw [keysAt_congr ((lookup_without_of_not_mem hfirst _).trans hown)]
    exact hsingle d (hdocs hd)

/-- The further stages of a page leave what is shown of the part of the documents that is not cut
off, in the arrangement that the sort chooses. -/
theorem runs_pageStages {docs : List Doc} (hdocs : docs ⊆ store.documents t.resource.storage)
    (order : List (String × Direction)) (out : List Doc) :
    store.Runs (t.pageStages request order) (docs.map (t.withRelated store request)) out ↔
      ∃ arranged, arranged.Perm docs ∧
        out = (request.paging.cut arranged).map (t.shown store request) := by
  have hafter : ∀ arranged : List Doc, arranged.Perm docs →
      (store.Runs (cutStages request.paging ++ (unsetStages (labelsOf (t.routesUsed request)) ++
          (t.loaded request).flatMap loadStages)) (arranged.map (t.withRelated store request)) out ↔
        out = (request.paging.cut arranged).map (t.shown store request)) := by
    intro arranged harranged
    have hcut : request.paging.cut arranged ⊆ store.documents t.resource.storage := fun d hd =>
      hdocs (harranged.subset ((request.paging.cut_sublist arranged).subset hd))
    rw [Store.runs_append]
    simp only [Store.runs_cutStages, exists_eq_left, Paging.cut_map]
    rw [Store.runs_append]
    simp only [Store.runs_unsetStages, exists_eq_left, List.map_map]
    exact runs_loaded hkeys hapart hone hcut out
  rw [pageStages, Store.Runs]
  constructor
  · rintro ⟨between, hperm, hruns⟩
    obtain ⟨arranged, rfl, harranged⟩ :=
      (congrFun₂ (List.eq_map_comp_perm (t.withRelated store request)) between docs).mpr hperm
    exact ⟨arranged, harranged, (hafter arranged harranged).1 hruns⟩
  · rintro ⟨arranged, harranged, hout⟩
    exact ⟨_, harranged.map _, (hafter arranged harranged).2 hout⟩

end Found

/-- Only a relation to one is unwound by its stages. -/
theorem unwind_mem_lookupStages {relation : Relation}
    {collection localField label name : String} {keepEmpty : Bool}
    (hunwind : .unwind name keepEmpty ∈ lookupStages relation collection localField label) :
    relation.many = false ∧ name = label := by
  cases hmany : relation.many <;> simp_all [lookupStages]

theorem unwind_not_mem_cutStages {paging : Paging} {name : String} {keepEmpty : Bool} :
    .unwind name keepEmpty ∉ cutStages paging := by
  rw [cutStages]
  split <;> simp

theorem unwind_not_mem_unsetStages {labels : List String} {name : String} {keepEmpty : Bool} :
    .unwind name keepEmpty ∉ unsetStages labels := by
  rw [unsetStages]
  split <;> simp

/-- What page and count have in common unwinds references to one that filter and order use. -/
theorem unwind_mem_baseStages {condition : Option Filter} {name : String} {keepEmpty : Bool}
    (hone : t.OneBeforeMany request)
    (hunwind : .unwind name keepEmpty ∈ t.baseStages request condition) :
    ∃ route ∈ t.routesUsed request, route.isReference = true ∧ route.isToMany = false ∧
      name = route.label := by
  rcases List.mem_append.1 hunwind with hlookup | hkeep
  · obtain ⟨route, hroute, hstage⟩ := List.mem_flatMap.1 hlookup
    refine ⟨route, hroute, ?_⟩
    cases hreference : route.isReference with
    | true =>
        obtain ⟨hop, hlast, hseparate⟩ := Route.isReference_iff.1 hreference
        rw [stagesOf_reference hlast hseparate] at hstage
        obtain ⟨hmany, hname⟩ := unwind_mem_lookupStages hstage
        have hends : hop.relation.refersToOne = true := by
          simp [Relation.refersToOne, hseparate, hmany]
        exact ⟨rfl, hone route hroute hop hlast hends, hname⟩
    | false =>
        rw [stagesOf_of_not_reference hreference] at hstage
        cases hstage
  · obtain ⟨filter, _, heq⟩ := List.mem_map.1 hkeep
    cases heq

/-- The further stages of a page unwind relations to one that are loaded. -/
theorem unwind_mem_pageStages {order : List (String × Direction)} {name : String}
    {keepEmpty : Bool} (hunwind : .unwind name keepEmpty ∈ t.pageStages request order) :
    ∃ hop ∈ t.loaded request, hop.relation.many = false ∧ name = hop.relation.name := by
  rw [pageStages, List.mem_cons, List.mem_append, List.mem_append] at hunwind
  rcases hunwind with hsort | hcut | hunset | hload
  · cases hsort
  · exact absurd hcut unwind_not_mem_cutStages
  · exact absurd hunset unwind_not_mem_unsetStages
  · obtain ⟨hop, hloaded, hstage⟩ := List.mem_flatMap.1 hload
    exact ⟨hop, hloaded, unwind_mem_lookupStages hstage⟩

/-- If no reference to one is behind a relation to many, then pages and counts unwind only what is
reached by relations to one. So a page returns every document that is found once, as far as it is
not cut off, in some arrangement, and a count returns how many are found. -/
theorem pipelines_repeat_no_document (hkeys : t.HasKeys store request)
    (hapart : t.NamesApart request) (hone : t.OneBeforeMany request)
    (hcompile : t.compile request = .ok query) :
    (∀ stages ∈ query.pipeline :: query.countPipeline.toList, ∀ name keepEmpty,
      .unwind name keepEmpty ∈ stages →
        (∃ route ∈ t.routesUsed request, route.isReference = true ∧ route.isToMany = false ∧
          name = route.label) ∨
        ∃ hop ∈ t.loaded request, hop.relation.many = false ∧ name = hop.relation.name) ∧
    (∀ out, store.Runs query.pipeline (store.documents query.collection) out ↔
      ∃ arranged, arranged.Perm (t.foundDocuments store request) ∧
        out = (request.paging.cut arranged).map (t.shown store request)) ∧
    ∀ count ∈ query.countPipeline, ∀ out,
      store.Runs count (store.documents query.collection) out ↔
        out = counted countLabel (t.foundDocuments store request) := by
  obtain ⟨condition, order, hcondition, hcollection, hpipeline, hcount⟩ := compile_eq_ok hcompile
  have hbase := runs_baseStages hkeys hapart hone hcondition
  have hfound : t.foundDocuments store request ⊆ store.documents t.resource.storage :=
    List.filter_sublist.subset
  have hcounted : ∀ count ∈ query.countPipeline,
      count = t.baseStages request condition ++ [.count countLabel] := by
    intro count hmem
    rw [hcount] at hmem
    split at hmem
    · exact (Option.mem_some.1 hmem).symm
    · cases hmem
  rw [hcollection, hpipeline]
  refine ⟨?_, ?_, ?_⟩
  · intro stages hstages name keepEmpty hunwind
    rcases List.mem_cons.1 hstages with rfl | hmem
    · rcases List.mem_append.1 hunwind with hcommon | hpage
      · exact .inl (unwind_mem_baseStages hone hcommon)
      · exact .inr (unwind_mem_pageStages hpage)
    · rw [hcounted stages (Option.mem_toList.1 hmem), List.mem_append] at hunwind
      rcases hunwind with hcommon | hlast
      · exact .inl (unwind_mem_baseStages hone hcommon)
      · cases List.mem_singleton.1 hlast
  · intro out
    rw [Store.runs_append]
    simp only [hbase, exists_eq_left]
    exact runs_pageStages hkeys hapart hone hfound order out
  · intro count hmem out
    rw [hcounted count hmem, Store.runs_append]
    simp only [hbase, exists_eq_left, Store.runs_single, Store.Leaves, counted, List.isEmpty_map,
      List.length_map]

end Target

namespace Magazine

/-- Articles, each by an author, with any number of reviews. -/
def article : Resource where
  name := "article"
  storage := "articles"
  primaryKey := ["_id"]
  relations := [
    .toOne "author" "author" "author_id" "_id",
    .toMany "reviews" "review" "_id" "article_id"]

/-- Authors, each of whom belongs to a team. -/
def author : Resource where
  name := "author"
  storage := "authors"
  attributes := [{ name := "city", kind := .string }]
  relations := [.toOne "team" "team" "team_id" "_id"]

def team : Resource where
  name := "team"
  storage := "teams"
  attributes := [{ name := "name", kind := .string }]

/-- Reviews, which are by authors as well. -/
def review : Resource where
  name := "review"
  storage := "reviews"
  attributes := [{ name := "verdict", kind := .string }]
  relations := [.toOne "author" "author" "author_id" "_id"]

def target : Target where
  functions := []
  registry := { entries := [article, author, team, review].map (⟨·, .document []⟩) }
  resource := article

def news : Doc := [("_id", .string "news"), ("author_id", .string "cid")]

def writer (id : String) : Doc :=
  [("_id", .string id), ("city", .string "Oslo"), ("team_id", .string "desk")]

def crew (id : String) : Doc := [("_id", .string id), ("name", .string "Desk")]

def reviewBy (author verdict : String) : Doc :=
  [("article_id", .string "news"), ("author_id", .string author), ("verdict", .string verdict)]

/-- One article, which two authors from the same city have reviewed. Values are equal if they stand
for the same datum, and filters compare fields for equality. -/
def store : Store where
  documents collection :=
    if collection = "articles" then [news]
    else if collection = "authors" then ["ann", "bob", "cid"].map writer
    else if collection = "teams" then ["desk"].map crew
    else if collection = "reviews" then [reviewBy "ann" "good", reviewBy "bob" "fair"]
    else []
  equal x y := x.datum == y.datum
  passes
    | .field path (.compare .eq v), d => (keysAt path d).any (·.datum == v.datum)
    | _, _ => true

/-- Documents that were made of different texts are told apart by these. -/
theorem isUnique_of_texts {collection field : String} {ids : List String} {make : String → Doc}
    (hdocs : store.documents collection = ids.map make) (hids : ids.Nodup)
    (hkey : ∀ id, keysAt field (make id) = [.string id]) : store.IsUnique collection field := by
  intro key
  rw [Store.related, hdocs, List.filter_map, List.length_map]
  have hfound : ∀ id ∈ ids.filter ((fun d => [key].any fun x =>
      (keysAt field d).any (store.equal x)) ∘ make), key.datum = .text id := by
    intro id hid
    simpa [hkey, store, Json.datum] using (List.mem_filter.1 hid).2
  have hnodup := hids.filter ((fun d => [key].any fun x =>
    (keysAt field d).any (store.equal x)) ∘ make)
  generalize ids.filter _ = found at hfound hnodup ⊢
  rcases found with _ | ⟨first, _ | ⟨second, rest⟩⟩
  · simp
  · simp
  · have hsame : Datum.text first = .text second :=
      (hfound first (by simp)).symm.trans (hfound second (by simp))
    cases hsame
    simp at hnodup

theorem isUnique_authors : store.IsUnique "authors" "_id" :=
  isUnique_of_texts (show _ = ["ann", "bob", "cid"].map writer from rfl) (by decide) fun _ => rfl

theorem isUnique_teams : store.IsUnique "teams" "_id" :=
  isUnique_of_texts (show _ = ["desk"].map crew from rfl) (by decide) fun _ => rfl

/-- A comparison of an attribute for equality with a text. -/
def isText (relations : List String) (attr text : String) : Listing.Filter :=
  .comparison ⟨(Path.mk relations attr).label, ⟨relations, attr⟩, .exact, none, .string text⟩

/-- Articles with a good review by the team of their author, with the author. -/
def wellReviewed : Request where
  filter := some (isText ["reviews"] "verdict" "good")
  order := [⟨⟨["author", "team"], "name"⟩, .ascending⟩]
  paging := { limit := some 10, wantTotal := true }
  fetch := .named ["author"]

/-- Articles that were reviewed from a city. -/
def reviewedFromOslo : Request where
  filter := some (isText ["reviews", "author"] "city" "Oslo")
  paging := { wantTotal := true }

def toAuthor : Hop := ⟨.toOne "author" "author" "author_id" "_id", author⟩

def toTeam : Hop := ⟨.toOne "team" "team" "team_id" "_id", team⟩

def toReviews : Hop := ⟨.toMany "reviews" "review" "_id" "article_id", review⟩

theorem hasKeys_wellReviewed : target.HasKeys store wellReviewed := by
  have hroutes : target.routesUsed wellReviewed = [[toReviews], [toAuthor], [toAuthor, toTeam]] :=
    rfl
  have hloaded : target.loaded wellReviewed = [toAuthor] := rfl
  constructor
  · rw [hroutes]
    simp only [List.forall_mem_cons, List.not_mem_nil, false_imp_iff, implies_true, and_true]
    refine ⟨?_, ?_, ?_⟩
    · rintro hop ⟨⟩ hone
      cases hone
    · rintro hop ⟨⟩ _
      exact ⟨isUnique_authors, by decide +kernel⟩
    · rintro hop ⟨⟩ _
      exact ⟨isUnique_teams, by decide +kernel⟩
  · rw [hloaded]
    simp only [List.forall_mem_cons, List.not_mem_nil, false_imp_iff, implies_true, and_true]
    intro _
    exact ⟨isUnique_authors, by decide +kernel⟩

theorem namesApart_wellReviewed : target.NamesApart wellReviewed :=
  ⟨by decide +kernel, by decide +kernel, by decide +kernel, by decide +kernel, by decide +kernel⟩

/-- An article with two reviews, one of them good, is on the page once with its author, and is
counted once. -/
theorem pipelines_repeat_no_document_wellReviewed :
    ∃ query count, target.compile wellReviewed = .ok query ∧ query.countPipeline = some count ∧
      store.Runs query.pipeline (store.documents "articles")
        [news ++ [("author", .object (writer "cid"))]] ∧
      store.Runs count (store.documents "articles") [[("total", .int 1)]] := by
  refine ⟨_, _, rfl, rfl, ?_⟩
  obtain ⟨_, hpage, hcount⟩ := Target.pipelines_repeat_no_document hasKeys_wellReviewed
    namesApart_wellReviewed (show target.OneBeforeMany wellReviewed by decide +kernel)
    (show target.compile wellReviewed = _ from rfl)
  exact ⟨(hpage _).2 ⟨[news], .refl _, rfl⟩, (hcount _ rfl _).2 rfl⟩

/-- The stages that find the articles that were reviewed from a city. -/
def findingStages : List Stage := [
  .lookup "reviews" "_id" "article_id" "rel_reviews",
  .lookup "authors" "rel_reviews.author_id" "_id" "rel_reviews__author",
  .unwind "rel_reviews__author" true,
  .keep (.field "rel_reviews__author.city" (.compare .eq (.string "Oslo")))]

theorem compile_reviewedFromOslo : target.compile reviewedFromOslo = .ok {
    collection := "articles"
    pipeline := findingStages ++
      [.sort [("_id", .ascending)], .unset ["rel_reviews", "rel_reviews__author"]]
    countPipeline := some (findingStages ++ [.count "total"])
    totals := none } := rfl

theorem hasKeys_reviewedFromOslo : target.HasKeys store reviewedFromOslo := by
  have hroutes : target.routesUsed reviewedFromOslo = [[toReviews], [toReviews, toAuthor]] := rfl
  constructor
  · rw [hroutes]
    simp only [List.forall_mem_cons, List.not_mem_nil, false_imp_iff, implies_true, and_true]
    refine ⟨?_, ?_⟩
    · rintro hop ⟨⟩ hone
      cases hone
    · rintro hop ⟨⟩ _
      exact ⟨isUnique_authors, by decide +kernel⟩
  · intro hop hloaded
    cases hloaded

theorem namesApart_reviewedFromOslo : target.NamesApart reviewedFromOslo :=
  ⟨by decide +kernel, by decide +kernel, by decide +kernel, by decide +kernel, by decide +kernel⟩

/-- The authors of reviews are unwound, though an article has many reviews: every key is unique, and
yet the only article is on the page twice, and counted twice. -/
theorem pipelines_repeat_reviewed :
    reviewedFromOslo.validate target.registry article = .ok () ∧
      target.HasKeys store reviewedFromOslo ∧ target.NamesApart reviewedFromOslo ∧
      target.foundDocuments store reviewedFromOslo = [news] ∧
      ∃ query count, target.compile reviewedFromOslo = .ok query ∧
        query.countPipeline = some count ∧ .unwind "rel_reviews__author" true ∈ query.pipeline ∧
        store.Runs query.pipeline (store.documents "articles") [news, news] ∧
        ∀ out, store.Runs count (store.documents "articles") out → out = [[("total", .int 2)]] := by
  refine ⟨rfl, hasKeys_reviewedFromOslo, namesApart_reviewedFromOslo, rfl, _, _,
    compile_reviewedFromOslo, rfl, by simp [findingStages], ?_, ?_⟩
  · exact ⟨_, rfl, _, rfl, _, rfl, _, rfl, _, .refl _, _, rfl, rfl⟩
  · rintro out ⟨_, rfl, _, rfl, _, rfl, _, rfl, _, rfl, rfl⟩
    rfl

end Magazine
end Document
end Listing
