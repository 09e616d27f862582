/-
# Pages have a limit

A request may name the size of its page, a resource and the options may each give a default and a
largest size. Where one of them gives a largest size, every page has a limit: what was asked for, or
else the first default there is, cut down to the largest size, and the largest size itself where
nothing says how many.

The stores carry the limit in their own ways. A statement ends in it. A pipeline has a stage for it,
after the documents are found, sorted and skipped; what comes later takes labels away and loads
relations, and does neither find, sort nor cut. A search has it in its body.
-/
import Listing.Compiled
import Listing.Proofs.PageOrder
import Listing.Proofs.ReadingByKey
import Listing.Proofs.Semantics.SqlSelect
import Listing.Sql.Printer

namespace Listing

namespace Paging

variable {resource : Resource} {options : Options}

/-- The size of a page where there is a largest one. -/
def limitUpTo (requested : Option Nat) (resource : Resource) (options : Options)
    (largest : Nat) : Nat :=
  min (((requested.or resource.defaultLimit).or options.defaultLimit).getD largest) largest

/-- A largest size makes every page limited. -/
theorem effectiveLimit_eq {largest : Nat} (hlargest : maxLimit resource options = some largest)
    (requested : Option Nat) : effectiveLimit requested resource options =
      some (limitUpTo requested resource options largest) := by
  rw [effectiveLimit, limitUpTo, hlargest]
  cases (requested.or resource.defaultLimit).or options.defaultLimit with
  | none => exact congrArg some (Nat.min_self largest).symm
  | some n => rfl

/-- The page of a request with a largest size. -/
theorem limit_of_read {limit offset totalCount : Option String} {paging : Paging} {largest : Nat}
    (hlargest : maxLimit resource options = some largest)
    (hread : read limit offset totalCount resource options = .ok paging) :
    ∃ requested, readLimit limit = .ok requested ∧
      paging.limit = some (limitUpTo requested resource options largest) := by
  obtain ⟨requested, _, hrequested, -, hlimit, -⟩ := eq_of_read hread
  exact ⟨requested, hrequested, hlimit.trans (effectiveLimit_eq hlargest requested)⟩

end Paging

namespace Sql

/-- The statement of a page ends in a limit, before the offset if there is one, so that it never
returns more rows. -/
structure Query.IsLimitedTo (q : Query) (n : Nat) : Prop where
  written : ∃ before, (Statement.select q.page).write q.dialect =
    before ++ [.text " LIMIT ", .value (.natural n)] ++ writeNumber " OFFSET " q.page.offset
  returns : ∀ engine db rows, q.page.Returns engine db rows → rows.length ≤ n

/-- A limit is written behind everything but the offset. -/
theorem Select.write_of_limit {s : Select} {n : Nat} (hlimit : s.limit = some n) (d : Dialect) :
    ∃ before, s.write d =
      before ++ [.text " LIMIT ", .value (.natural n)] ++ writeNumber " OFFSET " s.offset := by
  have hwritten : ∃ before, s.write d =
      before ++ writeNumber " LIMIT " s.limit ++ writeNumber " OFFSET " s.offset := ⟨_, rfl⟩
  rwa [hlimit] at hwritten

/-- A select with a limit returns no more rows. -/
theorem Select.length_cut_le {α : Type} {s : Select} {n : Nat} (hlimit : s.limit = some n)
    (rows : List α) : (s.cut rows).length ≤ n := by
  rw [Select.cut, hlimit]
  exact List.length_take_le n _

theorem Target.isLimitedTo {t : Target} {request : Request} {query : Query} {n : Nat}
    (hlimit : request.paging.limit = some n) (hcompile : t.compile request = .ok query) :
    query.IsLimitedTo n := by
  obtain ⟨selection, order, _, _, -, -, -, -, rfl⟩ := compile_eq_ok_iff.1 hcompile
  have hpage : (t.page selection request order).limit = some n := hlimit
  refine ⟨Select.write_of_limit hpage t.dialect, fun engine db rows hreturns => ?_⟩
  obtain ⟨_, _, rfl⟩ := hreturns.arranged
  exact Select.length_cut_le hpage _

end Sql

namespace Document

/-- Each document is led to one at most by a relation to one, with what the relations before it have
put there. -/
def Store.LoadsOne (store : Store) : List Hop → List Doc → Prop
  | [], _ => True
  | hop :: hops, docs =>
    (hop.relation.many = false → ∀ d ∈ docs, (store.related hop.target.storage
      hop.relation.foreignKey (keysAt hop.relation.localKey d)).length ≤ 1) ∧
    store.LoadsOne hops
      (docs.map fun d => store.attach hop hop.relation.name (keysAt hop.relation.localKey d) d)

/-- Loading relations leaves as many documents as there were. -/
theorem Store.LoadsOne.length_eq {store : Store} {hops : List Hop} {docs out : List Doc}
    (hone : store.LoadsOne hops docs) (hruns : store.Runs (hops.flatMap loadStages) docs out) :
    out.length = docs.length := by
  induction hops generalizing docs with
  | nil =>
      cases hruns
      rfl
  | cons hop hops ih =>
      obtain ⟨hfirst, hrest⟩ := hone
      rw [List.flatMap_cons, runs_append] at hruns
      obtain ⟨between, hload, hloads⟩ := hruns
      rw [(runs_lookupStages hfirst between).1 hload] at hloads
      rw [ih hrest hloads, List.length_map]

/-- The pipeline of a page finds documents, sorts them, skips some and then limits them. No more
than the limit are left there, and all that comes later is to take labels away and to load
relations; so no more are left at the end, unless a relation to one leads to several documents. -/
structure Query.IsLimitedTo (q : Query) (n : Nat) : Prop where
  stages : ∃ base order skip labels hops, q.pipeline =
      base ++ .sort order :: (skip ++ .limit n :: (unsetStages labels ++ hops.flatMap loadStages)) ∧
    (∀ stage ∈ base, stage.finds) ∧ (∀ stage ∈ skip, ∃ k, stage = .skip k) ∧
    ∀ (store : Store) docs out, store.Runs q.pipeline docs out →
      ∃ page, store.Runs (base ++ .sort order :: (skip ++ [.limit n])) docs page ∧
        page.length ≤ n ∧
        (store.LoadsOne hops (page.map (without labels)) → out.length = page.length)

theorem Target.isLimitedTo {t : Target} {request : Request} {query : Query} {n : Nat}
    (hlimit : request.paging.limit = some n) (hcompile : t.compile request = .ok query) :
    query.IsLimitedTo n := by
  obtain ⟨condition, order, -, -, -, -, hpipeline, -⟩ := compile_eq_shared hcompile
  have hskip : ∀ stage ∈ (if request.paging.offset = 0 then [] else
      [Stage.skip request.paging.offset]), ∃ k, stage = .skip k := by
    intro stage hstage
    split at hstage
    · cases hstage
    · exact ⟨_, List.mem_singleton.1 hstage⟩
  rw [cutStages, hlimit] at hpipeline
  generalize (if request.paging.offset = 0 then [] else [Stage.skip request.paging.offset]) = skip
    at hskip hpipeline
  refine ⟨t.sharedStages request condition, order, skip,
    lookupFields (t.joinsOf Joins.defaultStem request.pagePaths), t.loaded request, ?_,
    finds_base _ _, hskip, ?_⟩
  · rw [hpipeline]
    simp only [Option.toList_some, List.map_cons, List.map_nil, List.append_assoc,
      List.cons_append, List.nil_append]
  · intro store docs out hruns
    rw [hpipeline, List.append_assoc, Store.runs_append] at hruns
    obtain ⟨page, hpage, hafter⟩ := hruns
    obtain ⟨unset, hunset, hloads⟩ := Store.runs_append.1 hafter
    rw [(Store.runs_unsetStages _ _ _).1 hunset] at hloads
    refine ⟨page, ?_, ?_, fun hone => by rw [hone.length_eq hloads, List.length_map]⟩
    · simpa using hpage
    · rw [← List.append_assoc, Store.runs_append] at hpage
      obtain ⟨between, -, hlast⟩ := hpage
      rw [show page = between.take n from Store.runs_single.1 hlast]
      exact List.length_take_le n between

end Document

namespace SearchIndex

/-- The body of a search names a size. -/
structure Query.IsLimitedTo (q : Query) (n : Nat) : Prop where
  size : q.size = some n
  body : q.body.get? "size" = some (.int n)

theorem Target.isLimitedTo {t : Target} {request : Request} {query : Query} {n : Nat}
    (hlimit : request.paging.limit = some n) (hcompile : t.compile request = .ok query) :
    query.IsLimitedTo n := by
  obtain ⟨_, sort, _, _, -, -, -, -, rfl⟩ := compile_eq_ok_iff.1 hcompile
  refine ⟨hlimit, ?_⟩
  rw [Query.body, hlimit, Json.get?]
  cases hsort : sort.isEmpty <;> simp [List.lookup_cons]

end SearchIndex

/-- A compiled request asks its store for so many rows at most. -/
def Compiled.IsLimitedTo (n : Nat) : Compiled → Prop
  | .relational q => q.IsLimitedTo n
  | .document q => q.IsLimitedTo n
  | .searchIndex q => q.IsLimitedTo n

namespace Entry

variable {e : Entry} {registry : Registry} {params : Params} {compiled : Compiled} {largest : Nat}

/-- Whatever a request says, a resource with a largest page size is asked for a page of limited
size: the one requested, or else the default of the resource, or else that of the options, or else
the largest, and never more than the largest. -/
theorem compile_limited
    (hlargest : e.resource.maxLimit.or registry.options.maxLimit = some largest)
    (hcompile : e.compile registry params = .ok compiled) :
    ∃ requested, Paging.readLimit (params.get? Param.limit) = .ok requested ∧
      compiled.IsLimitedTo (min (((requested.or e.resource.defaultLimit).or
        registry.options.defaultLimit).getD largest) largest) := by
  obtain ⟨request, hread, hrest⟩ := Result.bind_eq_ok.1 hcompile
  obtain ⟨_, _, hstore⟩ := Result.bind_eq_ok.1 hrest
  obtain ⟨document, simple, hread⟩ := Request.ofParams_eq_ok_iff.1 hread
  obtain ⟨requested, hrequested, hlimit⟩ := Paging.limit_of_read hlargest hread.paging
  refine ⟨requested, hrequested, ?_⟩
  unfold Backend.compile at hstore
  split at hstore
  · obtain ⟨query, hquery, rfl⟩ := Result.map_eq_ok.1 hstore
    exact Sql.Target.isLimitedTo hlimit hquery
  · obtain ⟨query, hquery, rfl⟩ := Result.map_eq_ok.1 hstore
    exact Document.Target.isLimitedTo hlimit hquery
  · obtain ⟨query, hquery, rfl⟩ := Result.map_eq_ok.1 hstore
    exact SearchIndex.Target.isLimitedTo hlimit hquery

end Entry

/-! An archive shows twenty letters, unless it is asked for another number of them, and a hundred at
most; the options name larger sizes. -/

namespace Archive

def letter : Resource where
  name := "letter"
  storage := "letters"
  attributes := [{ name := "sender", kind := .string }]
  defaultLimit := some 20
  maxLimit := some 100

def options : Options where
  defaultLimit := some 500
  maxLimit := some 1000

def entry : Entry := ⟨letter, .document []⟩

def registry : Registry where
  entries := [entry]
  options := options

/-- Five hundred letters are too many. -/
theorem compile_limited_hundred :
    letter.maxLimit.or registry.options.maxLimit = some 100 ∧
      ∃ compiled, entry.compile registry
        ⟨[("limit", "500"), ("offset", "40"), ("order", "-sender")]⟩ = .ok compiled ∧
          compiled.IsLimitedTo 100 := by
  have hlargest : entry.resource.maxLimit.or registry.options.maxLimit = some 100 := rfl
  have haccepted : ∃ compiled, entry.compile registry
      ⟨[("limit", "500"), ("offset", "40"), ("order", "-sender")]⟩ = .ok compiled := ⟨_, rfl⟩
  obtain ⟨compiled, hcompiled⟩ := haccepted
  obtain ⟨requested, hrequested, hlimited⟩ := Entry.compile_limited hlargest hcompiled
  have hfive : Paging.readLimit (some "500") = .ok (some 500) := rfl
  cases Except.ok.inj (hfive.symm.trans hrequested)
  exact ⟨hlargest, compiled, hcompiled, hlimited⟩

end Archive
end Listing
