/-
# What a request is compiled to

A compiler takes a request part by part: the filter, the order, the totals and what is to be loaded.
It gives a query exactly if every part can be compiled, and the query is put together from them.
What is proved of one part of a query starts from here, without regard to the others. The stages of
pipelines are told apart further, by `Document.Target.compile_eq_shared`.
-/
import Listing.Proofs.Refusal
import Listing.SearchIndex.Query
import Listing.Sql.Query

namespace Listing

/-- A page and a count that select in the same way, totals of this selection, and further loads. -/
theorem Sql.Target.compile_eq_ok_iff {t : Target} {request : Request} {query : Query} :
    t.compile request = .ok query ↔ ∃ selection terms totals eager,
      t.selection request.filter = .ok selection ∧
      request.order.mapM t.orderTerm = .ok terms ∧
      t.totals selection request.aggregate = .ok totals ∧
      t.eagerLoads request = .ok eager ∧
      query = {
        dialect := t.dialect
        page := t.page selection request terms
        count := if request.paging.wantTotal then some (t.count selection) else none
        totals
        eager } := by
  constructor
  · intro hcompile
    obtain ⟨selection, hselection, hrest⟩ := Result.bind_eq_ok.1 hcompile
    obtain ⟨terms, hterms, hrest⟩ := Result.bind_eq_ok.1 hrest
    obtain ⟨totals, htotals, hrest⟩ := Result.bind_eq_ok.1 hrest
    obtain ⟨eager, heager, hrest⟩ := Result.bind_eq_ok.1 hrest
    cases hrest
    exact ⟨selection, terms, totals, eager, hselection, hterms, htotals, heager, rfl⟩
  · rintro ⟨selection, terms, totals, eager, hselection, hterms, htotals, heager, rfl⟩
    exact Result.bind_eq_ok.2 ⟨selection, hselection, Result.bind_eq_ok.2 ⟨terms, hterms,
      Result.bind_eq_ok.2 ⟨totals, htotals, Result.bind_eq_ok.2 ⟨eager, heager, rfl⟩⟩⟩⟩

/-- A clause for the filter, which is not ranked where there is an order, and levels of buckets. -/
theorem SearchIndex.Target.compile_eq_ok_iff {t : Target} {request : Request} {query : Query} :
    t.compile request = .ok query ↔ ∃ filter sort dimensions metrics,
      request.filter.mapM t.condition = .ok filter ∧
      request.order.mapM t.sortKey = .ok sort ∧
      request.aggregate.groupBy.mapM t.dimension = .ok dimensions ∧
      request.aggregate.metrics.mapM t.metricField = .ok metrics ∧
      query = {
        index := t.resource.storage
        clause := filter.elim .matchAll fun found =>
          if sort.isEmpty then found.close else .unranked found.close
        sort
        offset := request.paging.offset
        size := request.paging.limit
        countAll := request.paging.wantTotal
        aggregations := bucketLevels metrics request.aggregate.groupLimit dimensions
        dimensions := dimensions.map (·.1)
        metrics := metrics.map (·.label) } := by
  constructor
  · intro hcompile
    obtain ⟨filter, hfilter, hrest⟩ := Result.bind_eq_ok.1 hcompile
    obtain ⟨sort, hsort, hrest⟩ := Result.bind_eq_ok.1 hrest
    obtain ⟨dimensions, hdimensions, hrest⟩ := Result.bind_eq_ok.1 hrest
    obtain ⟨metrics, hmetrics, hrest⟩ := Result.bind_eq_ok.1 hrest
    cases hrest
    exact ⟨filter, sort, dimensions, metrics, hfilter, hsort, hdimensions, hmetrics,
      by cases filter <;> rfl⟩
  · rintro ⟨filter, sort, dimensions, metrics, hfilter, hsort, hdimensions, hmetrics, rfl⟩
    exact Result.bind_eq_ok.2 ⟨filter, hfilter, Result.bind_eq_ok.2 ⟨sort, hsort,
      Result.bind_eq_ok.2 ⟨dimensions, hdimensions, Result.bind_eq_ok.2 ⟨metrics, hmetrics,
        by cases filter <;> rfl⟩⟩⟩⟩

end Listing
