/-
# The order of parameters

The pairs of a query string come in an order, and a client that builds it from a map has no say in
it. What matters is the order of the values under one key: that is the order of sort keys, of
metrics and of documents. How the keys stand between each other decides in which order the simple
parameters come in their conjunction, and nothing else.
-/
import Listing.Proofs.ReadingByKey

namespace Listing

namespace Request

variable {params params' : Params} {resource : Resource} {options : Options} {request : Request}

/-- What is read from parameters is read from others with the same values under every key, but for
the order of the simple parameters. -/
theorem IsReadFrom.of_sameValues {document : Option Filter} {simple : List Filter}
    (hsame : ∀ key, params.getAll key = params'.getAll key)
    (hread : request.IsReadFrom params resource options document simple) :
    ∃ simple', simple.Perm simple' ∧
      IsReadFrom { request with filter := FilterBuilder.build ⟨simple', document⟩ } params' resource
        options document simple' := by
  have hfirst (key : String) : params'.get? key = params.get? key := by
    rw [Params.get?_eq_head?, Params.get?_eq_head?, hsame]
  obtain ⟨simple', hsimple, hperm⟩ :=
    Result.mapM_perm ((Params.grouped_perm hsame).filter _) hread.readsSimple
  refine ⟨simple', hperm, ?_, hsimple, fun key hkey => ?_, rfl, ?_, ?_, ?_, ?_⟩
  · rw [Params.readDocuments, ← hsame]
    exact hread.readsDocuments
  · rw [← hsame]
    exact hread.scalars key hkey
  · rw [← hsame]
    exact hread.order
  · rw [hfirst, hfirst, hfirst]
    exact hread.paging
  · rw [← hsame, ← hsame, hfirst]
    exact hread.aggregate
  · rw [← hsame]
    exact hread.fetch

/-- Parameters with the same values under every key, however the keys stand between each other, are
accepted alike, and make the same order, page, totals and relations to load. The documents make the
same filter, and the simple parameters the same filters in another order. -/
theorem ofParams_interleaved (hsame : ∀ key, params.getAll key = params'.getAll key)
    (resource : Resource) (options : Options) :
    ((∃ request, ofParams params resource options = .ok request) ↔
      ∃ request, ofParams params' resource options = .ok request) ∧
    ∀ request request', ofParams params resource options = .ok request →
      ofParams params' resource options = .ok request' →
      request.order = request'.order ∧ request.paging = request'.paging ∧
      request.aggregate = request'.aggregate ∧ request.fetch = request'.fetch ∧
      ∃ document simple simple', params.readDocuments resource = .ok document ∧
        params'.readDocuments resource = .ok document ∧
        params.readSimple resource options = .ok simple ∧
        params'.readSimple resource options = .ok simple' ∧ simple.Perm simple' ∧
        request.filter = FilterBuilder.build ⟨simple, document⟩ ∧
        request'.filter = FilterBuilder.build ⟨simple', document⟩ := by
  constructor
  · have haccepted {params params' : Params}
        (hsame : ∀ key, params.getAll key = params'.getAll key) :
        (∃ request, ofParams params resource options = .ok request) →
          ∃ request, ofParams params' resource options = .ok request := by
      rintro ⟨request, hrequest⟩
      obtain ⟨document, simple, hread⟩ := ofParams_eq_ok_iff.1 hrequest
      obtain ⟨simple', -, hread'⟩ := hread.of_sameValues hsame
      exact ⟨_, ofParams_eq_ok_iff.2 ⟨document, simple', hread'⟩⟩
    exact ⟨haccepted hsame, haccepted fun key => (hsame key).symm⟩
  · intro request request' hrequest hrequest'
    obtain ⟨document, simple, hread⟩ := ofParams_eq_ok_iff.1 hrequest
    obtain ⟨simple', hperm, hread'⟩ := hread.of_sameValues hsame
    obtain rfl : request' = { request with filter := FilterBuilder.build ⟨simple', document⟩ } :=
      Except.ok.inj (hrequest'.symm.trans (ofParams_eq_ok_iff.2 ⟨document, simple', hread'⟩))
    exact ⟨rfl, rfl, rfl, rfl, document, simple, simple', hread.readsDocuments,
      hread'.readsDocuments, hread.readsSimple, hread'.readsSimple, hperm, hread.filter, rfl⟩

end Request

/-! Coats of a wardrobe, listed by a query string and by another one with its pairs shuffled. -/

namespace Wardrobe

def coat : Resource where
  name := "coat"
  storage := "coats"
  attributes := [{ name := "size", kind := .numeric }, { name := "color", kind := .string }]

def given : Params where
  pairs := [("search", "\x7b\"size\": \"40\"\x7d"), ("size__lt", "44"), ("order", "size"),
    ("color", "red"), ("search", "\x7b\"color__isnotnull\": null\x7d"), ("order", "color")]

def shuffled : Params where
  pairs := [("order", "size"), ("color", "red"), ("order", "color"), ("size__lt", "44"),
    ("search", "\x7b\"size\": \"40\"\x7d"), ("search", "\x7b\"color__isnotnull\": null\x7d")]

theorem getAll_shuffled (key : String) : given.getAll key = shuffled.getAll key := by
  by_cases hkey : key ∈ ["search", "size__lt", "order", "color"]
  · simp only [List.mem_cons, List.not_mem_nil, or_false] at hkey
    rcases hkey with rfl | rfl | rfl | rfl <;> rfl
  · simp only [List.mem_cons, List.not_mem_nil, or_false, not_or] at hkey
    simp [Params.getAll, given, shuffled, hkey, eq_comm]

def isSmall : Filter :=
  .comparison ⟨"size__lt", ⟨[], "size"⟩, .lt, none, .string "44"⟩

def isRed : Filter :=
  .comparison ⟨"color", ⟨[], "color"⟩, .exact, none, .string "red"⟩

/-- Both are accepted. Their simple parameters change places, for the color comes first in one and
the size in the other; the documents and the order do not. -/
theorem ofParams_interleaved_coats : (∀ key, given.getAll key = shuffled.getAll key) ∧
    ∃ request request', Request.ofParams given coat {} = .ok request ∧
      Request.ofParams shuffled coat {} = .ok request' ∧ request.order = request'.order ∧
      ∃ document, request.filter = FilterBuilder.build ⟨[isSmall, isRed], document⟩ ∧
        request'.filter = FilterBuilder.build ⟨[isRed, isSmall], document⟩ := by
  obtain ⟨haccepts, hsame⟩ := Request.ofParams_interleaved getAll_shuffled coat {}
  have hgiven : ∃ request, Request.ofParams given coat {} = .ok request := ⟨_, rfl⟩
  obtain ⟨request, hrequest⟩ := hgiven
  obtain ⟨request', hrequest'⟩ := haccepts.1 ⟨request, hrequest⟩
  obtain ⟨horder, -, -, -, document, simple, simple', -, -, hsimple, hsimple', -, hfilter,
    hfilter'⟩ := hsame request request' hrequest hrequest'
  have hread : given.readSimple coat {} = .ok [isSmall, isRed] := rfl
  have hread' : shuffled.readSimple coat {} = .ok [isRed, isSmall] := rfl
  rw [Except.ok.inj (hsimple.symm.trans hread)] at hfilter
  rw [Except.ok.inj (hsimple'.symm.trans hread')] at hfilter'
  exact ⟨getAll_shuffled, request, request', hrequest, hrequest', horder, document, hfilter,
    hfilter'⟩

end Wardrobe
end Listing
