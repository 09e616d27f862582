/-
# What reading makes sure of

A comparison that was read from a parameter or from a filter document carries a chain of functions
exactly if its operator is one of chains; the chain names a function, and an operator at its end is
one for values. The filter of a request is built: a logical node has a child, a negation exactly
one.

Both facts hold for every text that can be read. They say nothing about the resource: that a path
leads to an attribute is left to validation.
-/
import Listing.Proofs.FilterTree
import Listing.Proofs.ReadingByKey

namespace Listing

/-- A chain of functions stands exactly where the operator asks for one, and is compared only by an
operator for values. -/
def Comparison.WellFormed (c : Comparison) : Prop :=
  match c.function with
  | none => c.operator.arity ≠ .function
  | some f => c.operator.arity = .function ∧ f.names ≠ [] ∧
      ∀ op, f.compare = some op → op.arity ≠ .function ∧ c.operator ≠ .predicate

/-- A leaf was read: some key says what a comparison compares, and how, or which words a search is
for. -/
def Filter.IsFromKey : Filter → Prop
  | .comparison c => ∃ key, Key.read key = .ok (.comparison c.path c.operator c.function)
  | .fullText f => ∃ param key value resource, FullText.ofKey param key value resource = .ok f
  | .node .. => False

/-- The comparisons of a filter are well formed. -/
def Filter.IsReadLeaf : Filter → Prop
  | .comparison c => c.WellFormed
  | .fullText _ => True
  | .node .. => False

namespace Key

/-- A name that an operator is found under is its name. -/
theorem name_of_ofName? {name : String} {op : Operator} (hop : Operator.ofName? name = some op) :
    op.name = name := by
  simpa using List.find?_some hop

/-- An operator for chains has one of the two names that begin a chain. -/
theorem beginsChain_name {op : Operator} (hop : op.arity = .function) :
    beginsChain op.name = true := by
  cases op <;> first | rfl | cases hop

/-- Where no chain is found, no segment begins one. -/
theorem beginsChain_of_splitChain_none {segments : List String}
    (hsplit : splitChain segments = none) : ∀ s ∈ segments, beginsChain s = false := by
  induction segments with
  | nil => simp
  | cons segment segments ih =>
      rw [splitChain] at hsplit
      by_cases hbegins : beginsChain segment = true
      · simp [hbegins] at hsplit
      · have htail : splitChain segments = none := by simpa [hbegins] using hsplit
        intro s hs
        rcases List.mem_cons.1 hs with rfl | hmem
        · simpa using hbegins
        · exact ih htail s hmem

/-- The operator at the end of a chain is one for values. -/
theorem arity_readChain {chain : List String} {op : Operator}
    (hop : (readChain chain).compare = some op) : op.arity ≠ .function := by
  unfold readChain at hop
  split at hop
  · split at hop
    · cases hop
    · rename_i harity
      cases hop
      exact harity
  · cases hop

/-- The last segment of a key without a chain is no operator for chains. -/
theorem wellFormed_of_readPlain {first : String} {rest : List String}
    (hsplit : splitChain rest = none) {path : Path} {operator : Operator}
    {function : Option FunctionChain}
    (hread : readPlain (first :: rest) = .ok (.comparison path operator function))
    (param : String) (value : Json) :
    Comparison.WellFormed { param, path, operator, function, value } := by
  unfold readPlain at hread
  split at hread
  · rename_i s segments op hdrop hlast
    obtain ⟨path', hpath, hkey⟩ := Result.bind_eq_ok.1 hread
    cases hkey
    show operator.arity ≠ .function
    intro harity
    obtain ⟨name, hname, hop⟩ := Option.bind_eq_some_iff.1 hlast
    cases rest with
    | nil => simp at hdrop
    | cons segment rest =>
        rw [List.getLast?_cons_cons] at hname
        have hmem : name ∈ segment :: rest := List.mem_of_getLast? hname
        have hbegins := beginsChain_of_splitChain_none hsplit name hmem
        rw [← name_of_ofName? hop, beginsChain_name harity] at hbegins
        cases hbegins
  · obtain ⟨path', hpath, hkey⟩ := Result.bind_eq_ok.1 hread
    cases hkey
    show Operator.exact.arity ≠ .function
    decide

/-- A key with a chain names a function, and a predicate is not compared. -/
theorem wellFormed_of_readFunction {segments chain : List String} {mark : String} {path : Path}
    {operator : Operator} {function : Option FunctionChain}
    (hread : readFunction segments mark chain = .ok (.comparison path operator function))
    (param : String) (value : Json) :
    Comparison.WellFormed { param, path, operator, function, value } := by
  obtain ⟨path', hpath, hrest⟩ := Result.bind_eq_ok.1 hread
  have hmark : ∃ o : Operator, o.arity = .function ∧
      (if mark = Operator.predicate.name then Operator.predicate else .function) = o :=
    ⟨_, by split <;> rfl, rfl⟩
  obtain ⟨o, harity, ho⟩ := hmark
  simp only [ho] at hrest
  by_cases hnames : (readChain chain).names.isEmpty || (readChain chain).names.any String.isEmpty
  · simp [hnames] at hrest
  · by_cases hpredicate : o = .predicate && (readChain chain).compare.isSome
    · simp [hnames, hpredicate] at hrest
    · simp only [hnames, hpredicate] at hrest
      cases hrest
      refine ⟨harity, ?_, fun op hop => ⟨arity_readChain hop, ?_⟩⟩
      · intro hempty
        simp [hempty] at hnames
      · intro hoperator
        have ho' : operator = .predicate := hoperator
        simp [hop, ho'] at hpredicate

/-- Every comparison that a key stands for is well formed. -/
theorem wellFormed_of_read {key : String} {path : Path} {operator : Operator}
    {function : Option FunctionChain} (hread : read key = .ok (.comparison path operator function))
    (param : String) (value : Json) :
    Comparison.WellFormed { param, path, operator, function, value } := by
  unfold read at hread
  cases hsegments : Path.splitText key with
  | nil => simp [hsegments, ofSegments] at hread
  | cons first rest =>
      rw [hsegments, ofSegments] at hread
      split at hread
      · obtain ⟨textKey, _, hkey⟩ := Result.bind_eq_ok.1 hread
        cases hkey
      · split at hread
        · exact wellFormed_of_readFunction hread param value
        · rename_i hsplit
          exact wellFormed_of_readPlain hsplit hread param value

end Key

/-- A comparison from a key is well formed. -/
theorem Filter.isReadLeaf_of_isFromKey {leaf : Filter} (hleaf : leaf.IsFromKey) :
    leaf.IsReadLeaf := by
  cases leaf with
  | comparison c =>
      obtain ⟨key, hkey⟩ := hleaf
      exact Key.wellFormed_of_read hkey c.param c.value
  | fullText f => trivial
  | node connective children => exact hleaf

/-- A property of filters that the leaves have and that combining filters by a word keeps. -/
structure Filter.IsKept (p : Filter → Prop) : Prop where
  leaf : ∀ leaf : Filter, leaf.IsFromKey → p leaf
  join : ∀ (connective : Connective) (fs : List Filter), (∀ f ∈ fs, p f) →
    ∀ f ∈ connective.join fs, p f

theorem Filter.isKept_built : IsKept (Built IsFromKey) where
  leaf leaf hleaf :=
    match leaf with
    | .comparison c => .comparison c hleaf
    | .fullText f => .fullText f hleaf
    | .node .. => hleaf.elim
  join connective _ := Built.join connective

namespace FilterDocument

variable {resource : Resource} {p : Filter → Prop}

/-- A leaf of a filter document is a comparison from a key or a full-text search. -/
theorem isFromKey_of_readLeaf {place key : String} {value : Json} {leaf : Filter}
    (hread : readLeaf resource place key value = .ok leaf) : leaf.IsFromKey := by
  unfold readLeaf at hread
  split at hread
  · cases hread
  · obtain ⟨f, hkey, hf⟩ := Result.bind_eq_ok.1 hread
    cases hf
    exact ⟨_, _, _, _, hkey⟩
  · rename_i path operator function hkey
    cases hread
    exact ⟨key, hkey⟩

mutual
/-- The filters of an object have what is kept. -/
theorem of_readEntries (hp : Filter.IsKept p) (place : String) (depth : Nat) :
    ∀ (entries : List (String × Json)) {filters : List Filter},
      readEntries resource place depth entries = .ok filters → ∀ f ∈ filters, p f
  | [], filters, hread => by
      cases hread
      simp
  | (key, value) :: entries, filters, hread => by
      rw [readEntries] at hread
      split at hread
      · obtain ⟨parts, hparts, hrest⟩ := Result.bind_eq_ok.1 hread
        obtain ⟨rest, hentries, hfilters⟩ := Result.bind_eq_ok.1 hrest
        cases hfilters
        intro f hf
        rcases List.mem_append.1 hf with hjoin | htail
        · exact hp.join _ _ (of_readOperand hp _ _ value hparts) f (Option.mem_toList.1 hjoin)
        · exact of_readEntries hp place depth entries hentries f htail
      · obtain ⟨leaf, hleaf, hrest⟩ := Result.bind_eq_ok.1 hread
        obtain ⟨rest, hentries, hfilters⟩ := Result.bind_eq_ok.1 hrest
        cases hfilters
        intro f hf
        rcases List.mem_cons.1 hf with rfl | htail
        · exact hp.leaf _ (isFromKey_of_readLeaf hleaf)
        · exact of_readEntries hp place depth entries hentries f htail

/-- The filters below a word have what is kept. -/
theorem of_readOperand (hp : Filter.IsKept p) (place : String) (depth : Nat) :
    ∀ (value : Json) {filters : List Filter},
      readOperand resource place depth value = .ok filters → ∀ f ∈ filters, p f
  | .object entries, filters, hread => by
      rw [readOperand] at hread
      obtain ⟨_, _, hentries⟩ := Result.bind_eq_ok.1 hread
      exact of_readEntries hp place depth entries hentries
  | .array items, filters, hread => by
      rw [readOperand] at hread
      exact of_readItems hp place depth 0 items hread
  | .null, _, hread | .bool _, _, hread | .int _, _, hread | .double _, _, hread
  | .string _, _, hread => by
      rw [readOperand] at hread
      · cases hread
      all_goals simp

/-- The conjunctions of a list have what is kept. -/
theorem of_readItems (hp : Filter.IsKept p) (place : String) (depth index : Nat) :
    ∀ (items : List Json) {filters : List Filter},
      readItems resource place depth index items = .ok filters → ∀ f ∈ filters, p f
  | [], filters, hread => by
      cases hread
      simp
  | .object entries :: items, filters, hread => by
      rw [readItems] at hread
      obtain ⟨_, _, hread⟩ := Result.bind_eq_ok.1 hread
      obtain ⟨parts, hparts, hrest⟩ := Result.bind_eq_ok.1 hread
      obtain ⟨rest, hitems, hfilters⟩ := Result.bind_eq_ok.1 hrest
      cases hfilters
      intro f hf
      rcases List.mem_append.1 hf with hall | htail
      · exact hp.join .and _ (of_readEntries hp _ _ entries hparts) f (Option.mem_toList.1 hall)
      · exact of_readItems hp place depth (index + 1) items hitems f htail
  | .null :: _, _, hread | .bool _ :: _, _, hread | .int _ :: _, _, hread
  | .double _ :: _, _, hread | .string _ :: _, _, hread | .array _ :: _, _, hread => by
      rw [readItems] at hread
      · cases hread
      all_goals simp
end

/-- The filter of a document has what is kept. -/
theorem of_read (hp : Filter.IsKept p) {text : String} {filter : Option Filter}
    (hread : read resource text = .ok filter) : ∀ f ∈ filter, p f := by
  unfold read at hread
  split at hread
  · cases hread
  · obtain ⟨filters, hentries, hfilter⟩ := Result.bind_eq_ok.1 hread
    cases hfilter
    exact hp.join .and _ (of_readEntries hp _ _ _ hentries)
  · cases hread

end FilterDocument

namespace FilterBuilder

variable {resource : Resource} {options : Options} {p : Filter → Prop} {b b' : FilterBuilder}

/-- All filters collected so far have the property. -/
structure Keeps (p : Filter → Prop) (b : FilterBuilder) : Prop where
  simple : ∀ f ∈ b.simple, p f
  document : ∀ f ∈ b.document, p f

theorem keeps_empty : Keeps p {} := ⟨by simp, by simp⟩

/-- A simple parameter is a comparison from a key or a full-text search. -/
theorem isFromKey_of_readParam {key : String} {values : List String} {leaf : Filter}
    (hread : readParam resource options key values = .ok leaf) : leaf.IsFromKey := by
  unfold readParam at hread
  split at hread
  · cases hread
  · split at hread
    · cases hread
    · obtain ⟨f, hkey, hf⟩ := Result.bind_eq_ok.1 hread
      cases hf
      exact ⟨_, _, _, _, hkey⟩
    · rename_i path operator function hkey
      split at hread
      · cases hread
      · rename_i value _
        cases hread
        exact ⟨key, hkey⟩

variable (hp : Filter.IsKept p)

include hp

/-- Two documents are combined by a conjunction. -/
theorem Keeps.addDocument {text : String} (hb : b.Keeps p)
    (hadd : b.addDocument resource text = .ok b') : b'.Keeps p := by
  obtain ⟨read, hread, hb'⟩ := Result.bind_eq_ok.1 hadd
  cases hb'
  have hnew := FilterDocument.of_read hp hread
  have hold := hb.document
  refine ⟨hb.simple, ?_⟩
  cases hdocument : b.document with
  | none => simpa [hdocument] using hnew
  | some earlier =>
      rw [hdocument] at hold
      cases read with
      | none => simpa using hold
      | some filter =>
          refine hp.join .and [earlier, filter] ?_
          exact List.forall_mem_cons.2 ⟨hold _ rfl, List.forall_mem_singleton.2 (hnew _ rfl)⟩

/-- The filter of a request has what is kept. -/
theorem Keeps.build (hb : b.Keeps p) : ∀ f ∈ b.build, p f := by
  have hsimple : ∀ f ∈ Filter.all b.simple, p f := hp.join .and _ hb.simple
  have hdocument := hb.document
  unfold FilterBuilder.build
  cases hd : b.document with
  | none => simpa using hsimple
  | some document =>
      rw [hd] at hdocument
      cases hs : Filter.all b.simple with
      | none => simpa using hdocument
      | some simple =>
          rw [hs] at hsimple
          refine hp.join .and [document, simple] ?_
          exact List.forall_mem_cons.2
            ⟨hdocument _ rfl, List.forall_mem_singleton.2 (hsimple _ rfl)⟩

end FilterBuilder

/-- The filter of a request that was read is built, and its leaves come from keys. -/
theorem Request.built_fromKeys {params : Params} {resource : Resource} {options : Options}
    {request : Request} (hread : Request.ofParams params resource options = .ok request) :
    ∀ f ∈ request.filter, f.Built Filter.IsFromKey := by
  obtain ⟨document, simple, hread⟩ := Request.ofParams_eq_ok_iff.1 hread
  obtain ⟨b, hfold, hdocument⟩ := Result.bind_eq_ok.1 hread.readsDocuments
  cases hdocument
  have hkept := Filter.isKept_built
  have hdocuments : b.Keeps (Filter.Built Filter.IsFromKey) := Result.foldlM_invariant
    (FilterBuilder.Keeps (Filter.Built Filter.IsFromKey))
    (fun b text b' hb => hb.addDocument hkept) FilterBuilder.keeps_empty hfold
  have hkeeps : FilterBuilder.Keeps (Filter.Built Filter.IsFromKey) ⟨simple, b.document⟩ := by
    refine ⟨fun f hf => ?_, hdocuments.document⟩
    obtain ⟨group, -, hgroup⟩ := Result.mem_of_mapM_eq_ok hread.readsSimple hf
    exact hkept.leaf _ (FilterBuilder.isFromKey_of_readParam hgroup)
  rw [hread.filter]
  exact hkeeps.build hkept

/-- The filter of a request that was read is built of well-formed comparisons. -/
theorem Request.built_ofParams {params : Params} {resource : Resource} {options : Options}
    {request : Request} (hread : Request.ofParams params resource options = .ok request) :
    ∀ f ∈ request.filter, f.Built Filter.IsReadLeaf :=
  fun f hf => (Request.built_fromKeys hread f hf).mono fun _ => Filter.isReadLeaf_of_isFromKey

end Listing
