/-
# How high a filter is

Whatever goes over a filter calls itself for the children of a node: the visit of the leaves, and
the compilers of the stores. It needs as many calls inside each other as the filter has levels, so
the height of a filter says how much stack a request can ask for.

Inside one document the height is bounded. Words may be nested `maxFilterDepth` times, and each of
them adds at most three levels: its own, one for the conjunction below a negation, and one for the
entries of an object in a list. Around the documents it is not. Every further document that holds
something puts one more conjunction on top of the documents before it, so the height grows with the
number of documents, which nothing limits.
-/
import Listing.Proofs.FilterMeaning
import Listing.Proofs.ReadingByKey
import Listing.Proofs.SqlCondition
import Listing.Proofs.Support.Document
import Listing.Proofs.Support.SearchIndex

namespace Listing

namespace Filter

mutual
/-- The number of levels of a tree; a leaf is one level. -/
def height : Filter → Nat
  | .node _ children => heightOf children + 1
  | _ => 1

/-- The height of the highest of several trees. -/
def heightOf : List Filter → Nat
  | [] => 0
  | child :: children => max (height child) (heightOf children)
end

theorem height_node (connective : Connective) (children : List Filter) :
    height (.node connective children) = heightOf children + 1 := rfl

theorem heightOf_le_iff {fs : List Filter} {n : Nat} :
    heightOf fs ≤ n ↔ ∀ f ∈ fs, f.height ≤ n := by
  induction fs with
  | nil => simp [heightOf]
  | cons f fs ih => rw [heightOf, Nat.max_le, ih, List.forall_mem_cons]

theorem height_pos (f : Filter) : 1 ≤ f.height := by
  cases f with
  | comparison c => exact Nat.le_refl 1
  | fullText f => exact Nat.le_refl 1
  | node connective children => exact Nat.le_add_left 1 _

/-- Combining trees puts one level on top of them, unless there is a single one. -/
theorem height_of_mem_combine {connective : Connective} {fs : List Filter} {f : Filter}
    (hf : f ∈ combine connective fs) : f.height ≤ heightOf fs + 1 := by
  match fs with
  | [] => cases hf
  | [g] =>
      cases hf
      exact Nat.le_succ_of_le (heightOf_le_iff.1 (Nat.le_refl _) _ List.mem_cons_self)
  | g :: h :: fs =>
      cases hf
      exact Nat.le_refl _

/-- A word puts at most two levels on top of its parts: a negation is one above a conjunction. -/
theorem height_of_mem_join {connective : Connective} {fs : List Filter} {f : Filter}
    (hf : f ∈ connective.join fs) : f.height ≤ heightOf fs + 2 := by
  cases connective with
  | and => exact Nat.le_succ_of_le (height_of_mem_combine hf)
  | or => exact Nat.le_succ_of_le (height_of_mem_combine hf)
  | not =>
      obtain ⟨child, hchild, rfl⟩ := Option.map_eq_some_iff.1 hf
      have hheight := height_of_mem_combine hchild
      rw [height_node, heightOf, heightOf]
      omega

/-- A word without parts makes nothing. -/
theorem ne_nil_of_mem_join {connective : Connective} {fs : List Filter} {f : Filter}
    (hf : f ∈ connective.join fs) : fs ≠ [] := by
  rintro rfl
  cases connective <;> cases hf

end Filter

namespace Interpretation

variable {α : Type} {i : Interpretation α}

/-- What a tree stands for, if it takes no more than `room` calls inside each other to find it. -/
def filterWithin (i : Interpretation α) : Nat → Filter → Option α
  | 0, _ => none
  | room + 1, .node connective children =>
    (children.mapM (i.filterWithin room)).map (i.combine connective)
  | _ + 1, leaf => some (i.leaf leaf)

theorem mapM_filterWithin {room : Nat} {fs : List Filter}
    (heach : ∀ f ∈ fs, i.filterWithin room f =
      if f.height ≤ room then some (i.filter f) else none) :
    fs.mapM (i.filterWithin room) =
      if Filter.heightOf fs ≤ room then some (fs.map i.filter) else none := by
  induction fs with
  | nil => simp [Filter.heightOf]
  | cons f fs ih =>
      obtain ⟨hhead, htail⟩ := List.forall_mem_cons.1 heach
      rw [List.mapM_cons, hhead, ih htail, Filter.heightOf]
      by_cases hf : f.height ≤ room
      · by_cases hfs : Filter.heightOf fs ≤ room
        · simp [hf, hfs]
        · simp [hf, hfs]
      · simp [hf]

/-- It takes as many calls as the tree has levels. -/
theorem filterWithin_eq (room : Nat) (f : Filter) :
    i.filterWithin room f = if f.height ≤ room then some (i.filter f) else none := by
  induction f generalizing room with
  | comparison c =>
      cases room with
      | zero => rfl
      | succ room => exact (if_pos (Nat.le_add_left 1 room)).symm
  | fullText f =>
      cases room with
      | zero => rfl
      | succ room => exact (if_pos (Nat.le_add_left 1 room)).symm
  | node connective children ih =>
      cases room with
      | zero => rfl
      | succ room =>
          rw [filterWithin, mapM_filterWithin fun child hchild => ih child hchild room,
            Filter.height_node, filter_node]
          simp only [Nat.add_le_add_iff_right]
          split <;> rfl

/-- A compiler of filters: what it makes of a comparison, of a full-text search, and of a node once
its children are compiled. -/
def compiler {β : Type} (comparison : Comparison → Result β) (fullText : FullText → Result β)
    (node : Connective → List β → β) : Interpretation (Result β) where
  leaf
    | .comparison c => comparison c
    | .fullText f => fullText f
    | .node connective _ => .ok (node connective [])
  combine connective parts := do return node connective (← parts.mapM id)

/-- What goes from a leaf to its condition, and from a node to those of its children, is what a
compiler makes. -/
theorem filter_compiler {β : Type} {comparison : Comparison → Result β}
    {fullText : FullText → Result β} {node : Connective → List β → β}
    {condition : Filter → Result β}
    (hcomparison : ∀ c, condition (.comparison c) = comparison c)
    (hfullText : ∀ f, condition (.fullText f) = fullText f)
    (hnode : ∀ connective children, condition (.node connective children) = do
      return node connective (← children.mapM condition)) (f : Filter) :
    (compiler comparison fullText node).filter f = condition f := by
  induction f with
  | comparison c => exact (hcomparison c).symm
  | fullText f => exact (hfullText f).symm
  | node connective children ih =>
      rw [filter_node, hnode, List.map_congr_left ih]
      show (do return node connective (← (children.map condition).mapM id) : Result β) = _
      rw [List.mapM_map]
      rfl

end Interpretation

/-- The condition of a node, from those of its children. -/
def Sql.connect : Connective → List Expr → Expr
  | .and, parts => .all parts
  | .or, parts => .any parts
  | .not, parts => .not (.all parts)

/-- How the relational stores compile a filter. -/
def Sql.Target.compiler (t : Target) (stem : String) : Interpretation (Result Expr) :=
  .compiler (t.comparison stem) (fun f => .ok (t.fullText f)) connect

theorem Sql.Target.filter_compiler (t : Target) (stem : String) (f : Filter) :
    (t.compiler stem).filter f = t.condition stem f := by
  refine Interpretation.filter_compiler (fun c => by rw [condition]) (fun f => by rw [condition])
    (fun connective children => ?_) f
  rw [condition, conditions_eq_mapM]
  cases connective <;> rfl

/-- The filter of a node, from those of its children. -/
def Document.connect : Connective → List Document.Filter → Document.Filter
  | .and, parts => .and parts
  | .or, parts => .or parts
  | .not, parts => .nor parts

/-- How the document store compiles a filter. -/
def Document.Target.compiler (t : Target) (stem : String) :
    Interpretation (Result Document.Filter) :=
  .compiler (t.comparison stem) (fun f => .ok (t.fullText f)) connect

theorem Document.Target.filter_compiler (t : Target) (stem : String) (f : Listing.Filter) :
    (t.compiler stem).filter f = t.condition stem f := by
  refine Interpretation.filter_compiler (fun c => by rw [condition]) (fun f => by rw [condition])
    (fun connective children => ?_) f
  rw [condition, conditions_eq_mapM]
  cases connective <;> rfl

/-- How the search index compiles a filter. -/
def SearchIndex.Target.compiler (t : Target) : Interpretation (Result Scoped) :=
  .compiler t.comparison (fun f => .ok { clause := t.fullText f }) fun connective parts =>
    { clause := connect connective parts }

theorem SearchIndex.Target.filter_compiler (t : Target) (f : Filter) :
    t.compiler.filter f = t.condition f := by
  refine Interpretation.filter_compiler (fun c => by rw [condition]) (fun f => by rw [condition])
    (fun connective children => ?_) f
  rw [condition, conditions_eq_mapM]

/-- All that goes over a filter takes no more than `room` calls inside each other: the visit of its
leaves, and the compilers of the stores. -/
structure Filter.IsPassedWithin (room : Nat) (f : Filter) : Prop where
  leaves : Interpretation.leaves.filterWithin room f = some f.leaves
  sql : ∀ (t : Sql.Target) stem, (t.compiler stem).filterWithin room f = some (t.condition stem f)
  document : ∀ (t : Document.Target) stem,
    (t.compiler stem).filterWithin room f = some (t.condition stem f)
  searchIndex : ∀ t : SearchIndex.Target, t.compiler.filterWithin room f = some (t.condition f)

/-- The room that a filter needs is its height. -/
theorem Filter.isPassedWithin_iff {room : Nat} {f : Filter} :
    f.IsPassedWithin room ↔ f.height ≤ room := by
  constructor
  · intro hpassed
    have hleaves := hpassed.leaves
    rw [Interpretation.filterWithin_eq] at hleaves
    by_contra hhigher
    rw [if_neg hhigher] at hleaves
    cases hleaves
  · intro hheight
    have hwithin {α : Type} (i : Interpretation α) : i.filterWithin room f = some (i.filter f) := by
      rw [Interpretation.filterWithin_eq, if_pos hheight]
    exact {
      leaves := by rw [hwithin, Interpretation.leaves_filter]
      sql := fun t stem => by rw [hwithin, t.filter_compiler]
      document := fun t stem => by rw [hwithin, t.filter_compiler]
      searchIndex := fun t => by rw [hwithin, t.filter_compiler] }

namespace FilterDocument

variable {resource : Resource}

theorem height_readLeaf {place key : String} {value : Json} {leaf : Filter}
    (hread : readLeaf resource place key value = .ok leaf) : leaf.height = 1 := by
  unfold readLeaf at hread
  split at hread
  · cases hread
  · obtain ⟨f, _, hf⟩ := Result.bind_eq_ok.1 hread
    cases hf
    rfl
  · cases hread
    rfl

theorem le_of_checkDepth {place : String} {depth : Nat} (hcheck : checkDepth place depth = .ok ()) :
    depth ≤ maxFilterDepth := by
  unfold checkDepth at hcheck
  split at hcheck
  · cases hcheck
  · rename_i hdepth
    exact Nat.le_of_not_lt hdepth

mutual
/-- The filters of an object are as high as the words that may still be nested in it allow. -/
theorem height_readEntries (place : String) (depth : Nat) (hdepth : depth ≤ maxFilterDepth) :
    ∀ (entries : List (String × Json)) {filters : List Filter},
      readEntries resource place depth entries = .ok filters →
        ∀ f ∈ filters, f.height ≤ 3 * (maxFilterDepth - depth) + 1
  | [], filters, hread => by
      cases hread
      simp
  | (key, value) :: entries, filters, hread => by
      rw [readEntries] at hread
      split at hread
      · obtain ⟨parts, hparts, hrest⟩ := Result.bind_eq_ok.1 hread
        obtain ⟨rest, hentries, hfilters⟩ := Result.bind_eq_ok.1 hrest
        cases hfilters
        intro f hf
        rcases List.mem_append.1 hf with hjoin | htail
        · have hf := Option.mem_toList.1 hjoin
          have hheights := height_readOperand _ _ value hparts
          obtain ⟨part, hpart⟩ := List.exists_mem_of_ne_nil parts (Filter.ne_nil_of_mem_join hf)
          have hroom := (hheights part hpart).1
          have hparts := Filter.heightOf_le_iff.2 fun part hpart => (hheights part hpart).2
          have hjoin := Filter.height_of_mem_join hf
          omega
        · exact height_readEntries place depth hdepth entries hentries f htail
      · obtain ⟨leaf, hleaf, hrest⟩ := Result.bind_eq_ok.1 hread
        obtain ⟨rest, hentries, hfilters⟩ := Result.bind_eq_ok.1 hrest
        cases hfilters
        intro f hf
        rcases List.mem_cons.1 hf with rfl | htail
        · rw [height_readLeaf hleaf]
          exact Nat.le_add_left 1 _
        · exact height_readEntries place depth hdepth entries hentries f htail

/-- What a word combines may be conjunctions, one level above the entries. Below the deepest word
there is nothing left to combine. -/
theorem height_readOperand (place : String) (depth : Nat) : ∀ (value : Json)
    {filters : List Filter}, readOperand resource place depth value = .ok filters →
      ∀ f ∈ filters, depth ≤ maxFilterDepth ∧ f.height ≤ 3 * (maxFilterDepth - depth) + 2
  | .object entries, filters, hread => by
      rw [readOperand] at hread
      obtain ⟨_, hcheck, hentries⟩ := Result.bind_eq_ok.1 hread
      have hdepth := le_of_checkDepth hcheck
      have hheights := height_readEntries place depth hdepth entries hentries
      exact fun f hf => ⟨hdepth, Nat.le_succ_of_le (hheights f hf)⟩
  | .array items, filters, hread => by
      rw [readOperand] at hread
      exact height_readItems place depth 0 items hread
  | .null, _, hread | .bool _, _, hread | .int _, _, hread | .double _, _, hread
  | .string _, _, hread => by
      rw [readOperand] at hread
      · cases hread
      all_goals simp

/-- The objects of a list are conjunctions of their entries. -/
theorem height_readItems (place : String) (depth index : Nat) : ∀ (items : List Json)
    {filters : List Filter}, readItems resource place depth index items = .ok filters →
      ∀ f ∈ filters, depth ≤ maxFilterDepth ∧ f.height ≤ 3 * (maxFilterDepth - depth) + 2
  | [], filters, hread => by
      cases hread
      simp
  | .object entries :: items, filters, hread => by
      rw [readItems] at hread
      obtain ⟨_, hcheck, hread⟩ := Result.bind_eq_ok.1 hread
      obtain ⟨parts, hparts, hrest⟩ := Result.bind_eq_ok.1 hread
      obtain ⟨rest, hitems, hfilters⟩ := Result.bind_eq_ok.1 hrest
      cases hfilters
      intro f hf
      rcases List.mem_append.1 hf with hall | htail
      · have hdepth := le_of_checkDepth hcheck
        have hparts :=
          Filter.heightOf_le_iff.2 (height_readEntries _ depth hdepth entries hparts)
        have hconjunction := Filter.height_of_mem_combine (Option.mem_toList.1 hall)
        exact ⟨hdepth, hconjunction.trans (Nat.succ_le_succ hparts)⟩
      · exact height_readItems place depth (index + 1) items hitems f htail
  | .null :: _, _, hread | .bool _ :: _, _, hread | .int _ :: _, _, hread
  | .double _ :: _, _, hread | .string _ :: _, _, hread | .array _ :: _, _, hread => by
      rw [readItems] at hread
      · cases hread
      all_goals simp
end

/-- The height of one document has a bound. -/
theorem height_read {text : String} {filter : Option Filter}
    (hread : read resource text = .ok filter) :
    ∀ f ∈ filter, f.height ≤ 3 * maxFilterDepth + 2 := by
  unfold read at hread
  split at hread
  · cases hread
  · obtain ⟨filters, hentries, hfilter⟩ := Result.bind_eq_ok.1 hread
    cases hfilter
    intro f hf
    have hfilters :=
      Filter.heightOf_le_iff.2 (height_readEntries _ 0 (Nat.zero_le _) _ hentries)
    exact (Filter.height_of_mem_combine hf).trans (Nat.succ_le_succ hfilters)
  · cases hread

/-- Whether a document can be read and holds something. -/
def holds (resource : Resource) (text : String) : Bool :=
  match read resource text with
  | .ok (some _) => true
  | _ => false

end FilterDocument

namespace FilterBuilder

variable {resource : Resource} {options : Options}

theorem height_readParam {key : String} {values : List String} {leaf : Filter}
    (hread : readParam resource options key values = .ok leaf) : leaf.height = 1 := by
  unfold readParam at hread
  split at hread
  · cases hread
  · split at hread
    · cases hread
    · obtain ⟨f, _, hf⟩ := Result.bind_eq_ok.1 hread
      cases hf
      rfl
    · split at hread
      · cases hread
      · cases hread
        rfl

/-- The documents read so far hold something `count` times, and lie `count` levels above the last
one at most. -/
structure IsStacked (count : Nat) (document : Option Filter) : Prop where
  none_iff : document = none ↔ count = 0
  le_height : ∀ f ∈ document, count ≤ f.height
  height_le : ∀ f ∈ document, f.height ≤ 3 * maxFilterDepth + 1 + count

/-- A further document is stacked on the others, unless it holds nothing. -/
theorem IsStacked.addDocument {count : Nat} {b b' : FilterBuilder} {text : String}
    (hb : IsStacked count b.document) (hadd : b.addDocument resource text = .ok b') :
    IsStacked (count + if FilterDocument.holds resource text then 1 else 0) b'.document := by
  obtain ⟨read, hread, hb'⟩ := Result.bind_eq_ok.1 hadd
  cases hb'
  have hnew := FilterDocument.height_read hread
  cases read with
  | none =>
      have hholds : FilterDocument.holds resource text = false := by
        rw [FilterDocument.holds, hread]
      rw [hholds]
      simpa using hb
  | some filter =>
      have hholds : FilterDocument.holds resource text = true := by
        rw [FilterDocument.holds, hread]
      rw [hholds, if_pos rfl]
      have hfilter := hnew filter rfl
      have hpos := filter.height_pos
      cases hearlier : b.document with
      | none =>
          have hcount := hb.none_iff.1 hearlier
          refine ⟨by simp, fun f hf => ?_, fun f hf => ?_⟩ <;> cases hf <;> omega
      | some earlier =>
          have hcount : count ≠ 0 := fun hzero => by
            rw [hb.none_iff.2 hzero] at hearlier
            cases hearlier
          have hle := hb.le_height earlier hearlier
          have hge := hb.height_le earlier hearlier
          have htop : Filter.height (.node .and [earlier, filter]) =
              max earlier.height filter.height + 1 := by
            simp [Filter.height_node, Filter.heightOf]
          refine ⟨by simp [Filter.all, Filter.combine], fun f hf => ?_, fun f hf => ?_⟩ <;>
            cases hf <;> omega

/-- Each document that holds something is stacked on those before it. -/
theorem isStacked_of_foldlM {texts : List String} {b : FilterBuilder}
    (hfold : texts.foldlM (fun b text => addDocument b resource text) {} = .ok b) :
    IsStacked (texts.countP (FilterDocument.holds resource)) b.document := by
  induction texts using List.reverseRecOn generalizing b with
  | nil =>
      cases hfold
      exact ⟨by simp, by simp, by simp⟩
  | append_singleton texts text ih =>
      rw [List.foldlM_append] at hfold
      obtain ⟨before, hfirst, hlast⟩ := Result.bind_eq_ok.1 hfold
      have hadd : before.addDocument resource text = .ok b := by simpa using hlast
      rw [List.countP_append, List.countP_singleton]
      exact (ih hfirst).addDocument hadd

end FilterBuilder

namespace Request

variable {params : Params} {resource : Resource} {options : Options} {request : Request}

/-- The number of documents among the parameters that hold something. -/
def documentsOf (params : Params) (resource : Resource) : Nat :=
  (params.getAll Param.search).countP (FilterDocument.holds resource)

/-- The height of a filter follows from the number of documents. -/
theorem height_filter (hread : ofParams params resource options = .ok request) :
    ∀ f ∈ request.filter, documentsOf params resource ≤ f.height ∧
      f.height ≤ 3 * maxFilterDepth + 2 + max 1 (documentsOf params resource) := by
  obtain ⟨document, simple, hread⟩ := ofParams_eq_ok_iff.1 hread
  obtain ⟨b, hfold, hdocument⟩ := Result.bind_eq_ok.1 hread.readsDocuments
  cases hdocument
  have hstacked := FilterBuilder.isStacked_of_foldlM hfold
  have hsimple : ∀ f ∈ Filter.all simple, f.height ≤ 2 := by
    intro f hf
    have hleaves : Filter.heightOf simple ≤ 1 := Filter.heightOf_le_iff.2 fun leaf hleaf => by
      obtain ⟨group, -, hgroup⟩ := Result.mem_of_mapM_eq_ok hread.readsSimple hleaf
      exact Nat.le_of_eq (FilterBuilder.height_readParam hgroup)
    exact (Filter.height_of_mem_combine hf).trans (Nat.succ_le_succ hleaves)
  rw [hread.filter, FilterBuilder.build, documentsOf]
  generalize (params.getAll Param.search).countP (FilterDocument.holds resource) = count
    at hstacked ⊢
  cases hd : b.document with
  | none =>
      have hcount := hstacked.none_iff.1 hd
      intro f hf
      have hheight := hsimple f (by simpa using hf)
      omega
  | some document =>
      have hle := hstacked.le_height document hd
      have hge := hstacked.height_le document hd
      cases hs : Filter.all simple with
      | none =>
          intro f hf
          cases hf
          omega
      | some conjunction =>
          have hlow := hsimple conjunction hs
          intro f hf
          cases hf
          have htop : Filter.height (.node .and [document, conjunction]) =
              max document.height conjunction.height + 1 := by
            simp [Filter.height_node, Filter.heightOf]
          omega

/-- The parameters that give some documents and nothing else. -/
def documents (texts : List String) : Params := ⟨texts.map (Param.search, ·)⟩

theorem getAll_documents (texts : List String) (key : String) :
    (documents texts).getAll key = if key = Param.search then texts else [] := by
  rw [documents, Params.getAll, List.filterMap_map]
  by_cases hkey : key = Param.search
  · subst hkey
    simp
  · simp [hkey, Ne.symm hkey]

/-- A request may consist of documents, any number of them. -/
theorem ofParams_documents {texts : List String} {b : FilterBuilder}
    (hfold : texts.foldlM (fun b text => FilterBuilder.addDocument b resource text) {} = .ok b) :
    ofParams (documents texts) resource options = .ok {
      filter := b.document
      paging := { limit := Paging.effectiveLimit none resource options } } := by
  have hothers {key : String} (hkey : key ≠ Param.search) : (documents texts).getAll key = [] := by
    rw [getAll_documents, if_neg hkey]
  have hfirst {key : String} (hkey : key ≠ Param.search) : (documents texts).get? key = none := by
    rw [Params.get?_eq_head?, hothers hkey, List.head?_nil]
  have hplain : Params.plain (documents texts).grouped = [] := by
    refine List.filter_eq_nil_iff.2 fun group hgroup => ?_
    obtain ⟨hvalues, hnonempty⟩ := Params.mem_grouped.1 hgroup
    by_cases hkey : group.1 = Param.search
    · rw [hkey]
      decide
    · exact absurd (hvalues.trans (hothers hkey)) hnonempty
  refine ofParams_eq_ok_iff.2 ⟨b.document, [], ?_, ?_, fun key hkey => ?_, ?_, ?_, ?_, ?_, ?_⟩
  · rw [Params.readDocuments, getAll_documents, if_pos rfl, hfold]
    rfl
  · rw [Params.readSimple, hplain]
    rfl
  · rw [hothers (by rintro rfl; revert hkey; decide)]
    exact Nat.zero_le 1
  · cases b.document <;> rfl
  · rw [hothers (by decide)]
    rfl
  · rw [hfirst (by decide), hfirst (by decide), hfirst (by decide)]
    rfl
  · rw [hothers (by decide), hothers (by decide), hfirst (by decide)]
    rfl
  · rw [hothers (by decide)]
    rfl

/-- No height is too high: a document that holds something may be given as often as one likes. -/
theorem exists_filter_of_repeated {text : String} (hholds : FilterDocument.holds resource text)
    (options : Options) {n : Nat} (hn : n ≠ 0) : ∃ request,
      ofParams (documents (.replicate n text)) resource options = .ok request ∧
        ∃ f, request.filter = some f ∧ n ≤ f.height := by
  have htext : ∃ read, FilterDocument.read resource text = .ok read := by
    unfold FilterDocument.holds at hholds
    split at hholds
    · exact ⟨_, ‹_›⟩
    · cases hholds
  have hreads : ∀ other ∈ List.replicate n text,
      ∃ read, FilterDocument.read resource other = .ok read := fun other hother =>
    List.eq_of_mem_replicate hother ▸ htext
  obtain ⟨b, hfold⟩ := (FilterBuilder.exists_foldlM_addDocument_iff {}).2 hreads
  have hstacked := FilterBuilder.isStacked_of_foldlM hfold
  rw [List.countP_replicate, if_pos hholds] at hstacked
  obtain ⟨document, hdocument⟩ :=
    Option.ne_none_iff_exists'.1 fun hnone => hn (hstacked.none_iff.1 hnone)
  exact ⟨_, ofParams_documents hfold, document, hdocument, hstacked.le_height document hdocument⟩

/-- The filter of a request has at least as many levels as there are documents that hold something,
and not many more: up to one document, the height has a bound that does not depend on the request,
and every further one adds at most a level. So much room is enough for all that goes over the
filter, and less than one call for each document is not. -/
theorem filter_height_of_documents (hread : ofParams params resource options = .ok request) :
    ∀ f ∈ request.filter,
      (documentsOf params resource ≤ 1 → f.height ≤ 3 * maxFilterDepth + 3 ∧
        f.IsPassedWithin (3 * maxFilterDepth + 3)) ∧
      (∀ further, documentsOf params resource = further + 1 →
        f.height ≤ 3 * maxFilterDepth + 3 + further ∧
        f.IsPassedWithin (3 * maxFilterDepth + 3 + further)) ∧
      documentsOf params resource ≤ f.height ∧
      ∀ room, f.IsPassedWithin room → documentsOf params resource ≤ room := by
  intro f hf
  obtain ⟨hle, hge⟩ := height_filter hread f hf
  refine ⟨fun hfew => ?_, fun further hfurther => ?_, hle, fun room hroom => ?_⟩
  · have hheight : f.height ≤ 3 * maxFilterDepth + 3 := by omega
    exact ⟨hheight, Filter.isPassedWithin_iff.2 hheight⟩
  · have hheight : f.height ≤ 3 * maxFilterDepth + 3 + further := by omega
    exact ⟨hheight, Filter.isPassedWithin_iff.2 hheight⟩
  · exact hle.trans (Filter.isPassedWithin_iff.1 hroom)

end Request

/-! The pieces of a drawer, listed by documents that say the same again and again. -/

namespace Drawer

def sock : Resource where
  name := "sock"
  storage := "socks"
  attributes := [{ name := "size", kind := .numeric }]

/-- Size 40. -/
def plain : String := "\x7b\"size\": \"40\"\x7d"

/-- Neither size 40 and above 37. -/
def nested : String := "\x7b\"not\": \x7b\"size\": \"40\", \"size__gt\": \"37\"\x7d\x7d"

theorem read_plain : FilterDocument.read sock plain =
    .ok (some (.comparison ⟨"search.size", ⟨[], "size"⟩, .exact, none, .string "40"⟩)) := by cbv

theorem read_nested : FilterDocument.read sock nested = .ok (some (.node .not [.node .and [
    .comparison ⟨"search.not.size", ⟨[], "size"⟩, .exact, none, .string "40"⟩,
    .comparison ⟨"search.not.size__gt", ⟨[], "size"⟩, .gt, none, .string "37"⟩]])) := by cbv

/-- Both documents are accepted together; one call is not enough for their filter, and a hundred are
plenty. -/
theorem filter_height_of_two : ∃ request f,
    Request.ofParams (Request.documents [nested, plain]) sock {} = .ok request ∧
      request.filter = some f ∧ ¬ f.IsPassedWithin 1 ∧ f.IsPassedWithin 100 := by
  have hreads : ∀ text ∈ [nested, plain], ∃ read, FilterDocument.read sock text = .ok read := by
    simp [read_plain, read_nested]
  obtain ⟨b, hfold⟩ := (FilterBuilder.exists_foldlM_addDocument_iff {}).2 hreads
  have hcount : [nested, plain].countP (FilterDocument.holds sock) = 2 := by
    simp [FilterDocument.holds, read_plain, read_nested]
  have hnone := (FilterBuilder.isStacked_of_foldlM hfold).none_iff
  rw [hcount] at hnone
  have hsome : b.document ≠ none := fun hdocument => absurd (hnone.1 hdocument) (by decide)
  obtain ⟨f, hf⟩ := Option.ne_none_iff_exists'.1 hsome
  have hrequest : Request.ofParams (Request.documents [nested, plain]) sock {} = .ok _ :=
    Request.ofParams_documents hfold
  obtain ⟨-, hfurther, -, hroom⟩ := Request.filter_height_of_documents hrequest f hf
  have hdocuments : Request.documentsOf (Request.documents [nested, plain]) sock = 2 := by
    rw [Request.documentsOf, Request.getAll_documents, if_pos rfl, hcount]
  refine ⟨_, f, hrequest, hf, fun hone => ?_, (hfurther 1 hdocuments).2⟩
  have hle := hroom 1 hone
  rw [hdocuments] at hle
  exact absurd hle (by decide)

/-- A hundred documents of one leaf make a filter that is higher than any document may be. -/
theorem hundred_documents_too_high : ∃ request f,
    Request.ofParams (Request.documents (.replicate 100 plain)) sock {} = .ok request ∧
      request.filter = some f ∧ 3 * maxFilterDepth + 3 < f.height ∧
      ¬ f.IsPassedWithin (3 * maxFilterDepth + 3) := by
  have hholds : FilterDocument.holds sock plain = true := by rw [FilterDocument.holds, read_plain]
  obtain ⟨request, hrequest, f, hf, hheight⟩ :=
    Request.exists_filter_of_repeated hholds {} (by decide : 100 ≠ 0)
  have hhigh : 3 * maxFilterDepth + 3 < f.height := Nat.lt_of_lt_of_le (by decide) hheight
  exact ⟨request, f, hrequest, hf, hhigh, fun hpassed =>
    Nat.not_le_of_lt hhigh (Filter.isPassedWithin_iff.1 hpassed)⟩

end Drawer
end Listing
