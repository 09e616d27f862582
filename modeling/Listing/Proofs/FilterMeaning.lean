/-
# What a filter that was read means

A filter document is read here twice: by the builder, which leaves single children unwrapped and
drops what is empty, and by an `Interpretation`, which follows the words of the document and never
builds a tree. Both give the same for every interpretation that takes the combination of one thing
for that thing. Truth values are one such interpretation; the list of leaves in their order is
another, so that no leaf is lost, repeated or put elsewhere.

The interpretation of a document does not check it: what it gives for texts that the builder
refuses is of no concern here.
-/
import Listing.Proofs.FilterTree
import Listing.Proofs.Refusal
import Listing.Proofs.Semantics.Direct
import Mathlib

namespace Listing

/-- What the leaves of a filter stand for, and how the connectives combine it. -/
structure Interpretation (α : Type) where
  leaf : Filter → α
  combine : Connective → List α → α

namespace Interpretation

open FilterDocument

variable {α : Type} (i : Interpretation α) (resource : Resource) (options : Options)

mutual
/-- What a tree stands for. -/
def filter : Filter → α
  | .comparison c => i.leaf (.comparison c)
  | .fullText f => i.leaf (.fullText f)
  | .node connective children => i.combine connective (filters children)

/-- What several trees stand for. -/
def filters : List Filter → List α
  | [] => []
  | f :: fs => filter f :: filters fs
end

/-- Combine what there is; where there is nothing, nothing comes of it. -/
def gather (connective : Connective) : List α → Option α
  | [] => none
  | part :: parts => some (i.combine connective (part :: parts))

mutual
/-- What the entries of an object stand for: an entry under a word the combination of its operand,
any other entry a leaf. -/
def entries (place : String) : List (String × Json) → List α
  | [] => []
  | (key, value) :: rest =>
    (match Connective.ofKey? key with
      | some connective => i.gather connective (operand (entryPlace place key) value)
      | none => (readLeaf resource (entryPlace place key) key value).toOption.map i.leaf).toList
      ++ entries place rest

/-- What a word combines: the entries of an object, or the conjunctions of a list. -/
def operand (place : String) : Json → List α
  | .object given => entries place given
  | .array given => items place 0 given
  | _ => []

/-- The conjunctions that the objects of a list stand for, from position `index` on. -/
def items (place : String) (index : Nat) : List Json → List α
  | [] => []
  | .object given :: rest =>
    (i.gather .and (entries (itemPlace place index) given)).toList ++ items place (index + 1) rest
  | _ :: rest => items place (index + 1) rest
end

/-- What a filter document stands for: the conjunction of its entries. -/
def document (text : String) : Option α :=
  match Json.read? text with
  | some (.object given) => i.gather .and (i.entries resource Param.search given)
  | _ => none

/-- What a simple parameter stands for. -/
def param (key : String) (values : List String) : Option α :=
  (FilterBuilder.readParam resource options key values).toOption.map i.leaf

/-- The combination of one thing is that thing, also below a negation, and a conjunction of two
conjunctions is one conjunction. -/
structure IsLawful : Prop where
  and_single (x : α) : i.combine .and [x] = x
  or_single (x : α) : i.combine .or [x] = x
  not_and (xs : List α) : i.combine .not [i.combine .and xs] = i.combine .not xs
  and_append (xs ys : List α) :
    i.combine .and [i.combine .and xs, i.combine .and ys] = i.combine .and (xs ++ ys)

/-- The value of a filter, given those of its leaves. -/
def truth (value : Filter → Bool) : Interpretation Bool := ⟨value, Connective.decide⟩

/-- The leaves, whatever combines them. -/
def leaves : Interpretation (List Filter) := ⟨fun leaf => [leaf], fun _ parts => parts.flatten⟩

theorem truth_isLawful (value : Filter → Bool) : (truth value).IsLawful where
  and_single x := by simp [truth, Connective.decide]
  or_single x := by simp [truth, Connective.decide]
  not_and xs := by simp [truth, Connective.decide]
  and_append xs ys := by simp [truth, Connective.decide]

theorem leaves_isLawful : leaves.IsLawful where
  and_single x := by simp [leaves]
  or_single x := by simp [leaves]
  not_and xs := by simp [leaves]
  and_append xs ys := by simp [leaves]

section Filters

variable {i}

@[simp]
theorem filters_eq_map (fs : List Filter) : i.filters fs = fs.map i.filter := by
  induction fs with
  | nil => rfl
  | cons f fs ih => rw [filters, ih, List.map_cons]

theorem filter_node (connective : Connective) (children : List Filter) :
    i.filter (.node connective children) = i.combine connective (children.map i.filter) := by
  rw [filter, filters_eq_map]

theorem gather_eq_none {connective : Connective} {parts : List α} :
    i.gather connective parts = none ↔ parts = [] := by
  cases parts <;> simp [gather]

theorem gather_of_ne_nil {connective : Connective} {parts : List α} (hparts : parts ≠ []) :
    i.gather connective parts = some (i.combine connective parts) := by
  cases parts with
  | nil => exact absurd rfl hparts
  | cons part parts => rfl

/-- Leaving a single child as it is does not change what a conjunction or a disjunction is. -/
theorem map_combine {connective : Connective} (hsingle : ∀ x, i.combine connective [x] = x)
    (fs : List Filter) :
    (Filter.combine connective fs).map i.filter = i.gather connective (fs.map i.filter) := by
  match fs with
  | [] => rfl
  | [f] =>
      show some (i.filter f) = some (i.combine connective [i.filter f])
      rw [hsingle]
  | f :: g :: fs =>
      show some (i.filter (.node connective (f :: g :: fs))) = _
      rw [filter_node]
      rfl

/-- The trees that a word joins stand for the combination of what each stands for. -/
theorem IsLawful.map_join (hlawful : i.IsLawful) (connective : Connective) (fs : List Filter) :
    (connective.join fs).map i.filter = i.gather connective (fs.map i.filter) := by
  cases connective with
  | and => exact map_combine hlawful.and_single fs
  | or => exact map_combine hlawful.or_single fs
  | not =>
      have hall : (Filter.all fs).map i.filter = i.gather .and (fs.map i.filter) :=
        map_combine hlawful.and_single fs
      have hnode : ∀ child, i.filter (.node .not [child]) = i.combine .not [i.filter child] :=
        fun child => filter_node .not [child]
      show ((Filter.all fs).map fun child => Filter.node .not [child]).map i.filter = _
      rw [Option.map_map, show i.filter ∘ (fun child => Filter.node .not [child]) =
        (fun x => i.combine .not [x]) ∘ i.filter from funext hnode, ← Option.map_map, hall]
      by_cases hempty : fs.map i.filter = []
      · rw [hempty]
        rfl
      · rw [gather_of_ne_nil hempty, gather_of_ne_nil hempty, Option.map_some, hlawful.not_and]

theorem filter_readLeaf {resource : Resource} {place key : String} {value : Json} {leaf : Filter}
    (hread : readLeaf resource place key value = .ok leaf) : i.filter leaf = i.leaf leaf := by
  unfold readLeaf at hread
  split at hread
  · cases hread
  · obtain ⟨f, _, hf⟩ := Result.bind_eq_ok.1 hread
    cases hf
    rw [filter]
  · cases hread
    rw [filter]

end Filters

/-- The leaves that are collected are those of the tree. -/
theorem leaves_filter (f : Filter) : leaves.filter f = f.leaves := by
  induction f with
  | comparison c => rw [filter, Filter.leaves] <;> simp [leaves]
  | fullText f => rw [filter, Filter.leaves] <;> simp [leaves]
  | node connective children ih =>
      rw [filter_node, Filter.leaves_node, List.flatMap_def]
      show (children.map leaves.filter).flatten = _
      rw [List.map_congr_left ih]

end Interpretation

namespace FilterDocument

open Interpretation

variable {α : Type} {i : Interpretation α} {resource : Resource}

mutual
/-- The filters of the entries of an object stand for what the entries do. -/
theorem map_readEntries (hlawful : i.IsLawful) (place : String) (depth : Nat) :
    ∀ (entries : List (String × Json)) {filters : List Filter},
      readEntries resource place depth entries = .ok filters →
        filters.map i.filter = i.entries resource place entries
  | [], filters, hread => by
      cases hread
      rw [Interpretation.entries, List.map_nil]
  | (key, value) :: entries, filters, hread => by
      rw [readEntries] at hread
      split at hread
      · rename_i connective hword
        obtain ⟨parts, hparts, hrest⟩ := Result.bind_eq_ok.1 hread
        obtain ⟨rest, hentries, hfilters⟩ := Result.bind_eq_ok.1 hrest
        cases hfilters
        rw [Interpretation.entries, hword, List.map_append, ← Option.toList_map,
          hlawful.map_join, map_readOperand hlawful _ _ value hparts,
          map_readEntries hlawful place depth entries hentries]
      · rename_i hleaf
        obtain ⟨leaf, hvalue, hrest⟩ := Result.bind_eq_ok.1 hread
        obtain ⟨rest, hentries, hfilters⟩ := Result.bind_eq_ok.1 hrest
        cases hfilters
        rw [Interpretation.entries, hleaf, hvalue, List.map_cons, filter_readLeaf hvalue,
          map_readEntries hlawful place depth entries hentries]
        rfl

/-- The filters below a word stand for what it combines. -/
theorem map_readOperand (hlawful : i.IsLawful) (place : String) (depth : Nat) :
    ∀ (value : Json) {filters : List Filter},
      readOperand resource place depth value = .ok filters →
        filters.map i.filter = i.operand resource place value
  | .object entries, filters, hread => by
      rw [readOperand] at hread
      obtain ⟨_, _, hentries⟩ := Result.bind_eq_ok.1 hread
      rw [Interpretation.operand]
      exact map_readEntries hlawful place depth entries hentries
  | .array items, filters, hread => by
      rw [readOperand] at hread
      rw [Interpretation.operand]
      exact map_readItems hlawful place depth 0 items hread
  | .null, _, hread | .bool _, _, hread | .int _, _, hread | .double _, _, hread
  | .string _, _, hread => by
      rw [readOperand] at hread
      · cases hread
      all_goals simp

/-- The filters of a list stand for the conjunctions of its objects. -/
theorem map_readItems (hlawful : i.IsLawful) (place : String) (depth index : Nat) :
    ∀ (items : List Json) {filters : List Filter},
      readItems resource place depth index items = .ok filters →
        filters.map i.filter = i.items resource place index items
  | [], filters, hread => by
      cases hread
      rw [Interpretation.items, List.map_nil]
  | .object entries :: items, filters, hread => by
      rw [readItems] at hread
      obtain ⟨_, _, hread⟩ := Result.bind_eq_ok.1 hread
      obtain ⟨parts, hparts, hrest⟩ := Result.bind_eq_ok.1 hread
      obtain ⟨rest, hitems, hfilters⟩ := Result.bind_eq_ok.1 hrest
      cases hfilters
      have hall : (Filter.all parts).map i.filter = i.gather .and (parts.map i.filter) :=
        hlawful.map_join .and parts
      rw [Interpretation.items, List.map_append, ← Option.toList_map, hall,
        map_readEntries hlawful _ _ entries hparts,
        map_readItems hlawful place depth (index + 1) items hitems]
  | .null :: _, _, hread | .bool _ :: _, _, hread | .int _ :: _, _, hread
  | .double _ :: _, _, hread | .string _ :: _, _, hread | .array _ :: _, _, hread => by
      rw [readItems] at hread
      · cases hread
      all_goals simp
end

/-- The filter of a document stands for the conjunction of its entries. -/
theorem map_read (hlawful : i.IsLawful) {text : String} {filter : Option Filter}
    (hread : read resource text = .ok filter) : filter.map i.filter = i.document resource text := by
  unfold read at hread
  unfold Interpretation.document
  split at hread
  · cases hread
  · rename_i entries htext
    obtain ⟨filters, hentries, hfilter⟩ := Result.bind_eq_ok.1 hread
    cases hfilter
    rw [htext]
    show _ = i.gather .and (i.entries resource Param.search entries)
    rw [← map_readEntries hlawful Param.search 0 entries hentries]
    exact hlawful.map_join .and filters
  · cases hread

end FilterDocument

namespace FilterBuilder

open Interpretation

/-- What a builder is given: a simple parameter with its values, or a filter document. -/
inductive Call
  | param (key : String) (values : List String)
  | document (text : String)
  deriving DecidableEq, Repr

variable (resource : Resource) (options : Options)

/-- Add what a builder is given. -/
def call (b : FilterBuilder) : Call → Result FilterBuilder
  | .param key values => b.addParam resource options key values
  | .document text => b.addDocument resource text

/-- The builder after several calls. -/
def run (calls : List Call) : Result FilterBuilder := calls.foldlM (call resource options) {}

/-- What the documents among the calls stand for; a document that is empty gives nothing. -/
def documents {α : Type} (i : Interpretation α) (calls : List Call) : List α :=
  calls.filterMap fun
    | .param .. => none
    | .document text => i.document resource text

/-- What the simple parameters among the calls stand for. -/
def params {α : Type} (i : Interpretation α) (calls : List Call) : List α :=
  calls.filterMap fun
    | .param key values => i.param resource options key values
    | .document _ => none

variable {resource options} {α : Type} {i : Interpretation α}

theorem filter_readParam {key : String} {values : List String} {leaf : Filter}
    (hread : readParam resource options key values = .ok leaf) : i.filter leaf = i.leaf leaf := by
  unfold readParam at hread
  split at hread
  · cases hread
  · split at hread
    · cases hread
    · obtain ⟨f, _, hf⟩ := Result.bind_eq_ok.1 hread
      cases hf
      rw [Interpretation.filter]
    · split at hread
      · cases hread
      · cases hread
        rw [Interpretation.filter]

/-- The builder holds the conjunction of some documents, and some simple parameters. -/
structure Holds (i : Interpretation α) (documents params : List α) (b : FilterBuilder) : Prop where
  document : b.document.map i.filter = i.gather .and documents
  simple : b.simple.map i.filter = params

/-- A simple parameter comes to those that are there. -/
theorem Holds.addParam {documents params : List α} {b b' : FilterBuilder} {key : String}
    {values : List String} (hb : b.Holds i documents params)
    (hadd : b.addParam resource options key values = .ok b') :
    b'.Holds i documents (params ++ (i.param resource options key values).toList) := by
  obtain ⟨leaf, hleaf, hb'⟩ := Result.bind_eq_ok.1 hadd
  cases hb'
  refine ⟨hb.document, ?_⟩
  rw [List.map_append, hb.simple, List.map_singleton, filter_readParam hleaf,
    Interpretation.param, hleaf]
  rfl

/-- A document comes to those that are there. -/
theorem Holds.addDocument (hlawful : i.IsLawful) {documents params : List α}
    {b b' : FilterBuilder} {text : String} (hb : b.Holds i documents params)
    (hadd : b.addDocument resource text = .ok b') :
    b'.Holds i (documents ++ (i.document resource text).toList) params := by
  obtain ⟨read, hread, hb'⟩ := Result.bind_eq_ok.1 hadd
  cases hb'
  refine ⟨?_, hb.simple⟩
  rw [← FilterDocument.map_read hlawful hread]
  have hold := hb.document
  cases hdocument : b.document with
  | none =>
      rw [hdocument, Option.map_none, eq_comm, gather_eq_none] at hold
      subst hold
      cases read with
      | none => rfl
      | some filter =>
          show some (i.filter filter) = some (i.combine .and [i.filter filter])
          rw [hlawful.and_single]
  | some earlier =>
      rw [hdocument] at hold
      cases read with
      | none => simpa using hold
      | some filter =>
          have hearlier : documents ≠ [] := by
            intro hempty
            simp [hempty, gather] at hold
          rw [gather_of_ne_nil hearlier, Option.map_some, Option.some.injEq] at hold
          -- The earlier documents are one conjunct of the new conjunction, the new one the other.
          show some (i.filter (.node .and [earlier, filter])) = i.gather .and
            (documents ++ [i.filter filter])
          rw [gather_of_ne_nil (by simp), filter_node, List.map_cons, List.map_singleton, hold]
          conv => lhs; rw [← hlawful.and_single (i.filter filter), hlawful.and_append]

/-- Accepted calls add what they stand for to what the builder holds. -/
theorem Holds.run (hlawful : i.IsLawful) (calls : List Call) {documents' params' : List α}
    {b b' : FilterBuilder} (hb : b.Holds i documents' params')
    (hrun : calls.foldlM (call resource options) b = .ok b') :
    b'.Holds i (documents' ++ documents resource i calls)
      (params' ++ params resource options i calls) := by
  induction calls generalizing b documents' params' with
  | nil =>
      cases hrun
      simpa [documents, params] using hb
  | cons given calls ih =>
      rw [List.foldlM_cons] at hrun
      obtain ⟨c, hc, hrest⟩ := Result.bind_eq_ok.1 hrun
      cases given with
      | param key values =>
          have hrest' := ih (hb.addParam hc) hrest
          cases hvalue : i.param resource options key values <;>
            simpa [documents, params, hvalue] using hrest'
      | document text =>
          have hrest' := ih (hb.addDocument hlawful hc) hrest
          cases hvalue : i.document resource text <;>
            simpa [documents, params, hvalue] using hrest'

/-- What is built stands for the conjunction of the documents and the simple parameters. -/
theorem Holds.build (hlawful : i.IsLawful) {documents params : List α} {b : FilterBuilder}
    (hb : b.Holds i documents params) :
    b.build.map i.filter = i.gather .and (documents ++ params) := by
  have hdocument := hb.document
  have hsimple : (Filter.all b.simple).map i.filter = i.gather .and params := by
    rw [← hb.simple]
    exact hlawful.map_join .and b.simple
  unfold FilterBuilder.build
  cases hd : b.document with
  | none =>
      rw [hd, Option.map_none, eq_comm, gather_eq_none] at hdocument
      rw [hdocument]
      simpa using hsimple
  | some document =>
      rw [hd] at hdocument
      have hdocuments : documents ≠ [] := by
        intro hempty
        simp [hempty, gather] at hdocument
      rw [gather_of_ne_nil hdocuments, Option.map_some, Option.some.injEq] at hdocument
      cases hs : Filter.all b.simple with
      | none =>
          rw [hs, Option.map_none, eq_comm, gather_eq_none] at hsimple
          rw [hsimple, List.append_nil, gather_of_ne_nil hdocuments, ← hdocument]
          rfl
      | some simple =>
          rw [hs] at hsimple
          have hparams : params ≠ [] := by
            intro hempty
            simp [hempty, gather] at hsimple
          rw [gather_of_ne_nil hparams, Option.map_some, Option.some.injEq] at hsimple
          show some (i.filter (.node .and [document, simple])) = _
          rw [filter_node, List.map_cons, List.map_singleton, hdocument, hsimple,
            hlawful.and_append, gather_of_ne_nil (by simp [hdocuments])]

/-- Whatever an interpretation makes of leaves and connectives, the tree that accepted calls build
stands for the conjunction of what was asked for. -/
theorem map_build (hlawful : i.IsLawful) {calls : List Call} {b : FilterBuilder}
    (hrun : run resource options calls = .ok b) :
    b.build.map i.filter =
      i.gather .and (documents resource i calls ++ params resource options i calls) := by
  have hempty : ({} : FilterBuilder).Holds i [] [] := ⟨rfl, rfl⟩
  exact (hempty.run hlawful calls hrun).build hlawful

/-- Nothing is built exactly if no document and no parameter asks for anything. What is built holds,
whatever holds of its leaves, exactly if all documents and all parameters do; and its leaves are
theirs, each once and in their order. -/
theorem build_decides {calls : List Call} {b : FilterBuilder}
    (hrun : run resource options calls = .ok b) (value : Filter → Bool) :
    (b.build = none ↔ documents resource (truth value) calls = [] ∧
      params resource options (truth value) calls = []) ∧
    (∀ f ∈ b.build, (truth value).filter f =
      ((documents resource (truth value) calls).all id &&
        (params resource options (truth value) calls).all id)) ∧
    (b.build.map Filter.leaves).getD [] =
      (documents resource leaves calls ++ params resource options leaves calls).flatten := by
  have htruth := map_build (truth_isLawful value) hrun
  have hleaves := map_build leaves_isLawful hrun
  refine ⟨?_, fun f hf => ?_, ?_⟩
  · rw [← Option.map_eq_none_iff, htruth, gather_eq_none, List.append_eq_nil_iff]
  · rw [hf, Option.map_some, eq_comm] at htruth
    by_cases hnone : documents resource (truth value) calls ++
        params resource options (truth value) calls = []
    · rw [gather_eq_none.2 hnone] at htruth
      cases htruth
    · rw [gather_of_ne_nil hnone, Option.some.injEq] at htruth
      rw [← htruth, ← List.all_append]
      rfl
  · rw [← funext leaves_filter, hleaves]
    cases documents resource leaves calls ++ params resource options leaves calls with
    | nil => rfl
    | cons part parts => rfl

end FilterBuilder

namespace Shoes

def resource : Resource where
  name := "shoe"
  storage := "shoes"
  attributes := [{ name := "size", kind := .numeric }, { name := "name", kind := .string }]

/-- Two documents and a simple parameter; the second document is empty, and so is an object of the
first. -/
def calls : List FilterBuilder.Call :=
  [.document
      "\x7b\"or\": \x7b\"size\": \"40\", \"not\": [\x7b\"name\": \"Boot\"\x7d, \x7b\x7d]\x7d\x7d",
    .param "size__gt" ["37"], .document "\x7b\"and\": []\x7d"]

/-- Size 40. -/
def size : Filter := .comparison ⟨"search.or.size", ⟨[], "size"⟩, .exact, none, .string "40"⟩

/-- Boots. -/
def boot : Filter :=
  .comparison ⟨"search.or.not[0].name", ⟨[], "name"⟩, .exact, none, .string "Boot"⟩

/-- Sizes above 37. -/
def large : Filter := .comparison ⟨"size__gt", ⟨[], "size"⟩, .gt, none, .string "37"⟩

/-- The calls are accepted, and what they build holds of size 40 and of what is no boot, if the size
is also above 37. -/
theorem build_decides_calls :
    ∃ b, FilterBuilder.run resource {} calls = .ok b ∧ b.build ≠ none ∧
      (∀ value : Filter → Bool, ∀ f ∈ b.build, (Interpretation.truth value).filter f =
        ((value size || !value boot) && value large)) ∧
      (b.build.map Filter.leaves).getD [] = [size, boot, large] := by
  have hrun : FilterBuilder.run resource {} calls =
      .ok ⟨[large], some (.node .or [size, .node .not [boot]])⟩ := by cbv
  have hbuild := FilterBuilder.build_decides hrun
  refine ⟨_, hrun, by simp [FilterBuilder.build, Filter.all, Filter.combine], ?_, ?_⟩
  · intro value f hf
    rw [(hbuild value).2.1 f hf]
    have hdocuments : FilterBuilder.documents resource (.truth value) calls =
        [Connective.decide .and [Connective.decide .or [value size,
          Connective.decide .not [Connective.decide .and [value boot]]]]] := by cbv
    have hparams : FilterBuilder.params resource {} (.truth value) calls = [value large] := by cbv
    rw [hdocuments, hparams]
    simp [Connective.decide]
  · rw [(hbuild fun _ => true).2.2]
    have hdocuments : FilterBuilder.documents resource .leaves calls = [[size, boot]] := by cbv
    have hparams : FilterBuilder.params resource {} .leaves calls = [[large]] := by cbv
    rw [hdocuments, hparams]
    rfl

end Shoes
end Listing
