/-
# Reading parameters key by key

A request is read from its parameters in one pass: the values of every key are brought together in
the order in which keys first come, and each group is sorted to the texts of what it is about. A
group changes the texts of its own key only, and whether it is accepted does not depend on those
before it. So the pass reads exactly what the values under each key say (`Request.IsReadFrom`), and
what is known of a request can be traced to the values that it stems from.

The filter is the only part that takes groups of different keys. Its documents all stand under one
key. Its simple parameters are the groups that are not reserved, in the order of `Params.grouped`,
so this is the one place where the order of keys shows.
-/
import Listing.Proofs.Refusal
import Listing.Request.Basic
import Mathlib.Data.List.Induction
import Mathlib.Data.List.Nodup
import Mathlib.Data.List.Perm.Basic

namespace Listing

namespace Params

theorem map_fst_addValue (key value : String) (groups : List (String × List String)) :
    (addValue key value groups).map Prod.fst =
      if key ∈ groups.map Prod.fst then groups.map Prod.fst else groups.map Prod.fst ++ [key] := by
  induction groups with
  | nil => simp [addValue]
  | cons group groups ih =>
      obtain ⟨k, values⟩ := group
      by_cases hk : k = key
      · simp [addValue, hk]
      · simp only [addValue, hk, if_false, List.map_cons, ih, List.mem_cons, Ne.symm hk, false_or]
        split <;> simp

/-- A value is added to those under its key, and to no others. -/
theorem lookup_addValue (key value k : String) (groups : List (String × List String)) :
    (addValue key value groups).lookup k =
      if k = key then some ((groups.lookup key).getD [] ++ [value]) else groups.lookup k := by
  induction groups with
  | nil =>
      rw [addValue, List.lookup_cons]
      by_cases hk : k = key
      · simp [hk]
      · simp [hk, beq_false_of_ne hk]
  | cons group groups ih =>
      obtain ⟨k', values⟩ := group
      rw [addValue]
      split
      · rename_i hfound
        subst hfound
        by_cases hk : k = k'
        · simp [hk]
        · simp [List.lookup_cons, hk, beq_false_of_ne hk]
      · rename_i hother
        simp only [List.lookup_cons, ih, beq_false_of_ne (Ne.symm hother)]
        by_cases hk : k = k'
        · subst hk
          simp [hother]
        · simp [beq_false_of_ne hk]

theorem getAll_concat (pairs : List (String × String)) (key value k : String) :
    getAll ⟨pairs ++ [(key, value)]⟩ k =
      getAll ⟨pairs⟩ k ++ if k = key then [value] else [] := by
  rw [getAll, getAll, List.filterMap_append]
  by_cases hk : key = k <;> simp [hk, eq_comm]

theorem grouped_concat (pairs : List (String × String)) (key value : String) :
    grouped ⟨pairs ++ [(key, value)]⟩ = addValue key value (grouped ⟨pairs⟩) := by
  rw [grouped, List.foldl_append]
  rfl

/-- A key has one group. -/
theorem nodup_grouped (p : Params) : (p.grouped.map Prod.fst).Nodup := by
  obtain ⟨pairs⟩ := p
  induction pairs using List.reverseRecOn with
  | nil => exact .nil
  | append_singleton pairs pair ih =>
      rw [grouped_concat, map_fst_addValue]
      split
      · exact ih
      · rename_i hnew
        exact List.nodup_append.2 ⟨ih, List.nodup_singleton _, by
          rintro a ha b hb rfl
          rw [List.mem_singleton.1 hb] at ha
          exact hnew ha⟩

/-- The group of a key holds all values under it, in their order; a key without values has none. -/
theorem lookup_grouped (p : Params) (key : String) :
    p.grouped.lookup key = if p.getAll key = [] then none else some (p.getAll key) := by
  obtain ⟨pairs⟩ := p
  induction pairs using List.reverseRecOn with
  | nil => rfl
  | append_singleton pairs pair ih =>
      obtain ⟨k, value⟩ := pair
      rw [grouped_concat, lookup_addValue, getAll_concat]
      by_cases hk : key = k
      · subst hk
        rw [ih]
        by_cases hnone : getAll ⟨pairs⟩ key = []
        · simp [hnone]
        · simp [hnone]
      · simp [hk, ih]

/-- What stands under different keys is found under them. -/
theorem mem_iff_lookup {α : Type} {entries : List (String × α)}
    (hnodup : (entries.map Prod.fst).Nodup) {key : String} {a : α} :
    (key, a) ∈ entries ↔ entries.lookup key = some a := by
  induction entries with
  | nil => simp
  | cons entry entries ih =>
      obtain ⟨k, b⟩ := entry
      obtain ⟨hnew, hrest⟩ := List.nodup_cons.1 hnodup
      rw [List.mem_cons, List.lookup_cons, Prod.mk.injEq, ih hrest]
      by_cases hk : key = k
      · subst hk
        have hnone : entries.lookup key ≠ some a := fun hfound =>
          hnew (List.mem_map.2 ⟨(key, a), (ih hrest).2 hfound, rfl⟩)
        simpa [hnone] using eq_comm
      · simp [hk, beq_false_of_ne hk]

/-- The groups are the keys that have values, each with all of them. -/
theorem mem_grouped {p : Params} {key : String} {values : List String} :
    (key, values) ∈ p.grouped ↔ values = p.getAll key ∧ values ≠ [] := by
  rw [mem_iff_lookup p.nodup_grouped, lookup_grouped]
  split
  · rename_i hnone
    simp +contextual [hnone]
  · rename_i hsome
    constructor
    · intro hvalues
      cases hvalues
      exact ⟨rfl, hsome⟩
    · rintro ⟨rfl, -⟩
      rfl

/-- Parameters with the same values under every key have the same groups, up to their order. -/
theorem grouped_perm {p p' : Params} (hsame : ∀ key, p.getAll key = p'.getAll key) :
    p.grouped.Perm p'.grouped := by
  have hnodup (p : Params) : p.grouped.Nodup := .of_map Prod.fst p.nodup_grouped
  refine (List.perm_ext_iff_of_nodup (hnodup p) (hnodup p')).2 fun group => ?_
  obtain ⟨key, values⟩ := group
  rw [mem_grouped, mem_grouped, hsame]

/-- The values under a key among groups. -/
def under (key : String) (groups : List (String × List String)) : List String :=
  (groups.lookup key).getD []

theorem under_grouped (p : Params) (key : String) : under key p.grouped = p.getAll key := by
  rw [under, lookup_grouped]
  split
  · rename_i hnone
    rw [hnone]
    rfl
  · rfl

theorem lookup_of_notMem {key : String} {groups : List (String × List String)}
    (hnew : key ∉ groups.map Prod.fst) : groups.lookup key = none := by
  rw [List.lookup_eq_none_iff]
  intro group hgroup
  simpa using fun heq : key = group.1 => hnew (heq ▸ List.mem_map_of_mem hgroup)

theorem under_of_notMem {key : String} {groups : List (String × List String)}
    (hnew : key ∉ groups.map Prod.fst) : under key groups = [] := by
  rw [under, lookup_of_notMem hnew]
  rfl

/-- A new group comes under its key. -/
theorem under_concat {key : String} {groups : List (String × List String)}
    (hnew : key ∉ groups.map Prod.fst) (values : List String) (k : String) :
    under k (groups ++ [(key, values)]) = if k = key then values else under k groups := by
  rw [under, List.lookup_append]
  split
  · rename_i hk
    subst hk
    simp [lookup_of_notMem hnew]
  · rename_i hk
    simp [under, List.lookup_cons, beq_false_of_ne hk]

/-- The groups of simple parameters. -/
def plain (groups : List (String × List String)) : List (String × List String) :=
  groups.filter fun group => ! Param.isReserved group.1

theorem plain_concat (groups : List (String × List String)) (key : String) (values : List String) :
    plain (groups ++ [(key, values)]) =
      plain groups ++ if Param.isReserved key then [] else [(key, values)] := by
  rw [plain, List.filter_append]
  cases hkey : Param.isReserved key <;> simp [plain, hkey]

/-- The filter that the documents among the parameters make. -/
def readDocuments (p : Params) (resource : Resource) : Result (Option Filter) := do
  let b ← (p.getAll Param.search).foldlM (fun (b : FilterBuilder) text =>
    b.addDocument resource text) {}
  return b.document

/-- The filters of the simple parameters, in the order of their keys. -/
def readSimple (p : Params) (resource : Resource) (options : Options) : Result (List Filter) :=
  (plain p.grouped).mapM fun group => FilterBuilder.readParam resource options group.1 group.2

end Params

/-- The keys that a request may give once. -/
def Param.scalars : List String := [limit, offset, totalCount, groupLimit]

namespace FilterBuilder

/-- A document is read without regard to the simple parameters, and leaves them as they are. -/
theorem addDocument_eq_ok {b b' : FilterBuilder} {resource : Resource} {text : String} :
    b.addDocument resource text = .ok b' ↔ b'.simple = b.simple ∧
      addDocument ⟨[], b.document⟩ resource text = .ok ⟨[], b'.document⟩ := by
  obtain ⟨simple, document⟩ := b
  obtain ⟨simple', document'⟩ := b'
  unfold addDocument
  cases FilterDocument.read resource text with
  | error e => simp [bind, Except.bind]
  | ok read => simp [bind, Except.bind, pure, Except.pure, eq_comm]

/-- So are several documents. -/
theorem foldlM_addDocument_eq_ok {b b' : FilterBuilder} {resource : Resource}
    {texts : List String} :
    texts.foldlM (fun b text => addDocument b resource text) b = .ok b' ↔
      b'.simple = b.simple ∧
        texts.foldlM (fun b text => addDocument b resource text) ⟨[], b.document⟩ =
          .ok ⟨[], b'.document⟩ := by
  induction texts generalizing b b' with
  | nil =>
      obtain ⟨simple, document⟩ := b
      obtain ⟨simple', document'⟩ := b'
      simp [pure, Except.pure, eq_comm]
  | cons text texts ih =>
      simp only [List.foldlM_cons, Result.bind_eq_ok]
      constructor
      · rintro ⟨c, hc, hrest⟩
        obtain ⟨hsimple, hc⟩ := addDocument_eq_ok.1 hc
        obtain ⟨hsimple', hrest⟩ := ih.1 hrest
        exact ⟨hsimple'.trans hsimple, ⟨[], c.document⟩, hc, hrest⟩
      · rintro ⟨hsimple, c, hc, hrest⟩
        obtain ⟨hc', hc⟩ := addDocument_eq_ok.1 hc
        obtain ⟨-, hrest⟩ := ih.1 hrest
        exact ⟨⟨b.simple, c.document⟩, addDocument_eq_ok.2 ⟨rfl, hc⟩, ih.2 ⟨hsimple, hrest⟩⟩

/-- Documents are accepted one by one. -/
theorem exists_foldlM_addDocument_iff {resource : Resource} {texts : List String}
    (b : FilterBuilder) :
    (∃ b', texts.foldlM (fun b text => addDocument b resource text) b = .ok b') ↔
      ∀ text ∈ texts, ∃ read, FilterDocument.read resource text = .ok read := by
  refine Result.exists_foldlM_iff (fun b text => ?_) b
  simp [addDocument, Result.bind_eq_ok, pure, Except.pure]

end FilterBuilder

namespace RequestTexts

open Params

/-- The keys whose values are kept as they are. -/
def keptKeys : List String :=
  [Param.order, Param.totals, Param.groupBy, Param.relations, Param.limit, Param.offset,
    Param.totalCount, Param.groupLimit]

/-- The values kept under a key. -/
def kept (t : RequestTexts) (key : String) : List String :=
  if key = Param.order then t.order
  else if key = Param.totals then t.totals
  else if key = Param.groupBy then t.groupBy
  else if key = Param.relations then t.fetch
  else if key = Param.limit then t.limit.toList
  else if key = Param.offset then t.offset.toList
  else if key = Param.totalCount then t.totalCount.toList
  else if key = Param.groupLimit then t.groupLimit.toList
  else []

variable {resource : Resource} {options : Options} {groups : List (String × List String)}
  {key : String} {values : List String} {t t' : RequestTexts}

theorem single_eq_ok {value : String} : single key values = .ok value ↔ values = [value] := by
  unfold single
  split <;> simp_all

/-- A key that is kept changes what is kept under it, and nothing else. -/
theorem kept_add (hkey : key ∈ keptKeys) (hnone : t.kept key = [])
    (hadd : t.add resource options key values = .ok t') :
    t'.filter = t.filter ∧ t'.kept key = values ∧ ∀ k, k ≠ key → t'.kept k = t.kept k := by
  have hscalar {k : String} (set : String → RequestTexts)
      (hset : (do return set (← single k values) : Result RequestTexts) = .ok t') :
      ∃ value, values = [value] ∧ t' = set value := by
    obtain ⟨value, hvalue, hok⟩ := Result.bind_eq_ok.1 hset
    cases hok
    exact ⟨value, single_eq_ok.1 hvalue, rfl⟩
  have happend {old : List String} (hold : old = []) : old ++ values = values := by
    rw [hold, List.nil_append]
  simp only [keptKeys, List.mem_cons, List.not_mem_nil, or_false] at hkey
  rcases hkey with rfl | rfl | rfl | rfl | rfl | rfl | rfl | rfl
  · cases hadd
    exact ⟨rfl, happend hnone, fun k hk => by simp only [kept, hk, if_false]⟩
  · cases hadd
    exact ⟨rfl, happend hnone, fun k hk => by simp only [kept, hk, if_false]⟩
  · cases hadd
    exact ⟨rfl, happend hnone, fun k hk => by simp only [kept, hk, if_false]⟩
  · cases hadd
    exact ⟨rfl, happend hnone, fun k hk => by simp only [kept, hk, if_false]⟩
  · obtain ⟨value, rfl, rfl⟩ := hscalar (fun value => { t with limit := some value }) hadd
    exact ⟨rfl, rfl, fun k hk => by simp only [kept, hk, if_false]⟩
  · obtain ⟨value, rfl, rfl⟩ := hscalar (fun value => { t with offset := some value }) hadd
    exact ⟨rfl, rfl, fun k hk => by simp only [kept, hk, if_false]⟩
  · obtain ⟨value, rfl, rfl⟩ :=
      hscalar (fun value => { t with totalCount := some value }) hadd
    exact ⟨rfl, rfl, fun k hk => by simp only [kept, hk, if_false]⟩
  · obtain ⟨value, rfl, rfl⟩ :=
      hscalar (fun value => { t with groupLimit := some value }) hadd
    exact ⟨rfl, rfl, fun k hk => by simp only [kept, hk, if_false]⟩

/-- A key is kept, is that of documents, or is not reserved. -/
theorem mem_keptKeys_iff : key ∈ keptKeys ↔ Param.isReserved key = true ∧ key ≠ Param.search := by
  have hsearch : Param.search ∉ keptKeys := by decide
  have hreserved : Param.reserved.Perm (Param.search :: keptKeys) := by decide
  rw [Param.isReserved, List.contains_iff_mem, hreserved.mem_iff, List.mem_cons]
  constructor
  · intro hkey
    exact ⟨.inr hkey, fun heq => hsearch (heq ▸ hkey)⟩
  · rintro ⟨hkey, hne⟩
    exact hkey.resolve_left hne

theorem add_search (t : RequestTexts) : t.add resource options Param.search values = do
    let filter ← values.foldlM (fun b text => b.addDocument resource text) t.filter
    return { t with filter } := rfl

theorem add_of_not_reserved (t : RequestTexts) (hkey : Param.isReserved key = false) :
    t.add resource options key values = do
      return { t with filter := ← t.filter.addParam resource options key values } := by
  simp only [Param.isReserved, Param.reserved, List.contains_eq_mem, decide_eq_false_iff_not,
    List.mem_cons, List.not_mem_nil, or_false, not_or] at hkey
  simp only [RequestTexts.add, hkey, if_false]

/-- What makes a parameter acceptable: a single value, documents that can be read, or the key and
the values of a simple parameter. -/
structure Accepts (resource : Resource) (options : Options) (key : String)
    (values : List String) : Prop where
  single : key ∈ Param.scalars → ∃ value, values = [value]
  documents : key = Param.search →
    ∀ text ∈ values, ∃ read, FilterDocument.read resource text = .ok read
  simple : Param.isReserved key = false →
    ∃ leaf, FilterBuilder.readParam resource options key values = .ok leaf

theorem exists_add_iff_of_kept (t : RequestTexts) (hkey : key ∈ keptKeys) :
    (∃ t', t.add resource options key values = .ok t') ↔
      (key ∈ Param.scalars → ∃ value, values = [value]) := by
  have hsingle {k : String} (hk : k ∈ Param.scalars) (set : String → RequestTexts) :
      (∃ t', (do return set (← single k values) : Result RequestTexts) = .ok t') ↔
        (k ∈ Param.scalars → ∃ value, values = [value]) := by
    simp [Result.bind_eq_ok, single_eq_ok, pure, Except.pure, hk]
  simp only [keptKeys, List.mem_cons, List.not_mem_nil, or_false] at hkey
  rcases hkey with rfl | rfl | rfl | rfl | rfl | rfl | rfl | rfl
  · exact iff_of_true ⟨_, rfl⟩ fun hscalar => absurd hscalar (by decide)
  · exact iff_of_true ⟨_, rfl⟩ fun hscalar => absurd hscalar (by decide)
  · exact iff_of_true ⟨_, rfl⟩ fun hscalar => absurd hscalar (by decide)
  · exact iff_of_true ⟨_, rfl⟩ fun hscalar => absurd hscalar (by decide)
  · exact hsingle (by decide) fun value => { t with limit := some value }
  · exact hsingle (by decide) fun value => { t with offset := some value }
  · exact hsingle (by decide) fun value => { t with totalCount := some value }
  · exact hsingle (by decide) fun value => { t with groupLimit := some value }

/-- A parameter is accepted or not, whatever was sorted before. -/
theorem exists_add_iff (t : RequestTexts) :
    (∃ t', t.add resource options key values = .ok t') ↔ Accepts resource options key values := by
  by_cases hkept : key ∈ keptKeys
  · obtain ⟨hreserved, hsearch⟩ := mem_keptKeys_iff.1 hkept
    rw [exists_add_iff_of_kept t hkept]
    exact ⟨fun hsingle => ⟨hsingle, fun heq => absurd heq hsearch, fun hnot => by simp_all⟩,
      Accepts.single⟩
  · have hscalars : key ∉ Param.scalars := fun hscalar =>
      hkept (List.Sublist.subset (by decide : Param.scalars.Sublist keptKeys) hscalar)
    by_cases hsearch : key = Param.search
    · subst hsearch
      rw [add_search]
      constructor
      · rintro ⟨t', hadd⟩
        obtain ⟨b, hb, -⟩ := Result.bind_eq_ok.1 hadd
        exact ⟨fun hscalar => absurd hscalar hscalars,
          fun _ => (FilterBuilder.exists_foldlM_addDocument_iff t.filter).1 ⟨b, hb⟩, nofun⟩
      · intro haccepts
        obtain ⟨b, hb⟩ :=
          (FilterBuilder.exists_foldlM_addDocument_iff t.filter).2 (haccepts.documents rfl)
        exact ⟨_, Result.bind_eq_ok.2 ⟨b, hb, rfl⟩⟩
    · have hplain : Param.isReserved key = false := by
        simpa [mem_keptKeys_iff, hsearch] using hkept
      rw [add_of_not_reserved t hplain]
      constructor
      · rintro ⟨t', hadd⟩
        obtain ⟨b, hb, -⟩ := Result.bind_eq_ok.1 hadd
        obtain ⟨leaf, hleaf, -⟩ := Result.bind_eq_ok.1 hb
        exact ⟨fun hscalar => absurd hscalar hscalars, fun heq => absurd heq hsearch,
          fun _ => ⟨leaf, hleaf⟩⟩
      · intro haccepts
        obtain ⟨leaf, hleaf⟩ := haccepts.simple hplain
        exact ⟨_, Result.bind_eq_ok.2 ⟨_, Result.bind_eq_ok.2 ⟨leaf, hleaf, rfl⟩, rfl⟩⟩

/-- What groups of parameters were sorted to: the values under every key that is kept, the filter of
the documents, and those of the simple parameters. -/
structure Sorts (resource : Resource) (options : Options) (groups : List (String × List String))
    (t : RequestTexts) : Prop where
  kept : ∀ key ∈ keptKeys, t.kept key = under key groups
  document : (under Param.search groups).foldlM (fun (b : FilterBuilder) text =>
    b.addDocument resource text) {} = .ok ⟨[], t.filter.document⟩
  simple : (plain groups).mapM (fun group =>
    FilterBuilder.readParam resource options group.1 group.2) = .ok t.filter.simple

namespace Sorts

/-- The values of a key that is kept are kept. -/
theorem add_kept (ht : t.Sorts resource options groups) (hnew : key ∉ groups.map Prod.fst)
    (hkey : key ∈ keptKeys) (hadd : t.add resource options key values = .ok t') :
    t'.Sorts resource options (groups ++ [(key, values)]) := by
  obtain ⟨hreserved, hsearch⟩ := mem_keptKeys_iff.1 hkey
  have hnone : t.kept key = [] := by rw [ht.kept key hkey, under_of_notMem hnew]
  obtain ⟨hfilter, hself, hothers⟩ := kept_add hkey hnone hadd
  refine ⟨fun k hk => ?_, ?_, ?_⟩
  · rw [under_concat hnew]
    split
    · rename_i hsame
      rw [hsame, hself]
    · rename_i hne
      rw [hothers k hne, ht.kept k hk]
  · rw [under_concat hnew, if_neg (Ne.symm hsearch), hfilter]
    exact ht.document
  · rw [plain_concat, if_pos hreserved, List.append_nil, hfilter]
    exact ht.simple

/-- The documents make the filter of the documents, for there were none before. -/
theorem add_documents (ht : t.Sorts resource options groups)
    (hnew : Param.search ∉ groups.map Prod.fst)
    (hadd : t.add resource options Param.search values = .ok t') :
    t'.Sorts resource options (groups ++ [(Param.search, values)]) := by
  rw [add_search] at hadd
  obtain ⟨b, hb, ht'⟩ := Result.bind_eq_ok.1 hadd
  cases ht'
  obtain ⟨hsimple, hdocument⟩ := FilterBuilder.foldlM_addDocument_eq_ok.1 hb
  have hempty := ht.document
  rw [under_of_notMem hnew] at hempty
  have hfirst : none = t.filter.document := congrArg FilterBuilder.document (Except.ok.inj hempty)
  rw [← hfirst] at hdocument
  refine ⟨fun k hk => ?_, ?_, ?_⟩
  · rw [under_concat hnew, if_neg fun heq => (mem_keptKeys_iff.1 hk).2 heq]
    exact ht.kept k hk
  · rw [under_concat hnew, if_pos rfl]
    exact hdocument
  · rw [plain_concat, if_pos (by decide), List.append_nil]
    exact hsimple ▸ ht.simple

/-- The values of a simple parameter make one more filter. -/
theorem add_plain (ht : t.Sorts resource options groups) (hnew : key ∉ groups.map Prod.fst)
    (hplain : Param.isReserved key = false) (hadd : t.add resource options key values = .ok t') :
    t'.Sorts resource options (groups ++ [(key, values)]) := by
  rw [add_of_not_reserved t hplain] at hadd
  obtain ⟨b, hb, ht'⟩ := Result.bind_eq_ok.1 hadd
  cases ht'
  obtain ⟨leaf, hleaf, hb⟩ := Result.bind_eq_ok.1 hb
  cases hb
  have hne {k : String} (hk : Param.isReserved k = true) : k ≠ key := by
    rintro rfl
    exact absurd hk (by simp [hplain])
  refine ⟨fun k hk => ?_, ?_, ?_⟩
  · rw [under_concat hnew, if_neg (hne (mem_keptKeys_iff.1 hk).1)]
    exact ht.kept k hk
  · rw [under_concat hnew, if_neg (hne (by decide))]
    exact ht.document
  · rw [plain_concat, hplain, List.mapM_append, ht.simple]
    simp [hleaf, bind, Except.bind, pure, Except.pure]

/-- A further group is sorted as its key says. -/
theorem add (ht : t.Sorts resource options groups) (hnew : key ∉ groups.map Prod.fst)
    (hadd : t.add resource options key values = .ok t') :
    t'.Sorts resource options (groups ++ [(key, values)]) := by
  by_cases hkept : key ∈ keptKeys
  · exact ht.add_kept hnew hkept hadd
  · by_cases hsearch : key = Param.search
    · subst hsearch
      exact ht.add_documents hnew hadd
    · exact ht.add_plain hnew (by simpa [mem_keptKeys_iff, hsearch] using hkept) hadd

end Sorts

/-- Groups with different keys are sorted as their keys say. -/
theorem sorts_of_foldlM (hkeys : (groups.map Prod.fst).Nodup)
    (hfold : groups.foldlM (fun (t : RequestTexts) group =>
      t.add resource options group.1 group.2) {} = .ok t) : t.Sorts resource options groups := by
  induction groups using List.reverseRecOn generalizing t with
  | nil =>
      cases hfold
      exact ⟨by decide, rfl, rfl⟩
  | append_singleton groups group ih =>
      rw [List.map_append, List.map_singleton, List.nodup_append] at hkeys
      obtain ⟨hbefore, -, hapart⟩ := hkeys
      rw [List.foldlM_append] at hfold
      obtain ⟨before, hfirst, hlast⟩ := Result.bind_eq_ok.1 hfold
      have hadd : before.add resource options group.1 group.2 = .ok t := by simpa using hlast
      have hnew : group.1 ∉ groups.map Prod.fst := fun hmem =>
        hapart _ hmem _ (List.mem_singleton.2 rfl) rfl
      exact (ih hbefore hfirst).add hnew hadd

end RequestTexts

namespace Request

/-- A request says what the values under each key of its parameters say: `document` is the filter of
its documents, and `simple` are those of its simple parameters. -/
structure IsReadFrom (request : Request) (params : Params) (resource : Resource)
    (options : Options) (document : Option Filter) (simple : List Filter) : Prop where
  readsDocuments : params.readDocuments resource = .ok document
  readsSimple : params.readSimple resource options = .ok simple
  scalars : ∀ key ∈ Param.scalars, (params.getAll key).length ≤ 1
  filter : request.filter = FilterBuilder.build ⟨simple, document⟩
  order : Order.read (params.getAll Param.order) = .ok request.order
  paging : Paging.read (params.get? Param.limit) (params.get? Param.offset)
    (params.get? Param.totalCount) resource options = .ok request.paging
  aggregate : Aggregate.read (params.getAll Param.totals) (params.getAll Param.groupBy)
    (params.get? Param.groupLimit) = .ok request.aggregate
  fetch : request.fetch = Fetch.read (params.getAll Param.relations)

end Request

theorem Params.get?_eq_head? (p : Params) (key : String) : p.get? key = (p.getAll key).head? := by
  obtain ⟨pairs⟩ := p
  induction pairs with
  | nil => rfl
  | cons pair pairs ih =>
      obtain ⟨k, value⟩ := pair
      rw [get?, List.lookup_cons, getAll, List.filterMap_cons]
      by_cases hk : key = k
      · simp [hk]
      · simp only [beq_false_of_ne hk, if_neg (Ne.symm hk)]
        exact ih

namespace RequestTexts

variable {params : Params} {resource : Resource} {options : Options} {t : RequestTexts}

/-- What the parameters of a request were sorted to. -/
theorem Sorts.of_params (ht : t.Sorts resource options params.grouped) :
    t.order = params.getAll Param.order ∧ t.totals = params.getAll Param.totals ∧
      t.groupBy = params.getAll Param.groupBy ∧ t.fetch = params.getAll Param.relations ∧
      t.limit = params.get? Param.limit ∧ t.offset = params.get? Param.offset ∧
      t.totalCount = params.get? Param.totalCount ∧
      t.groupLimit = params.get? Param.groupLimit := by
  have hkept (key : String) (hkey : key ∈ keptKeys) : t.kept key = params.getAll key := by
    rw [ht.kept key hkey, Params.under_grouped]
  have hhead (o : Option String) (key : String) (hkey : o.toList = params.getAll key) :
      o = params.get? key := by
    rw [Params.get?_eq_head?, ← hkey]
    cases o <;> rfl
  exact ⟨hkept Param.order (by decide), hkept Param.totals (by decide),
    hkept Param.groupBy (by decide), hkept Param.relations (by decide),
    hhead _ _ (hkept Param.limit (by decide)), hhead _ _ (hkept Param.offset (by decide)),
    hhead _ _ (hkept Param.totalCount (by decide)), hhead _ _ (hkept Param.groupLimit (by decide))⟩

/-- Parameters are sorted exactly if each of them is acceptable. -/
theorem exists_foldlM_add_iff (params : Params) :
    (∃ t, params.grouped.foldlM (fun (t : RequestTexts) group =>
        t.add resource options group.1 group.2) {} = .ok t) ↔
      ∀ group ∈ params.grouped, Accepts resource options group.1 group.2 := by
  refine Result.exists_foldlM_iff (fun t group => ?_) _
  exact exists_add_iff t

end RequestTexts

namespace Request

variable {params : Params} {resource : Resource} {options : Options} {request : Request}

/-- What was read says what the values under each key say. -/
theorem isReadFrom_of_ofParams (hread : ofParams params resource options = .ok request) :
    ∃ document simple, request.IsReadFrom params resource options document simple := by
  obtain ⟨t, hfold, hrest⟩ := Result.bind_eq_ok.1 hread
  have ht := RequestTexts.sorts_of_foldlM params.nodup_grouped hfold
  have haccepts := (RequestTexts.exists_foldlM_add_iff params).1 ⟨t, hfold⟩
  obtain ⟨horder, htotals, hgroupBy, hfetch, hlimit, hoffset, htotalCount, hgroupLimit⟩ :=
    ht.of_params
  obtain ⟨order, hreadOrder, hrest⟩ := Result.bind_eq_ok.1 hrest
  obtain ⟨paging, hpaging, hrest⟩ := Result.bind_eq_ok.1 hrest
  obtain ⟨aggregate, haggregate, hrest⟩ := Result.bind_eq_ok.1 hrest
  cases hrest
  rw [horder] at hreadOrder
  rw [hlimit, hoffset, htotalCount] at hpaging
  rw [htotals, hgroupBy, hgroupLimit] at haggregate
  have hdocument := ht.document
  rw [Params.under_grouped] at hdocument
  refine ⟨t.filter.document, t.filter.simple, Result.bind_eq_ok.2 ⟨_, hdocument, rfl⟩, ht.simple,
    fun key hkey => ?_, rfl, hreadOrder, hpaging, haggregate, congrArg Fetch.read hfetch⟩
  by_cases hnone : params.getAll key = []
  · rw [hnone]
    exact Nat.zero_le 1
  · obtain ⟨value, hvalue⟩ := (haccepts _ (Params.mem_grouped.2 ⟨rfl, hnone⟩)).single hkey
    exact Nat.le_of_eq (congrArg List.length hvalue)

namespace IsReadFrom

variable {document : Option Filter} {simple : List Filter}

/-- Parameters that say what a request says are all acceptable. -/
theorem accepts (hread : request.IsReadFrom params resource options document simple) :
    ∀ group ∈ params.grouped, RequestTexts.Accepts resource options group.1 group.2 := by
  rintro ⟨key, values⟩ hgroup
  obtain ⟨rfl, hnonempty⟩ := Params.mem_grouped.1 hgroup
  refine ⟨fun hkey => ?_, fun hkey => ?_, fun hkey => ?_⟩
  · exact List.length_eq_one_iff.1
      (Nat.le_antisymm (hread.scalars key hkey) (List.length_pos_of_ne_nil hnonempty))
  · subst hkey
    obtain ⟨b, hdocuments, -⟩ := Result.bind_eq_ok.1 hread.readsDocuments
    exact (FilterBuilder.exists_foldlM_addDocument_iff {}).1 ⟨b, hdocuments⟩
  · obtain ⟨leaf, -, hleaf⟩ := Result.mapM_eq_ok_mem hread.readsSimple
      (List.mem_filter.2 ⟨hgroup, by simp [hkey]⟩)
    exact ⟨leaf, hleaf⟩

/-- What the values under each key say is what is read. -/
theorem ofParams_eq_ok (hread : request.IsReadFrom params resource options document simple) :
    ofParams params resource options = .ok request := by
  obtain ⟨t, hfold⟩ := (RequestTexts.exists_foldlM_add_iff params).2 hread.accepts
  have ht := RequestTexts.sorts_of_foldlM params.nodup_grouped hfold
  obtain ⟨horder, htotals, hgroupBy, hfetch, hlimit, hoffset, htotalCount, hgroupLimit⟩ :=
    ht.of_params
  have hfilter : t.filter = ⟨simple, document⟩ := by
    obtain ⟨b, hdocuments, hdocument⟩ := Result.bind_eq_ok.1 hread.readsDocuments
    cases hdocument
    have hsorted := ht.document
    rw [Params.under_grouped, hdocuments] at hsorted
    rw [Except.ok.inj hsorted, Except.ok.inj (hread.readsSimple.symm.trans ht.simple)]
  refine Result.bind_eq_ok.2 ⟨t, hfold, ?_⟩
  rw [RequestTexts.read, horder, hread.order, hlimit, hoffset, htotalCount, htotals, hgroupBy,
    hgroupLimit, hfetch, hfilter, ← hread.fetch, ← hread.filter]
  simp only [hread.paging, hread.aggregate, bind, Except.bind, pure, Except.pure]

end IsReadFrom

/-- Parameters are read exactly as the values under each key are. -/
theorem ofParams_eq_ok_iff : ofParams params resource options = .ok request ↔
    ∃ document simple, request.IsReadFrom params resource options document simple :=
  ⟨isReadFrom_of_ofParams, fun ⟨_, _, hread⟩ => hread.ofParams_eq_ok⟩

end Request

/-- A page has the limit that is named, after defaults and the largest size, and skips as many rows
as are named. -/
theorem Paging.eq_of_read {limit offset totalCount : Option String} {resource : Resource}
    {options : Options} {paging : Paging}
    (hread : read limit offset totalCount resource options = .ok paging) :
    ∃ requested skipped, readLimit limit = .ok requested ∧ readOffset offset = .ok skipped ∧
      paging.limit = effectiveLimit requested resource options ∧ paging.offset = skipped := by
  obtain ⟨requested, hrequested, hrest⟩ := Result.bind_eq_ok.1 hread
  obtain ⟨skipped, hskipped, hrest⟩ := Result.bind_eq_ok.1 hrest
  obtain ⟨_, _, hrest⟩ := Result.bind_eq_ok.1 hrest
  cases hrest
  exact ⟨requested, skipped, hrequested, hskipped, rfl, rfl⟩
end Listing
