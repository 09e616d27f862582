/-
# Leaves name their entries

The parameter of a leaf of a filter document is the place of the entry that it was parsed from. The
tree that is built has other levels than the document: single children are not wrapped, empty ones
are left out, a negation is put around a conjunction. The leaves have their places from the document
all the same, and a document that is refused is refused with the place of what is wrong with it.
-/
import Listing.Proofs.BlamedParameters
import Listing.Proofs.FilterMeaning
import Listing.Proofs.PlaceTexts

namespace Listing
namespace FilterDocument

/-! ### Places of leaves -/

/-- The first step to a leaf of an object is one of its keys. -/
theorem head_of_mem_entryPositions {entries : List (String × Json)} {steps : Position}
    (hsteps : steps ∈ entryPositions entries) :
    ∃ key ∈ entries.map Prod.fst, ∃ rest, steps = .key key :: rest := by
  induction entries with
  | nil => cases hsteps
  | cons entry entries ih =>
      rcases List.mem_append.1 hsteps with hfirst | hlater
      · obtain ⟨rest, _, rfl⟩ := List.mem_map.1 hfirst
        exact ⟨entry.1, List.mem_cons_self, rest, rfl⟩
      · obtain ⟨key, hkey, hrest⟩ := ih hlater
        exact ⟨key, List.mem_cons_of_mem _ hkey, hrest⟩

/-- The first step to a leaf of a list is the position of an item. -/
theorem head_of_mem_itemPositions {items : List Json} {index : Nat} {steps : Position}
    (hsteps : steps ∈ itemPositions index items) :
    ∃ i, index ≤ i ∧ ∃ rest, steps = .item i :: rest := by
  induction items generalizing index with
  | nil => cases hsteps
  | cons item items ih =>
      rcases List.mem_append.1 hsteps with hfirst | hlater
      · obtain ⟨rest, _, rfl⟩ := List.mem_map.1 hfirst
        exact ⟨index, le_refl _, rest, rfl⟩
      · obtain ⟨i, hi, hrest⟩ := ih hlater
        exact ⟨i, by omega, hrest⟩

theorem nodup_map_cons {step : Step} {positions : List Position} (hnodup : positions.Nodup) :
    (positions.map (step :: ·)).Nodup :=
  hnodup.map fun _ _ heq => (List.cons.inj heq).2

mutual
/-- No two leaves have one place. -/
theorem nodup_leafPositions : ∀ {value : Json}, value.HasUniqueKeys → (leafPositions value).Nodup
  | .object entries, hunique => by
      obtain ⟨hnodup, hinner⟩ := Json.everywhere_object.1 hunique
      rw [leafPositions]
      exact nodup_entryPositions hnodup hinner
  | .array items, hunique => by
      rw [leafPositions]
      exact nodup_itemPositions (Json.everywhere_array.1 hunique) 0
  | .null, _ | .bool _, _ | .int _, _ | .double _, _ | .string _, _ => by
      rw [leafPositions]
      exact List.nodup_nil

theorem nodup_entryPositions : ∀ {entries : List (String × Json)},
    (entries.map Prod.fst).Nodup → (∀ entry ∈ entries, entry.2.HasUniqueKeys) →
      (entryPositions entries).Nodup
  | [], _, _ => List.nodup_nil
  | (key, value) :: entries, hnodup, hinner => by
      obtain ⟨hfresh, hnodup⟩ := List.nodup_cons.1 hnodup
      obtain ⟨hvalue, hinner⟩ := List.forall_mem_cons.1 hinner
      rw [entryPositions]
      refine List.nodup_append.2 ⟨nodup_map_cons ?_, nodup_entryPositions hnodup hinner, ?_⟩
      · split
        · exact nodup_leafPositions hvalue
        · exact List.nodup_singleton []
      · rintro _ hfirst _ hlater rfl
        obtain ⟨rest, _, rfl⟩ := List.mem_map.1 hfirst
        obtain ⟨other, hother, rest', heq⟩ := head_of_mem_entryPositions hlater
        cases heq
        exact hfresh hother

theorem nodup_itemPositions : ∀ {items : List Json}, (∀ item ∈ items, item.HasUniqueKeys) →
    ∀ index, (itemPositions index items).Nodup
  | [], _, _ => List.nodup_nil
  | item :: items, hinner, index => by
      obtain ⟨hitem, hinner⟩ := List.forall_mem_cons.1 hinner
      rw [itemPositions]
      refine List.nodup_append.2 ⟨nodup_map_cons (nodup_leafPositions hitem),
        nodup_itemPositions hinner (index + 1), ?_⟩
      rintro _ hfirst _ hlater rfl
      obtain ⟨rest, _, rfl⟩ := List.mem_map.1 hfirst
      obtain ⟨i, hi, rest', heq⟩ := head_of_mem_itemPositions hlater
      cases heq
      omega
end

/-! ### Leaves of what is read -/

/-- Filters that are joined have the leaves that they had. -/
theorem flatMap_leaves_join (connective : Connective) (fs : List Filter) :
    (connective.join fs).toList.flatMap Filter.leaves = fs.flatMap Filter.leaves := by
  have hjoin := Interpretation.leaves_isLawful.map_join connective fs
  rw [funext Interpretation.leaves_filter] at hjoin
  rw [List.flatMap_def, List.flatMap_def, ← Option.toList_map, hjoin]
  cases fs.map Filter.leaves with
  | nil => rfl
  | cons part parts => exact List.append_nil _

variable {resource : Resource} {root : Json}

/-- A leaf has the place of an entry for its parameter, and it was parsed from that entry. -/
def IsReadAt (resource : Resource) (root : Json) (steps : Position) (leaf : Filter) : Prop :=
  ∃ before key value, steps = before ++ [.key key] ∧ root.follow? steps = some value ∧
    readLeaf resource (placeOf steps) key value = .ok leaf

theorem leaves_of_readLeaf {place key : String} {value : Json} {leaf : Filter}
    (hread : readLeaf resource place key value = .ok leaf) : leaf.leaves = [leaf] := by
  rw [← Interpretation.leaves_filter, Interpretation.filter_readLeaf hread]
  rfl

/-- The entries of an object that some steps lead to are one step further. -/
theorem follow?_entry {before : Position} {entries : List (String × Json)}
    (hfollow : root.follow? before = some (.object entries))
    (hunique : (Json.object entries).HasUniqueKeys) {entry : String × Json}
    (hentry : entry ∈ entries) :
    root.follow? (before ++ [.key entry.1]) = some entry.2 ∧ entry.2.HasUniqueKeys := by
  rw [Json.follow?_snoc hfollow]
  exact ⟨Json.step?_of_mem hunique hentry, (Json.everywhere_object.1 hunique).2 entry hentry⟩

theorem param?_of_readLeaf {place key : String} {value : Json} {leaf : Filter}
    (hread : readLeaf resource place key value = .ok leaf) : leaf.param? = some place := by
  unfold readLeaf at hread
  split at hread
  · cases hread
  · obtain ⟨f, hf, hpure⟩ := Result.bind_eq_ok.1 hread
    cases hpure
    unfold FullText.ofKey at hf
    split at hf
    · cases hf
    · dsimp only at hf
      split at hf
      · cases hf
      · cases hf
        rfl
  · cases hread
    rfl

theorem forall₂_isReadAt_map_cons {before : Position} {step : Step} {positions : List Position}
    {leaves : List Filter} (hleaves : List.Forall₂
      (fun steps => IsReadAt resource root (before ++ [step] ++ steps)) positions leaves) :
    List.Forall₂ (fun steps => IsReadAt resource root (before ++ steps))
      (positions.map (step :: ·)) leaves := by
  simpa [List.forall₂_map_left_iff] using hleaves

mutual
/-- The leaves of the entries of an object are read at their places. -/
theorem isReadAt_readEntries {before : Position} {depth : Nat} :
    ∀ {entries : List (String × Json)} {filters : List Filter},
      readEntries resource (placeOf before) depth entries = .ok filters →
      (∀ entry ∈ entries, root.follow? (before ++ [.key entry.1]) = some entry.2 ∧
        entry.2.HasUniqueKeys) →
      List.Forall₂ (fun steps => IsReadAt resource root (before ++ steps))
        (entryPositions entries) (filters.flatMap Filter.leaves)
  | [], filters, hread, _ => by
      cases hread
      exact .nil
  | (key, value) :: entries, filters, hread, hentries => by
      obtain ⟨⟨hvalue, hunique⟩, hentries⟩ := List.forall_mem_cons.1 hentries
      rw [readEntries, ← placeOf_snoc_key] at hread
      rw [entryPositions]
      split at hread
      · rename_i connective hword
        obtain ⟨parts, hparts, hrest⟩ := Result.bind_eq_ok.1 hread
        obtain ⟨rest, hlater, hfilters⟩ := Result.bind_eq_ok.1 hrest
        cases hfilters
        rw [hword, List.flatMap_append, flatMap_leaves_join]
        refine List.rel_append ?_ (isReadAt_readEntries hlater hentries)
        exact forall₂_isReadAt_map_cons (isReadAt_readOperand hparts hvalue hunique)
      · rename_i hword
        obtain ⟨leaf, hleaf, hrest⟩ := Result.bind_eq_ok.1 hread
        obtain ⟨rest, hlater, hfilters⟩ := Result.bind_eq_ok.1 hrest
        cases hfilters
        rw [hword, List.flatMap_cons, leaves_of_readLeaf hleaf]
        refine .cons ?_ (isReadAt_readEntries hlater hentries)
        exact ⟨before, key, value, rfl, hvalue, hleaf⟩

/-- The leaves below a word are read at their places. -/
theorem isReadAt_readOperand {before : Position} {depth : Nat} :
    ∀ {value : Json} {filters : List Filter},
      readOperand resource (placeOf before) depth value = .ok filters →
      root.follow? before = some value → value.HasUniqueKeys →
      List.Forall₂ (fun steps => IsReadAt resource root (before ++ steps))
        (leafPositions value) (filters.flatMap Filter.leaves)
  | .object entries, filters, hread, hvalue, hunique => by
      rw [readOperand] at hread
      obtain ⟨_, _, hentries⟩ := Result.bind_eq_ok.1 hread
      rw [leafPositions]
      exact isReadAt_readEntries hentries fun entry hentry => follow?_entry hvalue hunique hentry
  | .array items, filters, hread, hvalue, hunique => by
      rw [readOperand] at hread
      rw [leafPositions]
      exact isReadAt_readItems hread fun i item hitem =>
        ⟨by rw [Json.follow?_snoc hvalue, Nat.zero_add]; exact hitem,
          Json.everywhere_array.1 hunique _ (List.mem_of_getElem? hitem)⟩
  | .null, _, hread, _, _ | .bool _, _, hread, _, _ | .int _, _, hread, _, _
  | .double _, _, hread, _, _ | .string _, _, hread, _, _ => by
      rw [readOperand] at hread
      · cases hread
      all_goals simp

/-- The leaves of the objects of a list are read at their places. -/
theorem isReadAt_readItems {before : Position} {depth index : Nat} :
    ∀ {items : List Json} {filters : List Filter},
      readItems resource (placeOf before) depth index items = .ok filters →
      (∀ i item, items[i]? = some item →
        root.follow? (before ++ [.item (index + i)]) = some item ∧ item.HasUniqueKeys) →
      List.Forall₂ (fun steps => IsReadAt resource root (before ++ steps))
        (itemPositions index items) (filters.flatMap Filter.leaves)
  | [], filters, hread, _ => by
      cases hread
      exact .nil
  | .object entries :: items, filters, hread, hitems => by
      rw [readItems, ← placeOf_snoc_item] at hread
      obtain ⟨_, _, hread⟩ := Result.bind_eq_ok.1 hread
      obtain ⟨parts, hparts, hrest⟩ := Result.bind_eq_ok.1 hread
      obtain ⟨rest, hlater, hfilters⟩ := Result.bind_eq_ok.1 hrest
      cases hfilters
      obtain ⟨hvalue, hunique⟩ := hitems 0 _ rfl
      have hall : (Filter.all parts).toList.flatMap Filter.leaves = parts.flatMap Filter.leaves :=
        flatMap_leaves_join .and parts
      rw [itemPositions, List.flatMap_append, hall]
      refine List.rel_append (forall₂_isReadAt_map_cons ?_) (isReadAt_readItems hlater ?_)
      · rw [leafPositions]
        exact isReadAt_readEntries hparts fun entry hentry => follow?_entry hvalue hunique hentry
      · intro i item hitem
        rw [Nat.add_right_comm, Nat.add_assoc]
        exact hitems (i + 1) item hitem
  | .null :: _, _, hread, _ | .bool _ :: _, _, hread, _ | .int _ :: _, _, hread, _
  | .double _ :: _, _, hread, _ | .string _ :: _, _, hread, _ | .array _ :: _, _, hread, _ => by
      rw [readItems] at hread
      · cases hread
      all_goals simp
end

/-! ### What is refused -/

/-- An object is only refused for its depth if too many words lead to it. -/
theorem isRefusedAt_checkDepth {before : Position} {entries : List (String × Json)} {e : QueryError}
    (hcheck : checkDepth (placeOf before) (wordCount before) = .error e)
    (hfollow : root.follow? before = some (.object entries)) :
    IsRefusedAt resource root before e := by
  unfold checkDepth at hcheck
  split at hcheck
  · rename_i hdepth
    cases hcheck
    exact .object hfollow hdepth
  · cases hcheck

theorem wordCount_snoc_key (before : Position) (key : String) :
    wordCount (before ++ [.key key]) = wordCount before + 1 := by
  simp [wordCount]

theorem wordCount_snoc_item (before : Position) (index : Nat) :
    wordCount (before ++ [.item index]) = wordCount before := by
  simp [wordCount]

mutual
/-- An object is refused for one of its entries. -/
theorem isRefusedAt_readEntries {before : Position} :
    ∀ {entries : List (String × Json)} {e : QueryError},
      readEntries resource (placeOf before) (wordCount before) entries = .error e →
      (∀ entry ∈ entries, root.follow? (before ++ [.key entry.1]) = some entry.2 ∧
        entry.2.HasUniqueKeys) →
      ∃ steps, IsRefusedAt resource root steps e
  | [], _, hread, _ => by cases hread
  | (key, value) :: entries, e, hread, hentries => by
      obtain ⟨⟨hvalue, hunique⟩, hentries⟩ := List.forall_mem_cons.1 hentries
      rw [readEntries, ← placeOf_snoc_key, ← wordCount_snoc_key before key] at hread
      split at hread
      · rename_i connective hword
        rcases Result.bind_eq_error.1 hread with hfirst | ⟨parts, _, hrest⟩
        · exact isRefusedAt_readOperand hfirst hword hvalue hunique
        · rcases Result.bind_eq_error.1 hrest with hlater | ⟨_, _, hpure⟩
          · exact isRefusedAt_readEntries hlater hentries
          · cases hpure
      · rename_i hword
        rcases Result.bind_eq_error.1 hread with hfirst | ⟨leaf, _, hrest⟩
        · exact ⟨_, .leaf hvalue hfirst⟩
        · rcases Result.bind_eq_error.1 hrest with hlater | ⟨_, _, hpure⟩
          · exact isRefusedAt_readEntries hlater hentries
          · cases hpure

/-- What stands under a word is refused as a whole, or for a part of it. -/
theorem isRefusedAt_readOperand {before : Position} {key : String} {connective : Connective} :
    ∀ {value : Json} {e : QueryError},
      readOperand resource (placeOf (before ++ [.key key])) (wordCount (before ++ [.key key])) value =
        .error e →
      Connective.ofKey? key = some connective →
      root.follow? (before ++ [.key key]) = some value → value.HasUniqueKeys →
      ∃ steps, IsRefusedAt resource root steps e
  | .object entries, e, hread, _, hvalue, hunique => by
      rw [readOperand] at hread
      rcases Result.bind_eq_error.1 hread with hcheck | ⟨_, _, hentries⟩
      · exact ⟨_, isRefusedAt_checkDepth hcheck hvalue⟩
      · exact isRefusedAt_readEntries hentries fun entry hentry =>
          follow?_entry hvalue hunique hentry
  | .array items, e, hread, _, hvalue, hunique => by
      rw [readOperand] at hread
      exact isRefusedAt_readItems hread fun i item hitem =>
        ⟨by rw [Json.follow?_snoc hvalue, Nat.zero_add]; exact hitem,
          Json.everywhere_array.1 hunique _ (List.mem_of_getElem? hitem)⟩
  | .null, _, hread, hword, hvalue, _ | .bool _, _, hread, hword, hvalue, _
  | .int _, _, hread, hword, hvalue, _ | .double _, _, hread, hword, hvalue, _
  | .string _, _, hread, hword, hvalue, _ => by
      rw [readOperand] at hread
      · cases hread
        exact ⟨_, .operand (by rw [hword]; rfl) hvalue rfl⟩
      all_goals simp

/-- A list is refused for one of its items. -/
theorem isRefusedAt_readItems {before : Position} {index : Nat} :
    ∀ {items : List Json} {e : QueryError},
      readItems resource (placeOf before) (wordCount before) index items = .error e →
      (∀ i item, items[i]? = some item →
        root.follow? (before ++ [.item (index + i)]) = some item ∧ item.HasUniqueKeys) →
      ∃ steps, IsRefusedAt resource root steps e
  | [], _, hread, _ => by cases hread
  | .object entries :: items, e, hread, hitems => by
      obtain ⟨hvalue, hunique⟩ := hitems 0 _ rfl
      rw [readItems, ← placeOf_snoc_item] at hread
      rcases Result.bind_eq_error.1 hread with hcheck | ⟨_, _, hread⟩
      · rw [← wordCount_snoc_item before index] at hcheck
        exact ⟨_, isRefusedAt_checkDepth hcheck hvalue⟩
      · rcases Result.bind_eq_error.1 hread with hentries | ⟨parts, _, hrest⟩
        · rw [← wordCount_snoc_item before index] at hentries
          exact isRefusedAt_readEntries hentries fun entry hentry =>
            follow?_entry hvalue hunique hentry
        · rcases Result.bind_eq_error.1 hrest with hlater | ⟨_, _, hpure⟩
          · refine isRefusedAt_readItems hlater fun i item hitem => ?_
            rw [Nat.add_right_comm, Nat.add_assoc]
            exact hitems (i + 1) item hitem
          · cases hpure
  | .null :: _, _, hread, hitems | .bool _ :: _, _, hread, hitems | .int _ :: _, _, hread, hitems
  | .double _ :: _, _, hread, hitems | .string _ :: _, _, hread, hitems
  | .array _ :: _, _, hread, hitems => by
      rw [readItems, ← placeOf_snoc_item] at hread
      · cases hread
        exact ⟨_, .item (hitems 0 _ rfl).1 (by simp)⟩
      all_goals simp
end

/-- An error names the place of what is refused. -/
theorem IsRefusedAt.readPlace_param (hplain : root.HasPlainKeys) {steps : Position} {e : QueryError}
    (hrefused : IsRefusedAt resource root steps e) : readPlace e.param = some steps := by
  have hread {value : Json} (hfollow : root.follow? steps = some value) :=
    readPlace_placeOf (isPlain_of_follow? hplain hfollow)
  cases hrefused with
  | leaf hfollow he => exact blames_readLeaf resource _ _ _ e he ▸ hread hfollow
  | object hfollow hdepth => exact hread hfollow
  | operand hword hfollow hvalue => exact hread hfollow
  | item hfollow hvalue => exact hread hfollow
  | document hvalue => exact hread (show root.follow? [] = some root from rfl)

/-! ### Documents -/

/-- A leaf that was read at a place names it. -/
theorem IsReadAt.isParsedFrom (hplain : root.HasPlainKeys) {steps : Position} {leaf : Filter}
    (hleaf : IsReadAt resource root steps leaf) :
    leaf.param? = some (placeOf steps) ∧ IsParsedFrom resource root steps leaf := by
  obtain ⟨before, key, value, rfl, hfollow, hread⟩ := hleaf
  have hparam := param?_of_readLeaf hread
  exact ⟨hparam, _, before, key, value, hparam,
    readPlace_placeOf (isPlain_of_follow? hplain hfollow), rfl, hfollow, hread⟩

/-- Leaves that were read at the places of the leaves of a document name its entries. -/
theorem nameEntries_of_isReadAt (hunique : root.HasUniqueKeys) (hplain : root.HasPlainKeys)
    {leaves : List Filter}
    (hleaves : List.Forall₂ (IsReadAt resource root) (leafPositions root) leaves) :
    NameEntries resource root leaves := by
  have hparsed := hleaves.imp fun _ _ hleaf => hleaf.isParsedFrom hplain
  have hread : ∀ steps ∈ leafPositions root, readPlace (placeOf steps) = some steps := by
    refine ((List.forall₂_and_left _ _).1 (hleaves.imp fun steps leaf hleaf => ⟨?_, hleaf⟩)).1
    obtain ⟨_, _, _, _, hfollow, _⟩ := hleaf
    exact readPlace_placeOf (isPlain_of_follow? hplain hfollow)
  have hparams : leaves.map Filter.param? = (leafPositions root).map fun steps =>
      some (placeOf steps) := by
    rw [eq_comm, ← List.forall₂_eq_eq_eq, List.forall₂_map_left_iff, List.forall₂_map_right_iff]
    exact hparsed.imp fun _ _ hleaf => hleaf.1.symm
  have hdistinct : (leaves.map Filter.param?).Nodup := by
    rw [hparams]
    refine (nodup_leafPositions hunique).map_on fun steps hsteps other hother heq => ?_
    have hsame := congrArg readPlace (Option.some_inj.1 heq)
    rwa [hread steps hsteps, hread other hother, Option.some_inj] at hsame
  have hparam : ∀ leaf ∈ leaves, leaf.param?.isSome := by
    refine ((List.forall₂_and_left _ _).1 (hparsed.flip.imp fun leaf steps hleaf => ⟨?_, hleaf⟩)).1
    rw [hleaf.1]
    rfl
  refine ⟨hparsed.imp fun _ _ hleaf => hleaf.2, hdistinct, fun leaf hleaf e hraised other hother => ?_⟩
  obtain ⟨param, hfound⟩ := Option.isSome_iff_exists.1 (hparam leaf hleaf)
  rw [hraised.param param hfound, ← hfound]
  exact ⟨fun heq => List.inj_on_of_nodup_map hdistinct hother hleaf heq, fun heq => heq ▸ rfl⟩

/-- A document makes the filter that its text is read as. -/
theorem read_of_addDocument {text : String} {b : FilterBuilder}
    (hadd : FilterBuilder.addDocument {} resource text = .ok b) :
    read resource text = .ok b.build := by
  obtain ⟨filter, hread, hpure⟩ := Result.bind_eq_ok.1 hadd
  cases hpure
  rw [hread]
  cases filter <;> rfl

theorem nameEntries_of_read (hunique : root.HasUniqueKeys) (hplain : root.HasPlainKeys)
    {text : String} (hroot : Json.read? text = some root) {filter : Option Filter}
    (hread : read resource text = .ok filter) :
    NameEntries resource root ((filter.map Filter.leaves).getD []) := by
  unfold read at hread
  rw [hroot] at hread
  split at hread
  · cases hread
  · rename_i entries heq
    cases heq
    obtain ⟨filters, hentries, hpure⟩ := Result.bind_eq_ok.1 hread
    cases hpure
    have hleaves : ((Filter.all filters).map Filter.leaves).getD [] =
        filters.flatMap Filter.leaves := by
      rw [← flatMap_leaves_join .and filters]
      show _ = (Filter.all filters).toList.flatMap Filter.leaves
      cases Filter.all filters <;> simp
    rw [hleaves]
    refine nameEntries_of_isReadAt hunique hplain ?_
    rw [leafPositions]
    have hentries : readEntries resource (placeOf []) 0 entries = .ok filters := hentries
    exact isReadAt_readEntries hentries fun entry hentry => follow?_entry rfl hunique hentry
  · cases hread

theorem exists_isRefusedAt_of_read (hunique : root.HasUniqueKeys) {text : String}
    (hroot : Json.read? text = some root) {e : QueryError}
    (hread : read resource text = .error e) : ∃ steps, IsRefusedAt resource root steps e := by
  unfold read at hread
  rw [hroot] at hread
  split at hread
  · rename_i heq
    cases heq
  · rename_i entries heq
    cases heq
    rcases Result.bind_eq_error.1 hread with hentries | ⟨_, _, hpure⟩
    · have hentries : readEntries resource (placeOf []) (wordCount []) entries = .error e := hentries
      exact isRefusedAt_readEntries hentries fun entry hentry => follow?_entry rfl hunique hentry
    · cases hpure
  · rename_i hother heq
    cases heq
    cases hread
    exact ⟨[], .document hother⟩

/-- In a document that is accepted, the leaves of its filter name their entries; one that is refused
for its shape is refused for what stands at the place that the error names. No key may have a dot or
a bracket. -/
theorem places_lead_to_entries {text : String} (hroot : Json.read? text = some root)
    (hplain : root.HasPlainKeys) :
    (∀ b, FilterBuilder.addDocument {} resource text = .ok b →
      NameEntries resource root ((b.build.map Filter.leaves).getD [])) ∧
    ∀ e, FilterBuilder.addDocument {} resource text = .error e →
      ∃ steps, readPlace e.param = some steps ∧ IsRefusedAt resource root steps e := by
  have hunique := Json.hasUniqueKeys_of_read hroot
  constructor
  · intro b hadd
    exact nameEntries_of_read hunique hplain hroot (read_of_addDocument hadd)
  · intro e hadd
    rcases Result.bind_eq_error.1 hadd with hread | ⟨_, _, hpure⟩
    · obtain ⟨steps, hrefused⟩ := exists_isRefusedAt_of_read hunique hroot hread
      exact ⟨steps, hrefused.readPlace_param hplain, hrefused⟩
    · cases hpure

end FilterDocument
namespace Shoes

open FilterDocument

/-- Size 40, or no boots: two objects in a list, the second one with a word of its own. -/
def alternatives : Json :=
  .object [("or", .array [.object [("size", .string "40")],
    .object [("not", .object [("name", .string "Boot")])]])]

def alternativesText : String :=
  "\x7b\"or\": [\x7b\"size\": \"40\"\x7d, \x7b\"not\": \x7b\"name\": \"Boot\"\x7d\x7d]\x7d"

/-- The second item of a list is no object. -/
def unfinished : Json :=
  .object [("or", .array [.object [("size", .string "40")], .string "Boot"])]

def unfinishedText : String :=
  "\x7b\"or\": [\x7b\"size\": \"40\"\x7d, \"Boot\"]\x7d"

/-- Both leaves of the one document have the places of their entries, and the other document is
refused for its second item. -/
theorem places_lead_to_entries_shoes :
    Json.read? alternativesText = some alternatives ∧ alternatives.HasPlainKeys ∧
    (∃ b, FilterBuilder.addDocument {} resource alternativesText = .ok b ∧
      ((b.build.map Filter.leaves).getD []).map Filter.param? =
        [some "search.or[0].size", some "search.or[1].not.name"] ∧
      NameEntries resource alternatives ((b.build.map Filter.leaves).getD [])) ∧
    Json.read? unfinishedText = some unfinished ∧ unfinished.HasPlainKeys ∧
    ∃ e, FilterBuilder.addDocument {} resource unfinishedText = .error e ∧
      e.param = "search.or[1]" ∧
      ∃ steps, readPlace e.param = some steps ∧ IsRefusedAt resource unfinished steps e := by
  have hread : Json.read? alternativesText = some alternatives := by cbv
  have hplain : alternatives.HasPlainKeys := by
    simp [Json.HasPlainKeys, alternatives, Json.Everywhere, Json.EverywhereInEntries,
      Json.EverywhereInItems]
  have hunfinished : Json.read? unfinishedText = some unfinished := by cbv
  have hplain' : unfinished.HasPlainKeys := by
    simp [Json.HasPlainKeys, unfinished, Json.Everywhere, Json.EverywhereInEntries,
      Json.EverywhereInItems]
  have hadd : FilterBuilder.addDocument {} resource alternativesText = .ok ⟨[], some (.node .or [
      .comparison ⟨"search.or[0].size", ⟨[], "size"⟩, .exact, none, .string "40"⟩,
      .node .not [.comparison ⟨"search.or[1].not.name", ⟨[], "name"⟩, .exact, none,
        .string "Boot"⟩]])⟩ := by cbv
  have hrefuse : FilterBuilder.addDocument {} resource unfinishedText =
      .error (.malformedFilter "search.or[1]" .itemNotObject) := by cbv
  exact ⟨hread, hplain, ⟨_, hadd, rfl, (places_lead_to_entries hread hplain).1 _ hadd⟩,
    hunfinished, hplain', _, hrefuse, rfl, (places_lead_to_entries hunfinished hplain').2 _ hrefuse⟩

end Shoes
end Listing
