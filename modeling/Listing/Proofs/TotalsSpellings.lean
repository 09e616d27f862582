/-
# Spellings of totals

Totals can be asked for in several ways. A parameter holds tokens with commas between them, or a
JSON object from functions to attributes, or a JSON array of both; it may be repeated; and groups
and their limit stand in the object or in parameters of their own. Tokens are split, objects walked
and lists flattened by different functions. What they have in common is that a part of a request
adds its metrics, its groups and its limit to what was read before it, so that a request reads as
what all of its parts say, in the order of the parts.

So it does not matter in which way something is asked for: each metric and each group is taken once,
in the order in which it is first named, or the request is refused for its limit.
-/
import Listing.Proofs.AddressableNames
import Listing.Proofs.JsonTexts
import Listing.Proofs.RouteOrder
import Listing.Proofs.Spellings
import Listing.Proofs.TotalsLabels

namespace Listing

/-! ### What is named -/

namespace Text

/-- A text that can be one of several between commas. -/
structure IsItem (s : String) : Prop where
  nonempty : s ≠ ""
  comma : ',' ∉ s.toList
  trimmed : trim s = s

/-- Items are found again between commas. -/
theorem commaItems_intercalate {items : List String} (hitems : ∀ item ∈ items, IsItem item) :
    commaItems (",".intercalate items) = items := by
  by_cases hnone : items = []
  · subst hnone
    rfl
  · have hsplit := splitOnChar_intercalate hnone fun item hitem => (hitems item hitem).comma
    have htrim : items.map trim = items :=
      (List.map_congr_left fun item hitem => (hitems item hitem).trimmed).trans (List.map_id _)
    have hkept : items.filter (! ·.isEmpty) = items :=
      List.filter_eq_self.2 fun item hitem => by simpa using (hitems item hitem).nonempty
    rw [show "," = String.singleton ',' from rfl, commaItems, hsplit, htrim, hkept]

end Text

/-- A path whose label is an item: none of its segments is empty, and it holds no comma and no blank
around it. -/
structure Path.IsPlain (p : Path) : Prop where
  read : p.IsRead
  comma : ',' ∉ p.label.toList
  trimmed : Text.trim p.label = p.label

/-- The written form of a metric, in which a separator of paths stands after its function. -/
def Metric.token (m : Metric) : String :=
  match m.path with
  | none => m.function.name
  | some path => m.function.name ++ Path.separator ++ path.label

/-- A metric that can be written: one without a path is a count. -/
structure Metric.IsPlain (m : Metric) : Prop where
  function : m.path = none → m.function = .count
  path : ∀ p ∈ m.path, p.IsPlain

theorem MetricFunction.ofName?_name (f : MetricFunction) : ofName? f.name = some f := by
  cases f <;> decide

theorem MetricFunction.isItem_name (f : MetricFunction) : Text.IsItem f.name := by
  cases f <;> exact ⟨by decide, by decide, by decide⟩

theorem Path.splitText_name (f : MetricFunction) : splitText f.name = [f.name] := by
  cases f <;> decide

theorem Path.IsRead.read?_label {p : Path} (hp : p.IsRead) : read? p.label = some p := by
  obtain ⟨s, hs⟩ := hp
  rw [label_of_read? hs, hs]

theorem Path.IsPlain.isItem {p : Path} (hp : p.IsPlain) : Text.IsItem p.label where
  nonempty hempty := by
    have hread := hp.read.read?_label
    rw [hempty] at hread
    cases hread
  comma := hp.comma
  trimmed := hp.trimmed

namespace Metric

variable {m : Metric}

theorem IsPlain.isItem_token (hm : m.IsPlain) : Text.IsItem m.token := by
  have hname := m.function.isItem_name
  unfold token
  split
  · exact hname
  · rename_i path hpath
    have hlabel := (hm.path path hpath).isItem
    refine ⟨fun hempty => hname.nonempty ?_, ?_, ?_⟩
    · simp_all
    · have hseparator : ',' ∉ Path.separator.toList := by decide
      simp only [String.toList_append, List.mem_append, not_or]
      exact ⟨⟨hname.comma, hseparator⟩, hlabel.comma⟩
    · exact Text.trim_append (Text.trim_append hname.trimmed (by decide)) hlabel.trimmed

theorem isPlain_of_path (f : MetricFunction) {p : Path} (hp : p.IsPlain) :
    Metric.IsPlain ⟨f, some p⟩ where
  function := by rintro ⟨⟩
  path := by
    rintro q ⟨⟩
    exact hp

/-- The token of a metric begins with its function. -/
theorem head?_token (m : Metric) : m.token.toList.head? = m.function.name.toList.head? := by
  have hname : m.function.name.toList ≠ [] := by simpa using m.function.isItem_name.nonempty
  unfold token
  split
  · rfl
  · rw [String.toList_append, String.toList_append, List.append_assoc,
      List.head?_append_of_ne_nil _ hname]

end Metric

namespace Aggregate

/-- A function and a label are cut apart at the separator between them. -/
theorem splitOnce_token (m : Metric) :
    splitOnce m.token = (m.function.name, m.path.map Path.label) := by
  obtain ⟨f, path⟩ := m
  cases path with
  | none =>
      show splitOnce f.name = _
      rw [splitOnce, Path.splitText_name]
      rfl
  | some p =>
      show splitOnce (f.name ++ Path.separator ++ p.label) = _
      have hname : Path.cut f.name.toList = [f.name.toList] := by cases f <;> decide
      have hclosed : f.name.toList.getLast? ≠ some '_' := by cases f <;> decide
      have hsplit : Path.splitText (f.name ++ Path.separator ++ p.label) =
          f.name :: Path.splitText p.label := by
        rw [Path.splitText, String.toList_append, String.toList_append, List.append_assoc]
        show (Path.cut (f.name.toList ++ '_' :: '_' :: p.label.toList)).map _ = _
        rw [Path.cut_append hname hclosed, List.map_cons, String.ofList_toList]
        rfl
      have hrest : Path.splitText p.label ≠ [] := by
        simpa [Path.splitText] using Path.cut_ne_nil p.label.toList
      unfold splitOnce
      rw [hsplit]
      obtain ⟨first, rest, heq⟩ := List.exists_cons_of_ne_nil hrest
      rw [heq]
      show (f.name, some (Path.joinText (first :: rest))) = _
      rw [← heq, Path.joinText_splitText]
      rfl

theorem readMetric_eq_ok {m : Metric} (hm : m.IsPlain) :
    readMetric m.function.name (m.path.map Path.label) = .ok m := by
  unfold readMetric
  rw [MetricFunction.ofName?_name]
  obtain ⟨f, path⟩ := m
  cases path with
  | none =>
      have hcount : f = .count := hm.function rfl
      subst hcount
      rfl
  | some p =>
      dsimp only [Option.map_some]
      rw [(hm.path p rfl).read.read?_label]

/-- A token is read as the metric that it was written for. -/
theorem readToken_token {m : Metric} (hm : m.IsPlain) : readToken m.token = .ok m := by
  rw [readToken, splitOnce_token]
  exact readMetric_eq_ok hm

theorem readGroup_label {p : Path} (hp : p.IsPlain) : readGroup p.label = .ok p := by
  rw [readGroup, hp.read.read?_label]

/-! ### Parts of a request -/

/-- What two parts of a request ask for, one after the other. -/
def followedBy (a b : Aggregate) : Aggregate where
  metrics := a.metrics ++ b.metrics
  groupBy := a.groupBy ++ b.groupBy
  groupLimit := b.groupLimit.or a.groupLimit

/-- A number of groups that can be kept. -/
def isLimit (n : Nat) : Bool := 0 < n && Number.fitsUnsigned n

/-- Add what a part of a request asks for to what was read before it. -/
def extend (a part : Aggregate) : Result Aggregate :=
  if part.groupLimit.all isLimit then
    .ok {
      metrics := part.metrics.foldl addNew a.metrics
      groupBy := part.groupBy.foldl addNew a.groupBy
      groupLimit := part.groupLimit.or a.groupLimit }
  else .error (.malformedAggregate Param.groupLimit .groupLimit)

/-- A limit is given at most once by both parts. -/
def LimitOnce (a b : Aggregate) : Prop := a.groupLimit = none ∨ b.groupLimit = none

/-- Adding two parts is adding one after the other. -/
theorem extend_followedBy (a : Aggregate) {b c : Aggregate} (hlimit : LimitOnce b c) :
    a.extend (b.followedBy c) = a.extend b >>= (·.extend c) := by
  unfold extend followedBy
  rcases hlimit with hnone | hnone
  · simp only [hnone, List.foldl_append, Option.or_none, Option.none_or, Option.all_none, if_true]
    rfl
  · simp only [hnone, List.foldl_append, Option.none_or, Option.all_none, if_true]
    split <;> rfl

/-- Some things in turn, and what they ask for together. Of a limit there is at most one. -/
inductive InTurn {α : Type} (Spelled : Aggregate → α → Prop) : Aggregate → List α → Prop
  | nil : InTurn Spelled {} []
  | cons {a b : Aggregate} {x : α} {xs : List α} (first : Spelled a x)
      (rest : InTurn Spelled b xs) (limit : LimitOnce a b) :
      InTurn Spelled (a.followedBy b) (x :: xs)

/-- If each of some things adds what it asks for, so do all of them in turn. -/
theorem InTurn.foldlM_eq {α : Type} {Spelled : Aggregate → α → Prop} {part : Aggregate}
    {xs : List α} (hspelled : InTurn Spelled part xs) {step : Aggregate → α → Result Aggregate}
    (hstep : ∀ a part x, Spelled part x → step a x = a.extend part) (a : Aggregate) :
    xs.foldlM step a = a.extend part := by
  induction hspelled generalizing a with
  | nil => rfl
  | cons first rest limit ih =>
      rw [List.foldlM_cons, hstep a _ _ first, extend_followedBy a limit]
      exact congrArg (a.extend _ >>= ·) (funext ih)

/-! ### Spellings -/

/-- The ways to write a limit inside of an object. -/
inductive SpelledLimit (n : Nat) : Json → Prop
  | number : SpelledLimit n (.int n)
  | text : SpelledLimit n (.string (Number.integerText n))

/-- The labels of paths with commas between them. -/
def listed (paths : List Path) : String := ",".intercalate (paths.map Path.label)

/-- The ways to write paths inside of an object. A single path is a text without a comma. -/
inductive SpelledPaths (paths : List Path) : Json → Prop
  | text : SpelledPaths paths (.string (listed paths))
  | list : SpelledPaths paths (Json.strings (paths.map Path.label))

/-- The entries of an object. An object has one entry that counts rows, however often that is asked
for. -/
inductive SpelledEntry : Aggregate → String × Json → Prop
  | count (more : Nat) :
      SpelledEntry { metrics := List.replicate (more + 1) ⟨.count, none⟩ }
        (MetricFunction.count.name, .null)
  | metrics (f : MetricFunction) {paths : List Path} {value : Json} (nonempty : paths ≠ [])
      (plain : ∀ p ∈ paths, p.IsPlain) (spelled : SpelledPaths paths value) :
      SpelledEntry { metrics := paths.map fun p => ⟨f, some p⟩ } (f.name, value)
  | groups {paths : List Path} {value : Json} (nonempty : paths ≠ [])
      (plain : ∀ p ∈ paths, p.IsPlain) (spelled : SpelledPaths paths value) :
      SpelledEntry { groupBy := paths } (Param.groupBy, value)
  | limit {n : Nat} {value : Json} (spelled : SpelledLimit n value) :
      SpelledEntry { groupLimit := some n } (Param.groupLimit, value)

/-- The elements of an array. -/
inductive SpelledElement : Aggregate → Json → Prop
  | token {m : Metric} (plain : m.IsPlain) : SpelledElement { metrics := [m] } (.string m.token)
  | object {a : Aggregate} {entries : List (String × Json)}
      (spelled : InTurn SpelledEntry a entries) : SpelledElement a (.object entries)

/-- The values of the parameter for totals. -/
inductive SpelledValue : Aggregate → String → Prop
  | tokens {metrics : List Metric} (plain : ∀ m ∈ metrics, m.IsPlain) :
      SpelledValue { metrics } (",".intercalate (metrics.map Metric.token))
  | object {a : Aggregate} {entries : List (String × Json)} {text : String}
      (document : Json.read? (Text.trim text) = some (.object entries))
      (spelled : InTurn SpelledEntry a entries) : SpelledValue a text
  | array {a : Aggregate} {items : List Json} {text : String}
      (document : Json.read? (Text.trim text) = some (.array items))
      (spelled : InTurn SpelledElement a items) : SpelledValue a text

/-- The parameters of a request for totals. The one for totals may be repeated, and so may the one
for groups. What is asked for by the parameter for totals may include groups and their limit. -/
inductive Sent : Aggregate → List String → List String → Option String → Prop
  | mk {a : Aggregate} {totals : List String} (groups : List (List Path)) (limit : Option Nat)
      (spelled : InTurn SpelledValue a totals) (plain : ∀ paths ∈ groups, ∀ p ∈ paths, p.IsPlain)
      (once : a.groupLimit = none ∨ limit = none) :
      Sent (a.followedBy { groupBy := groups.flatten, groupLimit := limit }) totals
        (groups.map listed) (limit.map fun n : Nat => Number.integerText n)

/-! ### What is read of a spelling -/

section

variable (a : Aggregate)

/-- Metrics that are read one by one are added. -/
theorem foldlM_addMetric {α : Type} (metric : α → Metric) {read : α → Result Metric} {xs : List α}
    (hread : ∀ x ∈ xs, read x = .ok (metric x)) :
    xs.foldlM (fun (a : Aggregate) x => do return a.addMetric (← read x)) a =
      a.extend { metrics := xs.map metric } := by
  induction xs generalizing a with
  | nil => rfl
  | cons x xs ih =>
      obtain ⟨hx, hxs⟩ := List.forall_mem_cons.1 hread
      rw [List.foldlM_cons, hx]
      exact ih (a.addMetric (metric x)) hxs

theorem addTokens_token {metrics : List Metric} (hmetrics : ∀ m ∈ metrics, m.IsPlain) :
    a.addTokens (metrics.map Metric.token) = a.extend { metrics } := by
  rw [addTokens, List.foldlM_map]
  conv_rhs => rw [← List.map_id metrics]
  exact foldlM_addMetric a id fun m hm => readToken_token (hmetrics m hm)

theorem addMetrics_label (f : MetricFunction) {paths : List Path} (hnonempty : paths ≠ [])
    (hpaths : ∀ p ∈ paths, p.IsPlain) :
    a.addMetrics f.name (paths.map Path.label) =
      a.extend { metrics := paths.map fun p => ⟨f, some p⟩ } := by
  have hread : ∀ p ∈ paths, readMetric f.name (some p.label) = .ok ⟨f, some p⟩ :=
    fun p hp => readMetric_eq_ok (Metric.isPlain_of_path f (hpaths p hp))
  rw [addMetrics, if_neg (by simpa using hnonempty), List.foldlM_map]
  exact foldlM_addMetric a _ hread

theorem addGroups_label {paths : List Path} (hpaths : ∀ p ∈ paths, p.IsPlain) :
    a.addGroups (paths.map Path.label) = a.extend { groupBy := paths } := by
  rw [addGroups, List.foldlM_map]
  induction paths generalizing a with
  | nil => rfl
  | cons p paths ih =>
      obtain ⟨hp, hrest⟩ := List.forall_mem_cons.1 hpaths
      rw [List.foldlM_cons, readGroup_label hp]
      exact ih (a.addGroup p) hrest

theorem commaItems_listed {paths : List Path} (hpaths : ∀ p ∈ paths, p.IsPlain) :
    Text.commaItems (listed paths) = paths.map Path.label :=
  Text.commaItems_intercalate fun item hitem => by
    obtain ⟨p, hp, rfl⟩ := List.mem_map.1 hitem
    exact (hpaths p hp).isItem

theorem nameList?_eq {paths : List Path} (hpaths : ∀ p ∈ paths, p.IsPlain) {value : Json}
    (hspelled : SpelledPaths paths value) : nameList? value = some (paths.map Path.label) := by
  cases hspelled with
  | text => rw [nameList?, commaItems_listed hpaths]
  | list =>
      exact Json.mapM_asString?_eq_some.2 rfl

/-- The number that is written as a limit. -/
def limitNumber? : Json → Option Nat
  | .string s => Number.readUnsigned? (Text.trim s)
  | value => value.asUnsigned?

theorem readGroupLimit_eq (value : Json) : readGroupLimit value =
    match limitNumber? value with
    | some (n + 1) => .ok (n + 1)
    | _ => .error (.malformedAggregate Param.groupLimit .groupLimit) := rfl

theorem limitNumber?_eq {n : Nat} {value : Json} (hspelled : SpelledLimit n value) :
    limitNumber? value = if Number.fitsUnsigned n then some n else none := by
  cases hspelled with
  | number =>
      rw [limitNumber?, Json.asUnsigned?, Int.toNat_natCast]
      rintro s ⟨⟩
  | text => rw [limitNumber?, Number.trim_integerText, Number.readUnsigned?_integerText]

/-- A limit that is read is added, or the request is refused for it. -/
theorem setLimit_eq {n : Nat} {value : Json} (hspelled : SpelledLimit n value) :
    (do return { a with groupLimit := some (← readGroupLimit value) }) =
      a.extend { groupLimit := some n } := by
  rw [readGroupLimit_eq, limitNumber?_eq hspelled]
  unfold extend
  rw [Option.all_some, isLimit]
  generalize Number.fitsUnsigned n = fits
  cases fits <;> cases n <;> rfl

/-- Something is added once, however often it is asked for. -/
theorem foldl_addNew_replicate {α : Type} [DecidableEq α] (xs : List α) (x : α) (more : Nat) :
    (List.replicate (more + 1) x).foldl addNew xs = addNew xs x := by
  induction more with
  | zero => rfl
  | succ more ih =>
      rw [List.replicate_succ', List.foldl_append, ih]
      exact if_pos (mem_addNew.2 (.inr rfl))

theorem addEntry_eq {part : Aggregate} {entry : String × Json}
    (hspelled : SpelledEntry part entry) : a.addEntry entry.1 entry.2 = a.extend part := by
  cases hspelled with
  | count more =>
      rw [addEntry, if_neg (by decide), if_neg (by decide)]
      show Except.ok (a.addMetric ⟨.count, none⟩) = _
      unfold extend addMetric
      rw [foldl_addNew_replicate]
      rfl
  | @metrics f paths value nonempty plain spelled =>
      have hgroup : f.name ≠ Param.groupBy := by cases f <;> decide
      have hlimit : f.name ≠ Param.groupLimit := by cases f <;> decide
      have hpaths : functionPaths f.name value = .ok (paths.map Path.label) := by
        cases spelled <;> rw [functionPaths, nameList?_eq plain (by constructor)] <;> rintro ⟨⟩
      rw [addEntry, if_neg hgroup, if_neg hlimit]
      show (functionPaths f.name value >>= fun names => a.addMetrics f.name names) = _
      rw [hpaths]
      exact addMetrics_label a f nonempty plain
  | @groups paths value nonempty plain spelled =>
      obtain ⟨label, labels, hlabels⟩ :=
        List.exists_cons_of_ne_nil (by simpa using nonempty : paths.map Path.label ≠ [])
      rw [addEntry, if_pos rfl, nameList?_eq plain spelled, ← addGroups_label a plain, hlabels]
  | limit spelled =>
      have hgroup : Param.groupLimit ≠ Param.groupBy := by decide
      rw [addEntry, if_neg hgroup, if_pos rfl]
      exact setLimit_eq a spelled

theorem addEntries_eq {part : Aggregate} {entries : List (String × Json)}
    (hspelled : InTurn SpelledEntry part entries) : a.addEntries entries = a.extend part :=
  hspelled.foldlM_eq (fun a _ _ hentry => addEntry_eq a hentry) a

theorem addItem_eq {part : Aggregate} {item : Json} (hspelled : SpelledElement part item) :
    a.addItem item = a.extend part := by
  cases hspelled with
  | token plain =>
      rw [addItem, readToken_token plain]
      rfl
  | object spelled => exact addEntries_eq a spelled

end

/-- A text that is read as an object or an array is taken for one. -/
theorem looksLikeJson_of_read? {text : String} {value : Json}
    (hread : Json.read? (Text.trim text) = some value) (hvalue : value.isContainer = true) :
    looksLikeJson (Text.trim text) = true := by
  cases hs : (Text.trim text).toList with
  | nil =>
      rw [String.toList_eq_nil_iff.1 hs] at hread
      cases hread
  | cons c cs =>
      by_contra hlooks
      have hspace : Json.isSpace c = false := Json.isSpace_head_trim (by rw [hs]; rfl)
      have hbracket : c ≠ '{' ∧ c ≠ '[' := by
        simpa [looksLikeJson, hs] using hlooks
      rw [Json.isContainer_of_head hs hspace hbracket.1 hbracket.2 hread] at hvalue
      cases hvalue

/-- Tokens are not taken for JSON. -/
theorem looksLikeJson_tokens (metrics : List Metric) :
    looksLikeJson (",".intercalate (metrics.map Metric.token)) = false := by
  cases metrics with
  | nil => rfl
  | cons m metrics =>
      have hhead : (",".intercalate ((m :: metrics).map Metric.token)).toList.head? =
          m.function.name.toList.head? := by
        rw [← m.head?_token, List.map_cons]
        cases metrics with
        | nil => rw [List.map_nil, String.intercalate_singleton]
        | cons next metrics =>
            rw [List.map_cons, String.intercalate_cons_cons, String.toList_append,
              String.toList_append, List.append_assoc, List.head?_append_of_ne_nil]
            intro hempty
            have hhead := m.head?_token
            rw [hempty, eq_comm] at hhead
            exact m.function.isItem_name.nonempty (by simpa using hhead)
      rw [looksLikeJson, hhead]
      cases m.function <;> decide

theorem addValue_eq (a : Aggregate) {part : Aggregate} {value : String}
    (hspelled : SpelledValue part value) : a.addValue value = a.extend part := by
  unfold addValue
  dsimp only
  cases hspelled with
  | @tokens metrics plain =>
      have hitems : ∀ item ∈ metrics.map Metric.token, Text.IsItem item := fun item hitem => by
        obtain ⟨m, hm, rfl⟩ := List.mem_map.1 hitem
        exact (plain m hm).isItem_token
      rw [Text.trim_intercalate (by decide) fun item hitem => (hitems item hitem).trimmed,
        looksLikeJson_tokens, if_neg Bool.false_ne_true, Text.commaItems_intercalate hitems,
        addTokens_token a plain]
  | object document spelled =>
      rw [looksLikeJson_of_read? document rfl, if_pos rfl, document]
      exact addEntries_eq a spelled
  | array document spelled =>
      rw [looksLikeJson_of_read? document rfl, if_pos rfl, document]
      exact spelled.foldlM_eq (fun a _ _ hitem => addItem_eq a hitem) a

/-! ### What is read of a request -/

/-- What a request reads as that asks for some totals: all metrics and groups once, in the order in
which they are first asked for, and rows are counted where there are groups and nothing else to
compute of them. The request is refused if the limit is zero or too large for a limit, or if there
are no groups to limit. -/
def reading (asked : Aggregate) : Result Aggregate :=
  if ! asked.groupLimit.all isLimit then
    .error (.malformedAggregate Param.groupLimit .groupLimit)
  else if asked.groupLimit.isSome && asked.groupBy.isEmpty then
    .error (.malformedAggregate Param.groupLimit .limitWithoutGroups)
  else
    .ok {
      metrics :=
        if asked.metrics.isEmpty && !asked.groupBy.isEmpty then [⟨.count, none⟩]
        else asked.metrics.eraseDups
      groupBy := asked.groupBy.eraseDups
      groupLimit := asked.groupLimit }

theorem foldl_addNew {α : Type} [DecidableEq α] (xs : List α) :
    xs.foldl addNew [] = xs.eraseDups := by
  induction xs using List.reverseRecOn with
  | nil => rfl
  | append_singleton xs x ih =>
      rw [List.foldl_append, ih, eraseDups_append_singleton]
      simp only [List.foldl_cons, List.foldl_nil, addNew, List.mem_eraseDups]

theorem isEmpty_eraseDups {α : Type} [BEq α] [LawfulBEq α] (xs : List α) :
    xs.eraseDups.isEmpty = xs.isEmpty := by
  cases xs <;> simp [List.eraseDups_cons]

/-- All parts of a request together are what it reads as, once they are checked. -/
theorem finish_extend (asked : Aggregate) : extend {} asked >>= finish = asked.reading := by
  unfold extend reading
  cases asked.groupLimit.all isLimit with
  | false => rfl
  | true =>
      simp only [foldl_addNew, Option.or_none]
      show finish _ = _
      unfold finish
      simp only [isEmpty_eraseDups]
      split
      · rfl
      · split <;> rfl

/-- The parameter for groups adds the groups of all its values. -/
theorem foldlM_listed (a : Aggregate) {groups : List (List Path)}
    (hgroups : ∀ paths ∈ groups, ∀ p ∈ paths, p.IsPlain) :
    (groups.map listed).foldlM (fun a value => a.addGroups (Text.commaItems value)) a =
      a.extend { groupBy := groups.flatten } := by
  induction groups generalizing a with
  | nil => rfl
  | cons paths groups ih =>
      obtain ⟨hpaths, hrest⟩ := List.forall_mem_cons.1 hgroups
      show _ = a.extend (followedBy { groupBy := paths } { groupBy := groups.flatten })
      rw [extend_followedBy a (.inl rfl), List.map_cons, List.foldlM_cons, commaItems_listed hpaths,
        addGroups_label a hpaths]
      exact congrArg (_ >>= ·) (funext fun b => ih b hrest)

theorem withLimitParam_eq (a : Aggregate) (limit : Option Nat) :
    a.withLimitParam (limit.map fun n : Nat => Number.integerText n) =
      a.extend { groupLimit := limit } := by
  cases limit with
  | none => rfl
  | some n => exact setLimit_eq a .text

/-- A request for totals is read as what it asks for, in whichever way that is written. -/
theorem read_of_sent {asked : Aggregate} {totals groupBy : List String}
    {groupLimit : Option String} (hsent : Sent asked totals groupBy groupLimit) :
    read totals groupBy groupLimit = asked.reading := by
  cases hsent with
  | @mk a totals groups limit spelled plain once =>
      have htotals : totals.foldlM addValue {} = extend {} a :=
        spelled.foldlM_eq (fun a _ _ hvalue => addValue_eq a hvalue) {}
      have honce : LimitOnce a { groupBy := groups.flatten, groupLimit := limit } := once
      rw [← finish_extend, extend_followedBy {} honce, bind_assoc, read, htotals]
      refine congrArg (extend {} a >>= ·) (funext fun b => ?_)
      rw [foldlM_listed b plain]
      show withLimitParam _ _ >>= finish = _
      rw [withLimitParam_eq]
      rfl

namespace Extremes

def price : Path := ⟨[], "price"⟩

def weight : Path := ⟨[], "weight"⟩

/-- The category and the brand. -/
def groups : List Path := [⟨["category"], "name"⟩, ⟨[], "brand"⟩]

/-- The number of pieces, the highest price and the highest weight, of the three first brands of
each category. -/
def asked : Aggregate where
  metrics := [⟨.count, none⟩, ⟨.max, some price⟩, ⟨.max, some weight⟩]
  groupBy := groups
  groupLimit := some 3

/-- An object with everything. -/
def object : String :=
  "\x7b\"count\":null,\"max\":[\"price\",\"weight\"]," ++
    "\"group_by\":\"category__name,brand\",\"group_limit\":\"3\"\x7d"

/-- An array of a token and an object. -/
def array : String := "[\"count\",\x7b\"max\":\"price,weight\"\x7d]"

theorem isPlain_price : price.IsPlain := ⟨⟨"price", rfl⟩, by decide, by decide⟩

theorem isPlain_weight : weight.IsPlain := ⟨⟨"weight", rfl⟩, by decide, by decide⟩

theorem isPlain_groups : ∀ p ∈ groups, p.IsPlain := by
  intro p hp
  simp only [groups, List.mem_cons, List.not_mem_nil, or_false] at hp
  rcases hp with rfl | rfl
  · exact ⟨⟨"category__name", rfl⟩, by decide, by decide⟩
  · exact ⟨⟨"brand", rfl⟩, by decide, by decide⟩

theorem isPlain_metrics : ∀ m ∈ asked.metrics, m.IsPlain := by
  intro m hm
  simp only [asked, List.mem_cons, List.not_mem_nil, or_false] at hm
  rcases hm with rfl | rfl | rfl
  · exact ⟨fun _ => rfl, by rintro p ⟨⟩⟩
  · exact Metric.isPlain_of_path .max isPlain_price
  · exact Metric.isPlain_of_path .max isPlain_weight

/-- The paths of the attributes, as one function is asked of both. -/
theorem isPlain_attributes : ∀ p ∈ [price, weight], p.IsPlain := by
  intro p hp
  simp only [List.mem_cons, List.not_mem_nil, or_false] at hp
  rcases hp with rfl | rfl
  · exact isPlain_price
  · exact isPlain_weight

theorem sent_tokens :
    Sent asked ["count,max__price,max__weight"] ["category__name,brand"] (some "3") :=
  .mk [groups] (some 3) (.cons (.tokens isPlain_metrics) .nil (.inl rfl))
    (by simpa using isPlain_groups) (.inl rfl)

theorem sent_several :
    Sent asked ["count", "max__price,max__weight"] ["category__name,brand"] (some "3") := by
  obtain ⟨hcount, hmax⟩ := List.forall_mem_cons.1 isPlain_metrics
  have hfirst : SpelledValue { metrics := [⟨.count, none⟩] } "count" :=
    .tokens (by simpa using hcount)
  have hsecond : SpelledValue { metrics := [⟨.max, some price⟩, ⟨.max, some weight⟩] }
      "max__price,max__weight" := .tokens hmax
  exact .mk [groups] (some 3) (.cons hfirst (.cons hsecond .nil (.inl rfl)) (.inl rfl))
    (by simpa using isPlain_groups) (.inl rfl)

theorem sent_object : Sent asked [object] [] none := by
  have hcount : SpelledEntry { metrics := [⟨.count, none⟩] } ("count", .null) := .count 0
  have hmax : SpelledEntry { metrics := [⟨.max, some price⟩, ⟨.max, some weight⟩] }
      ("max", Json.strings ["price", "weight"]) :=
    .metrics .max (by decide) isPlain_attributes .list
  have hgroups : SpelledEntry { groupBy := groups }
      (Param.groupBy, .string "category__name,brand") := .groups (by decide) isPlain_groups .text
  have hlimit : SpelledEntry { groupLimit := some 3 } (Param.groupLimit, .string "3") :=
    .limit .text
  have hentries := InTurn.cons hcount (.cons hmax (.cons hgroups (.cons hlimit .nil (.inr rfl))
    (.inl rfl)) (.inl rfl)) (.inl rfl)
  have hdocument : Json.read? (Text.trim object) = some (.object [("count", .null),
      ("max", Json.strings ["price", "weight"]), (Param.groupBy, .string "category__name,brand"),
      (Param.groupLimit, .string "3")]) := by rfl
  exact .mk [] none (.cons (.object hdocument hentries) .nil (.inr rfl)) (by simp) (.inr rfl)

theorem sent_array : Sent asked [array] ["category__name", "brand"] (some "3") := by
  have hmax : SpelledEntry { metrics := [⟨.max, some price⟩, ⟨.max, some weight⟩] }
      ("max", .string "price,weight") := .metrics .max (by decide) isPlain_attributes .text
  have hcount : SpelledElement { metrics := [⟨.count, none⟩] } (.string "count") :=
    .token (isPlain_metrics _ (by decide))
  have hitems := InTurn.cons hcount (.cons (.object (.cons hmax .nil (.inl rfl))) .nil (.inl rfl))
    (.inl rfl)
  have hdocument : Json.read? (Text.trim array) =
      some (.array [.string "count", .object [("max", .string "price,weight")]]) := by rfl
  exact .mk [[⟨["category"], "name"⟩], [⟨[], "brand"⟩]] (some 3)
    (.cons (.array hdocument hitems) .nil (.inl rfl)) (by simpa [groups] using isPlain_groups)
    (.inl rfl)

/-- The same totals in four forms. -/
theorem read_of_sent_forms :
    read ["count,max__price,max__weight"] ["category__name,brand"] (some "3") = .ok asked ∧
      read [object] [] none = .ok asked ∧
      read [array] ["category__name", "brand"] (some "3") = .ok asked ∧
      read ["count", "max__price,max__weight"] ["category__name,brand"] (some "3") =
        .ok asked := by
  have hreading : asked.reading = .ok asked := by rfl
  exact ⟨(read_of_sent sent_tokens).trans hreading, (read_of_sent sent_object).trans hreading,
    (read_of_sent sent_array).trans hreading, (read_of_sent sent_several).trans hreading⟩

end Extremes

end Aggregate
end Listing
