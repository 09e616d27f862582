/-
# The labels of totals

A group is labelled by its path, a metric by its function and its path. Paths that were read are
told apart by their labels, as joining the pieces of a text gives the text back; and metrics are
told apart by theirs, as no name of a function has an underscore. What is added to totals a second
time is left out, so that the labels of groups differ, and so do those of metrics.

However they are written, totals are read by adding metrics, groups and limits. What each of these
steps keeps holds of all totals that are read; the stores rely on it without checking it again.

The label of a group may still be that of a metric: `count` and `sum_price` are names of attributes
as well.
-/
import Listing.Proofs.Refusal
import Listing.Request.Aggregate
import Mathlib.Data.List.Nodup
import Mathlib.Data.List.TakeWhile

namespace Listing

namespace Path

/-- Cutting leaves at least one piece. -/
theorem cut_ne_nil (cs : List Char) : cut cs ≠ [] := by
  fun_cases cut cs with
  | case1 | case2 => simp
  | case3 c cs =>
      cases hcut : cut cs <;> simp [Text.growFirst]

/-- Joining what was cut gives it back. -/
theorem intercalate_cut (cs : List Char) : separator.toList.intercalate (cut cs) = cs := by
  fun_induction cut cs with
  | case1 => rfl
  | case2 cs ih =>
      rw [List.intercalate_cons_of_ne_nil (cut_ne_nil cs), ih]
      rfl
  | case3 c cs _ ih =>
      cases hcut : cut cs with
      | nil => exact absurd hcut (cut_ne_nil cs)
      | cons piece pieces =>
          rw [hcut] at ih
          rw [Text.growFirst, List.intercalate_cons_cons_left, ih]

theorem joinText_splitText (s : String) : joinText (splitText s) = s := by
  rw [joinText, splitText, ← String.toList_inj, String.toList_intercalate, List.map_map]
  have hpieces : (String.toList ∘ String.ofList) = (id : List Char → List Char) := by
    funext cs
    simp
  rw [hpieces, List.map_id, intercalate_cut]

/-- The label of a path that was read is the text it was read from. -/
theorem label_of_read? {s : String} {p : Path} (hread : read? s = some p) : p.label = s := by
  rw [label, (segments_of_ofSegments? hread).1, joinText_splitText]

/-- A path that some text reads as. -/
def IsRead (p : Path) : Prop := ∃ s, read? s = some p

/-- Paths that were read are told apart by their labels. -/
theorem IsRead.eq_of_label {p q : Path} (hp : p.IsRead) (hq : q.IsRead)
    (hlabel : p.label = q.label) : p = q := by
  obtain ⟨s, hs⟩ := hp
  obtain ⟨s', hs'⟩ := hq
  rw [label_of_read? hs, label_of_read? hs'] at hlabel
  rw [hlabel, hs'] at hs
  exact (Option.some.inj hs).symm

end Path

theorem MetricFunction.underscore_notMem_name (f : MetricFunction) : '_' ∉ f.name.toList := by
  cases f <;> decide

/-- Functions are told apart by their names. -/
theorem MetricFunction.eq_of_name {f g : MetricFunction} (hname : f.name = g.name) : f = g := by
  cases f <;> cases g <;> first | rfl | exact absurd hname (by decide)

/-- The label of a metric up to the first underscore is the name of its function. -/
theorem Metric.takeWhile_label (m : Metric) :
    m.label.toList.takeWhile (· ≠ '_') = m.function.name.toList := by
  have hname : ∀ c ∈ m.function.name.toList, decide (c ≠ '_') = true := by
    intro c hc
    exact decide_eq_true fun heq => m.function.underscore_notMem_name (heq ▸ hc)
  unfold label
  split
  · exact List.takeWhile_eq_self_iff.2 hname
  · rw [String.toList_append, String.toList_append, List.append_assoc,
      List.takeWhile_append_of_pos hname]
    simp

/-- Metrics whose paths were read are told apart by their labels. -/
theorem Metric.eq_of_label {m m' : Metric} (hm : ∀ p ∈ m.path, p.IsRead)
    (hm' : ∀ p ∈ m'.path, p.IsRead) (hlabel : m.label = m'.label) : m = m' := by
  have hname : m.function.name = m'.function.name := by
    rw [← String.toList_inj, ← m.takeWhile_label, ← m'.takeWhile_label, hlabel]
  obtain ⟨f, path⟩ := m
  obtain ⟨g, path'⟩ := m'
  have hfunction : f = g := MetricFunction.eq_of_name hname
  subst hfunction
  have hlonger (p : Path) : f.name ≠ f.name ++ "_" ++ p.label := by
    intro heq
    have hlength := congrArg String.length heq
    rw [String.length_append, String.length_append] at hlength
    have hseparator : "_".length = 1 := rfl
    omega
  cases path with
  | none =>
      cases path' with
      | none => rfl
      | some p' => exact absurd hlabel (hlonger p')
  | some p =>
      cases path' with
      | none => exact absurd hlabel.symm (hlonger p)
      | some p' =>
          have hpath : p.label = p'.label := (String.append_right_inj _).1 hlabel
          rw [(hm p rfl).eq_of_label (hm' p' rfl) hpath]

namespace Aggregate

/-! ### What reading keeps -/

/-- What holds of totals without anything, and is kept when a metric, a group or a limit that was
read is added. -/
structure Invariant (p : Aggregate → Prop) : Prop where
  empty : p {}
  metric : ∀ {a : Aggregate} {function : String} {path : Option String} {m : Metric}, p a →
    readMetric function path = .ok m → p (a.addMetric m)
  group : ∀ {a : Aggregate} {text : String} {path : Path}, p a → readGroup text = .ok path →
    p (a.addGroup path)
  limit : ∀ {a : Aggregate} {value : Json} {n : Nat}, p a → readGroupLimit value = .ok n →
    p { a with groupLimit := some n }

namespace Invariant

variable {p : Aggregate → Prop} (hp : Invariant p) {a b : Aggregate}

include hp

theorem addToken (ha : p a) {token : String}
    (hadd : (do return a.addMetric (← readToken token) : Result Aggregate) = .ok b) : p b := by
  obtain ⟨m, hm, hpure⟩ := Result.bind_eq_ok.1 hadd
  cases hpure
  exact hp.metric ha hm

theorem addTokens (ha : p a) {tokens : List String} (hadd : a.addTokens tokens = .ok b) : p b :=
  Result.foldlM_invariant p (fun _ _ _ ha hstep => hp.addToken ha hstep) ha hadd

theorem addGroups (ha : p a) {names : List String} (hadd : a.addGroups names = .ok b) : p b := by
  refine Result.foldlM_invariant p (fun a name b ha hstep => ?_) ha hadd
  obtain ⟨path, hpath, hpure⟩ := Result.bind_eq_ok.1 hstep
  cases hpure
  exact hp.group ha hpath

theorem addMetrics (ha : p a) {function : String} {paths : List String}
    (hadd : a.addMetrics function paths = .ok b) : p b := by
  unfold Aggregate.addMetrics at hadd
  split at hadd
  · obtain ⟨m, hm, hpure⟩ := Result.bind_eq_ok.1 hadd
    cases hpure
    exact hp.metric ha hm
  · refine Result.foldlM_invariant p (fun a path b ha hstep => ?_) ha hadd
    obtain ⟨m, hm, hpure⟩ := Result.bind_eq_ok.1 hstep
    cases hpure
    exact hp.metric ha hm

theorem addEntries (ha : p a) {entries : List (String × Json)}
    (hadd : a.addEntries entries = .ok b) : p b := by
  refine Result.foldlM_invariant p (fun a entry b ha hstep => ?_) ha hadd
  unfold addEntry at hstep
  split at hstep
  · split at hstep
    · cases hstep
    · cases hstep
    · exact hp.addGroups ha hstep
  · split at hstep
    · obtain ⟨n, hn, hpure⟩ := Result.bind_eq_ok.1 hstep
      cases hpure
      exact hp.limit ha hn
    · obtain ⟨paths, _, hadd⟩ := Result.bind_eq_ok.1 hstep
      exact hp.addMetrics ha hadd

theorem addItem (ha : p a) {item : Json} (hadd : a.addItem item = .ok b) : p b := by
  unfold Aggregate.addItem at hadd
  split at hadd
  · exact hp.addToken ha hadd
  · exact hp.addEntries ha hadd
  · cases hadd

theorem addValue (ha : p a) {value : String} (hadd : a.addValue value = .ok b) : p b := by
  unfold Aggregate.addValue at hadd
  dsimp only at hadd
  split at hadd
  · split at hadd
    · cases hadd
    · exact hp.addEntries ha hadd
    · exact Result.foldlM_invariant p (fun _ _ _ ha hstep => hp.addItem ha hstep) ha hadd
    · cases hadd
  · exact hp.addTokens ha hadd

theorem withLimitParam (ha : p a) {groupLimit : Option String}
    (hadd : a.withLimitParam groupLimit = .ok b) : p b := by
  unfold Aggregate.withLimitParam at hadd
  split at hadd
  · cases hadd
    exact ha
  · obtain ⟨n, hn, hpure⟩ := Result.bind_eq_ok.1 hadd
    cases hpure
    exact hp.limit ha hn

/-- Whatever the parameters of a request are, it holds of what is read of them, before that is
checked as a whole. -/
theorem read {totals groupBy : List String} {groupLimit : Option String}
    (hread : Aggregate.read totals groupBy groupLimit = .ok a) : ∃ b, p b ∧ b.finish = .ok a := by
  obtain ⟨withTotals, htotals, hrest⟩ := Result.bind_eq_ok.1 hread
  obtain ⟨withGroups, hgroups, hrest⟩ := Result.bind_eq_ok.1 hrest
  obtain ⟨withLimit, hlimit, hfinish⟩ := Result.bind_eq_ok.1 hrest
  have htotals := Result.foldlM_invariant p (fun _ _ _ ha hstep => hp.addValue ha hstep) hp.empty
    htotals
  have hgroups := Result.foldlM_invariant p (fun _ _ _ ha hstep => hp.addGroups ha hstep) htotals
    hgroups
  exact ⟨withLimit, hp.withLimitParam hgroups hlimit, hfinish⟩

omit hp in
/-- Both of two invariants. -/
theorem and {q : Aggregate → Prop} (hp : Invariant p) (hq : Invariant q) :
    Invariant fun a => p a ∧ q a where
  empty := ⟨hp.empty, hq.empty⟩
  metric ha hm := ⟨hp.metric ha.1 hm, hq.metric ha.2 hm⟩
  group ha hpath := ⟨hp.group ha.1 hpath, hq.group ha.2 hpath⟩
  limit ha hn := ⟨hp.limit ha.1 hn, hq.limit ha.2 hn⟩

end Invariant

/-- Totals pass the last check if a limit has groups to limit. They stay as they are, except that
groups without a metric are counted. -/
theorem finish_eq_ok {a b : Aggregate} (hfinish : b.finish = .ok a) :
    (b.groupLimit.isSome → b.groupBy ≠ []) ∧ a.groupBy = b.groupBy ∧
      a.groupLimit = b.groupLimit ∧
        (a.metrics = b.metrics ∧ (b.groupBy ≠ [] → b.metrics ≠ []) ∨
          a.metrics = [⟨.count, none⟩]) := by
  unfold finish at hfinish
  split at hfinish
  · cases hfinish
  · rename_i hlimit
    have hlimit : b.groupLimit.isSome → b.groupBy ≠ [] := by
      intro hsome
      simpa [hsome] using hlimit
    split at hfinish
    · cases hfinish
      exact ⟨hlimit, rfl, rfl, .inr rfl⟩
    · rename_i hmetrics
      cases hfinish
      refine ⟨hlimit, rfl, rfl, .inl ⟨rfl, fun hgroups hnone => hmetrics ?_⟩⟩
      simpa [hnone] using hgroups

/-! ### Totals that were read -/

/-- Totals that were read: each group and each metric is asked for once, by paths that were read. -/
structure IsRead (a : Aggregate) : Prop where
  groupBy : a.groupBy.Nodup
  metrics : a.metrics.Nodup
  paths : ∀ p ∈ a.paths, p.IsRead

theorem nodup_addNew {α : Type} [DecidableEq α] {xs : List α} (hxs : xs.Nodup) (x : α) :
    (addNew xs x).Nodup := by
  unfold addNew
  split
  · exact hxs
  · rename_i hfresh
    rw [← List.concat_eq_append]
    exact hxs.concat hfresh

theorem mem_addNew {α : Type} [DecidableEq α] {xs : List α} {x y : α} :
    y ∈ addNew xs x ↔ y ∈ xs ∨ y = x := by
  unfold addNew
  split
  · rename_i hmem
    exact ⟨.inl, fun h => h.elim id fun heq => heq ▸ hmem⟩
  · simp

namespace IsRead

variable {a : Aggregate}

theorem addMetric (ha : a.IsRead) {m : Metric} (hm : ∀ p ∈ m.path, p.IsRead) :
    (a.addMetric m).IsRead where
  groupBy := ha.groupBy
  metrics := nodup_addNew ha.metrics m
  paths := by
    intro p hp
    rcases List.mem_append.1 hp with hgroup | hmetric
    · exact ha.paths p (List.mem_append_left _ hgroup)
    · obtain ⟨m', hm', hpath⟩ := List.mem_filterMap.1 hmetric
      rcases mem_addNew.1 hm' with hold | rfl
      · exact ha.paths p (List.mem_append_right _ (List.mem_filterMap.2 ⟨m', hold, hpath⟩))
      · exact hm p hpath

theorem addGroup (ha : a.IsRead) {path : Path} (hpath : path.IsRead) :
    (a.addGroup path).IsRead where
  groupBy := nodup_addNew ha.groupBy path
  metrics := ha.metrics
  paths := by
    intro p hp
    rcases List.mem_append.1 hp with hgroup | hmetric
    · rcases mem_addNew.1 hgroup with hold | rfl
      · exact ha.paths p (List.mem_append_left _ hold)
      · exact hpath
    · exact ha.paths p (List.mem_append_right _ hmetric)

end IsRead

theorem isRead_of_readMetric {function : String} {path : Option String} {m : Metric}
    (hread : readMetric function path = .ok m) : ∀ p ∈ m.path, p.IsRead := by
  unfold readMetric at hread
  split at hread
  · cases hread
  · split at hread
    · split at hread <;> cases hread
      intro p hp
      cases hp
    · split at hread
      · rename_i hpath
        cases hread
        intro p hp
        cases hp
        exact ⟨_, hpath⟩
      · cases hread

theorem isRead_of_readGroup {text : String} {path : Path} (hread : readGroup text = .ok path) :
    path.IsRead := by
  unfold readGroup at hread
  split at hread
  · rename_i hpath
    cases hread
    exact ⟨_, hpath⟩
  · cases hread

theorem invariant_isRead : Invariant IsRead where
  empty := ⟨List.nodup_nil, List.nodup_nil, fun _ hp => nomatch hp⟩
  metric ha hm := ha.addMetric (isRead_of_readMetric hm)
  group ha hpath := ha.addGroup (isRead_of_readGroup hpath)
  limit ha _ := ⟨ha.groupBy, ha.metrics, ha.paths⟩

variable {a : Aggregate}

/-- What is read of the parameters of a request asks for each group and each metric once. -/
theorem isRead_of_read {totals groupBy : List String} {groupLimit : Option String}
    (hread : read totals groupBy groupLimit = .ok a) : a.IsRead := by
  obtain ⟨b, hb, hfinish⟩ := invariant_isRead.read hread
  obtain ⟨-, hgroups, -, ⟨hmetrics, -⟩ | hcount⟩ := finish_eq_ok hfinish
  · refine ⟨hgroups ▸ hb.groupBy, hmetrics ▸ hb.metrics, fun p hp => hb.paths p ?_⟩
    rwa [paths, hgroups, hmetrics] at hp
  · refine ⟨hgroups ▸ hb.groupBy, hcount ▸ List.nodup_singleton _, fun p hp => ?_⟩
    rw [paths, hgroups, hcount] at hp
    exact hb.paths p (List.mem_append_left _ (by simpa using hp))

/-- Groups that were read have different labels. -/
theorem IsRead.nodup_groupLabels (ha : a.IsRead) : (a.groupBy.map Path.label).Nodup :=
  ha.groupBy.map_on fun p hp q hq hlabel =>
    (ha.paths p (List.mem_append_left _ hp)).eq_of_label
      (ha.paths q (List.mem_append_left _ hq)) hlabel

/-- Metrics that were read have different labels. -/
theorem IsRead.nodup_metricLabels (ha : a.IsRead) : (a.metrics.map Metric.label).Nodup := by
  have hpaths : ∀ m ∈ a.metrics, ∀ p ∈ m.path, p.IsRead := fun m hm p hp =>
    ha.paths p (List.mem_append_right _ (List.mem_filterMap.2 ⟨m, hm, hp⟩))
  exact ha.metrics.map_on fun m hm m' hm' hlabel =>
    Metric.eq_of_label (hpaths m hm) (hpaths m' hm') hlabel

/-! ### The form of totals -/

/-- What the stores rely on: no metric and no group is asked for twice or under the label of another
one, only rows are counted without a path, a limit is positive and has groups to limit, and where
there are groups there is something to compute of them. -/
structure IsWellFormed (a : Aggregate) : Prop where
  metrics : a.metrics.Nodup
  metricLabels : (a.metrics.map Metric.label).Nodup
  groups : a.groupBy.Nodup
  groupLabels : (a.groupBy.map Path.label).Nodup
  function : ∀ m ∈ a.metrics, m.path = none → m.function = .count
  limit : ∀ n ∈ a.groupLimit, 0 < n ∧ a.groupBy ≠ []
  computed : a.groupBy ≠ [] → a.metrics ≠ []

/-- Without a path, only a count is read. -/
theorem function_of_readMetric {function : String} {path : Option String} {m : Metric}
    (hread : readMetric function path = .ok m) (hpath : m.path = none) : m.function = .count := by
  unfold readMetric at hread
  split at hread
  · cases hread
  · split at hread
    · split at hread
      · rename_i hcount
        cases hread
        exact hcount
      · cases hread
    · split at hread
      · cases hread
        cases hpath
      · cases hread

theorem pos_of_readGroupLimit {value : Json} {n : Nat} (hread : readGroupLimit value = .ok n) :
    0 < n := by
  unfold readGroupLimit at hread
  dsimp only at hread
  split at hread
  · cases hread
    exact Nat.succ_pos _
  · cases hread

theorem invariant_function :
    Invariant fun a => ∀ m ∈ a.metrics, m.path = none → m.function = .count where
  empty := fun _ hm => nomatch hm
  metric ha hread m hm := by
    rcases mem_addNew.1 hm with hold | rfl
    · exact ha m hold
    · exact function_of_readMetric hread
  group ha _ := ha
  limit ha _ := ha

theorem invariant_limit : Invariant fun a => ∀ n ∈ a.groupLimit, 0 < n where
  empty := fun _ hn => nomatch hn
  metric ha _ := ha
  group ha _ := ha
  limit _ hread n hn := by
    cases hn
    exact pos_of_readGroupLimit hread

/-- Totals are well-formed whatever the parameters they are read of. -/
theorem isWellFormed_of_read {totals groupBy : List String} {groupLimit : Option String}
    (hread : read totals groupBy groupLimit = .ok a) : a.IsWellFormed := by
  have hisRead := isRead_of_read hread
  obtain ⟨b, ⟨hfunction, hpositive⟩, hfinish⟩ := (invariant_function.and invariant_limit).read hread
  obtain ⟨hlimit, hgroups, hsame, hmetrics⟩ := finish_eq_ok hfinish
  refine ⟨hisRead.metrics, hisRead.nodup_metricLabels, hisRead.groupBy, hisRead.nodup_groupLabels,
    ?_, fun n hn => ?_, ?_⟩
  · rcases hmetrics with ⟨heq, -⟩ | heq
    · exact heq ▸ hfunction
    · rw [heq]
      intro m hm _
      rw [List.mem_singleton.1 hm]
  · rw [hsame] at hn
    exact ⟨hpositive n hn, hgroups ▸ hlimit (Option.isSome_of_mem hn)⟩
  · rcases hmetrics with ⟨heq, hcomputed⟩ | heq
    · rw [hgroups, heq]
      exact hcomputed
    · rw [heq]
      exact fun _ => List.cons_ne_nil _ []

/-- The number of pieces and the sum of their prices, of the three first brands of each category. -/
def ofBrands : Aggregate where
  metrics := [⟨.count, none⟩, ⟨.sum, some ⟨[], "price"⟩⟩]
  groupBy := [⟨["category"], "name"⟩, ⟨[], "brand"⟩]
  groupLimit := some 3

/-- A token, and an object that asks for the same sum again. -/
def ofBrandsTexts : List String :=
  ["count, sum__price",
    "\x7b\"sum\":\"price\",\"group_by\":[\"category__name\",\"brand\"]\x7d"]

/-- The brand is also asked for twice, inside of the object and in a parameter of its own. -/
theorem isWellFormed_of_read_ofBrands :
    read ofBrandsTexts ["brand"] (some "3") = .ok ofBrands ∧ ofBrands.IsWellFormed := by
  have hread : read ofBrandsTexts ["brand"] (some "3") = .ok ofBrands :=
    Result.toOption_eq_some.1 (by decide +kernel)
  exact ⟨hread, isWellFormed_of_read hread⟩

end Aggregate
end Listing
