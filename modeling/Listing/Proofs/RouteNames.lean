/-
# Routes are told apart by their aliases

The alias of a route is the names of its relations, joined, after a stem. Relations may have names
with underscores at either end, so names that are joined may be cut elsewhere: `a_` before `b` is
written like `a` before `_b`. But the names that a request walks were themselves cut from a text.
What precedes a separator there does not end in an underscore, as a text is cut at the first two of
several. So the first pieces of a text, joined, are cut into these pieces again, and the aliases of
two routes that a request walks differ.
-/
import Listing.Proofs.RouteOrder
import Listing.Proofs.Support.Basic
import Listing.Proofs.TotalsLabels
import Listing.Sql.Totals

namespace Listing

namespace Path

/-- Pieces are joined in two parts with what stands between pieces. -/
theorem intercalate_append {α : Type} {sep : List α} {first rest : List (List α)}
    (hfirst : first ≠ []) (hrest : rest ≠ []) :
    sep.intercalate (first ++ rest) = sep.intercalate first ++ sep ++ sep.intercalate rest := by
  induction first with
  | nil => exact absurd rfl hfirst
  | cons piece pieces ih =>
      rw [List.cons_append, List.intercalate_cons_of_ne_nil (by simp [hrest])]
      cases pieces with
      | nil => rw [List.nil_append, List.intercalate_singleton]
      | cons next pieces =>
          rw [ih (List.cons_ne_nil next pieces), List.intercalate_cons_cons]
          simp only [List.append_assoc]

/-- Joined, the first pieces begin what all pieces make. -/
theorem intercalate_begins {α : Type} {sep : List α} {first : List (List α)}
    (hnonempty : first ≠ []) (rest : List (List α)) :
    sep.intercalate first <+: sep.intercalate (first ++ rest) := by
  cases rest with
  | nil => simp
  | cons next rest =>
      rw [intercalate_append hnonempty (List.cons_ne_nil next rest), List.append_assoc]
      exact List.prefix_append _ _

/-- The first pieces of a text, joined, are cut into these pieces. -/
theorem cut_intercalate {cs : List Char} {first rest : List (List Char)}
    (hcut : cut cs = first ++ rest) (hnonempty : first ≠ []) :
    cut (separator.toList.intercalate first) = first := by
  obtain ⟨piece, pieces, rfl⟩ := List.exists_cons_of_ne_nil hnonempty
  clear hnonempty
  fun_induction cut cs generalizing piece pieces with
  | case1 =>
      rw [List.cons_append, List.cons.injEq] at hcut
      obtain ⟨rfl, hpieces⟩ := hcut
      obtain rfl := (List.append_eq_nil_iff.1 hpieces.symm).1
      rfl
  | case2 cs ih =>
      rw [List.cons_append, List.cons.injEq] at hcut
      obtain ⟨rfl, hpieces⟩ := hcut
      cases pieces with
      | nil => rfl
      | cons next pieces =>
          rw [List.intercalate_cons_cons]
          exact congrArg ([] :: ·) (ih next pieces hpieces)
  | case3 c cs hsingle ih =>
      obtain ⟨start, more, hmore⟩ := List.exists_cons_of_ne_nil (cut_ne_nil cs)
      rw [hmore, Text.growFirst, List.cons_append, List.cons.injEq] at hcut
      obtain ⟨rfl, rfl⟩ := hcut
      have hjoined := ih start pieces hmore
      -- The joined pieces begin the text, so no separator stands at their start.
      have hbegins : separator.toList.intercalate (start :: pieces) <+: cs := by
        rw [← intercalate_cut cs, hmore, ← List.cons_append]
        exact intercalate_begins (List.cons_ne_nil start pieces) rest
      rw [List.intercalate_cons_cons_left, cut, hjoined, Text.growFirst]
      intro cs' hunderscore heq
      rw [heq] at hbegins
      obtain ⟨cs'', rfl⟩ := hbegins
      exact hsingle _ hunderscore rfl

/-- The first pieces of a text, joined, are split into these pieces. -/
theorem splitText_joinText {s : String} {first rest : List String}
    (hsplit : splitText s = first ++ rest) (hnonempty : first ≠ []) :
    splitText (joinText first) = first := by
  have hcut : cut s.toList = first.map String.toList ++ rest.map String.toList := by
    rw [← List.map_append, ← hsplit, splitText, List.map_map]
    simp [Function.comp_def]
  have hagain := cut_intercalate hcut (by simpa using hnonempty)
  rw [splitText, joinText, String.toList_intercalate, hagain, List.map_map]
  simp [Function.comp_def]

/-- The segments of a path begin what some text was split into. -/
def IsWritten (p : Path) : Prop := ∃ s rest, splitText s = p.segments ++ rest

theorem IsRead.isWritten {p : Path} (hp : p.IsRead) : p.IsWritten := by
  obtain ⟨s, hs⟩ := hp
  exact ⟨s, [], by rw [(segments_of_ofSegments? hs).1, List.append_nil]⟩

/-- The first relations of a written path, joined, are split into these relations. -/
theorem IsWritten.splitText_joinText {p : Path} (hp : p.IsWritten) {names : List String}
    (hnames : names <+: p.relations) (hnonempty : names ≠ []) :
    splitText (joinText names) = names := by
  obtain ⟨s, rest, hs⟩ := hp
  obtain ⟨more, hmore⟩ := hnames
  rw [segments, ← hmore, List.append_assoc, List.append_assoc] at hs
  exact Path.splitText_joinText hs hnonempty

end Path

namespace Key

theorem isWritten_of_readPath {key : String} {segments rest : List String} {path : Path}
    (hsplit : Path.splitText key = segments ++ rest) (hread : readPath segments = .ok path) :
    path.IsWritten := by
  unfold readPath at hread
  split at hread
  · rename_i hpath
    cases hread
    exact ⟨key, rest, by rw [(Path.segments_of_ofSegments? hpath).1, hsplit]⟩
  · cases hread

/-- What stands before a chain of functions begins the segments. -/
theorem eq_of_splitChain {segments before chain : List String} {mark : String}
    (hsplit : splitChain segments = some (before, mark, chain)) :
    segments = before ++ mark :: chain := by
  induction segments generalizing before with
  | nil => cases hsplit
  | cons segment segments ih =>
      rw [splitChain] at hsplit
      split at hsplit
      · cases hsplit
        rfl
      · obtain ⟨⟨before', mark', chain'⟩, hrest, heq⟩ := Option.map_eq_some_iff.1 hsplit
        cases heq
        rw [ih hrest, List.cons_append]

/-- A key with a chain has the path before the chain. -/
theorem readPath_of_readFunction {segments chain : List String} {mark : String} {path : Path}
    {operator : Operator} {function : Option FunctionChain}
    (hread : readFunction segments mark chain = .ok (.comparison path operator function)) :
    readPath segments = .ok path := by
  obtain ⟨path', hpath, hrest⟩ := Result.bind_eq_ok.1 hread
  dsimp only at hrest
  generalize (if mark = Operator.predicate.name then Operator.predicate else .function) = o at hrest
  by_cases hnames : (readChain chain).names.isEmpty || (readChain chain).names.any String.isEmpty
  · simp [hnames] at hrest
  · by_cases hpredicate : o = .predicate && (readChain chain).compare.isSome
    · simp [hnames, hpredicate] at hrest
    · simp only [hnames, hpredicate] at hrest
      cases hrest
      exact hpath

/-- The path of a key begins the key. -/
theorem isWritten_of_read {key : String} {path : Path} {operator : Operator}
    {function : Option FunctionChain}
    (hread : read key = .ok (.comparison path operator function)) : path.IsWritten := by
  unfold read at hread
  cases hsegments : Path.splitText key with
  | nil => simp [hsegments, ofSegments] at hread
  | cons first rest =>
      rw [hsegments, ofSegments] at hread
      split at hread
      · obtain ⟨textKey, _, hkey⟩ := Result.bind_eq_ok.1 hread
        cases hkey
      · split at hread
        · rename_i before mark chain hchain
          rw [eq_of_splitChain hchain, ← List.cons_append] at hsegments
          exact isWritten_of_readPath hsegments (readPath_of_readFunction hread)
        · unfold readPlain at hread
          split at hread
          · rename_i s segments op hdrop hlast
            obtain ⟨path', hpath, hkey⟩ := Result.bind_eq_ok.1 hread
            cases hkey
            rw [← hdrop] at hpath
            have hends := List.dropLast_concat_getLast (List.cons_ne_nil first rest)
            exact isWritten_of_readPath (hsegments.trans hends.symm) hpath
          · obtain ⟨path', hpath, hkey⟩ := Result.bind_eq_ok.1 hread
            cases hkey
            exact isWritten_of_readPath (by rw [hsegments, List.append_nil]) hpath

end Key

/-- The paths of an order were read. -/
theorem Order.isRead_of_read {values : List String} {order : Order}
    (hread : Order.read values = .ok order) : ∀ item ∈ order, item.path.IsRead := by
  obtain ⟨orders, horders, hflat⟩ := Result.bind_eq_ok.1 hread
  cases hflat
  intro item hitem
  obtain ⟨items, hitems, hmem⟩ := List.mem_flatten.1 hitem
  obtain ⟨value, _, hvalue⟩ := Result.mem_of_mapM_eq_ok horders hitems
  obtain ⟨names, _, hnames⟩ := Result.bind_eq_ok.1 hvalue
  obtain ⟨name, _, hname⟩ := Result.mem_of_mapM_eq_ok hnames hmem
  unfold readItem at hname
  dsimp only at hname
  split at hname
  · cases hname
  · split at hname
    · rename_i hpath
      cases hname
      exact ⟨_, hpath⟩
    · cases hname

/-- A request that was read asks for each group and each metric once. -/
theorem Request.aggregate_ofParams {params : Params} {resource : Resource} {options : Options}
    {request : Request} (hread : Request.ofParams params resource options = .ok request) :
    request.aggregate.IsRead := by
  obtain ⟨_, _, hread⟩ := Request.ofParams_eq_ok_iff.1 hread
  exact Aggregate.isRead_of_read hread.aggregate

/-- The paths of a request that was read are written. -/
theorem Request.isWritten_ofParams {params : Params} {resource : Resource} {options : Options}
    {request : Request} (hread : Request.ofParams params resource options = .ok request) :
    ∀ path ∈ request.paths, path.IsWritten := by
  have hfilter := Request.built_fromKeys hread
  have htotals := (Request.aggregate_ofParams hread).paths
  obtain ⟨_, _, hread⟩ := Request.ofParams_eq_ok_iff.1 hread
  intro path hpath
  rcases (Request.mem_paths _).1 hpath with ⟨c, hc, rfl⟩ | ⟨item, hitem, rfl⟩ | htotal
  · obtain ⟨f, hf, hmem⟩ := (Request.mem_comparisons _).1 hc
    obtain ⟨key, hkey⟩ := (hfilter f hf).of_mem_leaves _ (Filter.mem_comparisons.1 hmem)
    exact Key.isWritten_of_read hkey
  · exact (Order.isRead_of_read hread.order item hitem).isWritten
  · exact (htotals path htotal).isWritten

namespace Registry

variable {registry : Registry} {start : Resource} {paths : List Path}

/-- A walk goes through the first of its names. -/
theorem names_walk (registry : Registry) (start : Resource) (names : List String) :
    Route.names (registry.walk start names).1 <+: names := by
  induction names generalizing start with
  | nil => exact List.nil_prefix
  | cons name names ih =>
      rw [walk]
      cases hhop : registry.hop? start name with
      | none => exact List.nil_prefix
      | some hop =>
          show hop.relation.name :: Route.names (registry.walk hop.target names).1 <+: name :: names
          rw [hop_name hhop]
          exact List.cons_prefix_cons.2 ⟨rfl, ih hop.target⟩

/-- The names of a route that written paths use can be read off its alias. -/
theorem splitText_of_mem_routesUsed (hpaths : ∀ path ∈ paths, path.IsWritten) {route : Route}
    (hroute : route ∈ registry.routesUsed start paths) :
    Path.splitText (Path.joinText route.names) = route.names := by
  obtain ⟨hnonempty, path, hpath, hbegins⟩ := mem_routesUsed.1 hroute
  refine (hpaths path hpath).splitText_joinText ?_ (by simpa [Route.names] using hnonempty)
  exact (hbegins.map _).trans (names_walk registry start path.relations)

/-- Routes that written paths use are told apart by their aliases. -/
theorem eq_of_aliasName (hpaths : ∀ path ∈ paths, path.IsWritten) {stem : String}
    {route other : Route} (hroute : route ∈ registry.routesUsed start paths)
    (hother : other ∈ registry.routesUsed start paths)
    (halias : route.aliasName stem = other.aliasName stem) : route = other := by
  have hjoined : Path.joinText route.names = Path.joinText other.names :=
    (String.append_right_inj _).1 halias
  have hnames : route.names = other.names := by
    rw [← splitText_of_mem_routesUsed hpaths hroute, hjoined,
      splitText_of_mem_routesUsed hpaths hother]
  obtain ⟨_, _, _, hbegins⟩ := mem_routesUsed.1 hroute
  obtain ⟨_, _, _, hbegins'⟩ := mem_routesUsed.1 hother
  exact (isWalk_of_begins hbegins').eq_of_names (isWalk_of_begins hbegins) hnames

/-- The routes that written paths use have different aliases. -/
theorem nodup_aliasNames (hpaths : ∀ path ∈ paths, path.IsWritten) (stem : String) :
    ((registry.routesUsed start paths).map (·.aliasName stem)).Nodup :=
  (nodup_eraseDups _).map_on fun _ hroute _ hother => eq_of_aliasName hpaths hroute hother

end Registry

/-- No alias has two stems. -/
theorem Route.aliasName_ne {route other : Route} :
    route.aliasName Joins.defaultStem ≠ other.aliasName Sql.totalsStem := by
  intro halias
  have hfirst := congrArg (fun s : String => s.toList.head?) halias
  simp [aliasName, Joins.defaultStem, Sql.totalsStem] at hfirst

end Listing
