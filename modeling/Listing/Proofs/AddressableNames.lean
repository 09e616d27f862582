/-
# Attributes that a key can address

The key of a simple parameter is the relations on the way to an attribute, the attribute and an
operator, joined. It is cut at the first two of several underscores, from the left; the first
segment may say that the key is a full-text search, and a later one that a chain of functions
begins. So a key is read as it was meant unless a name on the path ends in an underscore, the first
one is that of full-text search, or a later one begins a chain.

The check of a resource rules out empty names, names with a separator inside and repeated names. It
leaves names of all three kinds, which no operator can be put after.
-/
import Listing.Compiled
import Listing.Proofs.RouteNames
import Listing.Proofs.Validity

namespace Listing

theorem Operator.isSegment_name (op : Operator) : Resource.isSegment op.name = true := by
  cases op <;> decide

namespace Path

/-- The key that compares the attribute at the end of a path by an operator. -/
def keyFor (p : Path) (op : Operator) : String := joinText (p.segments ++ [op.name])

/-- The names on a path stay what they are in a key: the first is not that of full-text search, no
later one begins a chain of functions, and none ends in an underscore. -/
structure IsAddressable (p : Path) : Prop where
  notText : p.segments.head? ≠ some Key.textQuery
  noChain : ∀ s ∈ p.segments.tail, Key.beginsChain s = false
  closed : ∀ s ∈ p.segments, s.toList.getLast? ≠ some '_'

/-- A piece that is in one piece and does not end in an underscore is cut off where it ends. -/
theorem cut_append {piece : List Char} (hpiece : cut piece = [piece])
    (hclosed : piece.getLast? ≠ some '_') (rest : List Char) :
    cut (piece ++ '_' :: '_' :: rest) = piece :: cut rest := by
  fun_induction cut piece with
  | case1 => rfl
  | case2 cs => simp at hpiece
  | case3 c cs hsingle ih =>
      obtain ⟨start, more, hmore⟩ := List.exists_cons_of_ne_nil (cut_ne_nil cs)
      rw [hmore, Text.growFirst, List.cons.injEq, List.cons.injEq] at hpiece
      obtain ⟨⟨-, rfl⟩, rfl⟩ := hpiece
      have hrest := ih hmore fun hlast => hclosed <| by
        cases start with
        | nil => cases hlast
        | cons d ds => rwa [List.getLast?_cons_cons]
      rw [List.cons_append, cut, hrest, Text.growFirst]
      -- Nothing is cut within the piece: it does not end where the separator would begin.
      intro cs' hunderscore heq
      cases start with
      | nil => exact hclosed (congrArg some hunderscore)
      | cons d ds =>
          rw [List.cons_append, List.cons.injEq] at heq
          exact hsingle ds hunderscore (by rw [heq.1])

/-- Pieces that do not end in an underscore, joined before a last one, are cut into these pieces. -/
theorem cut_intercalate_concat {pieces : List (List Char)} {last : List Char}
    (hpieces : ∀ piece ∈ pieces, cut piece = [piece] ∧ piece.getLast? ≠ some '_')
    (hlast : cut last = [last]) :
    cut (separator.toList.intercalate (pieces ++ [last])) = pieces ++ [last] := by
  induction pieces with
  | nil => rw [List.nil_append, List.intercalate_singleton, hlast]
  | cons piece pieces ih =>
      obtain ⟨⟨hpiece, hclosed⟩, hrest⟩ := List.forall_mem_cons.1 hpieces
      rw [List.cons_append, List.intercalate_cons_of_ne_nil (by simp), List.append_assoc,
        show separator.toList = ['_', '_'] from rfl]
      rw [show separator.toList = ['_', '_'] from rfl] at ih
      simp only [List.cons_append, List.nil_append]
      rw [cut_append hpiece hclosed, ih hrest]

/-- Only the last piece of a text can end in an underscore. -/
theorem closed_of_mem_cut (cs : List Char) :
    ∀ piece ∈ (cut cs).dropLast, piece.getLast? ≠ some '_' := by
  fun_induction cut cs with
  | case1 => simp
  | case2 cs ih =>
      rw [List.dropLast_cons_of_ne_nil (cut_ne_nil cs)]
      exact List.forall_mem_cons.2 ⟨by simp, ih⟩
  | case3 c cs hsingle ih =>
      obtain ⟨start, more, hmore⟩ := List.exists_cons_of_ne_nil (cut_ne_nil cs)
      rw [hmore, Text.growFirst]
      cases more with
      | nil => simp
      | cons next more =>
          rw [hmore] at ih
          obtain ⟨hstart, hothers⟩ := List.forall_mem_cons.1 ih
          refine List.forall_mem_cons.2 ⟨?_, hothers⟩
          cases start with
          | cons d ds => rwa [List.getLast?_cons_cons]
          | nil =>
              -- The next piece begins after a separator, of which the character would be part.
              intro hunderscore
              have hseparator := intercalate_cut cs
              rw [hmore, List.intercalate_cons_cons] at hseparator
              exact hsingle _ (Option.some.inj hunderscore) hseparator.symm

theorem joinText_concat {pieces : List String} (hnonempty : pieces ≠ []) (last : String) :
    (joinText (pieces ++ [last])).toList =
      (joinText pieces).toList ++ separator.toList ++ last.toList := by
  rw [joinText, joinText, String.toList_intercalate, String.toList_intercalate, List.map_append,
    List.map_singleton, intercalate_append (by simpa using hnonempty) (List.cons_ne_nil _ _),
    List.intercalate_singleton]

/-- A segment is in one piece. -/
theorem cut_of_isSegment {name : String} (hname : Resource.isSegment name = true) :
    name ≠ "" ∧ cut name.toList = [name.toList] := by
  rw [Resource.isSegment, Bool.and_eq_true, Bool.not_eq_true', beq_iff_eq, splitText,
    List.length_map] at hname
  obtain ⟨piece, hpiece⟩ := List.length_eq_one_iff.1 hname.2
  have hjoined := intercalate_cut name.toList
  rw [hpiece, List.intercalate_singleton] at hjoined
  refine ⟨fun hempty => ?_, hjoined ▸ hpiece⟩
  rw [hempty] at hname
  cases hname.1

variable {p : Path}

/-- The key of a path is split into the names on it and the operator exactly if none of the names
ends in an underscore. -/
theorem splitText_keyFor_iff (hnames : ∀ s ∈ p.segments, Resource.isSegment s = true)
    (op : Operator) : splitText (p.keyFor op) = p.segments ++ [op.name] ↔
      ∀ s ∈ p.segments, s.toList.getLast? ≠ some '_' := by
  have hkey : splitText (p.keyFor op) = (cut (separator.toList.intercalate
      (p.segments.map String.toList ++ [op.name.toList]))).map String.ofList := by
    rw [splitText, keyFor, joinText, String.toList_intercalate, List.map_append]
    rfl
  have hof (names : List String) : (names.map String.toList).map String.ofList = names := by
    rw [List.map_map]
    simp [Function.comp_def]
  constructor
  · intro hsplit s hs
    have hcut : cut (p.keyFor op).toList =
        p.segments.map String.toList ++ [op.name.toList] := by
      have hlists := congrArg (List.map String.toList) hsplit
      rw [splitText, List.map_map, List.map_append] at hlists
      simpa [Function.comp_def] using hlists
    refine closed_of_mem_cut (p.keyFor op).toList s.toList ?_
    rw [hcut, List.dropLast_concat]
    exact List.mem_map_of_mem hs
  · intro hclosed
    rw [hkey, cut_intercalate_concat ?_ (cut_of_isSegment op.isSegment_name).2]
    · rw [List.map_append, hof]
      simp
    · intro piece hpiece
      obtain ⟨s, hs, rfl⟩ := List.mem_map.1 hpiece
      exact ⟨(cut_of_isSegment (hnames s hs)).2, hclosed s hs⟩

end Path

namespace Key

/-- Where no segment begins a chain, no chain is found. -/
theorem splitChain_eq_none {segments : List String}
    (hnone : ∀ s ∈ segments, beginsChain s = false) : splitChain segments = none := by
  induction segments with
  | nil => rfl
  | cons segment segments ih =>
      obtain ⟨hfirst, hrest⟩ := List.forall_mem_cons.1 hnone
      rw [splitChain, hfirst, ih hrest]
      rfl

/-- Only operators for chains are named like what begins a chain. -/
theorem beginsChain_eq_false {op : Operator} (hop : op.arity ≠ .function) :
    beginsChain op.name = false := by
  revert hop
  cases op <;> decide

/-- A key with a chain stands for a comparison with a chain. -/
theorem function_of_readFunction {segments chain : List String} {mark : String} {path : Path}
    {op : Operator} {function : Option FunctionChain}
    (hread : readFunction segments mark chain = .ok (.comparison path op function)) :
    function ≠ none := by
  obtain ⟨path', _, hrest⟩ := Result.bind_eq_ok.1 hread
  dsimp only at hrest
  generalize (if mark = Operator.predicate.name then Operator.predicate else .function) = o at hrest
  by_cases hnames : (readChain chain).names.isEmpty || (readChain chain).names.any String.isEmpty
  · simp [hnames] at hrest
  · by_cases hpredicate : o = .predicate && (readChain chain).compare.isSome
    · simp [hnames, hpredicate] at hrest
    · simp only [hnames, hpredicate] at hrest
      cases hrest
      nofun

theorem segments_of_readPath {segments : List String} {path : Path}
    (hread : readPath segments = .ok path) : path.segments = segments := by
  unfold readPath at hread
  split at hread
  · rename_i hpath
    cases hread
    exact (Path.segments_of_ofSegments? hpath).1
  · cases hread

/-- How a comparison without a chain was read: from its path and its operator, or from its path
alone. -/
theorem segments_of_read {key : String} {path : Path} {op : Operator}
    (hread : read key = .ok (.comparison path op none)) :
    ∃ first rest, Path.splitText key = first :: rest ∧ first ≠ textQuery ∧
      (∀ s ∈ rest, beginsChain s = false) ∧
      (first :: rest = path.segments ++ [op.name] ∨
        first :: rest = path.segments ∧ op = .exact) := by
  unfold read at hread
  cases hsegments : Path.splitText key with
  | nil => simp [hsegments, ofSegments] at hread
  | cons first rest =>
      refine ⟨first, rest, rfl, ?_⟩
      rw [hsegments, ofSegments] at hread
      split at hread
      · obtain ⟨textKey, _, hkey⟩ := Result.bind_eq_ok.1 hread
        cases hkey
      · rename_i hfirst
        refine ⟨hfirst, ?_⟩
        split at hread
        · exact absurd rfl (function_of_readFunction hread)
        · rename_i hchain
          refine ⟨beginsChain_of_splitChain_none hchain, ?_⟩
          unfold readPlain at hread
          split at hread
          · rename_i s segments op' hdrop hlast
            obtain ⟨path', hpath, hkey⟩ := Result.bind_eq_ok.1 hread
            cases hkey
            obtain ⟨name, hname, hop⟩ := Option.bind_eq_some_iff.1 hlast
            rw [segments_of_readPath hpath, ← hdrop, name_of_ofName? hop]
            exact .inl (List.dropLast_append_getLast? name hname).symm
          · obtain ⟨path', hpath, hkey⟩ := Result.bind_eq_ok.1 hread
            cases hkey
            exact .inr ⟨(segments_of_readPath hpath).symm, rfl⟩

end Key

namespace Path

variable {p : Path} {op : Operator}

/-- The key of a path with an operator is longer than that of the path alone. -/
theorem keyFor_ne_joinText (p : Path) (op : Operator) : p.keyFor op ≠ joinText p.segments := by
  intro hkey
  have hlength := congrArg List.length
    ((congrArg String.toList hkey).symm.trans (joinText_concat (by simp [segments]) op.name))
  have hseparator : separator.toList.length = 2 := rfl
  rw [List.length_append, List.length_append] at hlength
  omega

/-- A path that is read back from its key was split off there, by its names. -/
theorem splitText_of_read (hread : Key.read (p.keyFor op) = .ok (.comparison p op none)) :
    splitText (p.keyFor op) = p.segments ++ [op.name] ∧
      p.segments.head? ≠ some Key.textQuery ∧ ∀ s ∈ p.segments.tail, Key.beginsChain s = false := by
  obtain ⟨first, rest, hsplit, hfirst, hchain, hsegments | ⟨hsegments, -⟩⟩ :=
    Key.segments_of_read hread
  · refine ⟨hsplit.trans hsegments, ?_⟩
    obtain ⟨name, names, hp⟩ : ∃ name names, p.segments = name :: names :=
      List.exists_cons_of_ne_nil (by simp [segments])
    rw [hp, List.cons_append, List.cons.injEq] at hsegments
    obtain ⟨rfl, rfl⟩ := hsegments
    rw [hp]
    exact ⟨fun hhead => hfirst (Option.some.inj hhead),
      fun s hs => hchain s (List.mem_append_left _ hs)⟩
  · refine absurd ?_ (keyFor_ne_joinText p op)
    rw [← hsegments, ← hsplit, joinText_splitText]

/-- The names on a path that is read back from its key stay what they are in the key. -/
theorem isAddressable_of_read (hnames : ∀ s ∈ p.segments, Resource.isSegment s = true)
    (hread : Key.read (p.keyFor op) = .ok (.comparison p op none)) : p.IsAddressable := by
  obtain ⟨hsplit, hfirst, hchain⟩ := splitText_of_read hread
  exact ⟨hfirst, hchain, (splitText_keyFor_iff hnames op).1 hsplit⟩

/-- An addressable path is read back from its key with an operator for values. -/
theorem read_keyFor (hnames : ∀ s ∈ p.segments, Resource.isSegment s = true)
    (hop : op.arity ≠ .function) (haddressable : p.IsAddressable) :
    Key.read (p.keyFor op) = .ok (.comparison p op none) := by
  have hempty : ∀ s ∈ p.segments, s.isEmpty = false := fun s hs => by
    simpa using (cut_of_isSegment (hnames s hs)).1
  have hsplit := (splitText_keyFor_iff hnames op).2 haddressable.closed
  obtain ⟨name, names, hp⟩ : ∃ name names, p.segments = name :: names :=
    List.exists_cons_of_ne_nil (by simp [segments])
  have hfirst : name ≠ Key.textQuery := fun heq => haddressable.notText (by rw [hp, heq]; rfl)
  have hchain : Key.splitChain (names ++ [op.name]) = none := by
    refine Key.splitChain_eq_none fun s hs => ?_
    rcases List.mem_append.1 hs with hname | hoperator
    · exact haddressable.noChain s (by rw [hp]; exact hname)
    · rw [List.mem_singleton.1 hoperator]
      exact Key.beginsChain_eq_false hop
  have hpath : Key.readPath (name :: names) = .ok p := by
    rw [Key.readPath, ← hp, ofSegments?_segments hempty]
  rw [hp, List.cons_append] at hsplit
  rw [Key.read, hsplit, Key.ofSegments, if_neg hfirst, hchain]
  show Key.readPlain (name :: (names ++ [op.name])) = _
  rw [Key.readPlain, ← List.cons_append, List.dropLast_concat, List.getLast?_concat,
    Option.bind_some, Operator.ofName?_name]
  exact Result.bind_eq_ok.2 ⟨p, hpath, rfl⟩

/-- A text with a separator inside is in several pieces. -/
theorem two_le_length_cut (before rest : List Char) :
    2 ≤ (cut (before ++ '_' :: '_' :: rest)).length := by
  have htwo (cs : List Char) : 2 ≤ ([] :: cut cs).length :=
    Nat.succ_le_succ (List.length_pos_of_ne_nil (cut_ne_nil cs))
  fun_induction cut before with
  | case1 => exact htwo rest
  | case2 cs => exact htwo _
  | case3 c cs hsingle ih =>
      rw [List.cons_append]
      by_cases hjoint : c = '_' ∧ cs = []
      · rw [hjoint.1, hjoint.2]
        exact htwo ('_' :: rest)
      · obtain ⟨start, more, hmore⟩ :=
          List.exists_cons_of_ne_nil (cut_ne_nil (cs ++ '_' :: '_' :: rest))
        rw [hmore] at ih
        rw [cut, hmore]
        · exact ih
        · intro cs' hunderscore heq
          cases cs with
          | nil => exact hjoint ⟨hunderscore, rfl⟩
          | cons d ds =>
              rw [List.cons_append, List.cons.injEq] at heq
              exact hsingle ds hunderscore (by rw [heq.1])

/-- The key of a path with an operator is none of those that stand for something else, which are
all in one piece. -/
theorem isReserved_keyFor (p : Path) (op : Operator) : Param.isReserved (p.keyFor op) = false := by
  have hsegments : ∀ key ∈ Param.reserved, Resource.isSegment key = true := by decide
  rw [Param.isReserved, List.contains_eq_mem, decide_eq_false_iff_not]
  intro hmem
  have hpieces := congrArg List.length (cut_of_isSegment (hsegments _ hmem)).2
  rw [keyFor, joinText_concat (by simp [segments]), List.append_assoc] at hpieces
  have htwo := two_le_length_cut (joinText p.segments).toList op.name.toList
  rw [show '_' :: '_' :: op.name.toList = separator.toList ++ op.name.toList from rfl, hpieces,
    List.length_singleton] at htwo
  omega

end Path

namespace Resource

/-- Names that pass their check are segments. -/
theorem isSegment_of_checkNames {resource : String} {seen names : List String}
    (hcheck : checkNames resource seen names = .ok ()) : ∀ name ∈ names, isSegment name = true := by
  induction names generalizing seen with
  | nil => nofun
  | cons name names ih =>
      rw [checkNames] at hcheck
      split at hcheck
      · cases hcheck
      · rename_i hsegment
        split at hcheck
        · cases hcheck
        · exact List.forall_mem_cons.2 ⟨by simpa using hsegment, ih hcheck⟩

/-- The names of a resource that passes its check are segments. -/
theorem isSegment_of_check {r : Resource} (hcheck : r.check = .ok ()) :
    ∀ name ∈ r.names, isSegment name = true := by
  obtain ⟨_, hnames, _⟩ := Result.bind_eq_ok.1 hcheck
  exact isSegment_of_checkNames hnames

end Resource

namespace Registry

variable {registry : Registry}

/-- A chain of declared relations: each is one of those of the resource that the one before leads
to. -/
inductive Declares (registry : Registry) : Resource → Route → Prop
  | nil (start : Resource) : Declares registry start []
  | cons {start : Resource} {hop : Hop} {route : Route} (mem : hop.relation ∈ start.relations)
      (leads : registry.resource? hop.relation.target = some hop.target)
      (rest : Declares registry hop.target route) : Declares registry start (hop :: route)

/-- A chain of declared relations is walked by their names, which are segments, and ends at a
resource that passes its check. -/
theorem Declares.walk {start : Resource} {route : Route} (hroute : registry.Declares start route)
    (hregistered : ∀ entry ∈ registry.entries, entry.resource.check = .ok ())
    (hstart : start.check = .ok ()) :
    registry.walk start route.names = (route, none) ∧
      (∀ name ∈ route.names, Resource.isSegment name = true) ∧
      (route.destination start).check = .ok () := by
  induction hroute with
  | nil start => exact ⟨rfl, List.forall_mem_nil _, hstart⟩
  | @cons start hop route hmem hleads _ ih =>
      obtain ⟨entry, hentry, htarget⟩ := Option.map_eq_some_iff.1 hleads
      obtain ⟨hwalk, hnames, hend⟩ :=
        ih (htarget ▸ hregistered entry (List.mem_of_find?_eq_some hentry))
      have hhop : registry.hop? start hop.relation.name = some hop :=
        Option.bind_eq_some_iff.2 ⟨hop.relation, Resource.relation?_of_mem hstart hmem,
          Option.bind_eq_some_iff.2 ⟨hop.target, hleads, rfl⟩⟩
      have hname : Resource.isSegment hop.relation.name = true :=
        Resource.isSegment_of_check hstart _
          (List.mem_append_right _ (List.mem_map_of_mem hmem))
      refine ⟨?_, List.forall_mem_cons.2 ⟨hname, hnames⟩, ?_⟩
      · rw [Route.names, List.map_cons, Registry.walk, hhop]
        dsimp only
        rw [← Route.names, hwalk]
      · rwa [Route.destination_cons]

/-- In a built registry a chain of declared relations and an attribute at its end make a path that
leads to this attribute, and the key of the path with an operator for values is read as a filter.
It is read as the path and the operator exactly if the path is addressable. -/
theorem read_keyFor_iff_isAddressable {options : Options} {entries : List Entry}
    (hbuild : build options entries = .ok registry) {start : Entry}
    (hstart : start ∈ registry.entries) {route : Route}
    (hroute : registry.Declares start.resource route) {attr : Attribute}
    (hattr : attr ∈ (route.destination start.resource).attributes) {op : Operator}
    (hop : op.arity ≠ .function) (param : String) :
    registry.locate start.resource param ⟨route.names, attr.name⟩ =
        .ok { attr, owner := route.destination start.resource, route } ∧
      Param.isReserved ((Path.mk route.names attr.name).keyFor op) = false ∧
      (Key.read ((Path.mk route.names attr.name).keyFor op) =
          .ok (.comparison ⟨route.names, attr.name⟩ op none) ↔
        (Path.mk route.names attr.name).IsAddressable) := by
  obtain ⟨hentries, hchecks, _⟩ := build_eq_ok hbuild
  have hregistered := check_of_mem hchecks
  rw [← hentries] at hregistered
  obtain ⟨hwalk, hnames, hend⟩ := hroute.walk hregistered (hregistered start hstart)
  have hsegments : ∀ s ∈ (Path.mk route.names attr.name).segments, Resource.isSegment s = true := by
    refine List.forall_mem_append.2 ⟨hnames, fun name hname => ?_⟩
    rw [List.mem_singleton.1 hname]
    exact Resource.isSegment_of_check hend _ (List.mem_append_left _ (List.mem_map_of_mem hattr))
  have hlocate : registry.locate start.resource param ⟨route.names, attr.name⟩ =
      .ok { attr, owner := route.destination start.resource, route } := by
    refine Result.bind_eq_ok.2 ⟨route, ?_, ?_⟩
    · rw [Registry.route, hwalk]
    · dsimp only
      rw [Resource.attribute?_of_mem hend hattr]
      rfl
  exact ⟨hlocate, Path.isReserved_keyFor _ op, Path.isAddressable_of_read hsegments,
    Path.read_keyFor hsegments hop⟩

end Registry

namespace Stockroom

/-- Shelves with the parts on them, under names that begin or end in an underscore or are those of
parts of a key. -/
def part : Resource where
  name := "part"
  storage := "parts"
  attributes := [{ name := "_price", kind := .numeric }, { name := "func", kind := .string }]

def shelf : Resource where
  name := "shelf"
  storage := "shelves"
  attributes := [{ name := "q", kind := .string }, { name := "sku_", kind := .string }]
  relations := [.toOne "part" "part" "part_id" "id"]

def store : Backend := .relational .sqlite []

def entries : List Entry := [⟨shelf, store⟩, ⟨part, store⟩]

def registry : Registry where
  entries := entries

/-- The route from shelves to parts. -/
def toPart : Route := [⟨.toOne "part" "part" "part_id" "id", part⟩]

theorem declares_toPart : registry.Declares shelf toPart :=
  .cons List.mem_cons_self rfl (.nil part)

/-- A name that begins with an underscore is cut off where it begins. -/
theorem read_keyFor_price :
    Registry.build {} entries = .ok registry ∧
    registry.Declares shelf toPart ∧
    ({ name := "_price", kind := .numeric } : Attribute) ∈ (toPart.destination shelf).attributes ∧
    Operator.lt.arity ≠ .function ∧
    registry.locate shelf "part___price__lt" ⟨["part"], "_price"⟩ =
      .ok { attr := { name := "_price", kind := .numeric }, owner := part, route := toPart } ∧
    Key.read "part___price__lt" = .ok (.comparison ⟨["part"], "_price"⟩ .lt none) := by
  have hattr : ({ name := "_price", kind := .numeric } : Attribute) ∈
      (toPart.destination shelf).attributes := List.mem_cons_self
  have hbuild : Registry.build {} entries = .ok registry := rfl
  have hstart : (⟨shelf, store⟩ : Entry) ∈ registry.entries := List.mem_cons_self
  have hop : Operator.lt.arity ≠ .function := by decide
  obtain ⟨hlocate, -, hread⟩ := Registry.read_keyFor_iff_isAddressable hbuild hstart
    declares_toPart hattr hop "part___price__lt"
  exact ⟨hbuild, declares_toPart, hattr, hop, hlocate, hread.2 ⟨by decide, by decide, by decide⟩⟩

/-- What is read instead of a comparison of the code of shelves. -/
def byCode : Request where
  filter := some (.comparison {
    param := "sku___exact"
    path := ⟨["sku"], "_exact"⟩
    operator := .exact
    function := none
    value := .string "A" })

/-- Attributes of a registry that builds, with an operator that their kind has, whose keys are read
as something else: as a path through a relation that does not exist, so that the request is refused;
as a search for words; and as a chain of functions on what is a relation. -/
theorem names_lost_in_keys :
    Registry.build {} entries = .ok registry ∧
    registry.Declares shelf [] ∧ registry.Declares shelf toPart ∧
    shelf.attributes.map (·.name) = ["q", "sku_"] ∧
    "func" ∈ (toPart.destination shelf).attributes.map (·.name) ∧
    Operator.exact.accepts .string = true ∧ Operator.exact.arity ≠ .function ∧
    (Path.mk [] "sku_").keyFor .exact = "sku___exact" ∧
    Key.read "sku___exact" = .ok (.comparison ⟨["sku"], "_exact"⟩ .exact none) ∧
    Entry.read ⟨shelf, store⟩ registry ⟨[("sku___exact", "A")]⟩ = .ok byCode ∧
    Entry.compileRequest ⟨shelf, store⟩ registry byCode =
      .error (.invalidRelationPath "sku___exact" "sku") ∧
    (Path.mk [] "q").keyFor .exact = "q__exact" ∧
    Key.read "q__exact" = .ok (.fullText { attributes := ["exact"] }) ∧
    (Path.mk ["part"] "func").keyFor .exact = "part__func__exact" ∧
    Key.read "part__func__exact" =
      .ok (.comparison ⟨[], "part"⟩ .function (some ⟨["exact"], none⟩)) :=
  ⟨rfl, .nil shelf, declares_toPart, rfl, by decide, rfl, by decide, rfl, rfl, rfl, rfl, rfl, rfl,
    rfl, rfl⟩

end Stockroom
end Listing
