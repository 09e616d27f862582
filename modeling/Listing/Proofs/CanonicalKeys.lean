/-
# Keys that are read back

The canonical key of a comparison is its path and its operator, joined; with a chain of functions,
the functions come after the operator, and the operator that compares what they give comes last. A
key is cut from the left at the first two of several underscores, so joined pieces are cut into
themselves exactly if none has two underscores inside and none but the last ends in one
(`Path.cut_intercalate_iff`). What is left is to tell which piece is what: the first one may stand
for full-text search, a later one may begin a chain, and the last one of several functions may be
taken for an operator.

The conditions are those of `Path.IsCanonical` and `FunctionChain.IsCanonical`, and a comparison is
read back from its canonical key exactly under them.
-/
import Listing.Proofs.AddressableNames

namespace Listing

namespace Path

/-- A text without a separator inside is in one piece. -/
theorem cut_of_whole {cs : List Char} (hwhole : ¬ separator.toList <:+: cs) :
    cut cs = [cs] := by
  fun_induction cut cs with
  | case1 => rfl
  | case2 cs => exact absurd (List.prefix_append _ _).isInfix hwhole
  | case3 c cs hsingle ih =>
      rw [ih fun hinside => hwhole (hinside.trans (List.suffix_cons c cs).isInfix)]
      rfl

/-- No piece of a text has a separator inside. -/
theorem whole_of_mem_cut (cs : List Char) :
    ∀ piece ∈ cut cs, ¬ separator.toList <:+: piece := by
  have hnil : ¬ separator.toList <:+: [] := by
    rw [List.infix_nil]
    exact List.cons_ne_nil _ _
  fun_induction cut cs with
  | case1 => simpa using hnil
  | case2 cs ih => exact List.forall_mem_cons.2 ⟨hnil, ih⟩
  | case3 c cs hsingle ih =>
      obtain ⟨start, more, hmore⟩ := List.exists_cons_of_ne_nil (cut_ne_nil cs)
      rw [hmore] at ih
      obtain ⟨hstart, hothers⟩ := List.forall_mem_cons.1 ih
      rw [hmore, Text.growFirst]
      refine List.forall_mem_cons.2 ⟨fun hinside => ?_, hothers⟩
      rcases List.infix_cons_iff.1 hinside with hprefix | htail
      · -- A separator at the start of the piece would have been cut there.
        obtain ⟨rest, hrest⟩ := hprefix
        rw [show separator.toList = ['_', '_'] from rfl, List.cons_append, List.cons.injEq] at hrest
        obtain ⟨hunderscore, hrest⟩ := hrest
        have hbegins : separator.toList.intercalate [start] <+:
            separator.toList.intercalate ([start] ++ more) :=
          intercalate_begins (List.cons_ne_nil start []) more
        rw [List.intercalate_singleton, List.singleton_append, ← hmore, intercalate_cut, ← hrest]
          at hbegins
        obtain ⟨after, hafter⟩ := hbegins
        exact hsingle _ hunderscore.symm hafter.symm
      · exact hstart htail

/-- Joined pieces are cut into themselves exactly if no piece has a separator inside, and none but
the last ends in an underscore. -/
theorem cut_intercalate_iff {pieces : List (List Char)} (hnonempty : pieces ≠ []) :
    cut (separator.toList.intercalate pieces) = pieces ↔
      (∀ piece ∈ pieces, ¬ separator.toList <:+: piece) ∧
        ∀ piece ∈ pieces.dropLast, piece.getLast? ≠ some '_' := by
  constructor
  · intro hcut
    have hwhole := whole_of_mem_cut (separator.toList.intercalate pieces)
    have hclosed := closed_of_mem_cut (separator.toList.intercalate pieces)
    rw [hcut] at hwhole hclosed
    exact ⟨hwhole, hclosed⟩
  · rintro ⟨hwhole, hclosed⟩
    obtain ⟨first, last, rfl⟩ := List.eq_nil_or_concat' pieces |>.resolve_left hnonempty
    rw [List.dropLast_concat] at hclosed
    obtain ⟨hfirst, hlast⟩ := List.forall_mem_append.1 hwhole
    exact cut_intercalate_concat
      (fun piece hpiece => ⟨cut_of_whole (hfirst piece hpiece), hclosed piece hpiece⟩)
      (cut_of_whole (hlast last List.mem_cons_self))

/-- Joined texts are split into themselves exactly if no text has a separator inside, and none but
the last ends in an underscore. -/
theorem splitText_joinText_iff {pieces : List String} (hnonempty : pieces ≠ []) :
    splitText (joinText pieces) = pieces ↔
      (∀ s ∈ pieces, ¬ separator.toList <:+: s.toList) ∧
        ∀ s ∈ pieces.dropLast, s.toList.getLast? ≠ some '_' := by
  have hlists : splitText (joinText pieces) = pieces ↔
      cut (separator.toList.intercalate (pieces.map String.toList)) = pieces.map String.toList := by
    have hback : (pieces.map String.toList).map String.ofList = pieces := by
      rw [List.map_map]
      simp [Function.comp_def]
    rw [splitText, joinText, String.toList_intercalate]
    constructor
    · intro hsplit
      have hcut := congrArg (List.map String.toList) hsplit
      rw [List.map_map] at hcut
      simpa [Function.comp_def] using hcut
    · intro hcut
      rw [hcut, hback]
  rw [hlists, cut_intercalate_iff (by simpa using hnonempty), ← List.map_dropLast,
    List.forall_mem_map, List.forall_mem_map]

/-- The names on a path stay what they are in a key: none is empty, has a separator inside or ends
in an underscore, the first is not that of full-text search, and no later one begins a chain. -/
structure IsCanonical (p : Path) : Prop where
  nonempty : ∀ s ∈ p.segments, s ≠ ""
  whole : ∀ s ∈ p.segments, ¬ "__".toList <:+: s.toList
  closed : ∀ s ∈ p.segments, s.toList.getLast? ≠ some '_'
  notText : p.segments.head? ≠ some "q"
  noChain : ∀ s ∈ p.segments.tail, s ≠ "func" ∧ s ≠ "sfunc"

end Path

namespace FunctionChain

/-- The pieces of a chain in a key: its functions, and the name of the operator after them. -/
def parts (f : FunctionChain) : List String := f.names ++ (f.compare.map Operator.name).toList

/-- The functions of a chain after an operator stay what they are in a key: there are some, none is
empty or has a separator inside, and none before another piece ends in an underscore. The operator
at the end is one for values, and there is none after a predicate. Where there is none, the last of
several functions is not named like such an operator. -/
structure IsCanonical (f : FunctionChain) (op : Operator) : Prop where
  operator : op = .function ∨ op = .predicate
  names : f.names ≠ []
  nonempty : ∀ name ∈ f.names, name ≠ ""
  whole : ∀ name ∈ f.names, ¬ "__".toList <:+: name.toList
  closed : ∀ part ∈ f.parts.dropLast, part.toList.getLast? ≠ some '_'
  compare : ∀ c, f.compare = some c → c ≠ .function ∧ c ≠ .predicate ∧ op ≠ .predicate
  last : f.compare = none → 2 ≤ f.names.length →
    ∀ c : Operator, c ≠ .function → c ≠ .predicate → f.names.getLast? ≠ some c.name

end FunctionChain

/-- The name of an operator is in one piece. -/
theorem Operator.whole_name (op : Operator) :
    ¬ Path.separator.toList <:+: op.name.toList := by
  refine Path.whole_of_mem_cut op.name.toList op.name.toList ?_
  rw [(Path.cut_of_isSegment op.isSegment_name).2]
  exact List.mem_cons_self

theorem Operator.arity_eq_function_iff {op : Operator} :
    op.arity = .function ↔ op = .function ∨ op = .predicate := by
  cases op <;> decide

namespace Path

/-- Pieces are joined in two parts. -/
theorem joinText_append {first rest : List String} (hfirst : first ≠ []) (hrest : rest ≠ []) :
    joinText (first ++ rest) = joinText first ++ "__" ++ joinText rest := by
  rw [← String.toList_inj]
  simp only [joinText, String.toList_append, String.toList_intercalate, List.map_append]
  rw [intercalate_append (by simpa using hfirst) (by simpa using hrest)]
  rfl

theorem joinText_singleton (piece : String) : joinText [piece] = piece := by
  rw [← String.toList_inj, joinText, String.toList_intercalate]
  simp

end Path

namespace Key

/-- The canonical key of a comparison. -/
def canonical (p : Path) (op : Operator) : Option FunctionChain → String
  | none => Path.joinText p.segments ++ "__" ++ op.name
  | some f => Path.joinText p.segments ++ "__" ++ op.name ++ "__" ++ Path.joinText f.names ++
    (f.compare.map fun c => "__" ++ c.name).getD ""

variable {p : Path} {op : Operator} {f : FunctionChain}

theorem canonical_none (p : Path) (op : Operator) : canonical p op none = p.keyFor op := by
  rw [canonical, Path.keyFor, Path.joinText_append (by simp [Path.segments]) (List.cons_ne_nil _ _),
    Path.joinText_singleton]

/-- Functions, if there are any, are joined like the other pieces of a key. -/
theorem canonical_some (p : Path) (op : Operator) (hnames : f.names ≠ []) :
    canonical p op (some f) = Path.joinText (p.segments ++ op.name :: f.parts) := by
  have hparts : f.parts ≠ [] := List.append_ne_nil_of_left_ne_nil hnames _
  have hjoined : Path.joinText f.parts =
      Path.joinText f.names ++ (f.compare.map fun c => "__" ++ c.name).getD "" := by
    rw [FunctionChain.parts]
    cases f.compare with
    | none => simp
    | some c =>
        rw [Option.map_some, Option.toList_some, Path.joinText_append hnames (List.cons_ne_nil _ _),
          Path.joinText_singleton, String.append_assoc]
        rfl
  rw [canonical, Path.joinText_append (by simp [Path.segments]) (List.cons_ne_nil _ _),
    ← List.singleton_append, Path.joinText_append (List.cons_ne_nil _ _) hparts,
    Path.joinText_singleton, hjoined]
  simp only [String.append_assoc]

theorem beginsChain_eq_false_iff {segment : String} :
    beginsChain segment = false ↔ segment ≠ "func" ∧ segment ≠ "sfunc" := by
  simp [beginsChain, Operator.name]

/-- A chain begins at the first segment that may begin one. -/
theorem beginsChain_of_splitChain {segments before chain : List String} {mark : String}
    (hsplit : splitChain segments = some (before, mark, chain)) :
    beginsChain mark = true ∧ ∀ s ∈ before, beginsChain s = false := by
  induction segments generalizing before with
  | nil => cases hsplit
  | cons segment segments ih =>
      rw [splitChain] at hsplit
      split at hsplit
      · rename_i hbegins
        cases hsplit
        exact ⟨hbegins, List.forall_mem_nil _⟩
      · rename_i hother
        obtain ⟨⟨before', mark', chain'⟩, hrest, heq⟩ := Option.map_eq_some_iff.1 hsplit
        cases heq
        obtain ⟨hmark, hbefore⟩ := ih hrest
        exact ⟨hmark, List.forall_mem_cons.2 ⟨by simpa using hother, hbefore⟩⟩

theorem splitChain_append {before chain : List String} {mark : String}
    (hbefore : ∀ s ∈ before, beginsChain s = false) (hmark : beginsChain mark = true) :
    splitChain (before ++ mark :: chain) = some (before, mark, chain) := by
  induction before with
  | nil => rw [List.nil_append, splitChain, if_pos hmark]
  | cons s before ih =>
      obtain ⟨hfirst, hrest⟩ := List.forall_mem_cons.1 hbefore
      rw [List.cons_append, splitChain, hfirst, ih hrest]
      rfl

/-- The name of an operator for chains says which one it is. -/
theorem operator_of_beginsChain {mark : String} (hmark : beginsChain mark = true) :
    (if mark = Operator.predicate.name then Operator.predicate else .function).name = mark := by
  rw [beginsChain, Bool.or_eq_true, beq_iff_eq, beq_iff_eq] at hmark
  rcases hmark with rfl | rfl <;> rfl

/-- What a path, a mark and a chain are read as. -/
theorem readFunction_eq_ok {segments chain : List String} {mark : String} {path : Path}
    {function : Option FunctionChain} :
    readFunction segments mark chain = .ok (.comparison path op function) ↔
      readPath segments = .ok path ∧
        op = (if mark = Operator.predicate.name then Operator.predicate else .function) ∧
        function = some (readChain chain) ∧ (readChain chain).names ≠ [] ∧
        (∀ name ∈ (readChain chain).names, name ≠ "") ∧
        ¬ (op = .predicate ∧ (readChain chain).compare ≠ none) := by
  unfold readFunction
  rw [Result.bind_eq_ok]
  dsimp only
  generalize (if mark = Operator.predicate.name then Operator.predicate else .function) = o
  generalize readChain chain = f
  have hnames : (f.names.isEmpty || f.names.any String.isEmpty) = false ↔
      f.names ≠ [] ∧ ∀ name ∈ f.names, name ≠ "" := by
    simp
  have hpredicate : (o = .predicate && f.compare.isSome) = false ↔
      ¬ (o = .predicate ∧ f.compare ≠ none) := by
    simp [← Option.isSome_iff_ne_none]
  constructor
  · rintro ⟨path', hpath, hrest⟩
    split at hrest
    · cases hrest
    · rename_i hfunctions
      split at hrest
      · cases hrest
      · rename_i hcompared
        cases hrest
        obtain ⟨hsome, hnonempty⟩ := hnames.1 (Bool.eq_false_iff.2 hfunctions)
        exact ⟨hpath, rfl, rfl, hsome, hnonempty, hpredicate.1 (Bool.eq_false_iff.2 hcompared)⟩
  · rintro ⟨hpath, rfl, rfl, hsome, hnonempty, hcompared⟩
    refine ⟨path, hpath, ?_⟩
    rw [hnames.2 ⟨hsome, hnonempty⟩, hpredicate.2 hcompared]
    rfl

/-- A key without a chain stands for a comparison without one. -/
theorem function_of_readPlain {segments : List String} {path : Path}
    {function : Option FunctionChain}
    (hread : readPlain segments = .ok (.comparison path op function)) : function = none := by
  unfold readPlain at hread
  split at hread
  · obtain ⟨path', _, hkey⟩ := Result.bind_eq_ok.1 hread
    cases hkey
    rfl
  · obtain ⟨path', _, hkey⟩ := Result.bind_eq_ok.1 hread
    cases hkey
    rfl

/-- The pieces of a chain that was read are those that it was read from. -/
theorem parts_readChain (chain : List String) : (readChain chain).parts = chain := by
  unfold readChain
  split
  · rename_i hlast
    obtain ⟨name, hname, hop⟩ := Option.bind_eq_some_iff.1 hlast
    split
    · exact List.append_nil chain
    · show chain.dropLast ++ [Operator.name _] = chain
      rw [name_of_ofName? hop]
      exact List.dropLast_append_getLast? name hname
  · exact List.append_nil chain

/-- An operator at the end of several pieces is what they are compared by. -/
theorem readChain_concat {names : List String} (hnames : names ≠ []) {c : Operator}
    (hc : c.arity ≠ .function) : readChain (names ++ [c.name]) = ⟨names, some c⟩ := by
  obtain ⟨name, rest, rfl⟩ := List.exists_cons_of_ne_nil hnames
  rw [readChain, List.dropLast_concat, List.getLast?_concat, Option.bind_some,
    Operator.ofName?_name]
  exact if_neg hc

/-- Several functions of which the last is named like an operator for values, or one function, are
nothing but functions. -/
theorem readChain_names {names : List String}
    (hlast : 2 ≤ names.length → ∀ c : Operator, c.arity ≠ .function →
      names.getLast? ≠ some c.name) : readChain names = ⟨names, none⟩ := by
  unfold readChain
  split
  · rename_i name rest c hdrop hfound
    obtain ⟨last, hname, hc⟩ := Option.bind_eq_some_iff.1 hfound
    have hseveral : 2 ≤ names.length := by
      have hlength := congrArg List.length hdrop
      rw [List.length_dropLast, List.length_cons] at hlength
      omega
    split
    · rfl
    · rename_i harity
      rw [← name_of_ofName? hc] at hname
      exact absurd hname (hlast hseveral c harity)
  · rfl

/-- A chain is read back from its pieces. -/
theorem readChain_parts (hf : f.IsCanonical op) : readChain f.parts = f := by
  obtain ⟨names, compare⟩ := f
  cases compare with
  | none =>
      show readChain (names ++ []) = _
      rw [List.append_nil]
      refine readChain_names fun hseveral c hc => ?_
      rw [Ne, Operator.arity_eq_function_iff, not_or] at hc
      exact hf.last rfl hseveral c hc.1 hc.2
  | some c =>
      obtain ⟨hfunction, hpredicate, -⟩ := hf.compare c rfl
      refine readChain_concat hf.names fun harity => ?_
      rcases Operator.arity_eq_function_iff.1 harity with heq | heq
      · exact hfunction heq
      · exact hpredicate heq

/-- The names on a path that was read are not empty. -/
theorem nonempty_of_readPath {segments : List String} {path : Path}
    (hread : readPath segments = .ok path) : ∀ s ∈ path.segments, s ≠ "" := by
  unfold readPath at hread
  split at hread
  · rename_i hpath
    cases hread
    obtain ⟨hsegments, hnonempty⟩ := Path.segments_of_ofSegments? hpath
    rw [hsegments]
    exact fun s hs heq => by simpa [heq] using hnonempty s hs
  · cases hread

theorem nonempty_of_read {key : String} {path : Path} {function : Option FunctionChain}
    (hread : read key = .ok (.comparison path op function)) : ∀ s ∈ path.segments, s ≠ "" := by
  unfold read at hread
  cases hsegments : Path.splitText key with
  | nil => simp [hsegments, ofSegments] at hread
  | cons first rest =>
      rw [hsegments, ofSegments] at hread
      split at hread
      · obtain ⟨textKey, _, hkey⟩ := Result.bind_eq_ok.1 hread
        cases hkey
      · split at hread
        · exact nonempty_of_readPath (readFunction_eq_ok.1 hread).1
        · unfold readPlain at hread
          split at hread
          · obtain ⟨path', hpath, hkey⟩ := Result.bind_eq_ok.1 hread
            cases hkey
            exact nonempty_of_readPath hpath
          · obtain ⟨path', hpath, hkey⟩ := Result.bind_eq_ok.1 hread
            cases hkey
            exact nonempty_of_readPath hpath

/-- How a comparison with a chain was read: from its path, its operator and its chain. -/
theorem segments_of_read_chain {key : String} {path : Path}
    (hread : read key = .ok (.comparison path op (some f))) :
    ∃ first rest, path.segments = first :: rest ∧
      Path.splitText key = path.segments ++ op.name :: f.parts ∧ first ≠ textQuery ∧
      (∀ s ∈ rest, beginsChain s = false) ∧ readChain f.parts = f ∧
      ∀ name ∈ f.names, name ≠ "" := by
  unfold read at hread
  cases hsegments : Path.splitText key with
  | nil => simp [hsegments, ofSegments] at hread
  | cons first rest =>
      rw [hsegments, ofSegments] at hread
      split at hread
      · obtain ⟨textKey, _, hkey⟩ := Result.bind_eq_ok.1 hread
        cases hkey
      · rename_i hfirst
        split at hread
        · rename_i before mark chain hsplit
          obtain ⟨hpath, rfl, hf, -, hnonempty, -⟩ := readFunction_eq_ok.1 hread
          cases hf
          obtain ⟨hmark, hbefore⟩ := beginsChain_of_splitChain hsplit
          have hpieces := segments_of_readPath hpath
          refine ⟨first, before, hpieces, ?_, hfirst, hbefore, ?_, hnonempty⟩
          · rw [hpieces, operator_of_beginsChain hmark, parts_readChain, eq_of_splitChain hsplit,
              List.cons_append]
          · rw [parts_readChain]
        · exact absurd (function_of_readPlain hread) (Option.some_ne_none f)

end Key

namespace Path

variable {p : Path}

/-- A path that is split off from what comes after it is canonical, if its names are none of those
that stand for something else. -/
theorem isCanonical_of_splitText {rest : List String} (hrest : rest ≠ [])
    (hsplit : splitText (joinText (p.segments ++ rest)) = p.segments ++ rest)
    (hnonempty : ∀ s ∈ p.segments, s ≠ "") (hfirst : p.segments.head? ≠ some Key.textQuery)
    (hchain : ∀ s ∈ p.segments.tail, Key.beginsChain s = false) : p.IsCanonical := by
  obtain ⟨hwhole, hclosed⟩ :=
    (splitText_joinText_iff (List.append_ne_nil_of_right_ne_nil _ hrest)).1 hsplit
  rw [List.dropLast_append_of_ne_nil hrest] at hclosed
  exact {
    nonempty := hnonempty
    whole := fun s hs => hwhole s (List.mem_append_left rest hs)
    closed := fun s hs => hclosed s (List.mem_append_left rest.dropLast hs)
    notText := hfirst
    noChain := fun s hs => Key.beginsChain_eq_false_iff.1 (hchain s hs) }

/-- A canonical path is split off from what comes after it. -/
theorem IsCanonical.splitText_eq (hp : p.IsCanonical) {rest : List String} (hrest : rest ≠ [])
    (hwhole : ∀ s ∈ rest, ¬ separator.toList <:+: s.toList)
    (hclosed : ∀ s ∈ rest.dropLast, s.toList.getLast? ≠ some '_') :
    splitText (joinText (p.segments ++ rest)) = p.segments ++ rest := by
  refine (splitText_joinText_iff (List.append_ne_nil_of_right_ne_nil _ hrest)).2 ⟨?_, ?_⟩
  · exact List.forall_mem_append.2 ⟨hp.whole, hwhole⟩
  · rw [List.dropLast_append_of_ne_nil hrest]
    exact List.forall_mem_append.2 ⟨hp.closed, hclosed⟩

theorem IsCanonical.isSegment (hp : p.IsCanonical) :
    ∀ s ∈ p.segments, Resource.isSegment s = true := by
  intro s hs
  rw [Resource.isSegment, splitText, cut_of_whole (hp.whole s hs)]
  simpa using hp.nonempty s hs

theorem IsCanonical.isAddressable (hp : p.IsCanonical) : p.IsAddressable where
  notText := hp.notText
  noChain := fun s hs => Key.beginsChain_eq_false_iff.2 (hp.noChain s hs)
  closed := hp.closed

theorem IsCanonical.readPath_eq (hp : p.IsCanonical) : Key.readPath p.segments = .ok p := by
  rw [Key.readPath, ofSegments?_segments fun s hs => by simpa using hp.nonempty s hs]

end Path

namespace FunctionChain.IsCanonical

variable {f : FunctionChain} {op : Operator}

theorem parts_ne_nil (hf : f.IsCanonical op) : f.parts ≠ [] :=
  List.append_ne_nil_of_left_ne_nil hf.names _

/-- No piece of an operator for chains and a canonical chain has a separator inside. -/
theorem whole_parts (hf : f.IsCanonical op) :
    ∀ s ∈ op.name :: f.parts, ¬ Path.separator.toList <:+: s.toList := by
  refine List.forall_mem_cons.2 ⟨op.whole_name, List.forall_mem_append.2 ⟨hf.whole, ?_⟩⟩
  intro s hs
  obtain ⟨c, -, rfl⟩ := Option.map_eq_some_iff.1 (Option.mem_toList.1 hs)
  exact c.whole_name

/-- None of them but the last ends in an underscore. -/
theorem closed_parts (hf : f.IsCanonical op) :
    ∀ s ∈ (op.name :: f.parts).dropLast, s.toList.getLast? ≠ some '_' := by
  rw [List.dropLast_cons_of_ne_nil hf.parts_ne_nil]
  refine List.forall_mem_cons.2 ⟨?_, hf.closed⟩
  rcases hf.operator with rfl | rfl <;> decide

end FunctionChain.IsCanonical

namespace Key

variable {p : Path} {op : Operator} {f : FunctionChain}

/-- A canonical path and a canonical chain are read back from their key. -/
theorem read_canonical_some (hp : p.IsCanonical) (hf : f.IsCanonical op) :
    read (canonical p op (some f)) = .ok (.comparison p op (some f)) := by
  have hsplit := hp.splitText_eq (List.cons_ne_nil op.name f.parts) hf.whole_parts hf.closed_parts
  have hmark : beginsChain op.name = true ∧
      op = (if op.name = Operator.predicate.name then Operator.predicate else .function) := by
    rcases hf.operator with rfl | rfl <;> decide
  obtain ⟨first, rest, hp'⟩ : ∃ first rest, p.segments = first :: rest :=
    List.exists_cons_of_ne_nil (by simp [Path.segments])
  have hfirst : first ≠ textQuery := fun heq => hp.notText (by rw [hp', heq]; rfl)
  have hrest : ∀ s ∈ rest, beginsChain s = false := fun s hs =>
    beginsChain_eq_false_iff.2 (hp.noChain s (by rw [hp']; exact hs))
  have hpath : readPath (first :: rest) = .ok p := hp' ▸ hp.readPath_eq
  have hcompare : ¬ (op = .predicate ∧ f.compare ≠ none) := by
    rintro ⟨hpredicate, hsome⟩
    obtain ⟨c, hc⟩ := Option.ne_none_iff_exists'.1 hsome
    exact (hf.compare c hc).2.2 hpredicate
  rw [canonical_some p op hf.names, read, hsplit, hp', List.cons_append, ofSegments, if_neg hfirst,
    splitChain_append hrest hmark.1]
  refine readFunction_eq_ok.2 ⟨hpath, hmark.2, ?_⟩
  rw [readChain_parts hf]
  exact ⟨rfl, hf.names, hf.nonempty, hcompare⟩

/-- A path and a chain that are read back from their key are canonical. -/
theorem isCanonical_of_read_some (hread : read (canonical p op (some f)) =
    .ok (.comparison p op (some f))) : p.IsCanonical ∧ f.IsCanonical op := by
  obtain ⟨hoperator, hnames, hcompare⟩ := wellFormed_of_read hread "" .null
  rw [canonical_some p op hnames] at hread
  obtain ⟨first, rest, hsegments, hsplit, hfirst, hrest, hchain, hnonempty⟩ :=
    segments_of_read_chain hread
  have hp : p.IsCanonical := by
    refine Path.isCanonical_of_splitText (List.cons_ne_nil _ _) hsplit (nonempty_of_read hread)
      ?_ ?_
    · rw [hsegments]
      exact fun hhead => hfirst (Option.some.inj hhead)
    · rw [hsegments]
      exact hrest
  obtain ⟨hwhole, hclosed⟩ := (Path.splitText_joinText_iff (by simp)).1 hsplit
  refine ⟨hp, Operator.arity_eq_function_iff.1 hoperator, hnames, hnonempty, ?_, ?_, ?_, ?_⟩
  · exact fun name hname => hwhole name (List.mem_append_right _
      (List.mem_cons_of_mem _ (List.mem_append_left _ hname)))
  · have hparts : f.parts ≠ [] := List.append_ne_nil_of_left_ne_nil hnames _
    rw [List.dropLast_append_of_ne_nil (List.cons_ne_nil _ _),
      List.dropLast_cons_of_ne_nil hparts] at hclosed
    exact fun part hpart => hclosed part (List.mem_append_right _ (List.mem_cons_of_mem _ hpart))
  · intro c hc
    obtain ⟨hvalues, hpredicate⟩ := hcompare c hc
    rw [Ne, Operator.arity_eq_function_iff, not_or] at hvalues
    exact ⟨hvalues.1, hvalues.2, hpredicate⟩
  · intro hnone hseveral c hfunction hpredicate hlast
    have hvalues : c.arity ≠ .function := by
      rw [Ne, Operator.arity_eq_function_iff]
      exact not_or.2 ⟨hfunction, hpredicate⟩
    -- Otherwise the last function would have been read as the operator at the end.
    have hbefore : f.names.dropLast ≠ [] := List.ne_nil_of_length_pos (by simp; omega)
    have hconcat : f.parts = f.names.dropLast ++ [c.name] := by
      rw [FunctionChain.parts, hnone, List.dropLast_append_getLast? _ hlast]
      exact List.append_nil _
    rw [hconcat, readChain_concat hbefore hvalues] at hchain
    rw [← hchain] at hnone
    cases hnone

/-- A comparison is read back from its canonical key exactly if the names on its path stay what they
are in a key, and so do the functions of its chain. Without a chain, the operator must be one for
values. -/
theorem read_canonical_iff (p : Path) (op : Operator) (function : Option FunctionChain) :
    read (canonical p op function) = .ok (.comparison p op function) ↔
      p.IsCanonical ∧ (function = none → op ≠ .function ∧ op ≠ .predicate) ∧
        ∀ f, function = some f → f.IsCanonical op := by
  cases function with
  | none =>
      rw [canonical_none]
      constructor
      · intro hread
        obtain ⟨hsplit, hfirst, hchain⟩ := Path.splitText_of_read hread
        have hp := Path.isCanonical_of_splitText (List.cons_ne_nil _ _) hsplit
          (nonempty_of_read hread) hfirst hchain
        have hop : op.arity ≠ .function := wellFormed_of_read hread "" .null
        rw [Ne, Operator.arity_eq_function_iff, not_or] at hop
        exact ⟨hp, fun _ => hop, nofun⟩
      · rintro ⟨hp, hop, -⟩
        refine Path.read_keyFor hp.isSegment ?_ hp.isAddressable
        rw [Ne, Operator.arity_eq_function_iff, not_or]
        exact hop rfl
  | some f =>
      constructor
      · intro hread
        obtain ⟨hp, hf⟩ := isCanonical_of_read_some hread
        exact ⟨hp, nofun, fun g hg => Option.some.inj hg ▸ hf⟩
      · rintro ⟨hp, -, hf⟩
        exact read_canonical_some hp (hf f rfl)

/-- The last of several functions is taken for an operator that has its name. -/
example : read (canonical ⟨["author"], "born"⟩ .function (some ⟨["utc", "year"], none⟩)) =
    .ok (.comparison ⟨["author"], "born"⟩ .function (some ⟨["utc"], some .year⟩)) := rfl

end Key
end Listing
