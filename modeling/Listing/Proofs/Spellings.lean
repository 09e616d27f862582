/-
# Spellings of a comparison

A comparison without a chain of functions can be sent in several ways. As a parameter it has one
value; where its operator takes several items, the parameter may be repeated, or its value holds the
items with the separator between them. As an entry of a filter document it has a text, or a list of
texts where there are several items; and an integer in decimal form may stand there as a number. The
two ways are read by different functions, and meet where the operand is read for the kind of the
attribute. So whichever spelling is chosen, the comparison is of the same attribute by the same
operator with the same operand, or it is refused in each of them.

The kinds without a type of their own are not covered: for them `5` and `"5"` are two values.
-/
import Listing.Proofs.IntegerTexts
import Listing.Proofs.Negation
import Listing.Proofs.ReadingByKey

namespace Listing

/-! ### Items and the separator between them -/

namespace Text

/-- Cutting where a condition holds is what the library calls it. -/
theorem splitWhere_eq (cut : Char → Bool) (cs : List Char) :
    splitWhere cut cs = cs.splitOnP cut := by
  induction cs with
  | nil => rfl
  | cons c cs ih =>
      rw [splitWhere, List.splitOnP_cons_eq_if_modifyHead, ih]
      split
      · rfl
      · cases hpieces : cs.splitOnP cut with
        | nil => exact absurd hpieces (List.splitOnP_ne_nil _ _)
        | cons piece pieces => rfl

/-- Items without the separator are found again between the separators. -/
theorem splitOnChar_intercalate {separator : Char} {items : List String} (hitems : items ≠ [])
    (hplain : ∀ item ∈ items, separator ∉ item.toList) :
    splitOnChar separator ((String.singleton separator).intercalate items) = items := by
  have hchars : (items.map String.toList) ≠ [] := by simpa using hitems
  have hplain' : ∀ cs ∈ items.map String.toList, separator ∉ cs := fun cs hcs => by
    obtain ⟨item, hitem, rfl⟩ := List.mem_map.1 hcs
    exact hplain item hitem
  have hsplit := List.splitOn_intercalate separator hplain' hchars
  rw [splitOnChar, splitWhere_eq, String.toList_intercalate, String.toList_singleton]
  show (List.splitOn separator _).map String.ofList = items
  rw [hsplit, List.map_map]
  simp

/-- Each of several items without the separator is one item. -/
theorem flatMap_splitOnChar {separator : Char} {items : List String}
    (hplain : ∀ item ∈ items, separator ∉ item.toList) :
    items.flatMap (splitOnChar separator) = items := by
  have hone : ∀ item ∈ items, splitOnChar separator item = [item] := fun item hitem => by
    have hsplit := splitOnChar_intercalate (List.cons_ne_nil item [])
      (by simpa using hplain item hitem)
    rwa [String.intercalate_singleton] at hsplit
  rw [List.flatMap_congr hone, List.flatMap_singleton']

end Text

/-! ### One value in several spellings -/

/-- A value by which a filter document may give an item: the text of it, or the integer of 64 bits
that the text is the decimal form of. -/
inductive SpelledItem : String → Json → Prop
  | text (item : String) : SpelledItem item (.string item)
  | integer {n : Int} (fits : Number.Fits n) : SpelledItem (Number.integerText n) (.int n)

/-- The operator takes several items, or two bounds. -/
def Operator.takesItems (op : Operator) : Bool := op.arity == .list || op.arity == .range

namespace SpelledItem

variable {item : String} {value : Json} {kind : Kind}

theorem toOption_read (hspelled : SpelledItem item value) (hkind : kind ∈ Scalar.plainKinds) :
    (Scalar.read kind value).toOption = (Scalar.read kind (.string item)).toOption := by
  cases hspelled with
  | text => rfl
  | integer fits =>
      have hsame := Scalar.ofKind?_integerText hkind fits
      unfold Scalar.read
      dsimp only
      rw [hsame]
      split <;> rfl

theorem readInteger_eq (hspelled : SpelledItem item value) :
    Scalar.readInteger value = Scalar.readInteger (.string item) := by
  cases hspelled with
  | text => rfl
  | integer => exact (Scalar.readInteger_integerText _).symm

theorem toOption_readSingle (hspelled : SpelledItem item value)
    (hkind : kind ∈ Scalar.plainKinds) (op : Operator) :
    (Operand.readSingle op kind value).toOption =
      (Operand.readSingle op kind (.string item)).toOption := by
  have hinteger := congrArg Except.toOption hspelled.readInteger_eq
  have hcontainer : Operand.isContainer value = false := by cases hspelled <;> rfl
  have hread := hspelled.toOption_read hkind
  have hstring := hspelled.toOption_read (show Kind.string ∈ Scalar.plainKinds by decide)
  unfold Operand.readSingle
  cases op.positive
  case year | month | day => exact hinteger
  case exact | gt | gte | lt | lte =>
    dsimp only
    rw [hcontainer]
    exact hread
  all_goals exact hstring

/-- One value has the same operand in both spellings. -/
theorem toOption_readFor (hspelled : SpelledItem item value) (hkind : kind ∈ Scalar.plainKinds)
    {op : Operator} (hone : op.takesItems = false) (elementKind : Kind) :
    (Operand.readFor op kind elementKind value).toOption =
      (Operand.readFor op kind elementKind (.string item)).toOption := by
  unfold Operand.readFor
  cases harity : op.arity with
  | unary | function => rfl
  | list | range => simp [Operator.takesItems, harity] at hone
  | binary =>
      exact Result.toOption_bind_congr (hspelled.toOption_readSingle hkind op) fun _ => rfl

end SpelledItem

/-- Lists whose items are spelled alike are read alike. -/
theorem toOption_mapM_read {items : List String} {values : List Json} {kind : Kind}
    (hspelled : List.Forall₂ SpelledItem items values) (hkind : kind ∈ Scalar.plainKinds) :
    (values.mapM (Scalar.read kind)).toOption =
      ((items.map Json.string).mapM (Scalar.read kind)).toOption := by
  induction hspelled with
  | nil => rfl
  | cons hitem hitems ih =>
      rw [List.map_cons, List.mapM_cons, List.mapM_cons]
      exact Result.toOption_bind_congr (hitem.toOption_read hkind) fun _ =>
        Result.toOption_bind_congr ih fun _ => rfl

/-- On attributes of these kinds, the items of the only operator for lists are values of the
attribute. -/
theorem Operand.itemKind_of_accepts {op : Operator} {kind : Kind} (hlist : op.arity = .list)
    (haccepts : op.accepts kind = true) (hkind : kind ∈ Scalar.plainKinds) (elementKind : Kind) :
    itemKind op kind elementKind = kind := by
  have hamong : ∀ kind ∈ Scalar.plainKinds, ∀ op ∈ Operator.all, op.arity = .list →
      op.accepts kind = true → op.positive = .among := by decide
  rw [itemKind, hamong kind hkind op op.mem_all hlist haccepts]

/-- Several items have the same operand in both spellings. -/
theorem toOption_readFor_items {op : Operator} {kind : Kind} {items : List String}
    {values : List Json} (hspelled : List.Forall₂ SpelledItem items values)
    (hkind : kind ∈ Scalar.plainKinds) (hitems : op.takesItems = true)
    (haccepts : op.accepts kind = true) (elementKind : Kind) :
    (Operand.readFor op kind elementKind (.array values)).toOption =
      (Operand.readFor op kind elementKind (Json.strings items)).toOption := by
  unfold Operand.readFor
  cases harity : op.arity with
  | unary | function | binary => simp [Operator.takesItems, harity] at hitems
  | list =>
      dsimp only
      rw [Operand.itemKind_of_accepts harity haccepts hkind]
      cases hspelled with
      | nil => rfl
      | @cons item value items values hitem hrest =>
          show ((value :: values).mapM (Scalar.read kind) >>= fun read =>
              pure (Operand.many read)).toOption =
            (((item :: items).map Json.string).mapM (Scalar.read kind) >>= fun read =>
              pure (Operand.many read)).toOption
          exact Result.toOption_bind_congr (toOption_mapM_read (.cons hitem hrest) hkind) fun _ =>
            rfl
  | range =>
      -- Anything but two items is refused, whatever they are.
      cases hspelled with
      | nil => rfl
      | @cons low lowValue _ _ hlow hrest =>
          cases hrest with
          | nil => rfl
          | @cons high highValue _ _ hhigh hrest =>
              cases hrest with
              | nil =>
                  show (Scalar.read kind lowValue >>= fun a =>
                      Scalar.read kind highValue >>= fun b =>
                        pure (Operand.between a b)).toOption =
                    (Scalar.read kind (.string low) >>= fun a =>
                      Scalar.read kind (.string high) >>= fun b =>
                        pure (Operand.between a b)).toOption
                  exact Result.toOption_bind_congr (hlow.toOption_read hkind) fun _ =>
                    Result.toOption_bind_congr (hhigh.toOption_read hkind) fun _ => rfl
              | cons => rfl

/-! ### Spellings -/

/-- What is read of a comparison by a key with some items, for each way in which they may be sent.
An operator for one value has one item. -/
inductive Spelling (resource : Resource) (options : Options) (key : String) (op : Operator) :
    List String → Result Filter → Prop
  /-- A parameter with one value. -/
  | parameter {item : String} (one : op.takesItems = false)
      (short : item.utf8ByteSize ≤ maxValueLength) :
      Spelling resource options key op [item]
        (FilterBuilder.readParam resource options key [item])
  /-- A parameter that is repeated for each item. -/
  | repeated {items : List String} (several : op.takesItems = true)
      (plain : ∀ item ∈ items, item ≠ "" ∧ options.separator ∉ item.toList)
      (short : ∀ item ∈ items, item.utf8ByteSize ≤ maxValueLength) :
      Spelling resource options key op items
        (FilterBuilder.readParam resource options key items)
  /-- A parameter whose value holds the items with the separator between them. -/
  | joined {items : List String} (several : op.takesItems = true)
      (plain : ∀ item ∈ items, item ≠ "" ∧ options.separator ∉ item.toList)
      (short : ((String.singleton options.separator).intercalate items).utf8ByteSize ≤
        maxValueLength) :
      Spelling resource options key op items (FilterBuilder.readParam resource options key
        [(String.singleton options.separator).intercalate items])
  /-- An entry of a filter document, in any place of it. -/
  | entry {item : String} {value : Json} (place : String) (one : op.takesItems = false)
      (spelled : SpelledItem item value) :
      Spelling resource options key op [item] (FilterDocument.readLeaf resource place key value)
  /-- An entry with a list of the items. -/
  | entries {items : List String} {values : List Json} (place : String)
      (several : op.takesItems = true) (spelled : List.Forall₂ SpelledItem items values) :
      Spelling resource options key op items
        (FilterDocument.readLeaf resource place key (.array values))

/-- A valid comparison of an attribute by an operator without a chain, with its operand. -/
structure Comparison.Says (c : Comparison) (registry : Registry) (resource : Resource)
    (path : Path) (op : Operator) (operand : Operand) : Prop where
  path : c.path = path
  operator : c.operator = op
  plain : c.function = none
  valid : c.validate registry resource = .ok ()
  operand : ∃ located, registry.locate resource c.param c.path = .ok located ∧
    Operand.ofComparison c located.attr = .ok operand

/-- The value of a comparison with some items, as a parameter gives it. -/
def Operator.valueOf (op : Operator) (items : List String) : Json :=
  if op.takesItems then Json.strings items else .string (items.headD "")

/-- The items of a parameter that is repeated, or cut at the separator. -/
theorem Key.readOperand_items {op : Operator} {values items : List String} {separator : Char}
    (hseveral : op.takesItems = true)
    (hitems : (values.flatMap (Text.splitOnChar separator)).filter (! ·.isEmpty) = items) :
    readOperand op values separator = .ok (Json.strings items) := by
  unfold readOperand
  cases harity : op.arity with
  | unary | binary | function => simp [Operator.takesItems, harity] at hseveral
  | list | range => exact congrArg (fun items => Except.ok (Json.strings items)) hitems

namespace Spelling

variable {registry : Registry} {resource : Resource} {options : Options} {key : String}
  {op : Operator} {items : List String} {read : Result Filter} {path : Path}

/-- The comparison that a parameter gives. -/
theorem readParam_eq {values : List String} {value : Json}
    (hshort : ∀ given ∈ values, given.utf8ByteSize ≤ maxValueLength)
    (hkey : Key.read key = .ok (.comparison path op none))
    (hvalue : Key.readOperand op values options.separator = .ok value) :
    FilterBuilder.readParam resource options key values =
      .ok (.comparison ⟨key, path, op, none, value⟩) := by
  have hlong : values.any (maxValueLength < ·.utf8ByteSize) = false := by
    simpa using hshort
  unfold FilterBuilder.readParam
  rw [hlong, hkey]
  simp only [Listing.valueOperator, Option.bind_none, Option.getD_none, hvalue]
  rfl

/-- Every spelling is read as a comparison of the attribute by the operator, and its value has the
operand that the texts of the items have. -/
theorem exists_comparison (hread : Spelling resource options key op items read)
    (hkey : Key.read key = .ok (.comparison path op none)) {kind : Kind}
    (hkind : kind ∈ Scalar.plainKinds) (elementKind : Kind) :
    ∃ param value, read = .ok (.comparison ⟨param, path, op, none, value⟩) ∧
      (op.accepts kind = true → (Operand.readFor op kind elementKind value).toOption =
        (Operand.readFor op kind elementKind (op.valueOf items)).toOption) := by
  have hone : ∀ item, op.takesItems = false → op.valueOf [item] = .string item :=
    fun item hone => by rw [Operator.valueOf, hone]; rfl
  have hseveral : op.takesItems = true → op.valueOf items = Json.strings items :=
    fun hseveral => if_pos hseveral
  have hkept : (∀ item ∈ items, item ≠ "" ∧ options.separator ∉ item.toList) →
      items.filter (! ·.isEmpty) = items := fun hplain =>
    List.filter_eq_self.2 fun item hitem => by simpa using (hplain item hitem).1
  cases hread with
  | @parameter item one short =>
      have hvalue : ∃ value, Key.readOperand op [item] options.separator = .ok value ∧
          Operand.readFor op kind elementKind value =
            Operand.readFor op kind elementKind (.string item) := by
        unfold Key.readOperand Operand.readFor
        cases harity : op.arity with
        | list | range => simp [Operator.takesItems, harity] at one
        | unary | binary | function => exact ⟨_, rfl, rfl⟩
      obtain ⟨value, hgiven, hoperand⟩ := hvalue
      exact ⟨key, value, readParam_eq (by simpa using short) hkey hgiven,
        fun _ => by rw [hone item one, hoperand]⟩
  | repeated several plain short =>
      have hcut : (items.flatMap (Text.splitOnChar options.separator)).filter (! ·.isEmpty) =
          items := by
        rw [Text.flatMap_splitOnChar fun item hitem => (plain item hitem).2, hkept plain]
      have hgiven := Key.readOperand_items several hcut
      exact ⟨key, _, readParam_eq short hkey hgiven, fun _ => by rw [hseveral several]⟩
  | joined several plain short =>
      have hcut : ([(String.singleton options.separator).intercalate items].flatMap
          (Text.splitOnChar options.separator)).filter (! ·.isEmpty) = items := by
        rw [List.flatMap_singleton]
        -- Without items there is the empty text, which is no item.
        by_cases hnone : items = []
        · subst hnone
          rfl
        · rw [Text.splitOnChar_intercalate hnone fun item hitem => (plain item hitem).2,
            hkept plain]
      have hgiven := Key.readOperand_items several hcut
      exact ⟨key, _, readParam_eq (by simpa using short) hkey hgiven,
        fun _ => by rw [hseveral several]⟩
  | @entry item value place one spelled =>
      refine ⟨place, value, by rw [FilterDocument.readLeaf, hkey], fun _ => ?_⟩
      rw [hone item one]
      exact spelled.toOption_readFor hkind one elementKind
  | @entries _ values place several spelled =>
      refine ⟨place, .array values, by rw [FilterDocument.readLeaf, hkey], fun haccepts => ?_⟩
      rw [hseveral several]
      exact toOption_readFor_items spelled hkind several haccepts elementKind

/-- A comparison without a chain says what it has an operand for, if its attribute accepts the
operator. -/
theorem says_of_readFor {c : Comparison} {located : Located} {operand : Operand}
    (hlocate : registry.locate resource c.param c.path = .ok located) (hplain : c.function = none)
    (haccepts : c.operator.accepts located.attr.kind = true)
    (hread : Operand.readFor c.operator located.attr.kind located.attr.elementKind c.value =
      .ok operand) : c.Says registry resource c.path c.operator operand := by
  have hoperand : Operand.ofComparison c located.attr = .ok operand := by
    rw [Operand.ofComparison, hplain]
    dsimp only
    rw [hread]
  refine ⟨rfl, rfl, hplain, ?_, located, hlocate, hoperand⟩
  unfold Comparison.validate
  rw [hlocate]
  show (if _ then _ else Operand.ofComparison c located.attr >>= fun _ => _) = _
  rw [haccepts, hoperand]
  rfl

/-- All spellings of a comparison are of the same attribute by the same operator with the same
operand, or no spelling of it is accepted. -/
theorem agree (options : Options) (items : List String) {located : Located}
    (hkey : Key.read key = .ok (.comparison path op none))
    (hlocate : registry.locate resource key path = .ok located)
    (hkind : located.attr.kind ∈ Scalar.plainKinds) :
    (∃ operand, ∀ read, Spelling resource options key op items read →
      ∃ c, read = .ok (.comparison c) ∧ c.Says registry resource path op operand) ∨
    ∀ read, Spelling resource options key op items read → ∀ leaf, read = .ok leaf →
      leaf.validateLeaf registry resource ≠ .ok () := by
  have hfound : ∀ param, registry.locate resource param path = .ok located := fun param => by
    rw [← Result.toOption_eq_some, registry.toOption_locate resource param key path, hlocate]
    rfl
  -- What decides is the operand of the texts of the items, if there is one.
  by_cases haccepted : op.accepts located.attr.kind = true ∧ ∃ operand,
      (Operand.readFor op located.attr.kind located.attr.elementKind (op.valueOf items)).toOption =
        some operand
  · obtain ⟨haccepts, operand, hoperand⟩ := haccepted
    refine .inl ⟨operand, fun read hread => ?_⟩
    obtain ⟨param, value, rfl, hsame⟩ :=
      hread.exists_comparison hkey hkind located.attr.elementKind
    refine ⟨_, rfl, says_of_readFor (hfound param) rfl haccepts ?_⟩
    exact Result.toOption_eq_some.1 ((hsame haccepts).trans hoperand)
  · refine .inr fun read hread leaf hleaf hvalid => haccepted ?_
    obtain ⟨param, value, rfl, hsame⟩ :=
      hread.exists_comparison hkey hkind located.attr.elementKind
    cases hleaf
    obtain ⟨located', operand, hlocate', haccepts, hoperand⟩ := Comparison.validate_eq_ok hvalid
    cases (hfound param).symm.trans hlocate'
    refine ⟨haccepts, operand, (hsame haccepts).symm.trans ?_⟩
    exact Result.toOption_eq_some.2 (Operand.readFor_of_ofComparison rfl hoperand)

end Spelling

/-! ### Requests of one comparison -/

/-- The request that has a filter and nothing else. -/
def Request.ofLeaf (resource : Resource) (options : Options) (leaf : Filter) : Request where
  filter := some leaf
  paging := { limit := Paging.effectiveLimit none resource options }

namespace Request

variable {registry : Registry} {resource : Resource} {options : Options}

theorem validate_ofLeaf {leaf : Filter} (hleaf : leaf.leaves = [leaf]) :
    (ofLeaf resource options leaf).validate registry resource = .ok () ↔
      leaf.validateLeaf registry resource = .ok () := by
  show (leaf.forEachLeaf (Filter.validateLeaf registry resource) >>= fun _ =>
    (pure () : Result Unit)) = .ok () ↔ _
  rw [Filter.forEachLeaf_eq, hleaf]
  show ((leaf.validateLeaf registry resource >>= fun _ => pure ()) >>= fun _ =>
    (pure () : Result Unit)) = .ok () ↔ _
  cases leaf.validateLeaf registry resource with
  | error error => exact Iff.rfl
  | ok => exact Iff.rfl

/-- A repeated parameter is one group of values. -/
theorem grouped_map (key : String) {values : List String} (hvalues : values ≠ []) :
    (Params.mk (values.map (key, ·))).grouped = [(key, values)] := by
  have hmore : ∀ more before : List String, (more.map (key, ·)).foldl
      (fun groups pair => Params.addValue pair.1 pair.2 groups) [(key, before)] =
        [(key, before ++ more)] := by
    intro more
    induction more with
    | nil => simp
    | cons value more ih =>
        intro before
        rw [List.map_cons, List.foldl_cons, Params.addValue, if_pos rfl, ih]
        simp
  cases values with
  | nil => exact absurd rfl hvalues
  | cons value values => exact hmore values [value]

/-- The request of one parameter that is not reserved. -/
theorem ofParams_parameter {key : String} (hkey : Param.isReserved key = false)
    {values : List String} (hvalues : values ≠ []) :
    ofParams ⟨values.map (key, ·)⟩ resource options =
      (FilterBuilder.readParam resource options key values).map (ofLeaf resource options) := by
  unfold ofParams
  rw [grouped_map key hvalues]
  show ((RequestTexts.add {} resource options key values >>= fun texts => pure texts) >>=
    fun texts => texts.read resource options) = _
  rw [RequestTexts.add_of_not_reserved _ hkey]
  unfold FilterBuilder.addParam
  cases FilterBuilder.readParam resource options key values with
  | error error => rfl
  | ok leaf => rfl

/-- The request of a filter document with one entry. -/
theorem ofParams_document {text key : String} {value : Json}
    (htext : Json.read? text = some (.object [(key, value)]))
    (hkey : Connective.ofKey? key = none) :
    ofParams ⟨[(Param.search, text)]⟩ resource options =
      (FilterDocument.readLeaf resource (FilterDocument.entryPlace Param.search key) key value).map
        (ofLeaf resource options) := by
  show ((RequestTexts.add {} resource options Param.search [text] >>= fun texts => pure texts) >>=
    fun texts => texts.read resource options) = _
  rw [RequestTexts.add_search]
  have hread : FilterDocument.read resource text =
      (FilterDocument.readLeaf resource (FilterDocument.entryPlace Param.search key) key value).map
        some := by
    unfold FilterDocument.read
    rw [htext]
    dsimp only
    rw [FilterDocument.readEntries, FilterDocument.readEntries, hkey]
    cases FilterDocument.readLeaf resource (FilterDocument.entryPlace Param.search key) key value with
    | error error => rfl
    | ok leaf => rfl
  unfold FilterBuilder.addDocument
  rw [List.foldlM_cons, hread]
  cases FilterDocument.readLeaf resource (FilterDocument.entryPlace Param.search key) key value with
  | error error => rfl
  | ok leaf => rfl

end Request

/-- The parameters of a request that consists of one comparison by a key with some items. -/
inductive Sent (options : Options) (key : String) (op : Operator) : List String → Params → Prop
  /-- A parameter with one value. -/
  | parameter {item : String} (one : op.takesItems = false)
      (short : item.utf8ByteSize ≤ maxValueLength) : Sent options key op [item] ⟨[(key, item)]⟩
  /-- A parameter that is repeated for each item. -/
  | repeated {items : List String} (several : op.takesItems = true) (nonempty : items ≠ [])
      (plain : ∀ item ∈ items, item ≠ "" ∧ options.separator ∉ item.toList)
      (short : ∀ item ∈ items, item.utf8ByteSize ≤ maxValueLength) :
      Sent options key op items ⟨items.map (key, ·)⟩
  /-- A parameter whose value holds the items with the separator between them. -/
  | joined {items : List String} (several : op.takesItems = true)
      (plain : ∀ item ∈ items, item ≠ "" ∧ options.separator ∉ item.toList)
      (short : ((String.singleton options.separator).intercalate items).utf8ByteSize ≤
        maxValueLength) :
      Sent options key op items ⟨[(key, (String.singleton options.separator).intercalate items)]⟩
  /-- A filter document with one entry. -/
  | entry {item text : String} {value : Json} (one : op.takesItems = false)
      (spelled : SpelledItem item value)
      (document : Json.read? text = some (.object [(key, value)])) :
      Sent options key op [item] ⟨[(Param.search, text)]⟩
  /-- A filter document with one entry, which is a list of the items. -/
  | entries {items : List String} {text : String} {values : List Json}
      (several : op.takesItems = true) (spelled : List.Forall₂ SpelledItem items values)
      (document : Json.read? text = some (.object [(key, .array values)])) :
      Sent options key op items ⟨[(Param.search, text)]⟩

section Requests

variable {registry : Registry} {resource : Resource} {options : Options} {key : String}
  {op : Operator} {items : List String} {path : Path}

/-- A request of one comparison is read as the comparison in that spelling. -/
theorem Sent.exists_spelling (resource : Resource) {params : Params}
    (hsent : Sent options key op items params) (hreserved : Param.isReserved key = false)
    (hword : Connective.ofKey? key = none) :
    ∃ read, Spelling resource options key op items read ∧
      Request.ofParams params resource options = read.map (Request.ofLeaf resource options) := by
  cases hsent with
  | @parameter item one short =>
      exact ⟨_, .parameter one short, Request.ofParams_parameter hreserved (List.cons_ne_nil item [])⟩
  | repeated several nonempty plain short =>
      exact ⟨_, .repeated several plain short, Request.ofParams_parameter hreserved nonempty⟩
  | joined several plain short =>
      exact ⟨_, .joined several plain short,
        Request.ofParams_parameter hreserved (List.cons_ne_nil _ [])⟩
  | entry one spelled document =>
      exact ⟨_, .entry _ one spelled, Request.ofParams_document document hword⟩
  | entries several spelled document =>
      exact ⟨_, .entries _ several spelled, Request.ofParams_document document hword⟩

/-- A comparison by a key without a chain of functions, of an attribute of a kind of its own, means
the same in every spelling, or none of them is accepted: in any place of a filter where it is read,
and in a request that consists of it. -/
theorem Comparison.spellings_agree {located : Located}
    (hkey : Key.read key = .ok (.comparison path op none))
    (hreserved : Param.isReserved key = false) (hword : Connective.ofKey? key = none)
    (hlocate : registry.locate resource key path = .ok located)
    (hkind : located.attr.kind ∈ Scalar.plainKinds) :
    (∃ operand,
      (∀ read, Spelling resource options key op items read → ∃ c, read = .ok (.comparison c) ∧
        c.Says registry resource path op operand) ∧
      ∀ params, Sent options key op items params → ∃ request c,
        Request.ofParams params resource options = .ok request ∧
          request.validate registry resource = .ok () ∧ request.filter = some (.comparison c) ∧
            c.Says registry resource path op operand) ∨
    (∀ read, Spelling resource options key op items read → ∀ leaf, read = .ok leaf →
        leaf.validateLeaf registry resource ≠ .ok ()) ∧
      ∀ params, Sent options key op items params → ∀ request,
        Request.ofParams params resource options = .ok request →
          request.validate registry resource ≠ .ok () := by
  rcases Spelling.agree options items hkey hlocate hkind with ⟨operand, hsays⟩ | hrefused
  · refine .inl ⟨operand, hsays, fun params hsent => ?_⟩
    obtain ⟨read, hspelled, hread⟩ := hsent.exists_spelling resource hreserved hword
    obtain ⟨c, rfl, hc⟩ := hsays read hspelled
    exact ⟨_, c, hread, (Request.validate_ofLeaf rfl).2 hc.valid, rfl, hc⟩
  · refine .inr ⟨hrefused, fun params hsent request hrequest hvalid => ?_⟩
    obtain ⟨read, hspelled, hread⟩ := hsent.exists_spelling resource hreserved hword
    obtain ⟨param, value, rfl, -⟩ :=
      hspelled.exists_comparison hkey hkind located.attr.elementKind
    cases hread.symm.trans hrequest
    exact hrefused _ hspelled _ rfl ((Request.validate_ofLeaf rfl).1 hvalid)

end Requests

namespace Tickets

/-- Tickets with a number. -/
def resource : Resource where
  name := "ticket"
  storage := "tickets"
  attributes := [{ name := "number", kind := .numeric }]

def registry : Registry := { entries := [⟨resource, .searchIndex⟩] }

def byNumber : String := "number__in"

/-- The tickets 7 and 12, in one value with a comma. -/
def joined : Params := ⟨[(byNumber, "7,12")]⟩

/-- The tickets 7 and 12, one as a number and one as a text in a filter document. -/
def document : Params := ⟨[(Param.search, "\x7b\"number__in\":[7,\"12\"]\x7d")]⟩

/-- What the first of them is read as. -/
def asked : Filter :=
  .comparison ⟨byNumber, ⟨[], "number"⟩, .among, none, Json.strings ["7", "12"]⟩

/-- Both ask for the same tickets. -/
theorem spellings_agree_seven_twelve : ∃ operand, ∀ params ∈ [joined, document],
    ∃ request c, Request.ofParams params resource {} = .ok request ∧
      request.validate registry resource = .ok () ∧ request.filter = some (.comparison c) ∧
        c.Says registry resource ⟨[], "number"⟩ .among operand := by
  have hjoined : Sent {} byNumber .among ["7", "12"] joined :=
    .joined rfl (by decide) (by decide +kernel)
  have hseven : SpelledItem (Number.integerText 7) (.int 7) := .integer (.inl (by decide))
  rw [show Number.integerText 7 = "7" by decide] at hseven
  have hdocument : Sent {} byNumber .among ["7", "12"] document :=
    .entries rfl (.cons hseven (.cons (.text "12") .nil)) rfl
  have hkey : Key.read byNumber = .ok (.comparison ⟨[], "number"⟩ .among none) := rfl
  have hlocate : registry.locate resource byNumber ⟨[], "number"⟩ =
      .ok ⟨{ name := "number", kind := .numeric }, resource, []⟩ := rfl
  rcases Comparison.spellings_agree hkey rfl rfl hlocate (by decide) with
    ⟨operand, -, hsays⟩ | ⟨-, hrefused⟩
  · refine ⟨operand, fun params hparams => ?_⟩
    simp only [List.mem_cons, List.not_mem_nil, or_false] at hparams
    rcases hparams with rfl | rfl
    · exact hsays _ hjoined
    · exact hsays _ hdocument
  · have hread : Request.ofParams joined resource {} = .ok (Request.ofLeaf resource {} asked) := by
      rfl
    have hvalid : (Request.ofLeaf resource {} asked).validate registry resource = .ok () := by
      rfl
    exact absurd hvalid (hrefused _ hjoined _ hread)

end Tickets
end Listing
