/-
# Spellings of an order

An order can be written as a list with commas between its items or as a JSON array of texts, and it
can be spread over several values of the parameter, each of them in either form. A descending item
has a minus sign in front; an ascending one may have a plus sign. The two forms are trimmed and cut
by different rules, but of plain names, without commas and blanks around them and without a sign or
a bracket in front, each form gives back what was written, and one value after the other adds its
items at the end. So all spellings read as the same order, and an order of plain names can be
written again.
-/
import Listing.Proofs.RouteNames
import Listing.Proofs.TextArrays
import Listing.Proofs.TotalsSpellings

namespace Listing

namespace Path

/-- A text without empty segments is read as the path of its segments. -/
theorem exists_read? {text : String} (hsegments : ∀ s ∈ splitText text, s ≠ "") :
    ∃ p, read? text = some p ∧ p.segments = splitText text := by
  have hany : (splitText text).any String.isEmpty = false := by
    rw [List.any_eq_false]
    exact fun s hs => by simpa using hsegments s hs
  have hpieces : splitText text ≠ [] := by simpa [splitText] using cut_ne_nil text.toList
  obtain ⟨last, hlast⟩ := Option.isSome_iff_exists.1 (List.getLast?_isSome.2 hpieces)
  have hread : read? text = some ⟨(splitText text).dropLast, last⟩ := by
    simp [read?, ofSegments?, hany, hlast]
  exact ⟨_, hread, (segments_of_ofSegments? hread).1⟩

end Path

namespace Order

/-- A text that names an attribute to sort by: it is a path without empty segments, it can stand
between commas, and it does not begin with what would be read as a sign or as an array. -/
structure IsName (text : String) : Prop where
  segments : ∀ s ∈ Path.splitText text, s ≠ ""
  comma : ',' ∉ text.toList
  trimmed : Text.trim text = text
  head : ∀ c ∈ text.toList.head?, c ≠ '-' ∧ c ≠ '+' ∧ c ≠ '['

/-- What is asked for by one item: a direction, and an attribute by the text of its path. -/
structure Sought where
  direction : Direction
  name : String
  deriving DecidableEq

/-- What an item of an order asks for. -/
def sought (item : OrderItem) : Sought := ⟨item.direction, item.path.label⟩

/-- An item with a sign only if it is descending. -/
def Sought.text (item : Sought) : String :=
  match item.direction with
  | .ascending => item.name
  | .descending => "-" ++ item.name

/-- Items in one list. -/
def listText (items : List Sought) : String := ",".intercalate (items.map Sought.text)

/-- Items in one array. -/
def arrayText (items : List Sought) : String := (Json.strings (items.map Sought.text)).render

/-- The ways to write an item. -/
inductive SpelledItem : Sought → String → Prop
  | descending (name : String) : SpelledItem ⟨.descending, name⟩ ("-" ++ name)
  | ascending (name : String) : SpelledItem ⟨.ascending, name⟩ name
  | signed (name : String) : SpelledItem ⟨.ascending, name⟩ ("+" ++ name)

/-- The ways to write some items in one value. Of an array every JSON text will do. -/
inductive SpelledValue (items : List Sought) : String → Prop
  | list {texts : List String} (spelled : List.Forall₂ SpelledItem items texts) :
      SpelledValue items (",".intercalate texts)
  | array {value : String} {texts : List String} (spelled : List.Forall₂ SpelledItem items texts)
      (document : Json.read? (Text.trim value) = some (Json.strings texts)) :
      SpelledValue items value

/-- The ways to spread items over values of the parameter. -/
inductive Spelled : List Sought → List String → Prop
  | nil : Spelled [] []
  | cons {items later : List Sought} {value : String} {values : List String}
      (first : SpelledValue items value) (rest : Spelled later values) :
      Spelled (items ++ later) (value :: values)

/-! ### Items -/

section

variable {item : Sought} {text : String}

theorem IsName.nonempty {name : String} (hname : IsName name) : name ≠ "" := by
  rintro rfl
  exact hname.segments "" (by decide) rfl

theorem SpelledItem.isItem (hspelled : SpelledItem item text) (hname : IsName item.name) :
    Text.IsItem text := by
  have hsigned {sign : String} (hcomma : ',' ∉ sign.toList) (htrimmed : Text.trim sign = sign) :
      Text.IsItem (sign ++ item.name) := {
    nonempty := by simp [hname.nonempty]
    comma := by simp [hcomma, hname.comma]
    trimmed := Text.trim_append htrimmed hname.trimmed }
  cases hspelled with
  | descending | signed => exact hsigned (by decide) (by decide)
  | ascending => exact ⟨hname.nonempty, hname.comma, hname.trimmed⟩

/-- No spelling of an item begins like an array. -/
theorem SpelledItem.head?_ne (hspelled : SpelledItem item text) (hname : IsName item.name) :
    text.toList.head? ≠ some '[' := by
  cases hspelled with
  | descending | signed => simp
  | ascending => exact fun hhead => (hname.head '[' hhead).2.2 rfl

theorem splitSign_of_isName {name : String} (hname : IsName name) :
    splitSign name = (.ascending, name) := by
  unfold splitSign
  split
  · rename_i hcs
    exact absurd rfl (hname.head '-' (by simp [hcs])).1
  · rename_i hcs
    exact absurd rfl (hname.head '+' (by simp [hcs])).2.1
  · rfl

/-- However an item is written, its sign is told apart from its name. -/
theorem SpelledItem.splitSign_eq (hspelled : SpelledItem item text) (hname : IsName item.name) :
    splitSign text = (item.direction, item.name) := by
  cases hspelled with
  | descending name | signed name => simp [splitSign]
  | ascending name => exact splitSign_of_isName hname

/-- However an item is written, it is read as what it asks for. -/
theorem SpelledItem.readItem_eq (hspelled : SpelledItem item text) (hname : IsName item.name)
    {path : Path} (hpath : Path.read? item.name = some path) :
    readItem text = .ok ⟨path, item.direction⟩ := by
  have hnonempty : item.name.isEmpty = false := by simpa using hname.nonempty
  simp [readItem, hspelled.splitSign_eq hname, hnonempty, hpath]

end

/-! ### Values -/

section

variable {items : List Sought} {texts : List String} (hnames : ∀ item ∈ items, IsName item.name)
  (hspelled : List.Forall₂ SpelledItem items texts)

include hnames hspelled

theorem isItem_of_spelled : ∀ text ∈ texts, Text.IsItem text := by
  induction hspelled with
  | nil => exact fun _ htext => nomatch htext
  | cons first rest ih =>
      obtain ⟨hname, hrest⟩ := List.forall_mem_cons.1 hnames
      exact List.forall_mem_cons.2 ⟨first.isItem hname, ih hrest⟩

/-- A list of items is not taken for an array. -/
theorem head?_intercalate_ne : (",".intercalate texts).toList.head? ≠ some '[' := by
  cases hspelled with
  | nil => simp
  | @cons item text items texts first rest =>
      obtain ⟨hname, -⟩ := List.forall_mem_cons.1 hnames
      have hhead := first.head?_ne hname
      have hnonempty : text.toList ≠ [] := by simpa using (first.isItem hname).nonempty
      cases texts with
      | nil => rwa [String.intercalate_singleton]
      | cons next texts =>
          rwa [String.intercalate_cons_cons, String.toList_append, String.toList_append,
            List.append_assoc, List.head?_append_of_ne_nil _ hnonempty]

/-- The items that are spelled by texts are read from them. -/
theorem mapM_readItem {order : Order} (horder : order.map sought = items)
    (hread : ∀ item ∈ order, item.path.IsRead) :
    texts.mapM (fun text => readItem (Text.trim text)) = .ok order := by
  induction hspelled generalizing order with
  | nil =>
      rw [List.map_eq_nil_iff.1 horder]
      rfl
  | @cons item text items texts first rest ih =>
      obtain ⟨key, later, rfl, hkey, hlater⟩ := List.map_eq_cons_iff.1 horder
      subst hkey
      obtain ⟨hname, hnames⟩ := List.forall_mem_cons.1 hnames
      obtain ⟨hpath, hread⟩ := List.forall_mem_cons.1 hread
      rw [List.mapM_cons, (first.isItem hname).trimmed, first.readItem_eq hname hpath.read?_label,
        ih hnames hlater hread]
      rfl

end

/-- The texts of a value are found in it, in whichever form it lists them. -/
theorem SpelledValue.readNames_eq {items : List Sought} {value : String}
    (hnames : ∀ item ∈ items, IsName item.name) (hspelled : SpelledValue items value) :
    ∃ texts, List.Forall₂ SpelledItem items texts ∧ readNames value = .ok texts := by
  cases hspelled with
  | @list texts spelled =>
      have hitems := isItem_of_spelled hnames spelled
      have htrim : Text.trim (",".intercalate texts) = ",".intercalate texts :=
        Text.trim_intercalate (by decide) fun text htext => (hitems text htext).trimmed
      refine ⟨texts, spelled, ?_⟩
      unfold readNames
      rw [htrim, if_neg (head?_intercalate_ne hnames spelled), Text.commaItems_intercalate hitems]
  | @array _ texts spelled document =>
      have hbracket := Json.head?_of_read?_array document fun _ => Json.isSpace_head_trim
      have htexts : (texts.map Json.string).mapM Json.asString? = some texts :=
        Json.mapM_asString?_eq_some.2 rfl
      refine ⟨texts, spelled, ?_⟩
      unfold readNames
      dsimp only
      rw [if_pos hbracket, document]
      simp only [Json.strings, Option.bind_some, Json.asArray?, htexts]

/-- Values add their items one after the other. -/
theorem Spelled.read_eq {items : List Sought} {values : List String}
    (hspelled : Spelled items values) {order : Order} (horder : order.map sought = items)
    (hread : ∀ item ∈ order, item.path.IsRead) (hnames : ∀ item ∈ items, IsName item.name) :
    read values = .ok order := by
  induction hspelled generalizing order with
  | nil =>
      rw [List.map_eq_nil_iff.1 horder]
      rfl
  | @cons items later value values first rest ih =>
      obtain ⟨part, more, rfl, hpart, hmore⟩ := List.map_eq_append_iff.1 horder
      obtain ⟨hpartNames, hmoreNames⟩ := List.forall_mem_append.1 hnames
      obtain ⟨hpartRead, hmoreRead⟩ := List.forall_mem_append.1 hread
      obtain ⟨texts, hspelled, hfound⟩ := first.readNames_eq hpartNames
      have hvalue : readValue value = .ok part := by
        rw [readValue, hfound]
        exact mapM_readItem hpartNames hspelled hpart hpartRead
      obtain ⟨parts, hparts, rfl⟩ := Result.map_eq_ok.1 (ih hmore hmoreRead hmoreNames)
      rw [read, List.mapM_cons, hvalue, hparts]
      rfl

/-! ### Reading and writing -/

theorem Sought.spelled_text (item : Sought) : SpelledItem item item.text := by
  obtain ⟨direction, name⟩ := item
  cases direction with
  | ascending => exact .ascending name
  | descending => exact .descending name

theorem forall₂_spelled_text (items : List Sought) :
    List.Forall₂ SpelledItem items (items.map Sought.text) := by
  rw [List.forall₂_map_right_iff, List.forall₂_same]
  exact fun item _ => item.spelled_text

theorem SpelledValue.spelled {items : List Sought} {value : String}
    (hspelled : SpelledValue items value) : Spelled items [value] := by
  simpa using Spelled.cons hspelled .nil

theorem spelled_listText (items : List Sought) : Spelled items [listText items] :=
  (SpelledValue.list (forall₂_spelled_text items)).spelled

theorem spelled_arrayText (items : List Sought) : Spelled items [arrayText items] := by
  refine (SpelledValue.array (forall₂_spelled_text items) ?_).spelled
  rw [arrayText, Json.trim_render_strings, Json.read?_render_strings]

/-- The order that is asked for by items of plain names. -/
theorem exists_order {items : List Sought} (hnames : ∀ item ∈ items, IsName item.name) :
    ∃ order : Order, order.map sought = items ∧ (∀ item ∈ order, item.path.IsRead) ∧
      order.map (fun item => (item.direction, item.path.segments)) =
        items.map (fun item => (item.direction, Path.splitText item.name)) := by
  induction items with
  | nil => exact ⟨[], rfl, by simp, rfl⟩
  | cons item items ih =>
      obtain ⟨hname, hnames⟩ := List.forall_mem_cons.1 hnames
      obtain ⟨path, hpath, hsegments⟩ := Path.exists_read? hname.segments
      obtain ⟨order, horder, hread, hpaths⟩ := ih hnames
      refine ⟨⟨path, item.direction⟩ :: order, ?_, ?_, ?_⟩
      · rw [List.map_cons, horder, sought, Path.label_of_read? hpath]
      · exact List.forall_mem_cons.2 ⟨⟨_, hpath⟩, hread⟩
      · rw [List.map_cons, List.map_cons, hpaths, hsegments]

/-- Items of plain names are read as the same order in one list, in one array, and spread over
values in any of these forms: the order of exactly these paths and directions. An order of plain
names that was read, however it was spelled, is read again from what it is written as. -/
theorem read_spelled :
    (∀ items : List Sought, (∀ item ∈ items, IsName item.name) →
      ∃ order : Order,
        order.map (fun item => (item.direction, item.path.segments)) =
          items.map (fun item => (item.direction, Path.splitText item.name)) ∧
        read [listText items] = .ok order ∧ read [arrayText items] = .ok order ∧
        ∀ values, Spelled items values → read values = .ok order) ∧
    ∀ (values : List String) (order : Order), read values = .ok order →
      (∀ item ∈ order, IsName item.path.label) →
        read [listText (order.map sought)] = .ok order ∧
        read [arrayText (order.map sought)] = .ok order ∧
        ∀ again, Spelled (order.map sought) again → read again = .ok order := by
  constructor
  · intro items hnames
    obtain ⟨order, horder, hread, hpaths⟩ := exists_order hnames
    have hspellings : ∀ values, Spelled items values → read values = .ok order :=
      fun _ hspelled => hspelled.read_eq horder hread hnames
    exact ⟨order, hpaths, hspellings _ (spelled_listText items),
      hspellings _ (spelled_arrayText items), hspellings⟩
  · intro values order hvalues hlabels
    have hnames : ∀ item ∈ order.map sought, IsName item.name := List.forall_mem_map.2 hlabels
    have hspellings : ∀ again, Spelled (order.map sought) again → read again = .ok order :=
      fun _ hspelled => hspelled.read_eq rfl (isRead_of_read hvalues) hnames
    exact ⟨hspellings _ (spelled_listText _), hspellings _ (spelled_arrayText _), hspellings⟩

/-- The highest price first, then by the name of the category. -/
def dearestFirst : List Sought := [⟨.descending, "price"⟩, ⟨.ascending, "category__name"⟩]

theorem read_spelled_dearestFirst :
    (∀ item ∈ dearestFirst, IsName item.name) ∧
    Spelled dearestFirst ["-price", "[ \"+category__name\" ]"] ∧
    ∃ order : Order,
      order.map (fun item => (item.direction, item.path.segments)) =
        [(.descending, ["price"]), (.ascending, ["category", "name"])] ∧
      read ["-price", "[ \"+category__name\" ]"] = .ok order ∧
      read [arrayText dearestFirst] = .ok order ∧ read [listText (order.map sought)] = .ok order := by
  have hprice : IsName "price" :=
    ⟨by decide, by decide, by decide, by rintro c ⟨⟩; decide⟩
  have hcategory : IsName "category__name" :=
    ⟨by decide, by decide, by decide, by rintro c ⟨⟩; decide⟩
  have hnames : ∀ item ∈ dearestFirst, IsName item.name := by simp [dearestFirst, hprice, hcategory]
  have hspelled : Spelled dearestFirst ["-price", "[ \"+category__name\" ]"] :=
    .cons (.list (.cons (.descending "price") .nil))
      (.cons (.array (.cons (.signed "category__name") .nil) (by cbv)) .nil)
  obtain ⟨order, hpaths, hlist, harray, hspellings⟩ := read_spelled.1 dearestFirst hnames
  have hread := hspellings _ hspelled
  have hlabels : ∀ item ∈ order, IsName item.path.label := by
    intro item hitem
    have hpath := List.mem_map_of_mem (f := fun item => (item.direction, item.path.segments)) hitem
    rw [hpaths] at hpath
    obtain ⟨asked, hasked, heq⟩ := List.mem_map.1 hpath
    have hsegments : Path.splitText asked.name = item.path.segments := congrArg Prod.snd heq
    rw [Path.label, ← hsegments, Path.joinText_splitText]
    exact hnames asked hasked
  obtain ⟨hagain, -⟩ := read_spelled.2 _ order hread hlabels
  exact ⟨hnames, hspelled, order, hpaths, hread, harray, hagain⟩

end Order
end Listing
