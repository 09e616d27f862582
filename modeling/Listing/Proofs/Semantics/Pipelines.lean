/-
# The meaning of pipelines

A store holds the documents of every collection. The stages of a pipeline run one after the other,
each on all the documents that the one before it left. A sort may arrange them in any way, so what
holds of every arrangement holds for every order.

A path leads through objects, and through every object of a list. A lookup compares all values at
the ends of its two paths. A list at an end stands for its items, and null stands for a missing
value. What was found is put under a label; a label is one field of the document and not a path.

When two values are equal, and which documents a filter keeps, is left to the store. Stages that
only totals have are not described here.
-/
import Listing.Document.Stage
import Listing.Text.Blank

namespace Listing.Document

/-- A document: its fields with their values. -/
abbrev Doc := List (String × Json)

/-- What pipelines run on. -/
structure Store where
  documents : String → List Doc
  /-- Whether two values are found equal. -/
  equal : Json → Json → Bool
  /-- Whether a filter keeps a document. -/
  passes : Filter → Doc → Bool

/-- The names on a path, from the outside. -/
def pathNames (path : String) : List String := Text.splitOnChar '.' path

/-- The values at the end of a path. -/
def valuesAt : List String → Json → List Json
  | [], .array items => items
  | [], v => [v]
  | name :: names, .array items =>
    items.flatMap fun item => valuesAt names ((item.get? name).getD .null)
  | name :: names, v => valuesAt names ((v.get? name).getD .null)

/-- The values of a document by which a lookup compares it. -/
def keysAt (path : String) (d : Doc) : List Json := valuesAt (pathNames path) (.object d)

/-- A document without some of its fields. -/
def without (names : List String) (d : Doc) : Doc := d.filter fun entry => entry.1 ∉ names

/-- The documents that unwinding a field makes of one. -/
def unwound (name : String) (keepEmpty : Bool) (d : Doc) : List Doc :=
  match d.lookup name with
  | some (.array []) => if keepEmpty then [without [name] d] else []
  | some (.array items) => items.map fun item => insertEntry name item d
  | some .null | none => if keepEmpty then [d] else []
  | some _ => [d]

/-- The number of documents as a document; where there are none, there is no such document. -/
def counted (label : String) (docs : List Doc) : List Doc :=
  if docs.isEmpty then [] else [[(label, .int docs.length)]]

namespace Store

variable (store : Store)

/-- The documents of a collection that have one of some keys. -/
def related (collection foreignField : String) (keys : List Json) : List Doc :=
  (store.documents collection).filter fun d =>
    keys.any fun x => (keysAt foreignField d).any (store.equal x)

/-- A stage leaves `out` of the documents `docs`. -/
def Leaves : Stage → List Doc → List Doc → Prop
  | .lookup collection localField foreignField label, docs, out =>
    out = docs.map fun d => insertEntry label (.array
      ((store.related collection foreignField (keysAt localField d)).map .object)) d
  | .unwind name keepEmpty, docs, out => out = docs.flatMap (unwound name keepEmpty)
  | .keep filter, docs, out => out = docs.filter (store.passes filter)
  | .sort _, docs, out => out.Perm docs
  | .skip n, docs, out => out = docs.drop n
  | .limit n, docs, out => out = docs.take n
  | .unset names, docs, out => out = docs.map (without names)
  | .count label, docs, out => out = counted label docs
  | .group .., _, _ | .lengths _, _, _ | .project _, _, _ | .promote _, _, _ => False

/-- Stages leave `out` of the documents `docs`, one after the other. -/
def Runs : List Stage → List Doc → List Doc → Prop
  | [], docs, out => out = docs
  | stage :: stages, docs, out => ∃ between, store.Leaves stage docs between ∧
    Runs stages between out

/-- No two documents of a collection have the same key. -/
def IsUnique (collection field : String) : Prop :=
  ∀ key, (store.related collection field [key]).length ≤ 1

variable {store}

theorem runs_single {stage : Stage} {docs out : List Doc} :
    store.Runs [stage] docs out ↔ store.Leaves stage docs out := by
  constructor
  · rintro ⟨between, hleaves, rfl⟩
    exact hleaves
  · intro hleaves
    exact ⟨out, hleaves, rfl⟩

theorem runs_append {stages more : List Stage} {docs out : List Doc} :
    store.Runs (stages ++ more) docs out ↔
      ∃ between, store.Runs stages docs between ∧ store.Runs more between out := by
  induction stages generalizing docs with
  | nil => simp [Runs]
  | cons stage stages ih =>
      simp only [List.cons_append, Runs, ih]
      constructor
      · rintro ⟨first, hfirst, between, hstages, hmore⟩
        exact ⟨between, ⟨first, hfirst, hstages⟩, hmore⟩
      · rintro ⟨between, ⟨first, hfirst, hstages⟩, hmore⟩
        exact ⟨first, hfirst, between, hstages, hmore⟩

/-- With unique keys, at most one document has a single key. -/
theorem length_related_le_one {collection field : String} (hunique : store.IsUnique collection field)
    {keys : List Json} (hkeys : keys.length ≤ 1) :
    (store.related collection field keys).length ≤ 1 := by
  match keys, hkeys with
  | [], _ =>
      have hnone : store.related collection field [] = [] := by simp [related]
      simp [hnone]
  | [key], _ => exact hunique key

end Store

theorem without_cons (names : List String) (entry : String × Json) (d : Doc) :
    without names (entry :: d) =
      if entry.1 ∈ names then without names d else entry :: without names d := by
  by_cases hentry : entry.1 ∈ names <;> simp [without, hentry]

/-- A field that is not taken away keeps its value. -/
theorem lookup_without_of_not_mem {name : String} {names : List String} (hname : name ∉ names)
    (d : Doc) : (without names d).lookup name = d.lookup name := by
  induction d with
  | nil => rfl
  | cons entry d ih =>
      rw [without_cons, List.lookup_cons]
      split
      · rename_i hentry
        have hne : (name == entry.1) = false := by
          rw [beq_eq_false_iff_ne]
          rintro rfl
          exact hname hentry
        rw [hne, ih]
      · rw [List.lookup_cons, ih]

/-- A field that is taken away has no value. -/
theorem lookup_without_self (name : String) (d : Doc) : (without [name] d).lookup name = none := by
  rw [List.lookup_eq_none_iff]
  intro entry hentry
  have hother : entry.1 ∉ [name] := of_decide_eq_true (List.mem_filter.1 hentry).2
  rw [bne_iff_ne]
  exact fun hname => hother (hname ▸ List.mem_singleton_self name)

@[simp] theorem without_nil (d : Doc) : without [] d = d := by simp [without]

/-- Taking a field away does not depend on its value. -/
theorem without_insertEntry (name : String) (v : Json) (d : Doc) :
    without [name] (insertEntry name v d) = without [name] d := by
  induction d with
  | nil => simp [without, insertEntry]
  | cons entry d ih =>
      obtain ⟨other, w⟩ := entry
      by_cases hother : other = name <;> simp [without_cons, insertEntry, hother, ih]

/-- A second value of a field takes the place of the first. -/
theorem insertEntry_insertEntry (name : String) (v w : Json) (d : Doc) :
    insertEntry name w (insertEntry name v d) = insertEntry name w d := by
  induction d with
  | nil => simp [insertEntry]
  | cons entry d ih =>
      obtain ⟨other, x⟩ := entry
      by_cases hother : other = name <;> simp [insertEntry, hother, ih]

/-- Unwinding a list that was put under a name leaves one document for every item, and the document
without the field where there is no item. -/
theorem unwound_insertEntry (name : String) (items : List Json) (d : Doc) :
    unwound name true (insertEntry name (.array items) d) =
      if items.isEmpty then [without [name] d]
      else items.map fun item => insertEntry name item d := by
  rw [unwound, lookup_insertEntry_self]
  cases items with
  | nil => simp [without_insertEntry]
  | cons item items => simp [insertEntry_insertEntry]

section Paths

/-- A cut separates what is in front of it, if there is no other cut in it. -/
theorem splitWhere_append {cut : Char → Bool} {front : List Char}
    (hfront : ∀ c ∈ front, cut c = false) {separator : Char} (hcut : cut separator = true)
    (rest : List Char) : Text.splitWhere cut (front ++ separator :: rest) =
      front :: Text.splitWhere cut rest := by
  induction front with
  | nil => simp [Text.splitWhere, hcut]
  | cons c front ih =>
      have hrest := ih fun other hother => hfront other (List.mem_cons_of_mem c hother)
      simp [Text.splitWhere, hfront c List.mem_cons_self, hrest, Text.growFirst]

theorem pathNames_append {label : String} (hlabel : '.' ∉ label.toList) (path : String) :
    pathNames (label ++ "." ++ path) = label :: pathNames path := by
  have hplain : ∀ c ∈ label.toList, (c == '.') = false := by
    intro c hc
    rw [beq_eq_false_iff_ne]
    rintro rfl
    exact hlabel hc
  have hchars : (label ++ "." ++ path).toList = label.toList ++ '.' :: path.toList := by simp
  rw [pathNames, Text.splitOnChar, hchars, splitWhere_append hplain rfl]
  simp [pathNames, Text.splitOnChar]

/-- The field of a document in which a path begins. -/
def firstName (path : String) : String := (pathNames path).headD ""

theorem exists_pathNames (path : String) : ∃ rest, pathNames path = firstName path :: rest := by
  cases hnames : pathNames path with
  | nil =>
      rw [pathNames, Text.splitOnChar, List.map_eq_nil_iff] at hnames
      exact absurd hnames (Text.splitWhere_ne_nil _ _)
  | cons name rest => exact ⟨rest, by rw [firstName, hnames]; rfl⟩

/-- The keys of a document depend only on the field in which their path begins. -/
theorem keysAt_congr {path : String} {d d' : Doc}
    (hsame : d.lookup (firstName path) = d'.lookup (firstName path)) :
    keysAt path d = keysAt path d' := by
  obtain ⟨rest, hnames⟩ := exists_pathNames path
  simp only [keysAt, hnames, valuesAt, Json.get?, hsame]

theorem valuesAt_null (names : List String) : valuesAt names .null = [.null] := by
  induction names with
  | nil => rfl
  | cons name names ih => rw [valuesAt, Json.get?, Option.getD_none, ih] <;> simp

/-- Below a label are the values of what was put there. -/
theorem keysAt_append {label : String} (hlabel : '.' ∉ label.toList) (path : String) (d : Doc) :
    keysAt (label ++ "." ++ path) d =
      valuesAt (pathNames path) ((d.lookup label).getD .null) := by
  rw [keysAt, pathNames_append hlabel, valuesAt]
  · rfl
  · simp

end Paths
end Listing.Document
