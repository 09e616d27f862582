/-
# Loading related rows for a page and row by row

Both ways to load a relation should put the same rows into a page. Row by row, the database alone
decides which rows are related. For a whole page, the rows that the database finds for all keys
together are shared out by the normal form of their keys. The two agree for every related table
exactly if the normal form respects the equality of the database: keys of the page with one normal
form must be equal to the same values, and a value that is equal to a key must have its normal
form.

Nothing is assumed of that equality but what a database says of two texts and of two integers. The
normal form does not respect it on every page: texts that read as one integer are different texts.
-/
import Listing.Proofs.Refusal
import Listing.Proofs.Support.Numerals
import Listing.Sql.Execution

namespace Listing

namespace Sql

/-- How a database decides that the key of a related row equals a bound key: a text equals only the
same text, an integer only the same integer, and what is null equals nothing. -/
structure KeyEquality where
  equal : Scalar → Scalar → Bool
  text (s t : String) : equal (.text s) (.text t) = (s == t)
  int (m n : Int) : equal (.int m) (.int n) = (m == n)
  null (key : Scalar) : equal key .null = false

namespace KeyEquality

variable (equality : KeyEquality)

/-- The key of a record in a column equals a bound key. -/
def hasKey (column : String) (key : Scalar) (r : Record) : Bool :=
  (r.toRow.lookup column).any fun value => equality.equal key (Scalar.ofJson value)

theorem hasKey_eq_true {column : String} {key : Scalar} {r : Record} :
    equality.hasKey column key r = true ↔ ∃ value, r.toRow.lookup column = some value ∧
      equality.equal key (Scalar.ofJson value) = true := by
  rw [hasKey, Option.any_eq_true]

/-- The answer to a statement that selects the records of a table by some keys: the records whose
key equals one of them, in any order that leaves those with one key as they stand in the table. -/
structure Answers (column : String) (table : List Record) (keys : List Scalar)
    (records : List Record) : Prop where
  perm : records.Perm (table.filter fun r => keys.any fun key => equality.hasKey column key r)
  stable : ∀ key ∈ keys, records.filter (equality.hasKey column key) =
    table.filter (equality.hasKey column key)

/-- A connection that answers the statements of a load from a table. -/
def Serves (load : EagerLoad) (table : List Record) (send : Connection Id) : Prop :=
  ∀ keys, ∃ records, send (load.statement keys) = pure records ∧
    equality.Answers load.foreignKey table keys records

/-- The connection to a database with one table, whose answers are in the order of the table. -/
def connection (table : List Record) : Connection Id
  | .select { restriction := .holds (.among (.ownColumn column) values), .. } =>
    pure (table.filter fun r => values.any fun
      | .scalar key => equality.hasKey column key r
      | _ => false)
  | _ => throw .noAnswer

theorem serves_connection (load : EagerLoad) (table : List Record) :
    equality.Serves load table (equality.connection table) := by
  intro keys
  refine ⟨table.filter fun r => keys.any fun key => equality.hasKey load.foreignKey key r, ?_,
    .refl _, fun key hkey => ?_⟩
  · simp [EagerLoad.statement, connection, List.any_map, Function.comp_def]
  · rw [List.filter_filter]
    refine List.filter_congr fun r _ => ?_
    by_cases hr : equality.hasKey load.foreignKey key r = true
    · have hany : (keys.any fun key => equality.hasKey load.foreignKey key r) = true :=
        List.any_eq_true.2 ⟨key, hkey, hr⟩
      rw [hr, hany]
      rfl
    · simp [hr]

end KeyEquality

/-- The keys of rows in a column, with their normal forms; null is none. -/
def keyed (column : String) (rows : List Row) : Row :=
  rows.filterMap fun row => do
    let value ← row.lookup column
    return (← relationKey? value, value)

theorem mem_keyed {column : String} {rows : List Row} {form : String} {key : Json} :
    (form, key) ∈ keyed column rows ↔
      ∃ row ∈ rows, row.lookup column = some key ∧ relationKey? key = some form := by
  rw [keyed, List.mem_filterMap]
  refine exists_congr fun row => and_congr_right fun _ => ?_
  constructor
  · intro h
    obtain ⟨value, hvalue, h⟩ := Option.bind_eq_some_iff.1 h
    obtain ⟨form', hform, h⟩ := Option.bind_eq_some_iff.1 h
    cases h
    exact ⟨hvalue, hform⟩
  · rintro ⟨hvalue, hform⟩
    simp [hvalue, hform]

/-- A key that is inserted, or one of its normal form, is there; and no other comes. -/
theorem mem_insertKey {form : String} {key : Json} {keys : Row} {entry : String × Json}
    (h : entry ∈ insertKey form key keys) : entry = (form, key) ∨ entry ∈ keys := by
  induction keys with
  | nil => exact Or.inl (List.mem_singleton.1 h)
  | cons first keys ih =>
      obtain ⟨k, v⟩ := first
      rw [insertKey] at h
      split at h
      · exact List.mem_cons.1 h
      · split at h
        · exact Or.inr h
        · rcases List.mem_cons.1 h with hhead | htail
          · exact Or.inr (hhead ▸ List.mem_cons_self)
          · exact (ih htail).imp_right (List.mem_cons_of_mem _)

theorem fst_mem_insertKey (form form' : String) (key : Json) (keys : Row) :
    form' ∈ (insertKey form key keys).map Prod.fst ↔
      form' = form ∨ form' ∈ keys.map Prod.fst := by
  induction keys with
  | nil => simp [insertKey]
  | cons first keys ih =>
      obtain ⟨k, v⟩ := first
      rw [insertKey]
      split
      · simp
      · split
        · rename_i _ heq
          simp [heq]
        · simp only [List.map_cons, List.mem_cons, ih]
          exact or_left_comm

/-- Of the keys of each normal form one is kept. -/
theorem mem_foldl_insertKey (pairs keys : Row) :
    (∀ entry ∈ pairs.foldl (fun keys (form, key) => insertKey form key keys) keys,
      entry ∈ pairs ∨ entry ∈ keys) ∧
    ∀ form ∈ pairs.map Prod.fst ++ keys.map Prod.fst,
      form ∈ (pairs.foldl (fun keys (form, key) => insertKey form key keys) keys).map Prod.fst := by
  induction pairs generalizing keys with
  | nil => exact ⟨fun entry h => Or.inr h, fun form h => h⟩
  | cons pair pairs ih =>
      obtain ⟨k, v⟩ := pair
      obtain ⟨hmem, hforms⟩ := ih (insertKey k v keys)
      refine ⟨fun entry h => ?_, fun form h => hforms form ?_⟩
      · rcases hmem entry h with hpair | hkey
        · exact Or.inl (List.mem_cons_of_mem _ hpair)
        · rcases mem_insertKey hkey with rfl | hold
          · exact Or.inl List.mem_cons_self
          · exact Or.inr hold
      · rw [List.mem_append, fst_mem_insertKey]
        rw [List.map_cons, List.cons_append, List.mem_cons, List.mem_append] at h
        exact or_left_comm.1 h

/-- The distinct keys of rows are keys of the rows. -/
theorem keyed_of_mem_distinctKeys {column : String} {rows : List Row} {key : Json}
    (hkey : key ∈ distinctKeys column rows) : ∃ form, (form, key) ∈ keyed column rows := by
  obtain ⟨⟨form, key'⟩, hentry, heq⟩ := List.mem_map.1 hkey
  cases heq
  exact ⟨form, ((mem_foldl_insertKey (keyed column rows) []).1 _ hentry).resolve_right (by simp)⟩

/-- For every key of the rows, one with its normal form is among the distinct keys. -/
theorem exists_mem_distinctKeys {column : String} {rows : List Row} {form : String} {key : Json}
    (hkey : (form, key) ∈ keyed column rows) :
    ∃ key' ∈ distinctKeys column rows, (form, key') ∈ keyed column rows := by
  have hfold := mem_foldl_insertKey (keyed column rows) []
  have hform := hfold.2 form (List.mem_append_left _ (List.mem_map_of_mem (f := Prod.fst) hkey))
  obtain ⟨⟨form', key'⟩, hentry, heq⟩ := List.mem_map.1 hform
  cases heq
  exact ⟨key', List.mem_map_of_mem (f := Prod.snd) hentry,
    (hfold.1 _ hentry).resolve_right (by simp)⟩

theorem ofJson_eq_null {value : Json} : Scalar.ofJson value = .null ↔ value = .null := by
  cases value with
  | int n =>
      rw [Scalar.ofJson]
      split <;> simp
  | _ => simp [Scalar.ofJson]

/-- Only null has no normal form. -/
theorem relationKey?_eq_none {value : Json} : relationKey? value = none ↔ value = .null := by
  rw [← ofJson_eq_null]
  unfold relationKey?
  cases Scalar.ofJson value with
  | double x =>
      dsimp only
      split
      · split <;> simp
      · simp
  | _ => simp

namespace EagerLoad

variable (load : EagerLoad) (equality : KeyEquality) (table : List Record)

/-- The rows that a database finds for the key of a row; there are none for a row without a key. -/
def related (row : Row) : List Row :=
  match row.lookup load.localKey with
  | none | some .null => []
  | some key =>
    (table.filter (equality.hasKey load.foreignKey (Scalar.ofJson key))).map Record.toRow

variable {load equality table}

section Row

variable {row : Row}

/-- The statement for a row, and the rows it should find, by the key of the row. -/
theorem statementFor?_related_of_key (equality : KeyEquality) (table : List Record)
    {form : String} {key : Json} (hkey : row.lookup load.localKey = some key)
    (hform : relationKey? key = some form) :
    load.statementFor? row = some (load.statement [Scalar.ofJson key]) ∧
      load.related equality table row =
        (table.filter (equality.hasKey load.foreignKey (Scalar.ofJson key))).map Record.toRow := by
  rw [statementFor?, related, hkey]
  cases key with
  | null => cases hform
  | _ => exact ⟨rfl, rfl⟩

/-- Without a key there is no statement, and no row to find. -/
theorem statementFor?_related_of_none (equality : KeyEquality) (table : List Record)
    (hkey : rowKey? load.localKey row = none) :
    load.statementFor? row = none ∧ load.related equality table row = [] := by
  rw [statementFor?, related]
  rw [rowKey?] at hkey
  cases hlookup : row.lookup load.localKey with
  | none => exact ⟨rfl, rfl⟩
  | some key =>
      rw [hlookup, Option.bind_some, relationKey?_eq_none] at hkey
      rw [hkey]
      exact ⟨rfl, rfl⟩

end Row

variable {send : Connection Id} (hserves : equality.Serves load table send)

include hserves

/-- The rows that are found for one row are those that the database relates to it. -/
theorem rowsOf_statementFor? (row : Row) :
    send.rowsOf (load.statementFor? row) = pure (load.related equality table row) := by
  cases hkey : rowKey? load.localKey row with
  | none =>
      obtain ⟨hstatement, hrelated⟩ :=
        statementFor?_related_of_none equality table hkey
      rw [hstatement, hrelated]
      rfl
  | some form =>
      obtain ⟨key, hlookup, hform⟩ := Option.bind_eq_some_iff.1 hkey
      obtain ⟨hstatement, hrelated⟩ :=
        statementFor?_related_of_key equality table hlookup hform
      obtain ⟨records, hsend, hanswers⟩ := hserves [Scalar.ofJson key]
      have hrecords : records =
          table.filter (equality.hasKey load.foreignKey (Scalar.ofJson key)) := by
        rw [← hanswers.stable _ List.mem_cons_self, eq_comm, List.filter_eq_self]
        intro r hr
        simpa using (List.mem_filter.1 (hanswers.perm.mem_iff.1 hr)).2
      rw [hstatement, hrelated, ← hrecords, Connection.rowsOf, Connection.rows, hsend]
      rfl

/-- Row by row, every row gets the rows that the database relates to it. -/
theorem run_perRow (rows : List Row) :
    { load with strategy := .perRow }.run send rows =
      pure (rows.map fun row => load.attach (load.related equality table row) row) := by
  have hstep : (fun row => do
      return load.attach (← send.rowsOf (load.statementFor? row)) row) =
      fun row => (pure (load.attach (load.related equality table row) row) :
        ExceptT DatabaseError Id Row) := by
    funext row
    rw [rowsOf_statementFor? hserves]
    rfl
  show rows.mapM (fun row => do
    return load.attach (← send.rowsOf (load.statementFor? row)) row) = _
  rw [hstep, List.mapM_pure]

/-- For a whole page, every row gets those of the found rows that have the normal form of its
key. -/
theorem run_batched (rows : List Row) :
    ∃ records, equality.Answers load.foreignKey table
        ((distinctKeys load.localKey rows).map Scalar.ofJson) records ∧
      { load with strategy := .batched }.run send rows = pure (rows.map fun row =>
        load.attach (load.relatedTo (records.map Record.toRow) row) row) := by
  have hrun : { load with strategy := .batched }.run send rows =
      (send.rowsOf (load.batchStatement? rows)) >>= fun loaded =>
        pure (rows.map fun row => load.attach (load.relatedTo loaded row) row) := rfl
  rw [hrun, batchStatement?]
  cases hkeys : distinctKeys load.localKey rows with
  | nil => exact ⟨[], ⟨by simp, by simp⟩, rfl⟩
  | cons key keys =>
      obtain ⟨records, hsend, hanswers⟩ := hserves ((key :: keys).map Scalar.ofJson)
      refine ⟨records, hanswers, ?_⟩
      show (send.rows (load.statement ((key :: keys).map Scalar.ofJson)) >>= _) = _
      rw [Connection.rows, hsend]
      rfl

end EagerLoad

/-- On a page the normal form of keys follows the equality of the database: keys with one normal
form equal the same values, and what equals a key has its normal form. -/
structure KeyEquality.Respects (equality : KeyEquality) (column : String) (page : List Row) :
    Prop where
  same : ∀ form key key', (form, key) ∈ keyed column page → (form, key') ∈ keyed column page →
    ∀ value, equality.equal (Scalar.ofJson key) (Scalar.ofJson value) =
      equality.equal (Scalar.ofJson key') (Scalar.ofJson value)
  normal : ∀ form key, (form, key) ∈ keyed column page →
    ∀ value, equality.equal (Scalar.ofJson key) (Scalar.ofJson value) = true →
      relationKey? value = some form

namespace EagerLoad

variable {load : EagerLoad} {equality : KeyEquality} {table records : List Record}

/-- Of the rows found for a page, those with the normal form of a key are those whose key equals
it. -/
theorem rowKey?_eq_hasKey {page : List Row} (hrespects : equality.Respects load.localKey page)
    (hanswers : equality.Answers load.foreignKey table
      ((distinctKeys load.localKey page).map Scalar.ofJson) records) {form : String} {key : Json}
    (hkey : (form, key) ∈ keyed load.localKey page) {r : Record} (hr : r ∈ records) :
    (rowKey? load.foreignKey r.toRow == some form) =
      equality.hasKey load.foreignKey (Scalar.ofJson key) r := by
  rw [Bool.eq_iff_iff, beq_iff_eq, KeyEquality.hasKey_eq_true]
  constructor
  · intro hform
    obtain ⟨value, hvalue, hform⟩ := Option.bind_eq_some_iff.1 hform
    obtain ⟨scalar, hscalar, hhas⟩ :=
      List.any_eq_true.1 (List.mem_filter.1 (hanswers.perm.mem_iff.1 hr)).2
    obtain ⟨bound, hbound, rfl⟩ := List.mem_map.1 hscalar
    obtain ⟨form', hboundKeyed⟩ := keyed_of_mem_distinctKeys hbound
    obtain ⟨value', hvalue', hequal⟩ := equality.hasKey_eq_true.1 hhas
    rw [hvalue, Option.some.injEq] at hvalue'
    rw [← hvalue'] at hequal
    -- The key that found the row has the normal form of the row, and so that of the given key.
    have hform' := hrespects.normal form' bound hboundKeyed value hequal
    rw [hform, Option.some.injEq] at hform'
    rw [← hform'] at hboundKeyed
    refine ⟨value, hvalue, ?_⟩
    rw [hrespects.same form key bound hkey hboundKeyed value, hequal]
  · rintro ⟨value, hvalue, hequal⟩
    rw [rowKey?, hvalue, Option.bind_some]
    exact hrespects.normal form key hkey value hequal

/-- If the normal form follows the database, sharing out the found rows by it gives every row of
the page what the database relates to it. -/
theorem relatedTo_eq_related {page : List Row} (hrespects : equality.Respects load.localKey page)
    (hanswers : equality.Answers load.foreignKey table
      ((distinctKeys load.localKey page).map Scalar.ofJson) records) {row : Row}
    (hrow : row ∈ page) :
    load.relatedTo (records.map Record.toRow) row = load.related equality table row := by
  unfold relatedTo
  cases hkey : rowKey? load.localKey row with
  | none =>
      exact (statementFor?_related_of_none equality table hkey).2.symm
  | some form =>
      obtain ⟨key, hlookup, hform⟩ := Option.bind_eq_some_iff.1 hkey
      have hkeyed : (form, key) ∈ keyed load.localKey page :=
        mem_keyed.2 ⟨row, hrow, hlookup, hform⟩
      -- The key that is bound for this normal form equals the same values as the key of the row.
      obtain ⟨bound, hbound, hboundKeyed⟩ := exists_mem_distinctKeys hkeyed
      have hsame : equality.hasKey load.foreignKey (Scalar.ofJson bound) =
          equality.hasKey load.foreignKey (Scalar.ofJson key) := by
        funext r
        rw [KeyEquality.hasKey, KeyEquality.hasKey,
          funext (hrespects.same form bound key hboundKeyed hkeyed)]
      rw [(statementFor?_related_of_key equality table hlookup hform).2,
        ← hsame, ← hanswers.stable _ (List.mem_map_of_mem hbound), hsame]
      show (records.map Record.toRow).filter
        (fun other => rowKey? load.foreignKey other == some form) = _
      rw [List.filter_map]
      exact congrArg _ (List.filter_congr fun r hr =>
        rowKey?_eq_hasKey hrespects hanswers hkeyed hr)

/-- Whether there are related rows can be told from what is attached. -/
theorem eq_nil_iff_of_attach_eq {related related' : List Row} {row : Row}
    (h : load.attach related row = load.attach related' row) : related = [] ↔ related' = [] := by
  have hlookup := congrArg (List.lookup load.relation) h
  rw [attach, attach, lookup_insertEntry_self, lookup_insertEntry_self, Option.some.injEq]
    at hlookup
  cases related <;> cases related' <;> cases hmany : load.many <;> simp_all [attached]

/-- A record with one column. -/
def single (column : String) (value : Json) : Record := [(column, .json (some value))]

theorem hasKey_single (column : String) (key : Scalar) (value : Json) :
    equality.hasKey column key (single column value) =
      equality.equal key (Scalar.ofJson value) := by
  have hrow : (single column value).toRow = [(column, value)] := rfl
  simp [KeyEquality.hasKey, hrow]

theorem rowKey?_single (column : String) (value : Json) :
    rowKey? column (single column value).toRow = relationKey? value := by
  have hrow : (single column value).toRow = [(column, value)] := rfl
  simp [rowKey?, hrow]

/-- Where both ways agree on a table with one record, the normal form of a key tells whether the
database finds the record for it; and it is then the normal form of the record. -/
theorem exists_found_of_agree {page : List Row} (value : Json)
    (hagree : { load with strategy := .batched }.run
        (equality.connection [single load.foreignKey value]) page =
      { load with strategy := .perRow }.run
        (equality.connection [single load.foreignKey value]) page) :
    ∃ found : String → Prop, (∀ form, found form → relationKey? value = some form) ∧
      ∀ form key, (form, key) ∈ keyed load.localKey page →
        (equality.equal (Scalar.ofJson key) (Scalar.ofJson value) = true ↔ found form) := by
  have hserves := equality.serves_connection load [single load.foreignKey value]
  obtain ⟨records, hanswers, hrun⟩ := run_batched hserves page
  rw [hrun, run_perRow hserves] at hagree
  have hmap := Except.ok.inj hagree
  refine ⟨fun form => ∃ r ∈ records, rowKey? load.foreignKey r.toRow = some form, ?_, ?_⟩
  · rintro form ⟨r, hr, hform⟩
    have hmem := (List.mem_filter.1 (hanswers.perm.mem_iff.1 hr)).1
    rw [List.mem_singleton.1 hmem, rowKey?_single] at hform
    exact hform
  · intro form key hkeyed
    obtain ⟨row, hrow, hlookup, hform⟩ := mem_keyed.1 hkeyed
    have hempty := eq_nil_iff_of_attach_eq (List.map_inj_left.1 hmap row hrow)
    have hrowKey : rowKey? load.localKey row = some form := by
      rw [rowKey?, hlookup]
      exact hform
    rw [(statementFor?_related_of_key _ _ hlookup hform).2, List.map_eq_nil_iff, relatedTo, hrowKey]
      at hempty
    have hnone := not_congr hempty
    simpa [hasKey_single, List.filter_eq_nil_iff] using hnone.symm

/-- A page is loaded alike in both ways, whatever the related table holds, exactly if the normal
form of its keys follows the equality of the database. -/
theorem run_batched_eq_run_perRow_iff (load : EagerLoad) (equality : KeyEquality)
    (page : List Row) :
    (∀ table send, equality.Serves load table send →
      { load with strategy := .batched }.run send page =
        { load with strategy := .perRow }.run send page) ↔
      equality.Respects load.localKey page := by
  constructor
  · intro hagree
    have hfound := fun value => exists_found_of_agree value
      (hagree [single load.foreignKey value] _ (equality.serves_connection load _))
    constructor
    · intro form key key' hkey hkey' value
      obtain ⟨found, -, hiff⟩ := hfound value
      rw [Bool.eq_iff_iff, hiff form key hkey, hiff form key' hkey']
    · intro form key hkey value hequal
      obtain ⟨found, hform, hiff⟩ := hfound value
      exact hform form ((hiff form key hkey).1 hequal)
  · intro hrespects table send hserves
    obtain ⟨records, hanswers, hrun⟩ := run_batched hserves page
    rw [hrun, run_perRow hserves]
    refine congrArg pure (List.map_congr_left fun row hrow => ?_)
    rw [relatedTo_eq_related hrespects hanswers hrow]

end EagerLoad

namespace KeyEquality

variable {equality : KeyEquality} {column : String} {page : List Row}

theorem relationKey?_of_int {value : Json} {n : Int} (hvalue : Scalar.ofJson value = .int n) :
    relationKey? value = some (Number.integerText n) := by
  rw [relationKey?, hvalue]

/-- The normal form follows the database on a page whose keys are integers, if an integer equals
only integers. -/
theorem respects_of_integers
    (htyped : ∀ n y, equality.equal (.int n) y = true → ∃ m, y = .int m)
    (hpage : ∀ form key, (form, key) ∈ keyed column page → ∃ n, Scalar.ofJson key = .int n) :
    equality.Respects column page where
  same form key key' hkey hkey' value := by
    obtain ⟨m, hm⟩ := hpage form key hkey
    obtain ⟨n, hn⟩ := hpage form key' hkey'
    obtain ⟨_, _, _, hform⟩ := mem_keyed.1 hkey
    obtain ⟨_, _, _, hform'⟩ := mem_keyed.1 hkey'
    rw [relationKey?_of_int hm, ← hform', relationKey?_of_int hn, Option.some.injEq] at hform
    rw [hm, hn, Number.integerText_injective hform]
  normal form key hkey value hequal := by
    obtain ⟨n, hn⟩ := hpage form key hkey
    obtain ⟨_, _, _, hform⟩ := mem_keyed.1 hkey
    rw [hn] at hequal
    obtain ⟨m, hm⟩ := htyped n _ hequal
    rw [hm, equality.int, beq_iff_eq] at hequal
    rw [← hform, relationKey?_of_int hm, relationKey?_of_int hn, hequal]

/-- The normal form follows the database on a page whose keys are texts that are their own normal
form, if a text equals only texts. -/
theorem respects_of_texts
    (htyped : ∀ s y, equality.equal (.text s) y = true → ∃ t, y = .text t)
    (hpage : ∀ form key, (form, key) ∈ keyed column page → Scalar.ofJson key = .text form) :
    equality.Respects column page where
  same form key key' hkey hkey' value := by
    rw [hpage form key hkey, hpage form key' hkey']
  normal form key hkey value hequal := by
    obtain ⟨_, _, _, hform⟩ := mem_keyed.1 hkey
    have hkeyText := hpage form key hkey
    rw [hkeyText] at hequal
    obtain ⟨t, ht⟩ := htyped form _ hequal
    rw [ht, equality.text, beq_iff_eq] at hequal
    rw [← hform, relationKey?, relationKey?, hkeyText, ht, hequal]

/-- The equality that relates texts to texts and integers to integers only. -/
def plain : KeyEquality where
  equal
    | .text s, .text t => s == t
    | .int m, .int n => m == n
    | _, _ => false
  text _ _ := rfl
  int _ _ := rfl
  null key := by cases key <;> rfl

end KeyEquality

namespace Parcels

/-- Every parcel is bound for the depot with a code. -/
def load : EagerLoad where
  relation := "depot"
  table := "depots"
  localKey := "depot_code"
  foreignKey := "code"
  many := false
  strategy := .batched

/-- The codes of two depots, of which one is closed. -/
def page : List Row := [[("depot_code", .string "1")], [("depot_code", .string "01")]]

def depots : List Record := [[("code", .text (some "1"))]]

/-- Loaded for the page, the depot with the code `1` is attached to both parcels; loaded row by row,
only to the one that is bound for it. -/
theorem run_batched_page_ne_run_perRow :
    KeyEquality.plain.Serves load depots (KeyEquality.plain.connection depots) ∧
    { load with strategy := .batched }.run (KeyEquality.plain.connection depots) page = pure [
      [("depot_code", .string "1"), ("depot", .object [("code", .string "1")])],
      [("depot_code", .string "01"), ("depot", .object [("code", .string "1")])]] ∧
    { load with strategy := .perRow }.run (KeyEquality.plain.connection depots) page = pure [
      [("depot_code", .string "1"), ("depot", .object [("code", .string "1")])],
      [("depot_code", .string "01"), ("depot", .null)]] :=
  ⟨KeyEquality.plain.serves_connection load depots, rfl, rfl⟩

end Parcels
end Sql
end Listing
