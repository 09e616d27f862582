/-
# Upper case on both sides

An operator that ignores case puts the column in upper case and compares it with the needle in upper
case. The store does the one and the request the other: there are databases that know the case of
the ASCII letters only, while a needle gets the full upper case of Unicode.

On such a database a column keeps every character beyond ASCII. A needle that has one with an upper
case of its own is then not found in itself; every other needle is.
-/
import Listing.Proofs.LiteralPatterns
import Listing.Proofs.Semantics.SqlExpr
import Listing.Proofs.SqlCondition
import Listing.Sql.Condition
import Mathlib

namespace Listing

namespace Text

theorem isLower_iff (c : Char) : c.isLower = true ↔ 97 ≤ c.toNat ∧ c.toNat ≤ 122 := by
  simp [Char.isLower, UInt32.le_iff_toNat_le]

theorem isUpper_iff (c : Char) : c.isUpper = true ↔ 65 ≤ c.toNat ∧ c.toNat ≤ 90 := by
  simp [Char.isUpper, UInt32.le_iff_toNat_le]

theorem upperChar_of_ascii {c : Char} (hascii : c.toNat < 128) : upperChar c = [c.toUpper] := by
  unfold upperChar
  dsimp only
  rw [if_pos hascii]
  by_cases hlower : c.isLower = true
  · rw [Char.toUpper_eq_of_isLower hlower, if_pos (by simpa using (isLower_iff c).1 hlower)]
  · rw [Char.toUpper_eq_of_not_isLower hlower, if_neg (by simpa using mt (isLower_iff c).2 hlower)]

theorem toUpper_of_beyond_ascii {c : Char} (hbeyond : 128 ≤ c.toNat) : c.toUpper = c := by
  apply Char.toUpper_eq_of_not_isLower
  rw [isLower_iff]
  omega

/-- Only a character beyond ASCII itself counts as equal to it. -/
theorem eq_of_toLower_eq {c d : Char} (hbeyond : 128 ≤ c.toNat) (heq : d.toLower = c.toLower) :
    d = c := by
  have hc : c.toLower = c := by
    apply Char.toLower_eq_of_not_isUpper
    rw [isUpper_iff]
    omega
  rw [hc] at heq
  by_cases hupper : d.isUpper = true
  · have hrange := (isUpper_iff d).1 hupper
    rw [Char.toLower_eq_of_isUpper hupper] at heq
    have hsmall : (Char.ofNat (d.toNat + 32)).toNat = d.toNat + 32 := by
      rw [Char.toNat_ofNat, if_pos (.inl (by omega))]
    rw [← heq, hsmall] at hbeyond
    omega
  · rwa [Char.toLower_eq_of_not_isUpper hupper] at heq

/-- No character vanishes in upper case. -/
theorem upperChar_ne_nil (c : Char) : upperChar c ≠ [] := by
  have hexpansions : ∀ entry ∈ upperExpansions, entry.2 ≠ [] := by decide
  unfold upperChar
  dsimp only
  split
  · nofun
  · split
    · rename_i expansion hlookup
      obtain ⟨before, after, hentries, -⟩ := List.lookup_eq_some_iff.1 hlookup
      have hmem : (c.toNat, expansion) ∈ upperExpansions := by
        rw [hentries]
        exact List.mem_append_right before List.mem_cons_self
      exact mt List.map_eq_nil_iff.1 (hexpansions _ hmem)
    · split <;> nofun

/-- No text gets shorter in upper case. -/
theorem length_le_length_upper (cs : List Char) : cs.length ≤ (cs.flatMap upperChar).length := by
  induction cs with
  | nil => exact Nat.le_refl 0
  | cons c cs ih =>
      have hc := List.length_pos_of_ne_nil (upperChar_ne_nil c)
      rw [List.flatMap_cons, List.length_append, List.length_cons]
      omega

/-- The upper case of a text is the text but for the case of its ASCII letters only if no character
beyond ASCII has an upper case of its own. -/
theorem upperChar_eq_of_map_toLower {cs : List Char}
    (hequal : (cs.flatMap upperChar).map Char.toLower = cs.map Char.toLower) :
    ∀ c ∈ cs, 128 ≤ c.toNat → upperChar c = [c] := by
  induction cs with
  | nil => exact fun c hc => absurd hc List.not_mem_nil
  | cons c cs ih =>
      rw [List.flatMap_cons, List.map_append, List.map_cons] at hequal
      -- Since the rest does not get shorter, there is room for just one character.
      obtain ⟨d, hd⟩ : ∃ d, upperChar c = [d] := by
        have hlength := congrArg List.length hequal
        have hrest := length_le_length_upper cs
        have hc := List.length_pos_of_ne_nil (upperChar_ne_nil c)
        rw [List.length_append, List.length_cons, List.length_map, List.length_map,
          List.length_map] at hlength
        exact List.length_eq_one_iff.1 (by omega)
      rw [hd, List.map_singleton, List.singleton_append] at hequal
      obtain ⟨hfirst, hrest⟩ := List.cons.inj hequal
      intro c' hc' hbeyond
      rcases List.mem_cons.1 hc' with rfl | hmem
      · rw [hd, eq_of_toLower_eq hbeyond hfirst]
      · exact ih hrest c' hmem hbeyond

/-- If no character beyond ASCII has an upper case of its own, the upper case of a text is that of
its ASCII letters. -/
theorem upper_eq_toUpper {s : String}
    (hkeep : ∀ c ∈ s.toList, 128 ≤ c.toNat → upperChar c = [c]) : upper s = s.toUpper := by
  have hchar : ∀ c ∈ s.toList, upperChar c = [c.toUpper] := by
    intro c hc
    by_cases hascii : c.toNat < 128
    · exact upperChar_of_ascii hascii
    · rw [hkeep c hc (by omega), toUpper_of_beyond_ascii (by omega)]
  rw [← String.toList_inj, upper, String.toList_ofList, String.toUpper, String.toList_map,
    List.map_eq_flatMap]
  exact List.flatMap_congr hchar

theorem map_toLower_toUpper (s : String) :
    s.toUpper.toList.map Char.toLower = s.toList.map Char.toLower := by
  rw [String.toUpper, String.toList_map, List.map_map]
  exact List.map_congr_left fun c _ => Char.toLower_toUpper_eq_toLower c

/-- A needle in full upper case is found in itself in the upper case of its ASCII letters if and
only if no character of it beyond ASCII has an upper case of its own. -/
theorem finds_upper_iff {op : Operator}
    (hop : op ∈ [Operator.icontains, .istartsWith, .iendsWith]) (s : String) :
    op.Finds Char.toLower (upper s) s.toUpper ↔
      ∀ c ∈ s.toList, 128 ≤ c.toNat → upperChar c = [c] := by
  have hupper : (upper s).toList.map Char.toLower =
      (s.toList.flatMap upperChar).map Char.toLower := by
    rw [upper, String.toList_ofList]
  have hroom : (s.toUpper.toList.map Char.toLower).length ≤
      ((upper s).toList.map Char.toLower).length := by
    rw [hupper, map_toLower_toUpper, List.length_map, List.length_map]
    exact length_le_length_upper s.toList
  have hsame : (upper s).toList.map Char.toLower = s.toUpper.toList.map Char.toLower ↔
      ∀ c ∈ s.toList, 128 ≤ c.toNat → upperChar c = [c] := by
    constructor
    · intro hequal
      rw [hupper, map_toLower_toUpper] at hequal
      exact upperChar_eq_of_map_toLower hequal
    · intro hkeep
      rw [upper_eq_toUpper hkeep]
  rw [← hsame]
  simp only [List.mem_cons, List.not_mem_nil, or_false] at hop
  rcases hop with rfl | rfl | rfl
  case inl =>
    show (upper s).toList.map Char.toLower <:+: s.toUpper.toList.map Char.toLower ↔ _
    refine ⟨fun hheld => hheld.eq_of_length_le hroom, fun hequal => ?_⟩
    rw [hequal]
  case inr.inl =>
    show (upper s).toList.map Char.toLower <+: s.toUpper.toList.map Char.toLower ↔ _
    refine ⟨fun hstarts => hstarts.eq_of_length_le hroom, fun hequal => ?_⟩
    rw [hequal]
  case inr.inr =>
    show (upper s).toList.map Char.toLower <:+ s.toUpper.toList.map Char.toLower ↔ _
    refine ⟨fun hends => hends.eq_of_length_le hroom, fun hequal => ?_⟩
    rw [hequal]

theorem upper_eq_toUpper_iff (s : String) :
    upper s = s.toUpper ↔ ∀ c ∈ s.toList, 128 ≤ c.toNat → upperChar c = [c] := by
  refine ⟨fun hequal => ?_, upper_eq_toUpper⟩
  have hfinds : Operator.icontains.Finds Char.toLower (upper s) s.toUpper := by
    rw [hequal]
    exact List.infix_rfl
  exact (finds_upper_iff List.mem_cons_self s).1 hfinds

end Text

namespace Sql

/-- A database that knows the case of the ASCII letters only: its UPPER changes no others, and its
LIKE takes no others for equal. -/
structure Engine.FoldsAscii (engine : Engine) : Prop where
  upper (s : String) : engine.call "UPPER" [.text s] = .text s.toUpper
  like (s pattern : String) : engine.like (.text s) pattern =
    .bool (Text.Signs.like.accepts Char.toLower pattern s)

namespace Engine.FoldsAscii

variable {engine : Engine} (hengine : engine.FoldsAscii)
include hengine

theorem eval_upperOf {rows : List Env} {env : Env} {e : Expr} {s : String}
    (he : engine.eval rows env e = .text s) :
    engine.eval rows env (upperOf e) = .text s.toUpper := by
  rw [upperOf, eval, if_neg (by decide), evalAll, evalAll, he, hengine.upper]

/-- What LIKE says of a column in upper case. -/
theorem eval_like_upperOf {rows : List Env} {env : Env} {e : Expr} {s : String}
    (he : engine.eval rows env e = .text s) (pattern : String) :
    engine.eval rows env (.like (upperOf e) pattern) =
      .bool (Text.Signs.like.accepts Char.toLower pattern s.toUpper) := by
  rw [eval, hengine.eval_upperOf he, if_neg nofun, hengine.like]

end Engine.FoldsAscii

/-- What an operator that ignores case asks of a column. -/
def ignoringCase (op : Operator) (column : Expr) (needle : String) : Expr :=
  if op = .iexact then equals (upperOf column) (.text (Text.upper needle))
  else .like (upperOf column) (likePattern op (Text.upper needle))

/-- A text is kept by itself as the needle if and only if no character of it beyond ASCII has an
upper case of its own. -/
theorem Engine.FoldsAscii.keeps_ignoringCase_iff {engine : Engine} (hengine : engine.FoldsAscii)
    {op : Operator} (hop : op ∈ [Operator.iexact, .icontains, .istartsWith, .iendsWith])
    {env : Env} {column : Expr} {s : String} (hcolumn : engine.eval [env] env column = .text s) :
    engine.keeps env (ignoringCase op column s) = true ↔
      ∀ c ∈ s.toList, 128 ≤ c.toNat → Text.upperChar c = [c] := by
  unfold ignoringCase Engine.keeps
  rcases List.mem_cons.1 hop with rfl | hlike
  · have heval : engine.eval [env] env (equals (upperOf column) (.text (Text.upper s))) =
        .bool (decide (Datum.text s.toUpper = .text (Text.upper s))) := by
      rw [equals, eval, hengine.eval_upperOf hcolumn]
      show engine.compareWith .eq (.text s.toUpper) (.text (Text.upper s)) = _
      rw [engine.compareWith_of_holds .eq (.text _) (.text _)]
      exact congrArg Datum.bool (Kind.Holds.related_isEq (.text _) (.text _))
    rw [if_pos rfl, heval, ← Text.upper_eq_toUpper_iff]
    simp [truth?, eq_comm]
  · have hnot : op ≠ .iexact := by
      rintro rfl
      revert hlike
      decide
    rw [if_neg hnot, hengine.eval_like_upperOf hcolumn, ← Text.finds_upper_iff hlike,
      ← Text.accepts_likePattern]
    · simp [truth?]
    · revert hlike
      cases op <;> decide

namespace Target

variable {t : Target}

/-- A route without embedded relations has a column. -/
theorem columnOf_of_references (stem param : String) {located : Located}
    (hroute : ∀ hop ∈ located.route, hop.relation.embedded = false) :
    t.columnOf stem param located =
      .ok (.column (t.tableOf stem located.route) located.attr.columnName) := by
  have hnone : located.route.reverse.find? (·.relation.embedded) = none := by
    rw [List.find?_eq_none]
    intro hop hmem
    rw [hroute hop (List.mem_reverse.1 hmem)]
    exact Bool.false_ne_true
  rw [columnOf, checkReferences, hnone]
  rfl

/-- The condition of an operator that ignores case. -/
theorem conditionOf_ignoringCase {c : Comparison}
    (hop : c.operator ∈ [Operator.iexact, .icontains, .istartsWith, .iendsWith])
    (hplain : c.function = none) (kind : Kind) (column : Expr) (s : String) :
    t.conditionOf c kind column (.one (.text s)) = .ok (ignoringCase c.operator column s) := by
  rw [conditionOf, hplain]
  simp only [List.mem_cons, List.not_mem_nil, or_false] at hop
  rcases hop with hop | hop | hop | hop <;>
    · rw [hop]
      rfl

/-- On a database that knows the case of the ASCII letters only, an operator that ignores case keeps
a row whose column is the needle if and only if no character of it beyond ASCII has an upper case of
its own. -/
theorem keeps_own_text_iff {stem : String} {c : Comparison} {located : Located} {s : String}
    {engine : Engine} {env : Env}
    (hoperator : c.operator ∈ [Operator.iexact, .icontains, .istartsWith, .iendsWith])
    (hplain : c.function = none)
    (hlocate : t.registry.locate t.resource c.param c.path = .ok located)
    (hroute : ∀ hop ∈ located.route, hop.relation.embedded = false)
    (hoperand : Operand.ofComparison c located.attr = .ok (.one (.text s)))
    (hengine : engine.FoldsAscii)
    (hcolumn : env.column (t.tableOf stem located.route) located.attr.columnName = .text s) :
    ∃ condition, t.comparison stem c = .ok condition ∧
      (engine.keeps env condition = true ↔
        ∀ ch ∈ s.toList, 128 ≤ ch.toNat → Text.upperChar ch = [ch]) := by
  have hvalue : engine.eval [env] env
      (.column (t.tableOf stem located.route) located.attr.columnName) = .text s := hcolumn
  refine ⟨_, ?_, hengine.keeps_ignoringCase_iff hoperator hvalue⟩
  rw [comparison_eq hlocate hoperand, columnOf_of_references stem c.param hroute]
  exact conditionOf_ignoringCase hoperator hplain ..

end Target

/-- A database that knows the case of the ASCII letters only, and no function but UPPER. -/
def asciiEngine : Engine where
  call
    | "UPPER", [.text s] => .text s.toUpper
    | _, _ => .null
  aggregate _ _ := .null
  template _ _ := .null
  like
    | .text s, pattern => .bool (Text.Signs.like.accepts Char.toLower pattern s)
    | _, _ => .null
  compare _ _ _ := .null

theorem asciiEngine_foldsAscii : asciiEngine.FoldsAscii where
  upper _ := rfl
  like _ _ := rfl

namespace Products

/-- Products with a name. -/
def resource : Resource where
  name := "product"
  storage := "products"
  attributes := [{ name := "name", kind := .string }]

def target : Target where
  dialect := .sqlite
  functions := []
  registry := { entries := [⟨resource, .relationalWith .sqlite []⟩] }
  resource := resource

/-- The name is a text but for case. -/
def nameIs (text : String) : Comparison where
  param := "name__iexact"
  path := ⟨[], "name"⟩
  operator := .iexact
  function := none
  value := .string text

/-- A product with a name. -/
def named (name : String) : Env where
  column _ _ := .text name
  own _ := .text name

/-- A product is found by its name if the signs in it have no upper case. -/
theorem keeps_own_text_iff_hot :
    ∃ condition, target.comparison Joins.defaultStem (nameIs "9 °") = .ok condition ∧
      asciiEngine.keeps (named "9 °") condition = true := by
  have hlocate : target.registry.locate target.resource (nameIs "9 °").param
      (nameIs "9 °").path = .ok ⟨{ name := "name", kind := .string }, resource, []⟩ := rfl
  have hoperand : Operand.ofComparison (nameIs "9 °") { name := "name", kind := .string } =
      .ok (.one (.text "9 °")) := rfl
  have hcolumn : (named "9 °").column (target.tableOf Joins.defaultStem []) "name" =
      .text "9 °" := rfl
  obtain ⟨condition, hcompile, hkeeps⟩ := Target.keeps_own_text_iff (by decide) rfl hlocate
    (by decide) hoperand asciiEngine_foldsAscii hcolumn
  refine ⟨condition, hcompile, hkeeps.2 fun c hc => ?_⟩
  have hchars : c ∈ ['9', ' ', '°'] := hc
  simp only [List.mem_cons, List.not_mem_nil, or_false] at hchars
  rcases hchars with rfl | rfl | rfl <;> decide +kernel

/-- A product of which the name is a letter beyond ASCII is not found by its name. -/
theorem nameIs_rejects_own_name :
    ∃ condition, target.comparison Joins.defaultStem (nameIs "é") = .ok condition ∧
      asciiEngine.FoldsAscii ∧ asciiEngine.keeps (named "é") condition = false := by
  refine ⟨ignoringCase .iexact (.column "products" "name") "é", rfl, asciiEngine_foldsAscii, ?_⟩
  rw [Bool.eq_false_iff, Ne, asciiEngine_foldsAscii.keeps_ignoringCase_iff (by decide) rfl]
  exact fun hkeep => absurd (hkeep 'é' (by decide) (by decide)) (by decide)

end Products
end Sql
end Listing
