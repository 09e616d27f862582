/-
# Keys of JSON values

A key that is written again replaces the value that it had, so no object that was read has a key
twice. What is found under a key, or behind some steps, is then an entry of the text.
-/
import Listing.Proofs.ReadingByKey
import Listing.Proofs.Semantics.FilterPlaces

namespace Listing
namespace Json

/-! ### What holds everywhere in a value -/

section

variable {p q : List (String × Json) → Prop} {entries : List (String × Json)} {items : List Json}
  {value inner : Json}

theorem everywhere_object :
    (Json.object entries).Everywhere p ↔ p entries ∧ ∀ entry ∈ entries, entry.2.Everywhere p := by
  have hentries : EverywhereInEntries p entries ↔ ∀ entry ∈ entries, entry.2.Everywhere p := by
    induction entries with
    | nil => simp [EverywhereInEntries]
    | cons entry entries ih => simp [EverywhereInEntries, ih]
  rw [Everywhere, hentries]

theorem everywhere_array :
    (Json.array items).Everywhere p ↔ ∀ item ∈ items, item.Everywhere p := by
  rw [Everywhere]
  induction items with
  | nil => simp [EverywhereInItems]
  | cons item items ih => simp [EverywhereInItems, ih]

theorem everywhere_of_isContainer (hvalue : value.isContainer = false) : value.Everywhere p := by
  cases value with
  | array | object => cases hvalue
  | _ => trivial

/-- What holds everywhere in a value holds everywhere in what a step leads to. -/
theorem Everywhere.step? (hvalue : value.Everywhere p) {step : Step}
    (hstep : value.step? step = some inner) : inner.Everywhere p := by
  cases step with
  | key name =>
      cases value with
      | object entries => exact (everywhere_object.1 hvalue).2 _ (mem_of_lookup hstep)
      | _ => cases hstep
  | item index =>
      cases value with
      | array items => exact everywhere_array.1 hvalue _ (List.mem_of_getElem? hstep)
      | _ => cases hstep

theorem Everywhere.follow? (hvalue : value.Everywhere p) {steps : Position}
    (hfollow : value.follow? steps = some inner) : inner.Everywhere p := by
  induction steps generalizing value with
  | nil =>
      cases hfollow
      exact hvalue
  | cons step steps ih =>
      obtain ⟨next, hstep, hrest⟩ := Option.bind_eq_some_iff.1 hfollow
      exact ih (hvalue.step? hstep) hrest

end

/-! ### Tokens -/

/-- A token that is no object or array by itself. -/
def Token.IsSimple (token : Token) : Prop := ∀ value, token = .atom value → value.isContainer = false

section

variable {done next tokens : List Token} {c : Char} {cs : List Char} {state after : Scan}

theorem isSimple_of_startToken (hdone : ∀ token ∈ done, token.IsSimple)
    (hstart : startToken done c = some (next, state)) : ∀ token ∈ next, token.IsSimple := by
  have hmark : ∀ token, mark? c = some token → token.IsSimple := by
    grind [mark?, Token.IsSimple]
  unfold startToken at hstart
  split at hstart
  · cases hstart
    exact hdone
  · split at hstart
    · cases hstart
      exact hdone
    · split at hstart
      · cases hstart
        exact hdone
      · obtain ⟨token, htoken, hnext⟩ := Option.map_eq_some_iff.1 hstart
        cases hnext
        exact List.forall_mem_cons.2 ⟨hmark token htoken, hdone⟩

/-- One more character keeps tokens simple. -/
theorem isSimple_of_scanStep (hdone : ∀ token ∈ done, token.IsSimple)
    (hstep : scanStep done state c = some (next, after)) : ∀ token ∈ next, token.IsSimple := by
  cases state with
  | between => exact isSimple_of_startToken hdone hstep
  | word seen =>
      rw [scanStep] at hstep
      split at hstep
      · cases hstep
        exact hdone
      · obtain ⟨value, hvalue, hstart⟩ := Option.bind_eq_some_iff.1 hstep
        refine isSimple_of_startToken (List.forall_mem_cons.2 ⟨?_, hdone⟩) hstart
        rintro _ ⟨⟩
        exact isContainer_of_wordValue? hvalue
  | _ =>
      rcases scanStep_text rfl hstep with ⟨rfl, -⟩ | ⟨s, rfl⟩
      · exact hdone
      · refine List.forall_mem_cons.2 ⟨?_, hdone⟩
        rintro _ ⟨⟩

theorem isSimple_of_scanFrom (hdone : ∀ token ∈ done, token.IsSimple)
    (hscan : scanFrom done state cs = some tokens) : ∀ token ∈ tokens, token.IsSimple := by
  induction cs generalizing done state with
  | nil =>
      cases state with
      | between =>
          cases hscan
          simpa using hdone
      | word seen =>
          obtain ⟨value, hvalue, rfl⟩ := Option.map_eq_some_iff.1 hscan
          intro token htoken
          rcases List.mem_cons.1 (List.mem_reverse.1 htoken) with rfl | htoken
          · rintro _ ⟨⟩
            exact isContainer_of_wordValue? hvalue
          · exact hdone token htoken
      | _ => cases hscan
  | cons c cs ih =>
      obtain ⟨next, after, hstep, hrest⟩ := scanFrom_cons hscan
      exact ih (isSimple_of_scanStep hdone hstep) hrest

end

/-! ### Reading -/

/-- What an open container holds so far has no key twice. -/
def Frame.HasUniqueKeys : Frame → Prop
  | .array items => ∀ item ∈ items, item.HasUniqueKeys
  | .object entries | .entry entries _ => (Json.object entries).HasUniqueKeys

/-- Nothing that was read so far has a key twice. -/
structure Reading.HasUniqueKeys (reading : Reading) : Prop where
  stack : ∀ frame ∈ reading.stack, frame.HasUniqueKeys
  result : ∀ value, reading.wanted = .nothing value → value.HasUniqueKeys

variable {reading next : Reading} {stack : List Frame} {frame : Frame} {value : Json}

theorem hasUniqueKeys_insertEntry {entries : List (String × Json)} (key : String)
    (hentries : (Json.object entries).HasUniqueKeys) (hvalue : value.HasUniqueKeys) :
    (Json.object (insertEntry key value entries)).HasUniqueKeys := by
  obtain ⟨hnodup, hinner⟩ := everywhere_object.1 hentries
  refine everywhere_object.2 ⟨nodup_insertEntry hnodup, fun entry hentry => ?_⟩
  rcases mem_insertEntry hentry with rfl | hold
  · exact hvalue
  · exact hinner entry hold

theorem hasUniqueKeys_array_reverse {items : List Json}
    (hitems : ∀ item ∈ items, item.HasUniqueKeys) :
    (Json.array items.reverse).HasUniqueKeys :=
  everywhere_array.2 fun item hitem => hitems item (List.mem_reverse.1 hitem)

theorem Reading.hasUniqueKeys_of_complete (hvalue : value.HasUniqueKeys)
    (hstack : ∀ frame ∈ stack, frame.HasUniqueKeys)
    (hcomplete : complete value stack = some next) : next.HasUniqueKeys := by
  cases stack with
  | nil =>
      cases hcomplete
      exact ⟨nofun, by rintro _ ⟨⟩; exact hvalue⟩
  | cons frame stack =>
      obtain ⟨hframe, hrest⟩ := List.forall_mem_cons.1 hstack
      cases frame with
      | array items =>
          cases hcomplete
          exact ⟨List.forall_mem_cons.2 ⟨List.forall_mem_cons.2 ⟨hvalue, hframe⟩, hrest⟩, nofun⟩
      | entry entries key =>
          cases hcomplete
          exact ⟨List.forall_mem_cons.2 ⟨hasUniqueKeys_insertEntry key hframe hvalue, hrest⟩, nofun⟩
      | object entries => cases hcomplete

theorem Reading.hasUniqueKeys_of_push {wanted : Wanted} (hframe : frame.HasUniqueKeys)
    (hwanted : ∀ value, wanted ≠ .nothing value) (hstack : ∀ frame ∈ stack, frame.HasUniqueKeys)
    (hpush : push frame wanted stack = some next) : next.HasUniqueKeys := by
  unfold push at hpush
  split at hpush
  · cases hpush
    exact ⟨List.forall_mem_cons.2 ⟨hframe, hstack⟩, fun value heq => absurd heq (hwanted value)⟩
  · cases hpush

theorem Reading.hasUniqueKeys_of_beginValue {token : Token} (htoken : token.IsSimple)
    (hstack : ∀ frame ∈ stack, frame.HasUniqueKeys)
    (hbegin : beginValue stack token = some next) : next.HasUniqueKeys := by
  cases token with
  | atom value =>
      exact hasUniqueKeys_of_complete (everywhere_of_isContainer (htoken value rfl)) hstack hbegin
  | text s => exact hasUniqueKeys_of_complete (everywhere_of_isContainer rfl) hstack hbegin
  | openArray =>
      have hempty : (Frame.array []).HasUniqueKeys := by simp [Frame.HasUniqueKeys]
      exact hasUniqueKeys_of_push hempty (by simp) hstack hbegin
  | openObject =>
      have hempty : (Frame.object []).HasUniqueKeys := ⟨List.nodup_nil, trivial⟩
      exact hasUniqueKeys_of_push hempty (by simp) hstack hbegin
  | _ => cases hbegin

/-- One more token gives no object a key twice. -/
theorem Reading.HasUniqueKeys.step (hreading : reading.HasUniqueKeys) {token : Token}
    (htoken : token.IsSimple) (hstep : reading.step token = some next) : next.HasUniqueKeys := by
  obtain ⟨stack, wanted⟩ := reading
  obtain ⟨hstack, -⟩ := hreading
  unfold Reading.step at hstep
  dsimp only at hstack hstep
  split at hstep
  -- A value begins.
  · exact hasUniqueKeys_of_beginValue htoken hstack hstep
  -- An array is closed that has no items.
  · obtain ⟨hframe, hrest⟩ := List.forall_mem_cons.1 hstack
    exact hasUniqueKeys_of_complete (hasUniqueKeys_array_reverse hframe) hrest hstep
  · exact hasUniqueKeys_of_beginValue htoken hstack hstep
  -- An object is closed that has no entries.
  · obtain ⟨hframe, hrest⟩ := List.forall_mem_cons.1 hstack
    exact hasUniqueKeys_of_complete hframe hrest hstep
  -- A key, or the colon after one.
  · cases hstep
    exact ⟨hstack, nofun⟩
  · cases hstep
    exact ⟨hstack, nofun⟩
  · cases hstep
    obtain ⟨hframe, hrest⟩ := List.forall_mem_cons.1 hstack
    exact ⟨List.forall_mem_cons.2 ⟨hframe, hrest⟩, nofun⟩
  -- A comma.
  · cases hstep
    exact ⟨hstack, nofun⟩
  · cases hstep
    exact ⟨hstack, nofun⟩
  -- An array or an object is closed.
  · obtain ⟨hframe, hrest⟩ := List.forall_mem_cons.1 hstack
    exact hasUniqueKeys_of_complete (hasUniqueKeys_array_reverse hframe) hrest hstep
  · obtain ⟨hframe, hrest⟩ := List.forall_mem_cons.1 hstack
    exact hasUniqueKeys_of_complete hframe hrest hstep
  · cases hstep

/-- The run of the machine gives no object a key twice. -/
theorem Reading.HasUniqueKeys.run (hreading : reading.HasUniqueKeys) {tokens : List Token}
    (htokens : ∀ token ∈ tokens, token.IsSimple) (hrun : reading.run tokens = some value) :
    value.HasUniqueKeys := by
  induction tokens generalizing reading with
  | nil =>
      unfold Reading.run at hrun
      split at hrun
      · rename_i result hwanted
        cases hrun
        exact hreading.result _ hwanted
      · cases hrun
  | cons token tokens ih =>
      obtain ⟨htoken, htokens⟩ := List.forall_mem_cons.1 htokens
      unfold Reading.run at hrun
      split at hrun
      · rename_i after hstep
        exact ih (hreading.step htoken hstep) htokens hrun
      · cases hrun

/-- No object that was read has a key twice. -/
theorem hasUniqueKeys_of_read {text : String} (hread : read? text = some value) :
    value.HasUniqueKeys := by
  obtain ⟨tokens, htokens, hrun⟩ := Option.bind_eq_some_iff.1 hread
  have hstart : (⟨[], .value⟩ : Reading).HasUniqueKeys := ⟨by simp, by simp⟩
  exact hstart.run (isSimple_of_scanFrom (by simp) htokens) hrun

end Json
end Listing
