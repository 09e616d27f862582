/-
# When a computation is refused

A valid request can only fail for what its store does not have. `RefusedIff` says this of one
computation: it fails exactly under a given condition, and every failure names an unsupported
feature. The lemmas follow the ways in which computations are put together, so that the condition
of a compiler is the disjunction of the conditions of its parts.

The module speaks of no particular compiler. That a store lacks something is stated where the
store is compiled for.
-/
import Listing.Error

namespace Listing

/-- The error names a feature that the store does not have. -/
def QueryError.IsUnsupported (e : QueryError) : Prop :=
  ∃ param backend feature, e = .unsupportedByBackend param backend feature

/-- The computation fails exactly if `p` holds, and only for lack of support. -/
def RefusedIff {α : Type} (x : Result α) (p : Prop) : Prop :=
  match x with
  | .ok _ => ¬ p
  | .error e => e.IsUnsupported ∧ p

namespace Result

variable {ε α β : Type}

/-- The two halves of a successful sequence. -/
theorem bind_eq_ok {x : Except ε α} {f : α → Except ε β} {b : β} :
    x >>= f = .ok b ↔ ∃ a, x = .ok a ∧ f a = .ok b := by
  cases x with
  | error e => simp [bind, Except.bind]
  | ok a => simp [bind, Except.bind]

/-- A sequence fails in its first half or, after that, in the second. -/
theorem bind_eq_error {x : Except ε α} {f : α → Except ε β} {e : ε} :
    x >>= f = .error e ↔ x = .error e ∨ ∃ a, x = .ok a ∧ f a = .error e := by
  cases x with
  | error e' => simp [bind, Except.bind]
  | ok a => simp [bind, Except.bind]

/-- What a changed result stems from. -/
theorem map_eq_ok {x : Except ε α} {f : α → β} {b : β} :
    f <$> x = .ok b ↔ ∃ a, x = .ok a ∧ f a = b := by
  cases x with
  | error e => simp [Functor.map, Except.map]
  | ok a => simp [Functor.map, Except.map]

theorem toOption_eq_some {x : Except ε α} {a : α} : x.toOption = some a ↔ x = .ok a := by
  cases x <;> simp [Except.toOption]

/-- What is said of some result is said of the one that there is. -/
theorem exists_ok_iff {x : Except ε α} {a : α} {p : α → Prop} (hx : x = .ok a) :
    (∃ b, x = .ok b ∧ p b) ↔ p a := by
  rw [hx]
  simp

/-- Sequences look alike if their halves do. -/
theorem map_bind_congr {γ δ : Type} {x x' : Except ε α} {f f' : α → Except ε β} {u : α → γ}
    {v : β → δ} (hx : u <$> x = u <$> x') (hf : ∀ a a', u a = u a' → v <$> f a = v <$> f' a') :
    v <$> (x >>= f) = v <$> (x' >>= f') := by
  cases x with
  | error e =>
      cases x' with
      | error e' =>
          cases hx
          rfl
      | ok a' => cases hx
  | ok a =>
      cases x' with
      | error e' => cases hx
      | ok a' => exact hf a a' (Except.ok.inj hx)

/-- Sequences that begin with the same step look alike if what follows does. -/
theorem map_bind_congr_right {δ : Type} (x : Except ε α) {f f' : α → Except ε β} {v : β → δ}
    (hf : ∀ a, v <$> f a = v <$> f' a) : v <$> (x >>= f) = v <$> (x >>= f') := by
  cases x with
  | error e => rfl
  | ok a => exact hf a

/-- Traversals of lists that look alike look alike. -/
theorem map_mapM_congr {γ δ : Type} {f : α → Except ε β} {look : α → γ} {u : β → δ}
    {xs xs' : List α} (hxs : xs.map look = xs'.map look)
    (hf : ∀ x ∈ xs, ∀ x' ∈ xs', look x = look x' → u <$> f x = u <$> f x') :
    List.map u <$> xs.mapM f = List.map u <$> xs'.mapM f := by
  induction xs generalizing xs' with
  | nil =>
      rw [List.map_nil, eq_comm, List.map_eq_nil_iff] at hxs
      rw [hxs]
  | cons x xs ih =>
      cases xs' with
      | nil => simp at hxs
      | cons x' xs' =>
          rw [List.map_cons, List.map_cons, List.cons.injEq] at hxs
          have hhead := hf x List.mem_cons_self x' List.mem_cons_self hxs.1
          have htail := ih hxs.2 fun y hy y' hy' =>
            hf y (List.mem_cons_of_mem x hy) y' (List.mem_cons_of_mem x' hy')
          rw [List.mapM_cons, List.mapM_cons]
          refine map_bind_congr hhead fun b b' hb => map_bind_congr htail fun bs bs' hbs => ?_
          show Except.ok (List.map u (b :: bs)) = Except.ok (List.map u (b' :: bs'))
          rw [List.map_cons, List.map_cons, hb, hbs]

/-- A check over a list succeeds exactly if it does for every element. -/
theorem forM_eq_ok {f : α → Except ε Unit} {xs : List α} :
    xs.forM f = .ok () ↔ ∀ x ∈ xs, f x = .ok () := by
  induction xs with
  | nil => simp [pure, Except.pure]
  | cons x xs ih =>
      show (f x >>= fun _ => xs.forM f) = .ok () ↔ _
      rw [bind_eq_ok, ih, List.forall_mem_cons]
      constructor
      · rintro ⟨_, hx, hxs⟩
        exact ⟨hx, hxs⟩
      · rintro ⟨hx, hxs⟩
        exact ⟨(), hx, hxs⟩

/-- What every successful step of a fold preserves holds at its end. -/
theorem foldlM_invariant {f : β → α → Except ε β} {xs : List α} (invariant : β → Prop)
    (hstep : ∀ b x b', invariant b → f b x = .ok b' → invariant b') {b b' : β} (hb : invariant b)
    (hfold : xs.foldlM f b = .ok b') : invariant b' := by
  induction xs generalizing b with
  | nil =>
      cases hfold
      exact hb
  | cons x xs ih =>
      rw [List.foldlM_cons] at hfold
      obtain ⟨c, hc, hrest⟩ := bind_eq_ok.1 hfold
      exact ih (hstep b x c hb hc) hrest

/-- Where no step depends on the ones before it, a fold succeeds exactly if every step does. -/
theorem exists_foldlM_iff {f : β → α → Except ε β} {p : α → Prop}
    (hstep : ∀ b x, (∃ b', f b x = .ok b') ↔ p x) {xs : List α} (b : β) :
    (∃ b', xs.foldlM f b = .ok b') ↔ ∀ x ∈ xs, p x := by
  induction xs generalizing b with
  | nil => simp [pure, Except.pure]
  | cons x xs ih =>
      simp only [List.foldlM_cons, bind_eq_ok, List.forall_mem_cons]
      constructor
      · rintro ⟨b', c, hc, hrest⟩
        exact ⟨(hstep b x).1 ⟨c, hc⟩, (ih c).1 ⟨b', hrest⟩⟩
      · rintro ⟨hx, hxs⟩
        obtain ⟨c, hc⟩ := (hstep b x).2 hx
        obtain ⟨b', hrest⟩ := (ih c).2 hxs
        exact ⟨b', c, hc, hrest⟩

/-- Every element of a traversal succeeds if the traversal does. -/
theorem mapM_eq_ok_mem {f : α → Except ε β} {xs : List α} {ys : List β}
    (hmap : xs.mapM f = .ok ys) {x : α} (hx : x ∈ xs) : ∃ y ∈ ys, f x = .ok y := by
  induction xs generalizing ys with
  | nil => simp at hx
  | cons x' xs ih =>
      rw [List.mapM_cons] at hmap
      obtain ⟨y', hy', hrest⟩ := bind_eq_ok.1 hmap
      obtain ⟨ys', hys', hcons⟩ := bind_eq_ok.1 hrest
      cases hcons
      rcases List.mem_cons.1 hx with rfl | htail
      · exact ⟨y', by simp, hy'⟩
      · obtain ⟨y, hy, hfx⟩ := ih hys' htail
        exact ⟨y, by simp [hy], hfx⟩

/-- A traversal succeeds if every step does, and the values of its results are those of its
elements. -/
theorem exists_mapM_eq_ok {γ : Type} {f : α → Except ε β} {xs : List α} {value : β → γ}
    {expected : α → γ} {p : β → Prop}
    (hstep : ∀ x ∈ xs, ∃ y, f x = .ok y ∧ value y = expected x ∧ p y) :
    ∃ ys, xs.mapM f = .ok ys ∧ ys.map value = xs.map expected ∧ ∀ y ∈ ys, p y := by
  induction xs with
  | nil => exact ⟨[], rfl, rfl, by simp⟩
  | cons x xs ih =>
      obtain ⟨y, hy, hvalue, hp⟩ := hstep x List.mem_cons_self
      obtain ⟨ys, hys, hvalues, hps⟩ := ih fun x' hx' => hstep x' (List.mem_cons_of_mem x hx')
      refine ⟨y :: ys, ?_, ?_, ?_⟩
      · rw [List.mapM_cons, hy, hys]
        rfl
      · rw [List.map_cons, List.map_cons, hvalue, hvalues]
      · intro y' hy'
        rcases List.mem_cons.1 hy' with rfl | htail
        · exact hp
        · exact hps y' htail

theorem length_of_mapM_eq_ok {f : α → Except ε β} {xs : List α} {ys : List β}
    (hmap : xs.mapM f = .ok ys) : ys.length = xs.length := by
  induction xs generalizing ys with
  | nil =>
      cases hmap
      rfl
  | cons x xs ih =>
      rw [List.mapM_cons] at hmap
      obtain ⟨y, _, hrest⟩ := bind_eq_ok.1 hmap
      obtain ⟨ys', hys', hcons⟩ := bind_eq_ok.1 hrest
      cases hcons
      rw [List.length_cons, List.length_cons, ih hys']

/-- A traversal goes through another one, if every step of it does. -/
theorem exists_mapM_eq_ok_map {γ : Type} {f : α → Except ε β} {g : α → Except ε γ} {finish : γ → β}
    (hstep : ∀ x y, f x = .ok y → ∃ z, g x = .ok z ∧ y = finish z) {xs : List α} {ys : List β}
    (hmap : xs.mapM f = .ok ys) : ∃ zs, xs.mapM g = .ok zs ∧ ys = zs.map finish := by
  induction xs generalizing ys with
  | nil =>
      cases hmap
      exact ⟨[], rfl, rfl⟩
  | cons x xs ih =>
      rw [List.mapM_cons] at hmap
      obtain ⟨y, hy, hrest⟩ := bind_eq_ok.1 hmap
      obtain ⟨ys', hys, hcons⟩ := bind_eq_ok.1 hrest
      cases hcons
      obtain ⟨z, hz, rfl⟩ := hstep x y hy
      obtain ⟨zs, hzs, rfl⟩ := ih hys
      exact ⟨z :: zs, by rw [List.mapM_cons, hz, hzs]; rfl, rfl⟩

/-- What is the same for every element and its result is the same for a traversal. -/
theorem map_eq_of_mapM_eq_ok {γ : Type} {f : α → Except ε β} {value : β → γ} {expected : α → γ}
    (hstep : ∀ x y, f x = .ok y → value y = expected x) {xs : List α} {ys : List β}
    (hmap : xs.mapM f = .ok ys) : ys.map value = xs.map expected := by
  induction xs generalizing ys with
  | nil =>
      cases hmap
      rfl
  | cons x xs ih =>
      rw [List.mapM_cons] at hmap
      obtain ⟨y, hy, hrest⟩ := bind_eq_ok.1 hmap
      obtain ⟨ys', hys, hcons⟩ := bind_eq_ok.1 hrest
      cases hcons
      rw [List.map_cons, List.map_cons, hstep x y hy, ih hys]

/-- Every result of a traversal stems from an element. -/
theorem mem_of_mapM_eq_ok {f : α → Except ε β} {xs : List α} {ys : List β}
    (hmap : xs.mapM f = .ok ys) {y : β} (hy : y ∈ ys) : ∃ x ∈ xs, f x = .ok y := by
  induction xs generalizing ys with
  | nil =>
      cases hmap
      simp at hy
  | cons x' xs ih =>
      rw [List.mapM_cons] at hmap
      obtain ⟨y', hy', hrest⟩ := bind_eq_ok.1 hmap
      obtain ⟨ys', hys', hcons⟩ := bind_eq_ok.1 hrest
      cases hcons
      rcases List.mem_cons.1 hy with rfl | htail
      · exact ⟨x', by simp, hy'⟩
      · obtain ⟨x, hx, hfx⟩ := ih hys' htail
        exact ⟨x, by simp [hx], hfx⟩

/-- A traversal of elements in another order gives its results in another order. -/
theorem mapM_perm {f : α → Except ε β} {xs xs' : List α} (hperm : xs.Perm xs') {ys : List β}
    (hmap : xs.mapM f = .ok ys) : ∃ ys', xs'.mapM f = .ok ys' ∧ ys.Perm ys' := by
  induction hperm generalizing ys with
  | nil => exact ⟨ys, hmap, .refl ys⟩
  | cons x _ ih =>
      rw [List.mapM_cons] at hmap
      obtain ⟨y, hy, hrest⟩ := bind_eq_ok.1 hmap
      obtain ⟨ys, hys, hcons⟩ := bind_eq_ok.1 hrest
      cases hcons
      obtain ⟨ys', hys', hperm⟩ := ih hys
      exact ⟨y :: ys', by rw [List.mapM_cons, hy, hys']; rfl, hperm.cons y⟩
  | swap x x' xs =>
      simp only [List.mapM_cons] at hmap
      obtain ⟨y', hy', hrest⟩ := bind_eq_ok.1 hmap
      obtain ⟨ys', htail, hcons⟩ := bind_eq_ok.1 hrest
      cases hcons
      obtain ⟨y, hy, hrest⟩ := bind_eq_ok.1 htail
      obtain ⟨ys, hys, hcons⟩ := bind_eq_ok.1 hrest
      cases hcons
      exact ⟨y :: y' :: ys, by simp only [List.mapM_cons, hy, hy', hys]; rfl, .swap y y' ys⟩
  | trans _ _ ih ih' =>
      obtain ⟨ys', hys', hperm⟩ := ih hmap
      obtain ⟨ys'', hys'', hperm'⟩ := ih' hys'
      exact ⟨ys'', hys'', hperm.trans hperm'⟩

end Result

namespace RefusedIff

variable {α β : Type} {p q : Prop}

/-- A refused computation fails exactly under its condition. -/
theorem exists_error_iff {x : Result α} (h : RefusedIff x p) : (∃ e, x = .error e) ↔ p := by
  cases x with
  | ok a => simpa [RefusedIff] using h
  | error e =>
      have hp : p := h.2
      simp [hp]

/-- A refused computation fails only for lack of support. -/
theorem isUnsupported {x : Result α} (h : RefusedIff x p) {e : QueryError}
    (herror : x = .error e) : e.IsUnsupported := by
  rw [herror] at h
  exact h.1

/-- The condition may be replaced by an equivalent one. -/
theorem congr {x : Result α} (h : RefusedIff x p) (hiff : p ↔ q) : RefusedIff x q := by
  rw [← propext hiff]
  exact h

/-- What succeeds is never refused. -/
theorem ok (a : α) : RefusedIff (.ok a : Result α) False := by
  intro hfalse
  exact hfalse

/-- An unsupported feature is always refused. -/
theorem unsupported (param backend : String) (feature : Feature) :
    RefusedIff (.error (.unsupportedByBackend param backend feature) : Result α) True :=
  ⟨⟨param, backend, feature, rfl⟩, trivial⟩

/-- A sequence is refused if its first half is, or else its second. -/
theorem bind {x : Result α} {f : α → Result β} (hx : RefusedIff x p)
    (hf : ∀ a, x = .ok a → RefusedIff (f a) q) : RefusedIff (x >>= f) (p ∨ q) := by
  cases x with
  | error e => exact ⟨hx.1, Or.inl hx.2⟩
  | ok a => exact (hf a rfl).congr ⟨Or.inr, fun h => h.resolve_left hx⟩

/-- A sequence whose first half succeeds is refused if its second half is. -/
theorem bind_ok {x : Result α} {a : α} {f : α → Result β} (hx : x = .ok a)
    (hf : RefusedIff (f a) q) : RefusedIff (x >>= f) q := by
  rw [hx]
  exact hf

/-- Changing what a computation returns does not change when it is refused. -/
theorem map {x : Result α} (f : α → β) (hx : RefusedIff x p) : RefusedIff (f <$> x) p := by
  cases x with
  | error e => exact hx
  | ok a => exact hx

/-- A traversal is refused if it is at some element. -/
theorem mapM {f : α → Result β} {p : α → Prop} {xs : List α}
    (hf : ∀ x ∈ xs, RefusedIff (f x) (p x)) : RefusedIff (xs.mapM f) (∃ x ∈ xs, p x) := by
  induction xs with
  | nil => exact (RefusedIff.ok ([] : List β)).congr (by simp)
  | cons x xs ih =>
      rw [List.mapM_cons]
      have htail := ih fun y hy => hf y (List.mem_cons_of_mem x hy)
      have hhead := hf x List.mem_cons_self
      have hrest : ∀ b, RefusedIff (xs.mapM f >>= fun bs => Pure.pure (b :: bs)) _ :=
        fun b => htail.bind fun bs _ => RefusedIff.ok (b :: bs)
      exact (hhead.bind fun b _ => hrest b).congr (by simp)

/-- A fold is refused if one of its steps is, whatever has been computed before. -/
theorem foldlM {f : β → α → Result β} {p : α → Prop} {xs : List α} (b : β)
    (hf : ∀ b, ∀ x ∈ xs, RefusedIff (f b x) (p x)) :
    RefusedIff (xs.foldlM f b) (∃ x ∈ xs, p x) := by
  induction xs generalizing b with
  | nil => exact (RefusedIff.ok b).congr (by simp)
  | cons x xs ih =>
      rw [List.foldlM_cons]
      have htail := fun b' => ih b' fun b y hy => hf b y (List.mem_cons_of_mem x hy)
      have hhead := hf b x List.mem_cons_self
      exact (hhead.bind fun b' _ => htail b').congr (by simp)

/-- An optional computation is refused if it is there and is refused. -/
theorem optionMapM {f : α → Result β} {p : α → Prop} {o : Option α}
    (hf : ∀ x, o = some x → RefusedIff (f x) (p x)) :
    RefusedIff (o.mapM f) (∃ x, o = some x ∧ p x) := by
  cases o with
  | none => exact (RefusedIff.ok (none : Option β)).congr (by simp)
  | some x => exact ((hf x rfl).map some).congr (by simp)

end RefusedIff
end Listing
