import Mathlib.Data.List.Induction
import Mathlib.Data.List.Nodup
import Mathlib.Data.List.Perm.Basic

/-!
# Laws of computations that can fail

What a sequence of steps needs to succeed, for the `Except` values that every stage of a run
returns; and what it means for each element of a list to fit behind the elements before it.
-/

namespace DatabaseProject.Outcome

variable {ε α β σ : Type}

theorem bind_eq_ok {x : Except ε α} {f : α → Except ε β} {b : β} :
    x >>= f = .ok b ↔ ∃ a, x = .ok a ∧ f a = .ok b := by
  cases x with
  | error e => simp [bind, Except.bind]
  | ok a => simp [bind, Except.bind]

theorem toOption_eq_some {x : Except ε α} {a : α} : x.toOption = some a ↔ x = .ok a := by
  cases x <;> simp [Except.toOption]

theorem pure_eq_ok {a b : α} : (pure a : Except ε α) = .ok b ↔ a = b := by
  simp [pure, Except.pure]

theorem map_eq_ok {x : Except ε α} {f : α → β} {b : β} :
    x.map f = .ok b ↔ ∃ a, x = .ok a ∧ f a = b := by
  cases x with
  | error e => simp [Except.map]
  | ok a => simp [Except.map]

theorem forM_eq_ok {xs : List α} {f : α → Except ε Unit} :
    xs.forM f = .ok () ↔ ∀ x ∈ xs, f x = .ok () := by
  induction xs with
  | nil => simp [pure, Except.pure]
  | cons x xs ih =>
    change f x >>= (fun _ => xs.forM f) = .ok () ↔ _
    rw [bind_eq_ok, ih, List.forall_mem_cons]
    constructor
    · rintro ⟨⟨⟩, hx, hs⟩
      exact ⟨hx, hs⟩
    · rintro ⟨hx, hs⟩
      exact ⟨(), hx, hs⟩

theorem mapM_eq_ok {f : α → Except ε β} {xs : List α} {ys : List β} :
    xs.mapM f = .ok ys ↔ List.Forall₂ (fun x y => f x = .ok y) xs ys := by
  induction xs generalizing ys with
  | nil => simp [List.mapM_nil, pure_eq_ok, eq_comm (a := [])]
  | cons x xs ih =>
    rw [List.mapM_cons]
    simp only [bind_eq_ok, pure_eq_ok, List.forall₂_cons_left_iff, ih]
    constructor
    · rintro ⟨y, hy, ys, hys, rfl⟩
      exact ⟨y, ys, hy, hys, rfl⟩
    · rintro ⟨y, ys, hy, hys, rfl⟩
      exact ⟨y, hy, ys, hys, rfl⟩

theorem mapM_option_eq_ok {f : α → Except ε β} {x : Option α} {y : Option β} :
    x.mapM f = .ok y ↔ Option.Rel (fun a b => f a = .ok b) x y := by
  cases x with
  | none =>
    rw [Option.mapM_none, pure_eq_ok]
    constructor
    · rintro rfl
      exact .none
    · rintro ⟨⟩
      rfl
  | some a =>
    change (f a >>= fun b => pure (some b)) = .ok y ↔ _
    rw [bind_eq_ok]
    constructor
    · rintro ⟨b, hb, ⟨⟩⟩
      exact .some hb
    · rintro ⟨hb⟩
      exact ⟨_, hb, rfl⟩

/-- Elements with a partner each make a list with a list of partners. -/
theorem exists_forall₂ {R : α → β → Prop} {xs : List α} :
    (∃ ys, List.Forall₂ R xs ys) ↔ ∀ x ∈ xs, ∃ y, R x y := by
  induction xs with
  | nil => simp
  | cons x xs ih =>
    rw [List.forall_mem_cons, ← ih]
    constructor
    · rintro ⟨ys, h⟩
      obtain ⟨y, rest, hy, hrest, rfl⟩ := List.forall₂_cons_left_iff.1 h
      exact ⟨⟨y, hy⟩, rest, hrest⟩
    · rintro ⟨⟨y, hy⟩, rest, hrest⟩
      exact ⟨y :: rest, .cons hy hrest⟩

theorem exists_optionRel {R : α → β → Prop} {x : Option α} :
    (∃ y, Option.Rel R x y) ↔ ∀ a ∈ x, ∃ b, R a b := by
  cases x with
  | none => exact iff_of_true ⟨none, .none⟩ (by simp)
  | some a =>
    constructor
    · rintro ⟨_, ⟨h⟩⟩ _ ⟨⟩
      exact ⟨_, h⟩
    · intro h
      obtain ⟨b, hb⟩ := h a rfl
      exact ⟨some b, .some hb⟩

theorem optionRel_imp {R S : α → β → Prop} {x : Option α} {y : Option β} (h : Option.Rel R x y)
    (hi : ∀ a b, R a b → S a b) : Option.Rel S x y := by
  cases h with
  | none => exact .none
  | some hr => exact .some (hi _ _ hr)

theorem isSome_of_optionRel {R : α → β → Prop} {x : Option α} {y : Option β} (h : Option.Rel R x y) :
    y.isSome = x.isSome := by
  cases h <;> rfl

theorem mem_mapM {f : α → Except ε β} {xs : List α} {ys : List β} (h : xs.mapM f = .ok ys) {y : β} :
    y ∈ ys ↔ ∃ x ∈ xs, f x = .ok y := by
  rw [mapM_eq_ok] at h
  induction h with
  | nil => simp
  | cons hx _ ih => simp [ih, hx, eq_comm]

theorem mapM_of_forall {f : α → Except ε β} {g : α → β} {xs : List α} (h : ∀ x ∈ xs, f x = .ok (g x)) :
    xs.mapM f = .ok (xs.map g) :=
  mapM_eq_ok.2 (List.forall₂_map_right_iff.2 (List.forall₂_same.2 h))

theorem getElem?_of_forall₂ {R : α → β → Prop} {xs : List α} {ys : List β} {k : Nat} {x : α}
    (h : List.Forall₂ R xs ys) (hx : xs[k]? = some x) : ∃ y, ys[k]? = some y ∧ R x y := by
  induction h generalizing k with
  | nil => cases hx
  | cons hfirst _ ih =>
    cases k with
    | zero =>
      cases hx
      exact ⟨_, rfl, hfirst⟩
    | succ k => exact ih hx

theorem exists_right_of_forall₂ {R : α → β → Prop} {xs : List α} {ys : List β} {x : α}
    (h : List.Forall₂ R xs ys) (hx : x ∈ xs) : ∃ y ∈ ys, R x y := by
  obtain ⟨k, hk⟩ := List.mem_iff_getElem?.1 hx
  obtain ⟨y, hy, hr⟩ := getElem?_of_forall₂ h hk
  exact ⟨y, List.mem_of_getElem? hy, hr⟩

theorem exists_left_of_forall₂ {R : α → β → Prop} {xs : List α} {ys : List β} {y : β}
    (h : List.Forall₂ R xs ys) (hy : y ∈ ys) : ∃ x ∈ xs, R x y :=
  exists_right_of_forall₂ h.flip hy

/-- What is done alike to each element is done alike to all. -/
theorem mapM_forall₂ {f g : α → Except ε β} {R : β → β → Prop} {xs : List α} {ys : List β}
    (h : ∀ x y, f x = .ok y → ∃ z, g x = .ok z ∧ R y z) (hf : xs.mapM f = .ok ys) :
    ∃ zs, xs.mapM g = .ok zs ∧ List.Forall₂ R ys zs := by
  rw [mapM_eq_ok] at hf
  simp only [mapM_eq_ok]
  induction hf with
  | nil => exact ⟨[], .nil, .nil⟩
  | cons hfirst _ ih =>
    obtain ⟨z, hz, hr⟩ := h _ _ hfirst
    obtain ⟨zs, hzs, hrs⟩ := ih
    exact ⟨z :: zs, .cons hz hzs, .cons hr hrs⟩

/-- Taking the elements in another order makes no other outcome than one in that order. -/
theorem mapM_perm {f : α → Except ε β} {xs others : List α} {ys : List β} (hp : xs.Perm others)
    (h : xs.mapM f = .ok ys) : ∃ zs, others.mapM f = .ok zs ∧ ys.Perm zs := by
  obtain ⟨zs, hz, hperm⟩ := List.perm_comp_forall₂ hp.symm (mapM_eq_ok.1 h)
  exact ⟨zs, mapM_eq_ok.2 hz, hperm.symm⟩

theorem foldlM_congr {step other : σ → α → Except ε σ} {xs : List α}
    (h : ∀ x ∈ xs, ∀ state, step state x = other state x) (init : σ) :
    xs.foldlM step init = xs.foldlM other init := by
  induction xs generalizing init with
  | nil => rfl
  | cons x xs ih =>
    rw [List.forall_mem_cons] at h
    rw [List.foldlM_cons, List.foldlM_cons, h.1 init]
    exact congrArg _ (funext (ih h.2))

theorem foldlM_concat_eq_ok {step : σ → α → Except ε σ} {xs : List α} {x : α} {init final : σ} :
    (xs ++ [x]).foldlM step init = .ok final ↔
      ∃ middle, xs.foldlM step init = .ok middle ∧ step middle x = .ok final := by
  rw [List.foldlM_append, bind_eq_ok]
  simp

/-- A property that every successful step hands on holds behind all of them; the steps taken so
far go along. -/
theorem foldlM_induction {step : σ → α → Except ε σ} {motive : List α → σ → Prop} {init : σ}
    (start : motive [] init)
    (next : ∀ done state x state', motive done state → step state x = .ok state' →
      motive (done ++ [x]) state')
    {xs : List α} {final : σ} (h : xs.foldlM step init = .ok final) : motive xs final := by
  induction xs using List.reverseRecOn generalizing final with
  | nil =>
    cases h
    exact start
  | append_singleton xs x ih =>
    obtain ⟨middle, hm, hs⟩ := foldlM_concat_eq_ok.1 h
    exact next xs middle x final (ih hm) hs

/-- Each element of a list fits behind the elements before it. -/
def EachAfter (Fits : List α → α → Prop) (xs : List α) : Prop :=
  ∀ done x rest, xs = done ++ x :: rest → Fits done x

variable {Fits : List α → α → Prop} {x : α} {xs : List α}

theorem eachAfter_nil : EachAfter Fits [] := by
  intro done x rest h
  simp at h

theorem eachAfter_cons :
    EachAfter Fits (x :: xs) ↔ Fits [] x ∧ EachAfter (fun done => Fits (x :: done)) xs := by
  constructor
  · intro h
    refine ⟨h [] x xs rfl, ?_⟩
    rintro done y rest rfl
    exact h (x :: done) y rest rfl
  · rintro ⟨hx, hxs⟩ done y rest h
    cases done with
    | nil =>
      cases h
      exact hx
    | cons z done =>
      cases h
      exact hxs done y rest rfl

theorem eachAfter_concat : EachAfter Fits (xs ++ [x]) ↔ EachAfter Fits xs ∧ Fits xs x := by
  induction xs generalizing Fits with
  | nil => simp [eachAfter_cons, eachAfter_nil]
  | cons y xs ih => rw [List.cons_append, eachAfter_cons, ih, eachAfter_cons, and_assoc]

/-- What only looks at some of the elements can be said of those alone. -/
theorem eachAfter_filterMap {f : α → Option β} {Fits : List β → β → Prop} :
    EachAfter Fits (xs.filterMap f) ↔
      EachAfter (fun done x => ∀ y, f x = some y → Fits (done.filterMap f) y) xs := by
  induction xs using List.reverseRecOn with
  | nil => exact iff_of_true eachAfter_nil eachAfter_nil
  | append_singleton xs x ih =>
    rw [eachAfter_concat, ← ih, List.filterMap_append]
    cases hx : f x with
    | none => simp [hx]
    | some y => simp [hx, eachAfter_concat]

theorem eachAfter_filter {p : α → Bool} : EachAfter Fits (xs.filter p) ↔
    EachAfter (fun done x => p x = true → Fits (done.filter p) x) xs := by
  induction xs using List.reverseRecOn with
  | nil => exact iff_of_true eachAfter_nil eachAfter_nil
  | append_singleton xs x ih =>
    rw [eachAfter_concat, ← ih, List.filter_append]
    cases hx : p x with
    | false => simp [hx]
    | true => simp [hx, eachAfter_concat]

theorem nodup_map_iff_eachAfter {f : α → β} :
    (xs.map f).Nodup ↔ EachAfter (fun done x => f x ∉ done.map f) xs := by
  induction xs using List.reverseRecOn with
  | nil => exact iff_of_true List.nodup_nil eachAfter_nil
  | append_singleton xs x ih =>
    rw [eachAfter_concat, ← ih, List.map_append, List.map_singleton, List.nodup_middle,
      List.append_nil, List.nodup_cons, and_comm]

end DatabaseProject.Outcome
