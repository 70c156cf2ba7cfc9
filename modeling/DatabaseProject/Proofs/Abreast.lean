import DatabaseProject.Proofs.Failure

/-!
# Two runs that end alike

Where `Replays` follows a run that succeeds, `Abreast` follows two runs to their ends, whatever these
are: both have results that go together or both fail with errors of one kind, and the states that
they leave differ only in ids. The second run may look for its sources elsewhere, so that an error
may name another path. One way of failing is set apart: the runs need not agree when the first one
looks for an include at the empty path.
-/

namespace DatabaseProject

open FileTree Outcome

/-- Errors of one kind, which differ at most in the paths that they name. -/
inductive GenerationError.SameKind : GenerationError → GenerationError → Prop
  | same (e : GenerationError) : SameKind e e
  | missingIncludeFolder (path other : Path) :
      SameKind (.missingIncludeFolder path) (.missingIncludeFolder other)
  | missingDacpac (path other : Path) (database : String) :
      SameKind (.missingDacpac path database) (.missingDacpac other database)
  | unreadable (path other : Path) : SameKind (.unreadable path) (.unreadable other)
  | unwritable (path other : Path) : SameKind (.unwritable path) (.unwritable other)

theorem GenerationError.SameKind.trans {e e' e'' : GenerationError} (h : e.SameKind e')
    (h' : e'.SameKind e'') : e.SameKind e'' := by
  cases h with
  | same => exact h'
  | missingIncludeFolder path =>
    cases h' <;> exact .missingIncludeFolder path _
  | missingDacpac path =>
    cases h' <;> exact .missingDacpac path _ _
  | unreadable path =>
    cases h' <;> exact .unreadable path _
  | unwritable path =>
    cases h' <;> exact .unwritable path _

/-- Results that go together, or errors of one kind. -/
inductive EndsAlike {α β : Type} (Q : α → β → Prop) :
    Except GenerationError α → Except GenerationError β → Prop
  | ok {a : α} {b : β} : Q a b → EndsAlike Q (.ok a) (.ok b)
  | error {e e' : GenerationError} : e.SameKind e' → EndsAlike Q (.error e) (.error e')

/-- An include has been looked for at the empty path, and there is one that has no segments. -/
def Lost {α : Type} (Bare : Prop) (x : Except GenerationError α) : Prop :=
  Bare ∧ x = .error (.missingIncludeFolder ⟨""⟩)

section Ends

variable {α β γ δ : Type} {Bare : Prop} {Q : α → β → Prop} {P : γ → δ → Prop}
  {x : Except GenerationError α} {y : Except GenerationError β} {f : α → Except GenerationError γ}
  {g : β → Except GenerationError δ}

theorem EndsAlike.same (x : Except GenerationError α) : EndsAlike Eq x x := by
  cases x with
  | error e => exact .error (.same e)
  | ok a => exact .ok rfl

theorem EndsAlike.mono {Wide : α → β → Prop} (h : EndsAlike Q x y) (hw : ∀ a b, Q a b → Wide a b) :
    EndsAlike Wide x y := by
  cases h with
  | ok hq => exact .ok (hw _ _ hq)
  | error he => exact .error he

theorem EndsAlike.trans_eq {z : Except GenerationError β} (h : EndsAlike Q x y) (h' : EndsAlike Eq y z) :
    EndsAlike Q x z := by
  cases h with
  | ok hq =>
    cases h' with
    | ok he => exact .ok (he ▸ hq)
  | error he =>
    cases h' with
    | error he' => exact .error (he.trans he')

theorem EndsAlike.bind (h : EndsAlike Q x y) (hf : ∀ a b, Q a b → EndsAlike P (f a) (g b)) :
    EndsAlike P (x >>= f) (y >>= g) := by
  cases h with
  | ok hq => exact hf _ _ hq
  | error he => exact .error he

theorem EndsAlike.mapM {f : γ → Except GenerationError α} {g : γ → Except GenerationError β}
    {xs : List γ} (h : ∀ a ∈ xs, EndsAlike Q (f a) (g a)) :
    EndsAlike (List.Forall₂ Q) (xs.mapM f) (xs.mapM g) := by
  induction xs with
  | nil => exact .ok .nil
  | cons a xs ih =>
    rw [List.forall_mem_cons] at h
    rw [List.mapM_cons, List.mapM_cons]
    exact h.1.bind fun _ _ hfirst => (ih h.2).bind fun _ _ hrest => .ok (.cons hfirst hrest)

/-- What only fails with errors of one kind ends alike, where each side has a result when the other
one has. -/
theorem endsAlike_of_results (hx : ∀ a, x = .ok a → ∃ b, y = .ok b ∧ Q a b)
    (hy : ∀ b, y = .ok b → ∃ a, x = .ok a)
    (he : ∀ e e', x = .error e → y = .error e' → e.SameKind e') : EndsAlike Q x y := by
  cases hxe : x with
  | ok a =>
    obtain ⟨b, rfl, hq⟩ := hx a hxe
    exact .ok hq
  | error e =>
    cases hye : y with
    | ok b =>
      obtain ⟨a, ha⟩ := hy b hye
      rw [hxe] at ha
      cases ha
    | error e' => exact .error (he e e' hxe hye)

end Ends

/-- The states of two runs with different ids: as many ids have been taken, and the trees differ only
in ids. -/
structure StatesAlike (Pair : String → String → Prop) (s s' : RunState) : Prop where
  home : s.tree.get? s.tree.workingFolder = some .folder
  issued_eq : s'.issued = s.issued
  trees : s.tree.Alike Pair s'.tree

namespace Run

variable {α β γ δ : Type} {Pair : String → String → Prop} {final : RunState} {Bare : Prop}
  {Q : α → β → Prop} {P : γ → δ → Prop} {x : Run α} {y : Run β} {f : α → Run γ} {g : β → Run δ}

/-- From states that are alike two runs end alike, on the way to a final state, or the first one is
lost. -/
structure Abreast (Pair : String → String → Prop) (final : RunState) (Bare : Prop) (Q : α → β → Prop)
    (x : Run α) (y : Run β) : Prop where
  advances : x.Advances final
  ends : ∀ s s', StatesAlike Pair s s' → (x.exec s).2.Leads final →
    Lost Bare (x.exec s).1 ∨
      EndsAlike Q (x.exec s).1 (y.exec s').1 ∧ StatesAlike Pair (x.exec s).2 (y.exec s').2

theorem abreast_pure {a : α} {b : β} (h : Q a b) : Abreast Pair final Bare Q (pure a) (pure b) :=
  ⟨advances_pure a, fun _ _ hs _ => .inr ⟨.ok h, hs⟩⟩

theorem abreast_liftM {e : Except GenerationError α} {e' : Except GenerationError β}
    (h : EndsAlike Q e e') : Abreast Pair final Bare Q (liftM e) (liftM e') :=
  ⟨advances_liftM e, fun _ _ hs _ => .inr ⟨h, hs⟩⟩

theorem abreast_throw {e e' : GenerationError} (h : e.SameKind e') :
    Abreast Pair final Bare Q (throw e : Run α) (throw e') :=
  ⟨advances_throw e, fun _ _ hs _ => .inr ⟨.error h, hs⟩⟩

theorem abreast_onTree {change change' : FileTree → Except GenerationError FileTree}
    (hc : ∀ old new, change old = .ok new → old.KeptBy new)
    (h : ∀ old old', old.Alike Pair old' → old.get? old.workingFolder = some .folder →
      EndsAlike (Alike Pair) (change old) (change' old')) :
    Abreast Pair final Bare Eq (onTree change) (onTree change') := by
  refine ⟨advances_onTree_ending hc, fun s s' hs _ => .inr ?_⟩
  have hends := h s.tree s'.tree hs.trees hs.home
  rw [exec_onTree, exec_onTree]
  generalize hold : change s.tree = result at hends ⊢
  generalize change' s'.tree = other at hends ⊢
  cases hends with
  | error he => exact ⟨.error he, hs⟩
  | ok hnew => exact ⟨.ok rfl, (hc _ _ hold).home hs.home, hs.issued_eq, hnew⟩

theorem Abreast.bind (hx : Abreast Pair final Bare Q x y)
    (hf : ∀ a b, Q a b → Abreast Pair final Bare P (f a) (g b)) (ha : ∀ a, (f a).Advances final) :
    Abreast Pair final Bare P (x >>= f) (y >>= g) := by
  refine ⟨advances_bind hx.advances ha, fun s s' hs ht => ?_⟩
  have hends := hx.ends s s' hs
  rw [exec_bind] at ht ⊢
  rw [exec_bind]
  generalize x.exec s = first at hends ht ⊢
  generalize y.exec s' = second at hends ⊢
  obtain ⟨result, t⟩ := first
  obtain ⟨result', t'⟩ := second
  cases result with
  | error e =>
    rcases hends ht with ⟨hbare, hlost⟩ | ⟨he, hstates⟩
    · cases hlost
      exact .inl ⟨hbare, rfl⟩
    · cases he with
      | error he => exact .inr ⟨.error he, hstates⟩
  | ok a =>
    rcases hends (ha a t ht) with ⟨-, hlost⟩ | ⟨hq, hstates⟩
    · cases hlost
    · cases hq with
      | ok hq => exact (hf a _ hq).ends t t' hstates ht

theorem Abreast.seq {f : α → Run γ} {g : α → Run δ} {y : Run α}
    (hx : Abreast Pair final Bare Eq x y) (hf : ∀ a, Abreast Pair final Bare P (f a) (g a)) :
    Abreast Pair final Bare P (x >>= f) (y >>= g) := by
  refine hx.bind ?_ fun a => (hf a).advances
  rintro a _ rfl
  exact hf a

theorem abreast_forM {xs : List γ} {f g : γ → Run Unit}
    (h : ∀ a ∈ xs, Abreast Pair final Bare Eq (f a) (g a)) :
    Abreast Pair final Bare Eq (xs.forM f) (xs.forM g) := by
  induction xs with
  | nil => exact abreast_pure rfl
  | cons a xs ih =>
    rw [List.forall_mem_cons] at h
    exact h.1.seq fun _ => ih h.2

theorem abreast_foldlM {σ σ' : Type} {Q : σ → σ' → Prop} {xs : List γ} {f : σ → γ → Run σ}
    {g : σ' → γ → Run σ'} {init : σ} {init' : σ'} (hi : Q init init')
    (h : ∀ a ∈ xs, ∀ v v', Q v v' → Abreast Pair final Bare Q (f v a) (g v' a))
    (ha : ∀ v, ∀ a ∈ xs, (f v a).Advances final) :
    Abreast Pair final Bare Q (xs.foldlM f init) (xs.foldlM g init') := by
  induction xs generalizing init init' with
  | nil => exact abreast_pure hi
  | cons a xs ih =>
    rw [List.forall_mem_cons] at h
    simp only [List.forall_mem_cons, forall_and] at ha
    exact (h.1 init init' hi).bind (fun v v' hq => ih hq h.2 ha.2) fun _ => advances_foldlM ha.2

theorem abreast_mapM {xs : List γ} {f : γ → Run α} {g : γ → Run β}
    (h : ∀ a ∈ xs, Abreast Pair final Bare Q (f a) (g a)) :
    Abreast Pair final Bare (List.Forall₂ Q) (xs.mapM f) (xs.mapM g) := by
  induction xs with
  | nil => exact abreast_pure .nil
  | cons a xs ih =>
    rw [List.forall_mem_cons] at h
    rw [List.mapM_cons, List.mapM_cons]
    refine h.1.bind (fun _ _ hfirst => (ih h.2).bind (fun _ _ hrest => ?_) fun _ => advances_pure _)
      fun _ => advances_bind (ih h.2).advances fun _ => advances_pure _
    exact abreast_pure (.cons hfirst hrest)

end Run

theorem Renamed.symm {Pair : String → String → Prop} {text text' : String} (h : Renamed Pair text text') :
    Renamed (flip Pair) text' text := by
  induction h with
  | same => exact .same _
  | id hp => exact .id hp
  | append _ _ hfront hback => exact .append hfront hback

theorem FileEntry.Alike.symm {Pair : String → String → Prop} {entry other : FileEntry}
    (h : entry.Alike Pair other) : other.Alike (flip Pair) entry := by
  cases h with
  | same => exact .same _
  | text ht => exact .text ht.symm

namespace FileTree

variable {Pair : String → String → Prop} {tree other old old' : FileTree}
  {path parent source target : Path} {content content' : File} {e : GenerationError}

theorem Alike.symm (h : tree.Alike Pair other) : other.Alike (flip Pair) tree := by
  refine ⟨h.workingFolder_eq.symm, fun x => ?_⟩
  have he := h.entries x
  generalize tree.get? x = entry at he ⊢
  generalize other.get? x = found at he ⊢
  cases he with
  | none => exact .none
  | some he => exact .some he.symm

theorem SameShape.locate?_eq (h : SameShape tree other) : other.locate? path = tree.locate? path :=
  Option.ext fun _ => ⟨h.covers.locate?, h.covered.locate?⟩

/-- Nothing else goes wrong than that something cannot be written. -/
def OnlyUnwritable {α : Type} (x : Except GenerationError α) : Prop :=
  ∀ e, x = .error e → ∃ path, e = .unwritable path

theorem OnlyUnwritable.bind {α β : Type} {x : Except GenerationError α} {f : α → Except GenerationError β}
    (hx : OnlyUnwritable x) (hf : ∀ a, OnlyUnwritable (f a)) : OnlyUnwritable (x >>= f) := by
  intro e he
  cases hxe : x with
  | error found =>
    rw [hxe] at he
    cases he
    exact hx e hxe
  | ok a =>
    rw [hxe] at he
    exact hf a e he

theorem onlyUnwritable_storeAt {folder : Location} : OnlyUnwritable (tree.storeAt folder path content) := by
  intro e he
  unfold storeAt at he
  split at he
  · cases he
  · exact ⟨path, (Except.error.inj he).symm⟩

theorem onlyUnwritable_makeFolder : OnlyUnwritable (tree.makeFolder path) := by
  intro e he
  unfold makeFolder at he
  split at he
  · cases he
  · exact ⟨path, (Except.error.inj he).symm⟩

theorem onlyUnwritable_store : OnlyUnwritable (tree.store parent path content) :=
  onlyUnwritable_makeFolder.bind fun _ => onlyUnwritable_storeAt

theorem onlyUnwritable_copy : OnlyUnwritable (tree.copy source target) := by
  refine onlyUnwritable_makeFolder.bind fun made => ?_
  obtain ⟨made, folder⟩ := made
  dsimp only
  split
  · exact onlyUnwritable_storeAt.bind fun _ => onlyUnwritable_storeAt
  · intro e he
    exact ⟨target, (Except.error.inj he).symm⟩

theorem endsAlike_of_unwritable {x y : Except GenerationError FileTree} (hx : OnlyUnwritable x)
    (hy : OnlyUnwritable y) (hok : ∀ new, x = .ok new → ∃ new', y = .ok new' ∧ new.Alike Pair new')
    (hback : ∀ new', y = .ok new' → ∃ new, x = .ok new) : EndsAlike (Alike Pair) x y := by
  refine endsAlike_of_results hok hback fun e e' he he' => ?_
  obtain ⟨path, rfl⟩ := hx e he
  obtain ⟨other, rfl⟩ := hy e' he'
  exact .unwritable path other

theorem Alike.endsAlike_store (h : old.Alike Pair old') (hh : old.get? old.workingFolder = some .folder)
    (hc : (FileEntry.file content).Alike Pair (.file content')) :
    EndsAlike (Alike Pair) (old.store parent path content) (old'.store parent path content') := by
  refine endsAlike_of_unwritable onlyUnwritable_store onlyUnwritable_store
    (fun _ hs => h.store hh hs hc) fun _ hs => ?_
  obtain ⟨new, hn, -⟩ := h.symm.store (h.covered.home hh) hs hc.symm
  exact ⟨new, hn⟩

theorem Alike.endsAlike_copy (h : old.Alike Pair old') (hh : old.get? old.workingFolder = some .folder) :
    EndsAlike (Alike Pair) (old.copy source target) (old'.copy source target) := by
  refine endsAlike_of_unwritable onlyUnwritable_copy onlyUnwritable_copy
    (fun _ hs => h.copy hh hs) fun _ hs => ?_
  obtain ⟨new, hn, -⟩ := h.symm.copy (h.covered.home hh) hs
  exact ⟨new, hn⟩

end FileTree

namespace Generate

open Run

variable {settings : Settings} {folder : Path} {db : Database} {name : String} {old old' : FileTree}
  {Pair : String → String → Prop} {final : RunState} {Bare : Prop}

theorem abreast_write {path : Path} {text text' : String} (h : Renamed Pair text text') :
    Abreast Pair final Bare Eq (Run.onTree (·.write path text.toUTF8))
      (Run.onTree (·.write path text'.toUTF8)) :=
  abreast_onTree (fun _ _ => keptBy_store) fun _ _ halike hh => halike.endsAlike_store hh (.text h)

/-- Without its package file a copy fails, and else only where it cannot be written. -/
theorem copyDacpac_eq_error {e : GenerationError} (h : copyDacpac settings folder db name old = .error e) :
    old.read? (dacpacSource settings name) = none ∧ e = .missingDacpac (dacpacSource settings name) db.name ∨
      old.read? (dacpacSource settings name) ≠ none ∧ ∃ path, e = .unwritable path := by
  unfold copyDacpac at h
  cases hr : old.read? (dacpacSource settings name) with
  | none =>
    simp only [hr] at h
    exact .inl ⟨rfl, (Except.error.inj h).symm⟩
  | some content =>
    simp only [hr] at h
    refine .inr ⟨nofun, ?_⟩
    split at h
    · cases h
    · split at h
      · exact ⟨_, (Except.error.inj h).symm⟩
      · exact onlyUnwritable_store e h

theorem endsAlike_copyDacpac (h : old.Alike Pair old') (hh : old.get? old.workingFolder = some .folder) :
    EndsAlike (FileTree.Alike Pair) (copyDacpac settings folder db name old)
      (copyDacpac settings folder db name old') := by
  have hhome := h.covered.home hh
  refine endsAlike_of_results (fun _ => copyDacpac_alike h hh) (fun _ hc => ?_) fun e e' he he' => ?_
  · obtain ⟨new, hn, -⟩ := copyDacpac_alike h.symm hhome hc
    exact ⟨new, hn⟩
  · have hread : old.read? (dacpacSource settings name) = none ↔
        old'.read? (dacpacSource settings name) = none := by
      simp only [Option.eq_none_iff_forall_ne_some]
      constructor
      · intro hn content hr
        obtain ⟨_, _, -, -, -, hf⟩ := h.covers.read? hr
        exact hn _ hf
      · intro hn content hr
        obtain ⟨_, _, -, -, -, hf⟩ := h.covered.read? hr
        exact hn _ hf
    rcases copyDacpac_eq_error he with ⟨hn, rfl⟩ | ⟨hn, path, rfl⟩
    · rcases copyDacpac_eq_error he' with ⟨-, rfl⟩ | ⟨hn', -⟩
      · exact .same _
      · exact absurd (hread.1 hn) hn'
    · rcases copyDacpac_eq_error he' with ⟨hn', -⟩ | ⟨-, other, rfl⟩
      · exact absurd (hread.2 hn') hn
      · exact .unwritable path other

end Generate

end DatabaseProject
