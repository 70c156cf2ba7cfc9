import DatabaseProject.Proofs.Batches
import DatabaseProject.Proofs.ScriptText

/-!
# Delimited text

A text is read up to a character that does not stand in its first part, and a list of items up to an
item of another kind. So what a part is written from can be told from the whole text, as soon as the
part can be told from its own text and does not hold what ends it. Names of letters, digits and
underscores hold none of the characters that end anything in a script.
-/

namespace DatabaseProject

open Identifier

section

variable {α : Type} [BEq α] {c : α} {s rest behind last : List α} {pieces front : List (List α)}

/-- Behind its last piece a list goes on with the first piece of what follows. -/
theorem splitOn_append (hs : s.splitOn c = front ++ [last]) (hr : rest.splitOn c = behind :: pieces) :
    (s ++ rest).splitOn c = front ++ (last ++ behind) :: pieces := by
  induction s generalizing front last with
  | nil =>
    rw [List.splitOn_nil] at hs
    obtain ⟨rfl, hlast⟩ := @List.append_inj' _ [] _ _ _ hs rfl
    rw [← List.singleton_inj.1 hlast, List.nil_append, hr]
    rfl
  | cons d s ih =>
    have hpieces := List.dropLast_concat_getLast (List.splitOn_ne_nil c s)
    have hrest := ih hpieces.symm
    rw [List.splitOn_cons_eq_if_modifyHead, ← hpieces] at hs
    rw [List.cons_append, List.splitOn_cons_eq_if_modifyHead, hrest]
    split_ifs at hs ⊢
    · obtain ⟨rfl, hlast⟩ := @List.append_inj' _ ([] :: _) _ _ _ hs rfl
      rw [← List.singleton_inj.1 hlast]
      rfl
    · cases hfront : (s.splitOn c).dropLast with
      | nil =>
        rw [hfront] at hs
        obtain ⟨rfl, hlast⟩ := @List.append_inj' _ [] _ _ _ hs rfl
        rw [← List.singleton_inj.1 hlast]
        rfl
      | cons first others =>
        rw [hfront] at hs
        obtain ⟨rfl, hlast⟩ := @List.append_inj' _ ((d :: first) :: others) _ _ _ hs rfl
        rw [← List.singleton_inj.1 hlast]
        rfl

theorem splitOn_append_of_not_mem [LawfulBEq α] (h : c ∉ s) (hr : rest.splitOn c = behind :: pieces) :
    (s ++ rest).splitOn c = (s ++ behind) :: pieces := by
  have hs : s.splitOn c = [] ++ [s] := List.splitOn_eq_singleton h
  exact splitOn_append hs hr

end

/-- What is written of things of a kind tells what there is to see of them. -/
def Tells {α β γ : Type} (p : α → Prop) (written : α → β) (seen : α → γ) : Prop :=
  ∀ first second, p first → p second → written first = written second → seen first = seen second

section

variable {α β γ : Type}

/-- Lists that begin with things of a kind, up to one of another kind, are the same part by part. -/
theorem append_inj_of_forall {p : α → Prop} {xs ys rest more : List α} (hx : ∀ a ∈ xs, p a)
    (hy : ∀ a ∈ ys, p a) (hr : ∀ a ∈ rest.head?, ¬ p a) (hm : ∀ a ∈ more.head?, ¬ p a)
    (h : xs ++ rest = ys ++ more) : xs = ys ∧ rest = more := by
  induction xs generalizing ys with
  | nil =>
    cases ys with
    | nil => exact ⟨rfl, h⟩
    | cons y ys =>
      rw [List.nil_append] at h
      subst h
      exact absurd (hy y List.mem_cons_self) (hr y rfl)
  | cons x xs ih =>
    cases ys with
    | nil =>
      rw [List.nil_append] at h
      subst h
      exact absurd (hx x List.mem_cons_self) (hm x rfl)
    | cons y ys =>
      rw [List.forall_mem_cons] at hx hy
      rw [List.cons_append, List.cons_append, List.cons.injEq] at h
      obtain ⟨hparts, hrest⟩ := ih hx.2 hy.2 h.2
      exact ⟨by rw [h.1, hparts], hrest⟩

/-- Things that are all written at one length tell one after the other what there is to see. -/
theorem Tells.flatMap {p : α → Prop} {written : α → List β} {seen : α → γ} {n : Nat}
    (h : Tells p written seen) (hlength : ∀ a, (written a).length = n + 1) :
    Tells (fun xs => ∀ a ∈ xs, p a) (fun xs => xs.flatMap written) (List.map seen) := by
  intro xs ys hx hy he
  induction xs generalizing ys with
  | nil =>
    cases ys with
    | nil => rfl
    | cons y ys =>
      have hn := congrArg List.length he
      simp only [List.flatMap_nil, List.flatMap_cons, List.length_nil, List.length_append, hlength] at hn
      omega
  | cons x xs ih =>
    cases ys with
    | nil =>
      have hn := congrArg List.length he
      simp only [List.flatMap_nil, List.flatMap_cons, List.length_nil, List.length_append, hlength] at hn
      omega
    | cons y ys =>
      rw [List.forall_mem_cons] at hx hy
      obtain ⟨hfirst, hrest⟩ := List.append_inj he ((hlength x).trans (hlength y).symm)
      rw [List.map_cons, List.map_cons, h x y hx.1 hy.1 hfirst, ih ys hx.2 hy.2 hrest]

theorem Tells.map {p : α → Prop} {written : α → β} {seen : α → γ} (h : Tells p written seen) :
    Tells (fun xs => ∀ a ∈ xs, p a) (List.map written) (List.map seen) := by
  have hone : Tells p (fun a => [written a]) seen :=
    fun first second hf hs he => h first second hf hs (List.singleton_inj.1 he)
  intro xs ys hx hy he
  apply hone.flatMap (n := 0) (fun _ => rfl) xs ys hx hy
  rwa [List.map_eq_flatMap, List.map_eq_flatMap] at he

end

/-- Texts that are the same are the same before and from the first place of a character on. -/
theorem cut_inj {c : Char} {first second rest more : String} (hf : c ∉ first.toList)
    (hs : c ∉ second.toList) (hr : ∀ d ∈ rest.toList.head?, d = c)
    (hm : ∀ d ∈ more.toList.head?, d = c) (h : first ++ rest = second ++ more) :
    first = second ∧ rest = more := by
  rw [← String.toList_inj, String.toList_append, String.toList_append] at h
  have hparts := append_inj_of_forall (p := fun d => d ≠ c) (List.forall_mem_ne'.2 hf)
    (List.forall_mem_ne'.2 hs) (fun d hd => not_not.2 (hr d hd)) (fun d hd => not_not.2 (hm d hd)) h
  exact ⟨String.toList_inj.1 hparts.1, String.toList_inj.1 hparts.2⟩

theorem unlines_inj {lines others : List String} (hne : lines ≠ []) (hne' : others ≠ [])
    (h : ∀ line ∈ lines, Unbroken line) (h' : ∀ line ∈ others, Unbroken line)
    (he : unlines lines = unlines others) : lines = others := by
  rw [unlines_eq hne, unlines_eq hne', String.append_left_inj] at he
  rw [← textLines_intercalate hne h, he, textLines_intercalate hne' h']

theorem joinBatches_inj {batches others : List String} (h : ∀ batch ∈ batches, IsBatch batch)
    (h' : ∀ batch ∈ others, IsBatch batch) (he : joinBatches batches = joinBatches others) :
    batches = others := by
  have hcut := cutBatches_joinBatches h
  rw [he, cutBatches_joinBatches h'] at hcut
  exact (Prod.ext_iff.1 hcut).1.symm

theorem intercalate_cons (separator text : String) (rest : List String) :
    separator.intercalate (text :: rest) = text ++ String.join (rest.map (separator ++ ·)) := by
  induction rest generalizing text with
  | nil => simp
  | cons next rest ih =>
    rw [String.intercalate_cons_cons, ih next, List.map_cons, String.join_cons]
    simp only [String.append_assoc]

theorem not_mem_intercalate {c : Char} {separator : String} {texts : List String}
    (hs : c ∉ separator.toList) (h : ∀ text ∈ texts, c ∉ text.toList) :
    c ∉ (separator.intercalate texts).toList := by
  cases texts with
  | nil => simp
  | cons text rest =>
    rw [List.forall_mem_cons] at h
    intro hc
    rw [intercalate_cons, String.toList_append, String.toList_join, List.mem_append, List.mem_flatMap] at hc
    obtain hc | ⟨text, ht, hc⟩ := hc
    · exact h.1 hc
    · obtain ⟨item, hi, rfl⟩ := List.mem_map.1 ht
      rw [String.toList_append, List.mem_append] at hc
      exact hc.elim hs (h.2 item hi)

/-- What can stand in a list with commas between its items. -/
def IsItem (text : String) : Prop := text ≠ "" ∧ ',' ∉ text.toList

theorem join_inj {items others : List String} (h : ∀ item ∈ items, IsItem item)
    (h' : ∀ item ∈ others, IsItem item)
    (he : String.join (items.map (", " ++ ·)) = String.join (others.map (", " ++ ·))) :
    items = others := by
  -- Each item ends at the comma of the next one, or at the end.
  have hhead : ∀ texts : List String, ∀ d ∈ (String.join (texts.map (", " ++ ·))).toList.head?, d = ',' := by
    intro texts
    cases texts <;> simp
  induction items generalizing others with
  | nil =>
    cases others with
    | nil => rfl
    | cons other others => simp [← String.toList_inj] at he
  | cons item items ih =>
    cases others with
    | nil => simp [← String.toList_inj] at he
    | cons other others =>
      rw [List.forall_mem_cons] at h h'
      simp only [List.map_cons, String.join_cons, String.append_assoc, String.append_right_inj] at he
      obtain ⟨rfl, hrest⟩ := cut_inj h.1.2 h'.1.2 (hhead items) (hhead others) he
      rw [ih h.2 h'.2 hrest]

theorem intercalate_inj {items others : List String} (h : ∀ item ∈ items, IsItem item)
    (h' : ∀ item ∈ others, IsItem item) (he : ", ".intercalate items = ", ".intercalate others) :
    items = others := by
  have hempty : ∀ (item : String) (rest : List String), IsItem item →
      ", ".intercalate (item :: rest) ≠ "" := by
    intro item rest hi hnone
    rw [intercalate_cons, String.append_eq_empty_iff] at hnone
    exact hi.1 hnone.1
  cases items with
  | nil =>
    cases others with
    | nil => rfl
    | cons other others => exact absurd he.symm (hempty other others (h' other List.mem_cons_self))
  | cons item items =>
    cases others with
    | nil => exact absurd he (hempty item items (h item List.mem_cons_self))
    | cons other others =>
      apply join_inj h h'
      rw [intercalate_cons, intercalate_cons] at he
      simp only [List.map_cons, String.join_cons, String.append_assoc, he]

/-- Things that are written as items tell in a list, one after the other, what there is to see. -/
theorem Tells.intercalate {α γ : Type} {p : α → Prop} {written : α → String} {seen : α → γ}
    (h : Tells p written seen) (hitem : ∀ a, p a → IsItem (written a)) :
    Tells (fun xs => ∀ a ∈ xs, p a) (fun xs => ", ".intercalate (xs.map written)) (List.map seen) := by
  intro xs ys hx hy he
  have hitems : ∀ zs : List α, (∀ a ∈ zs, p a) → ∀ item ∈ zs.map written, IsItem item := by
    intro zs hz
    rw [List.forall_mem_map]
    exact fun a ha => hitem a (hz a ha)
  exact h.map xs ys hx hy (intercalate_inj (hitems xs hx) (hitems ys hy) he)

/-- A letter, a digit or an underscore. -/
def IsPlainChar (c : Char) : Prop := c.isAlphanum = true ∨ c = '_'

instance (c : Char) : Decidable (IsPlainChar c) :=
  inferInstanceAs (Decidable (c.isAlphanum = true ∨ c = '_'))

def IsPlainName (name : String) : Prop := ∀ c ∈ name.toList, IsPlainChar c

instance (name : String) : Decidable (IsPlainName name) := List.decidableBAll IsPlainChar name.toList

/-- Names that are all plain. -/
def ArePlainNames (names : List String) : Prop := ∀ name ∈ names, IsPlainName name

instance (names : List String) : Decidable (ArePlainNames names) :=
  inferInstanceAs (Decidable (∀ name ∈ names, IsPlainName name))

theorem isPlainName_append {name rest : String} :
    IsPlainName (name ++ rest) ↔ IsPlainName name ∧ IsPlainName rest := by
  unfold IsPlainName
  rw [String.toList_append, List.forall_mem_append]

namespace IsPlainName

variable {name : String}

theorem not_mem (h : IsPlainName name) {c : Char} (hc : ¬ IsPlainChar c) :
    c ∉ name.toList := fun hm => hc (h c hm)

theorem head?_ne (h : IsPlainName name) : name.toList.head? ≠ some '[' := by
  intro hhead
  exact h.not_mem (by decide) (List.mem_of_head? hhead)

theorem getLast?_ne (h : IsPlainName name) : name.toList.getLast? ≠ some ']' := by
  intro hlast
  exact h.not_mem (by decide) (List.mem_of_getLast? hlast)

theorem not_halfBracketed (h : IsPlainName name) : isHalfBracketed name = false := by
  simp [isHalfBracketed, h.head?_ne, h.getLast?_ne]

theorem unbroken (h : IsPlainName name) : Unbroken name := h.not_mem (by decide)

theorem inBrackets_eq (h : IsPlainName name) : inBrackets name = "[" ++ name ++ "]" := by
  apply inBrackets_of_unbracketed
  simp [isBracketed, h.head?_ne]

theorem head?_inBrackets (h : IsPlainName name) : ∀ d ∈ (inBrackets name).toList.head?, d = '[' := by
  rw [h.inBrackets_eq]
  simp

theorem not_mem_inBrackets (h : IsPlainName name) {c : Char} (hc : ¬ IsPlainChar c)
    (hb : c ∉ ['[', ']']) : c ∉ (inBrackets name).toList := by
  rw [List.mem_cons, List.mem_singleton, not_or] at hb
  rw [h.inBrackets_eq]
  simp [hb.1, hb.2, h.not_mem hc]

theorem isItem_inBrackets (h : IsPlainName name) : IsItem (inBrackets name) := by
  refine ⟨?_, h.not_mem_inBrackets (by decide) (by decide)⟩
  rw [h.inBrackets_eq]
  simp [← String.toList_inj]

end IsPlainName

namespace ArePlainNames

variable {names : List String}

theorem writable (h : ArePlainNames names) : Writable names := fun name hn => (h name hn).not_halfBracketed

theorem not_mem_nameList (h : ArePlainNames names) {c : Char} (hc : ¬ IsPlainChar c)
    (hb : c ∉ ['[', ']', ',', ' ']) : c ∉ (nameList names).toList := by
  simp only [List.mem_cons, List.not_mem_nil, or_false, not_or] at hb
  apply not_mem_intercalate (by simp [hb])
  rw [List.forall_mem_map]
  exact fun name hn => (h name hn).not_mem_inBrackets hc (by simp [hb])

end ArePlainNames

/-- A plain name in brackets is read up to its second bracket. -/
theorem inBrackets_append_inj {first second rest more : String} (hf : IsPlainName first)
    (hs : IsPlainName second) (h : inBrackets first ++ rest = inBrackets second ++ more) :
    first = second ∧ rest = more := by
  rw [hf.inBrackets_eq, hs.inBrackets_eq] at h
  simp only [String.append_assoc, String.append_right_inj] at h
  obtain ⟨hname, h⟩ := cut_inj (hf.not_mem (c := ']') (by decide)) (hs.not_mem (by decide))
    (by simp) (by simp) h
  exact ⟨hname, (String.append_right_inj _).1 h⟩

theorem tells_inBrackets : Tells IsPlainName inBrackets id := by
  intro first second hf hs h
  rwa [hf.inBrackets_eq, hs.inBrackets_eq, String.append_left_inj, String.append_right_inj] at h

theorem tells_nameList : Tells ArePlainNames nameList id := by
  intro first second hf hs h
  have hnames := tells_inBrackets.intercalate (fun _ => IsPlainName.isItem_inBrackets) first second hf hs h
  rwa [List.map_id, List.map_id] at hnames

/-- Tables of plain names are told by their names in a script. -/
theorem TableRef.twoPartName_append_inj {first second : TableRef} {rest more : String}
    (hf : IsPlainName first.schema ∧ IsPlainName first.table)
    (hs : IsPlainName second.schema ∧ IsPlainName second.table)
    (h : first.twoPartName ++ rest = second.twoPartName ++ more) :
    first.schema = second.schema ∧ first.table = second.table ∧ rest = more := by
  have hparts : ∀ ref : TableRef, IsPlainName ref.schema ∧ IsPlainName ref.table →
      ref.twoPartName = inBrackets ref.schema ++ ("." ++ inBrackets ref.table) := by
    intro ref hr
    rw [hr.1.inBrackets_eq, hr.2.inBrackets_eq, ← String.toList_inj]
    simp [twoPartName]
  rw [hparts first hf, hparts second hs] at h
  simp only [String.append_assoc] at h
  obtain ⟨hschema, h⟩ := inBrackets_append_inj hf.1 hs.1 h
  rw [String.append_right_inj] at h
  exact ⟨hschema, inBrackets_append_inj hf.2 hs.2 h⟩

end DatabaseProject
