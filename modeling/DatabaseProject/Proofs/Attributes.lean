import Mathlib
import DatabaseProject.Definition.Reader
import DatabaseProject.Proofs.Decimal
import DatabaseProject.Proofs.Outcome

/-!
# Values of attributes

What an attribute says: a truth value in any case of its letters, a 32-bit integer, a word of a
vocabulary. For each kind of value a relation between the element and the value says the same as the
reader finds.
-/

namespace DatabaseProject

open Outcome

/-- A vocabulary in which every value has a name of its own. -/
class LawfulKeyword (α : Type) [Keyword α] : Prop where
  mem_all : ∀ value : α, value ∈ (Keyword.all : List α)
  name_injective : Function.Injective (Keyword.name : α → String)

namespace Keyword

variable {α : Type} [Keyword α]

/-- The names of a vocabulary. -/
def names (α : Type) [Keyword α] : List String := (all : List α).map name

variable [LawfulKeyword α]

theorem ofName?_eq_some {text : String} {value : α} : ofName? text = some value ↔ text = name value := by
  constructor
  · intro h
    have hname : name value = text := by simpa using List.find?_some h
    exact hname.symm
  · rintro rfl
    have hsome : ((all : List α).find? fun other => name other == name value).isSome := by
      rw [List.find?_isSome]
      exact ⟨value, LawfulKeyword.mem_all value, by simp⟩
    obtain ⟨found, hfound⟩ := Option.isSome_iff_exists.1 hsome
    have hname : name found = name value := by simpa using List.find?_some hfound
    rwa [LawfulKeyword.name_injective hname] at hfound

theorem mem_names {text : String} : text ∈ names α ↔ ∃ value : α, text = name value := by
  rw [names, List.mem_map]
  exact ⟨fun ⟨value, _, he⟩ => ⟨value, he.symm⟩,
    fun ⟨value, he⟩ => ⟨value, LawfulKeyword.mem_all value, he.symm⟩⟩

end Keyword

/-- A vocabulary whose values are all there and can be told apart by what stands in for their names. -/
theorem LawfulKeyword.of_nodup {α : Type} [Keyword α] (h : ∀ value : α, value ∈ (Keyword.all : List α))
    (hn : (Keyword.names α).Nodup) : LawfulKeyword α :=
  ⟨h, fun first second he => List.inj_on_of_nodup_map hn (h first) (h second) he⟩

instance : LawfulKeyword LogicalType := .of_nodup (by rintro ⟨⟩ <;> decide) (by decide)

instance : LawfulKeyword Compression := .of_nodup (by rintro ⟨⟩ <;> decide) (by decide)

instance : LawfulKeyword SortOrder := .of_nodup (by rintro ⟨⟩ <;> decide) (by decide)

instance : LawfulKeyword Platform := .of_nodup (by rintro ⟨⟩ <;> decide) (by decide)

instance : LawfulKeyword ServerVersion := .of_nodup (by rintro ⟨⟩ <;> decide) (by decide)

namespace Xml.Element

variable {e : Element} {name text : String}

/-- A text is a word in any case of its letters. -/
def InAnyCase (word text : String) : Prop :=
  List.Forall₂ (fun letter c => c = letter ∨ c = letter.toUpper) word.toList text.toList

theorem toLower_eq_iff {c letter : Char} (h : letter.isLower = true) :
    c.toLower = letter ↔ c = letter ∨ c = letter.toUpper := by
  have hletter : letter.toLower = letter := Char.toLower_eq_of_not_isUpper (Char.not_isUpper_of_isLower h)
  constructor
  · rintro rfl
    by_cases hc : c.isUpper = true
    · right
      rw [Char.toUpper_toLower_eq_toUpper, Char.toUpper_eq_of_not_isLower (Char.not_isLower_of_isUpper hc)]
    · exact .inl (Char.toLower_eq_of_not_isUpper hc).symm
  · rintro (rfl | rfl)
    · exact hletter
    · rw [Char.toLower_toUpper_eq_toLower, hletter]

theorem inAnyCase_iff {word : String} (h : ∀ letter ∈ word.toList, letter.isLower = true) :
    text.toList.map Char.toLower = word.toList ↔ InAnyCase word text := by
  unfold InAnyCase
  generalize word.toList = letters at h
  generalize text.toList = cs
  induction cs generalizing letters with
  | nil => simp [eq_comm]
  | cons c cs ih =>
    cases letters with
    | nil => simp
    | cons letter letters =>
      rw [List.forall_mem_cons] at h
      rw [List.map_cons, List.cons_eq_cons, List.forall₂_cons, toLower_eq_iff h.1, ih _ h.2]

theorem truthValue?_eq_some {b : Bool} : truthValue? text = some b ↔ InAnyCase (toString b) text := by
  have hlower : ∀ b : Bool, ∀ letter ∈ (toString b).toList, letter.isLower = true := by
    intro b
    cases b <;> simp [toString]
  rw [← inAnyCase_iff (hlower b)]
  change (if text.toList.map Char.toLower = (toString true).toList then some true
    else if text.toList.map Char.toLower = (toString false).toList then some false else none) = some b ↔ _
  generalize text.toList.map Char.toLower = folded
  have hne : (toString true).toList ≠ (toString false).toList := by decide
  cases b <;> split_ifs <;> simp_all

/-- A truth value; false when it is left out. -/
def HasBool (e : Element) (name : String) (b : Bool) : Prop :=
  match e.attribute? name with
  | none => b = false
  | some text => InAnyCase (toString b) text

theorem bool_eq_ok {b : Bool} : e.bool name = .ok b ↔ e.HasBool name b := by
  unfold bool HasBool
  cases e.attribute? name with
  | none => exact ⟨fun h => (Except.ok.inj h).symm, fun h => congrArg _ h.symm⟩
  | some text =>
    dsimp only
    rw [← truthValue?_eq_some]
    cases truthValue? text <;> simp

theorem HasBool.unique {b b' : Bool} (h : e.HasBool name b) (h' : e.HasBool name b') : b = b' :=
  Except.ok.inj ((bool_eq_ok.2 h).symm.trans (bool_eq_ok.2 h'))

/-- A 32-bit integer, with a default for when it is left out. -/
def HasInt32 (e : Element) (name : String) (default n : Int32) : Prop :=
  match e.attribute? name with
  | none => n = default
  | some text => Text.Decimal.Writes text n

theorem int32_eq_ok {default n : Int32} : e.int32 name default = .ok n ↔ e.HasInt32 name default n := by
  unfold int32 HasInt32
  cases e.attribute? name with
  | none => exact ⟨fun h => (Except.ok.inj h).symm, fun h => congrArg _ h.symm⟩
  | some text =>
    dsimp only
    rw [← Text.Decimal.int32?_eq_some]
    cases Text.Decimal.int32? text <;> simp

variable {α : Type} [Keyword α]

/-- A word of a vocabulary, with the vocabulary's default for when it is left out. -/
def HasWord [Inhabited α] (e : Element) (name : String) (value : α) : Prop :=
  match e.attribute? name with
  | none => value = default
  | some text => text = Keyword.name value

variable [LawfulKeyword α]

theorem keywordOfName_eq_ok {value : α} : keywordOfName text = .ok value ↔ text = Keyword.name value := by
  rw [← Keyword.ofName?_eq_some]
  unfold keywordOfName
  cases (Keyword.ofName? text : Option α) <;> simp

theorem keyword?_eq_ok {value : Option α} :
    e.keyword? name = .ok value ↔ e.attribute? name = value.map Keyword.name := by
  unfold keyword?
  rw [mapM_option_eq_ok]
  simp only [keywordOfName_eq_ok]
  cases e.attribute? name <;> cases value <;> simp

theorem keyword_eq_ok [Inhabited α] {value : α} : e.keyword name = .ok value ↔ e.HasWord name value := by
  simp only [keyword, bind_eq_ok, pure_eq_ok, keyword?_eq_ok]
  unfold HasWord
  cases e.attribute? name with
  | none => simp [eq_comm]
  | some text =>
    constructor
    · rintro ⟨_ | word, he, rfl⟩
      · cases he
      · exact Option.some.inj he
    · rintro rfl
      exact ⟨some value, rfl, rfl⟩

theorem required_eq_ok : e.required name = .ok text ↔ e.attribute? name = some text := by
  unfold required
  cases e.attribute? name <;> simp

end Xml.Element

end DatabaseProject
