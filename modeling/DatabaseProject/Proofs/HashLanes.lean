import Mathlib.Data.Prod.Basic
import Mathlib.Logic.ExistsUnique
import DatabaseProject.Identifier

/-!
# What the hash tells apart

Each unit of a text goes into one of the two lanes of the hash. A step of a lane can be undone, and so
can the sum that joins the lanes, as both multiply by odd numbers only. Where two texts of one length
differ in a single unit, just one lane differs from there on, and the hashes differ.
-/

namespace DatabaseProject.Identifier

open DatabaseProject.Text

variable {lane other first second : UInt32} {u v : UInt16} {us vs : List UInt16}

/-- A factor with an inverse can be cancelled. -/
theorem eq_of_mul_eq_mul {factor inverse : UInt32} (hi : factor * inverse = 1)
    (h : lane * factor = other * factor) : lane = other := by
  calc
    lane = lane * factor * inverse := by rw [UInt32.mul_assoc, hi, UInt32.mul_one]
    _ = other * factor * inverse := by rw [h]
    _ = other := by rw [UInt32.mul_assoc, hi, UInt32.mul_one]

/-- A step multiplies a lane by 33 before the unit goes in. -/
theorem laneStep_eq (lane : UInt32) (u : UInt16) : laneStep lane u = (lane * 33) ^^^ u.toUInt32 := by
  have hshift : (lane <<< 5) + lane = lane * 33 := by
    apply UInt32.toNat_inj.1
    rw [UInt32.toNat_add, UInt32.toNat_shiftLeft, UInt32.toNat_mul, Nat.shiftLeft_eq]
    change (lane.toNat * 2 ^ 5 % 2 ^ 32 + lane.toNat) % 2 ^ 32 = lane.toNat * 33 % 2 ^ 32
    omega
  rw [laneStep, hshift]

theorem laneStep_left_inj : laneStep lane u = laneStep other u ↔ lane = other := by
  rw [laneStep_eq, laneStep_eq, UInt32.xor_left_inj]
  have hinverse : (33 : UInt32) * 1041204193 = 1 := by decide
  constructor
  · exact eq_of_mul_eq_mul hinverse
  · rintro rfl
    rfl

theorem laneStep_right_inj : laneStep lane u = laneStep lane v ↔ u = v := by
  rw [laneStep_eq, laneStep_eq, UInt32.xor_right_inj, UInt16.toUInt32_inj]

/-- A unit goes into the lane whose turn it is, and the lanes change their turns. -/
theorem lanes_cons (first second : UInt32) (u : UInt16) (us : List UInt16) :
    lanes first second (u :: us) = (lanes second (laneStep first u) us).swap := by
  induction us generalizing first second u with
  | nil => rfl
  | cons v rest ih =>
    rw [ih second (laneStep first u) v, Prod.swap_swap]
    rfl

/-- Just one of the two lanes differs. -/
def OneDiffers (lanes others : UInt32 × UInt32) : Prop :=
  (lanes.1 ≠ others.1 ∧ lanes.2 = others.2) ∨ (lanes.1 = others.1 ∧ lanes.2 ≠ others.2)

theorem OneDiffers.swap {lanes others : UInt32 × UInt32} (h : OneDiffers lanes others) :
    OneDiffers lanes.swap others.swap := by
  obtain ⟨hne, he⟩ | ⟨he, hne⟩ := h
  · exact .inr ⟨he, hne⟩
  · exact .inl ⟨hne, he⟩

/-- The same unit keeps the difference in its lane. -/
theorem OneDiffers.step {first' second' : UInt32} (h : OneDiffers (first, second) (first', second')) :
    OneDiffers (second, laneStep first u) (second', laneStep first' u) := by
  obtain ⟨hne, he⟩ | ⟨he, hne⟩ := h
  · exact .inr ⟨he, mt laneStep_left_inj.1 hne⟩
  · exact .inl ⟨hne, laneStep_left_inj.2 he⟩

/-- So do all the units that follow. -/
theorem OneDiffers.run {first' second' : UInt32} (us : List UInt16)
    (h : OneDiffers (first, second) (first', second')) :
    OneDiffers (lanes first second us) (lanes first' second' us) := by
  induction us generalizing first second first' second' with
  | nil => exact h
  | cons u rest ih =>
    rw [lanes_cons, lanes_cons]
    exact (ih h.step).swap

/-- Units that differ leave just one lane different, wherever they are in a text. -/
theorem oneDiffers_lanes (hu : u ≠ v) (front back : List UInt16) :
    OneDiffers (lanes first second (front ++ u :: back)) (lanes first second (front ++ v :: back)) := by
  induction front generalizing first second with
  | nil =>
    have hstep : OneDiffers (second, laneStep first u) (second, laneStep first v) :=
      .inr ⟨rfl, mt laneStep_right_inj.1 hu⟩
    rw [List.nil_append, List.nil_append, lanes_cons, lanes_cons]
    exact (hstep.run back).swap
  | cons w front ih =>
    rw [List.cons_append, List.cons_append, lanes_cons, lanes_cons]
    exact ih.swap

/-- The lanes are joined so that a difference in one of them is left. -/
theorem OneDiffers.joined_ne {lanes others : UInt32 × UInt32} (h : OneDiffers lanes others) :
    lanes.1 + lanes.2 * 1566083941 ≠ others.1 + others.2 * 1566083941 := by
  intro hj
  obtain ⟨hne, he⟩ | ⟨he, hne⟩ := h
  · rw [he, UInt32.add_left_inj] at hj
    exact hne hj
  · rw [he, UInt32.add_right_inj] at hj
    have hinverse : (1566083941 : UInt32) * 1786162797 = 1 := by decide
    exact hne (eq_of_mul_eq_mul hinverse hj)

theorem hashUnits_ne (hu : u ≠ v) (front back : List UInt16) :
    hashUnits (front ++ u :: back) ≠ hashUnits (front ++ v :: back) := by
  intro he
  exact (oneDiffers_lanes hu front back).joined_ne (congrArg Int32.toUInt32 he)

/-- Lists of one length differ at a single position exactly when they are made of the same elements
around two different ones. -/
theorem differ_once_iff : us.length = vs.length ∧ (∃! k : Nat, us[k]? ≠ vs[k]?) ↔
    ∃ front u v back, us = front ++ u :: back ∧ vs = front ++ v :: back ∧ u ≠ v := by
  constructor
  · rintro ⟨hl, k, hk, honly⟩
    have hsame : ∀ j, j ≠ k → us[j]? = vs[j]? := fun j hj => not_not.1 fun hne => hj (honly j hne)
    have hlt : k < us.length := by
      by_contra hle
      exact hk (by rw [List.getElem?_eq_none (by omega), List.getElem?_eq_none (by omega)])
    have hlt' : k < vs.length := hl ▸ hlt
    have hfront : us.take k = vs.take k := by
      apply List.ext_getElem?
      intro j
      rw [List.getElem?_take, List.getElem?_take]
      split
      · exact hsame j (by omega)
      · rfl
    have hback : us.drop (k + 1) = vs.drop (k + 1) := by
      apply List.ext_getElem?
      intro j
      rw [List.getElem?_drop, List.getElem?_drop]
      exact hsame _ (by omega)
    refine ⟨us.take k, us[k], vs[k], us.drop (k + 1), ?_, ?_, ?_⟩
    · rw [List.getElem_cons_drop, List.take_append_drop]
    · rw [hfront, hback, List.getElem_cons_drop, List.take_append_drop]
    · rwa [List.getElem?_eq_getElem hlt, List.getElem?_eq_getElem hlt', ne_eq, Option.some.injEq] at hk
  · rintro ⟨front, u, v, back, rfl, rfl, hu⟩
    refine ⟨by simp, front.length, by simpa using hu, fun j hj => ?_⟩
    by_contra hne
    apply hj
    obtain hlt | hgt := Nat.lt_or_gt_of_ne hne
    · rw [List.getElem?_append_left hlt, List.getElem?_append_left hlt]
    · obtain ⟨d, rfl⟩ := Nat.exists_eq_add_of_lt hgt
      rw [Nat.add_assoc, List.getElem?_append_right (Nat.le_add_right _ _),
        List.getElem?_append_right (Nat.le_add_right _ _), Nat.add_sub_cancel_left,
        List.getElem?_cons_succ, List.getElem?_cons_succ]

/-- Texts of as many units that differ in one of them have different hashes. -/
theorem hash_ne_of_one_unit {text changed : String}
    (hl : (Utf16.units text).length = (Utf16.units changed).length)
    (hk : ∃! k : Nat, (Utf16.units text)[k]? ≠ (Utf16.units changed)[k]?) : hash text ≠ hash changed := by
  obtain ⟨front, u, v, back, ht, hc, hu⟩ := differ_once_iff.1 ⟨hl, hk⟩
  rw [hash, hash, ht, hc]
  exact hashUnits_ne hu front back

/-- Two pictures that differ in the second halves of their surrogate pairs only. -/
theorem pictures_hashed_apart :
    (Utf16.units "[FK_😀_Id]").length = (Utf16.units "[FK_😁_Id]").length ∧
    (∃! k : Nat, (Utf16.units "[FK_😀_Id]")[k]? ≠ (Utf16.units "[FK_😁_Id]")[k]?) ∧
    hash "[FK_😀_Id]" ≠ hash "[FK_😁_Id]" := by
  obtain ⟨hl, hk⟩ : _ ∧ ∃! k : Nat, (Utf16.units "[FK_😀_Id]")[k]? ≠ (Utf16.units "[FK_😁_Id]")[k]? :=
    differ_once_iff.2 ⟨(Utf16.units "[FK_😀_Id]").take 5, 0xDE00, 0xDE01, Utf16.units "_Id]",
      by decide, by decide, by decide⟩
  exact ⟨hl, hk, hash_ne_of_one_unit hl hk⟩

end DatabaseProject.Identifier
