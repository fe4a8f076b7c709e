import Anadil.Tool.Run
import Anadil.Proofs.Json.Difference

/-! # Comparing from both sides

A comparison looks at the kind of its first value only, and goes through the names of both objects in order (`Aligned`).
Yet it finds the same place whichever value comes first. -/

namespace Anadil.Json

/-- The mismatch that is found when the values are exchanged. -/
def Mismatch.swap (m : Mismatch) : Mismatch := ⟨m.path, m.own, m.external⟩

/-! ### Values in order -/

/-- A comparison with a value finds the same from both sides. -/
def Swaps (v : Json) : Prop :=
  v.Orderly → ∀ {w : Json}, w.Orderly → ∀ path, differenceAt path w v = (differenceAt path v w).map Mismatch.swap

theorem swap_apart {v w : Json} (harray : ∀ vs ws, ¬ (v = array vs ∧ w = array ws))
    (hobject : ∀ fs gs, ¬ (v = object fs ∧ w = object gs)) (path : Text) :
    differenceAt path w v = (differenceAt path v w).map Mismatch.swap := by
  have hwhole : ∀ x y : Json, (∀ vs ws, ¬ (x = array vs ∧ y = array ws)) →
      (∀ fs gs, ¬ (x = object fs ∧ y = object gs)) →
      differenceAt path x y = if sameLeaf x y then none else some ⟨path, x, y⟩ := by
    intro x y harray hobject
    cases x <;> cases y <;> simp_all [differenceAt, sameLeaf]
  have hcomm : sameLeaf w v = sameLeaf v w := by
    cases v <;> cases w <;> first | rfl | exact Bool.beq_comm
  rw [hwhole v w harray hobject,
    hwhole w v (fun vs ws h => harray ws vs h.symm) fun fs gs h => hobject gs fs h.symm, hcomm]
  split <;> rfl

theorem itemsDifference_swap {path : Text} {vs ws : List Json} (h : ∀ v ∈ vs, Swaps v) (hvs : ∀ v ∈ vs, v.Orderly)
    (hws : ∀ w ∈ ws, w.Orderly) (i : Nat) :
    itemsDifference path i ws vs = (itemsDifference path i vs ws).map Mismatch.swap := by
  induction vs generalizing ws i with
  | nil => cases ws <;> rfl
  | cons v vs ih =>
    cases ws with
    | nil => rfl
    | cons w ws =>
      rw [List.forall_mem_cons] at h hvs hws
      rw [itemsDifference, itemsDifference, Option.map_or, h.1 hvs.1 hws.1, ih h.2 hvs.2 hws.2]

theorem swaps_null : Swaps null := fun _ _ _ path => swap_apart (by simp) (by simp) path

theorem fieldsDifference_swap {path : Text} {fs gs : List (Text × Json)} (hwalk : Aligned fs gs)
    (h : ∀ f ∈ fs, Swaps f.2) (hvalues : ∀ f ∈ fs, f.2.Orderly) (hvalues' : ∀ g ∈ gs, g.2.Orderly) :
    fieldsDifference path gs fs = (fieldsDifference path fs gs).map Mismatch.swap := by
  have hfield : ∀ {n v w}, (∀ path, differenceAt path w v = (differenceAt path v w).map Mismatch.swap) →
      fieldDifference path n w v = (fieldDifference path n v w).map Mismatch.swap := by
    intro n v w hswap
    unfold fieldDifference
    split
    · rfl
    · exact hswap _
  induction hwalk with
  | nil => rfl
  | both n v w hfs hgs _ ih =>
    rw [List.forall_mem_cons] at h hvalues hvalues'
    rw [fieldsDifference_same, fieldsDifference_same, Option.map_or,
      hfield fun path => h.1 hvalues.1 hvalues'.1 path, ih h.2 hvalues.2 hvalues'.2]
  | left n v hfs hgs _ ih =>
    rw [List.forall_mem_cons] at h hvalues
    rw [fieldsDifference_left hgs, fieldsDifference_right hgs, Option.map_or,
      hfield fun path => h.1 hvalues.1 .null path, ih h.2 hvalues.2 hvalues']
  | right n w hfs hgs _ ih =>
    rw [List.forall_mem_cons] at hvalues'
    rw [fieldsDifference_right hfs, fieldsDifference_left hfs, Option.map_or,
      hfield fun path => swaps_null .null hvalues'.1 path, ih h hvalues hvalues'.2]

theorem swaps (v : Json) : Swaps v := by
  induction v using Json.induct with
  | null => exact swaps_null
  | bool b => exact fun _ _ _ path => swap_apart (by simp) (by simp) path
  | number n => exact fun _ _ _ path => swap_apart (by simp) (by simp) path
  | string s => exact fun _ _ _ path => swap_apart (by simp) (by simp) path
  | array vs ih =>
    rintro ⟨⟩ w hw path
    rename_i hvs
    cases hw with
    | @array ws hws =>
      rw [differenceAt, differenceAt, Option.map_or, itemsDifference_swap ih hvs hws]
      by_cases hlength : vs.length = ws.length
      · simp [hlength]
      · simp [hlength, Ne.symm hlength, Mismatch.swap]
    | _ => exact swap_apart (by simp) (by simp) path
  | object fs ih =>
    rintro ⟨⟩ w hw path
    rename_i hfs hvalues
    cases hw with
    | @object gs hgs hvalues' =>
      rw [differenceAt, differenceAt]
      exact fieldsDifference_swap (hfs.aligned hgs) ih hvalues hvalues'
    | _ => exact swap_apart (by simp) (by simp) path

/-! ### Values that were read -/

theorem orderly_decode {document : Text} {v : Json} (h : Parity.decode document = .ok v) : v.Orderly := by
  unfold Parity.decode at h
  split at h
  · rename_i v rest hread
    obtain rfl := Except.ok.inj h
    unfold readFirst at hread
    split at hread
    · cases hread
    · exact ((deepens _).1 (Nat.le_refl _) _ _ _ hread).1.orderly
  · cases h

/-- A comparison of two documents that can be read finds nothing exactly if their values are the same without the
positions and the nulls of objects, and it finds the same place, with the values exchanged, if they are exchanged. -/
theorem difference_exact {external own : Text} {a b : Json} (ha : Parity.decode external = .ok a)
    (hb : Parity.decode own = .ok b) :
    (difference a b = none ↔ a.essence = b.essence) ∧ difference b a = (difference a b).map Mismatch.swap :=
  ⟨difference_eq_none (orderly_decode ha) (orderly_decode hb), swaps a (orderly_decode ha) (orderly_decode hb) "$"⟩

/-- Positions and nulls are passed over, but one and the same number in two spellings is a difference. -/
theorem difference_exact_spellings :
    ∃ a b, Parity.decode "\x7b\"line\": 1, \"else\": null, \"value\": [1]\x7d" = .ok a ∧
      Parity.decode "\x7b\"value\": [1.0], \"column\": 2\x7d" = .ok b ∧ a.essence ≠ b.essence ∧
      (difference b a).map Mismatch.text = some "$.value[0]: external 1.0, local 1" := by
  have hfound : ∀ {x y : Text}, ((Parity.decode x).toOption.bind fun a => (Parity.decode y).toOption.bind fun b =>
      (difference a b).map fun m => m.swap.text) = some "$.value[0]: external 1.0, local 1" →
      ∃ a b, Parity.decode x = .ok a ∧ Parity.decode y = .ok b ∧ a.essence ≠ b.essence ∧
        (difference b a).map Mismatch.text = some "$.value[0]: external 1.0, local 1" := by
    intro x y h
    cases ha : Parity.decode x with
    | error e => simp [ha, Except.toOption] at h
    | ok a =>
      cases hb : Parity.decode y with
      | error e => simp [ha, hb, Except.toOption] at h
      | ok b =>
        obtain ⟨hiff, hswap⟩ := difference_exact ha hb
        simp only [ha, hb, Except.toOption, Option.bind_some] at h
        refine ⟨a, b, rfl, rfl, fun hsame => ?_, by rw [hswap, Option.map_map]; exact h⟩
        rw [hiff.mpr hsame] at h
        cases h
  exact hfound (by decide +kernel)

end Anadil.Json
