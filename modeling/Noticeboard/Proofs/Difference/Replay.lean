import Noticeboard.Proofs.Difference.Partners
import Mathlib.Data.List.Basic
import Mathlib.Data.List.Induction

namespace Noticeboard

section

variable {α : Type} (new as bs : List α) (a : α)

theorem EditScript.patch?_cons (op : Edit) (ops : List Edit) (current : List α) :
    (⟨op :: ops⟩ : EditScript).patch? current new =
      (op.patch? new current).bind fun next => (⟨ops⟩ : EditScript).patch? next new := by
  simp [EditScript.patch?]

namespace Edit

theorem removeAt?_append : removeAt? (as ++ a :: bs) as.length = some (as ++ bs) := by
  simp [removeAt?, List.eraseIdx_append_of_length_le]

theorem insertIdx_append : (as ++ bs).insertIdx as.length a = as ++ a :: bs := by
  induction as with
  | nil => rfl
  | cons b as ih => simp [ih]

theorem insertAt?_append : insertAt? (as ++ bs) as.length a = some (as ++ a :: bs) := by
  simp [insertAt?, insertIdx_append]

theorem patch?_remove_append : (remove as.length).patch? new (as ++ a :: bs) = some (as ++ bs) :=
  removeAt?_append as bs a

variable {new a}

theorem patch?_insert_append (h : new[as.length]? = some a) :
    (insert as.length).patch? new (as ++ bs) = some (as ++ a :: bs) := by
  simp only [patch?, h, Option.bind_eq_bind, Option.bind_some, insertAt?_append]

theorem patch?_change_append (b : α) (h : new[as.length]? = some a) :
    (change as.length).patch? new (as ++ b :: bs) = some (as ++ a :: bs) := by
  simp [patch?, h]

variable {as bs} in
theorem patch?_move_append (new : List α) (a : α) {cs ds : List α} (h : as ++ bs = cs ++ ds) :
    (move as.length cs.length).patch? new (as ++ a :: bs) = some (cs ++ a :: ds) := by
  simp only [patch?, List.getElem?_append_right (Nat.le_refl _), Nat.sub_self,
    List.getElem?_cons_zero, Option.bind_eq_bind, Option.bind_some, removeAt?_append, h,
    insertAt?_append]

end Edit

end

namespace Difference

open Noticeboard.Alignment

variable {n m : Nat} {α : Type} (old : Fin n → α) (new : Fin m → α)

theorem val_of_append {j : Fin m} {as bs : List (Fin m)} (h : as ++ j :: bs = List.finRange m) :
    (j : Nat) = as.length := by
  have hlt : as.length < (List.finRange m).length := by
    rw [← h]
    simp
  have hj : (List.finRange m)[as.length] = j := by
    simp [← h]
  rw [← hj, List.getElem_finRange]
  rfl

theorem getElem?_of_append {j : Fin m} {as bs : List (Fin m)}
    (h : as ++ j :: bs = List.finRange m) {β : Type} (f : Fin m → β) :
    ((List.finRange m).map new)[(as.map f).length]? = some (new j) := by
  simp [← h]

/-- The removes go from the last item to the first, so that every index is still a position. -/
theorem patch?_removes_prefix (p : Fin n → Bool) (as bs : List (Fin n))
    (h : as ++ bs = List.finRange n) (rest new : List α) :
    (⟨(as.reverse.filter fun i => !p i).map fun i : Fin n => .remove i⟩ : EditScript).patch?
      (as.map old ++ rest) new = some ((as.filter p).map old ++ rest) := by
  induction as using List.reverseRecOn generalizing bs rest with
  | nil => rfl
  | append_singleton as i ih =>
    have hsplit : as ++ i :: bs = List.finRange n := by simpa using h
    rw [List.reverse_append, List.reverse_singleton, List.singleton_append, List.map_append,
      List.append_assoc, List.filter_append]
    by_cases hi : p i
    · simpa [List.filter_cons, hi] using ih (i :: bs) hsplit (old i :: rest)
    · have hstep := Edit.patch?_remove_append new (as.map old) rest (old i)
      rw [List.length_map, ← val_of_append hsplit] at hstep
      simpa [List.filter_cons, hi, EditScript.patch?_cons, hstep] using ih (i :: bs) hsplit rest

theorem patch?_removes (partners : Partners n m) (new : List α) :
    (⟨removes partners⟩ : EditScript).patch? ((List.finRange n).map old) new =
      some ((survivors partners).map old) := by
  simpa [removes, survivors] using
    patch?_removes_prefix old (some · ∈ partners.toList) (List.finRange n) [] (by simp) [] new

variable (origin : Fin m → Option (Fin n))

def target (partners : Partners n m) : List (Fin n) :=
  (List.finRange m).filterMap fun j => partners.get j

/-- What stands at a new position before the changes: the partner, or else the new item. -/
def placed (j : Fin m) : α :=
  (origin j).elim (new j) old

theorem patch?_inserts_suffix (as bs : List (Fin m)) (h : as ++ bs = List.finRange m) :
    (⟨(bs.filter fun j => (origin j).isNone).map fun j : Fin m => .insert j⟩ : EditScript).patch?
        (as.map (placed old new origin) ++ (bs.filterMap origin).map old)
        ((List.finRange m).map new) =
      some ((as ++ bs).map (placed old new origin)) := by
  induction bs generalizing as with
  | nil => simp
  | cons j bs ih =>
    have hnext := ih (as ++ [j]) (by simpa using h)
    cases hj : origin j with
    | some i => simpa [List.filter_cons, List.filterMap_cons, hj, placed] using hnext
    | none =>
      have hstep := Edit.patch?_insert_append (as.map (placed old new origin))
        ((bs.filterMap origin).map old) (getElem?_of_append new h _)
      rw [List.length_map, ← val_of_append h] at hstep
      rw [List.filterMap_cons_none hj, List.filter_cons_of_pos (by simp [hj]), List.map_cons,
        EditScript.patch?_cons, hstep, Option.bind_some]
      simpa [placed, hj] using hnext

theorem patch?_inserts (partners : Partners n m) :
    (⟨inserts partners⟩ : EditScript).patch? ((target partners).map old)
        ((List.finRange m).map new) =
      some ((List.finRange m).map (placed old new fun j => partners.get j)) :=
  patch?_inserts_suffix old new (fun j => partners.get j) [] (List.finRange m) rfl

variable (alike : Fin n → Fin m → Bool)

def renewed (j : Fin m) : α :=
  if (origin j).any fun i => !alike i j then new j else placed old new origin j

theorem patch?_changes_suffix (as bs : List (Fin m)) (h : as ++ bs = List.finRange m) :
    (⟨(bs.filter fun j => (origin j).any fun i => !alike i j).map fun j : Fin m => .change j⟩ :
      EditScript).patch?
        (as.map (renewed old new origin alike) ++ bs.map (placed old new origin))
        ((List.finRange m).map new) =
      some ((as ++ bs).map (renewed old new origin alike)) := by
  induction bs generalizing as with
  | nil => simp
  | cons j bs ih =>
    have hnext := ih (as ++ [j]) (by simpa using h)
    by_cases hj : ((origin j).any fun i => !alike i j) = true
    · have hrenewed : renewed old new origin alike j = new j := by simp only [renewed, hj, if_true]
      have hstep := Edit.patch?_change_append (as.map (renewed old new origin alike))
        (bs.map (placed old new origin)) (placed old new origin j) (getElem?_of_append new h _)
      rw [List.length_map, ← val_of_append h] at hstep
      simp only [List.filter_cons, hj, if_true, List.map_cons, EditScript.patch?_cons, hstep,
        Option.bind_some]
      simpa [hrenewed] using hnext
    · have hrenewed : renewed old new origin alike j = placed old new origin j := by
        simp only [renewed, hj, Bool.false_eq_true, if_false]
      simp only [List.filter_cons, hj, Bool.false_eq_true, if_false, List.map_cons]
      simpa [hrenewed] using hnext

theorem patch?_changes (partners : Partners n m) :
    (⟨changes alike partners⟩ : EditScript).patch?
        ((List.finRange m).map (placed old new fun j => partners.get j))
        ((List.finRange m).map new) =
      some ((List.finRange m).map (renewed old new (fun j => partners.get j) alike)) :=
  patch?_changes_suffix old new (fun j => partners.get j) alike [] (List.finRange m) rfl

end Difference

end Noticeboard
