import Mathlib.Data.List.Nodup
import Noticeboard.Session.Store

namespace Noticeboard

namespace Store

/-- The order lists the keys of the records, each once, and every record is under its own key. -/
structure WellFormed (s : Store) : Prop where
  nodup : s.order.Nodup
  listed : ∀ key, key ∈ s.order ↔ s.contains key
  own : ∀ key r, s.get? key = some r → r.key = key

theorem contains_post (s : Store) (r : Record) (key : String) :
    (s.post r).contains key ↔ r.key = key ∨ s.contains key := by
  rw [contains_eq_isSome_get?, contains_eq_isSome_get?, get?_post]
  by_cases h : r.key = key
  · simp [h]
  · simp [h]

theorem contains_remove (s : Store) (key k : String) :
    (s.remove key).contains k ↔ key ≠ k ∧ s.contains k := by
  rw [contains_eq_isSome_get?, contains_eq_isSome_get?, get?_remove]
  by_cases h : key = k
  · simp [h]
  · simp [h]

theorem WellFormed.filter_order {s : Store} (h : s.WellFormed) {key : String}
    (hkey : ¬ s.contains key) : s.order.filter (· != key) = s.order := by
  rw [List.filter_eq_self]
  intro k hk
  rw [bne_iff_ne]
  rintro rfl
  exact hkey ((h.listed k).1 hk)

theorem order_remove {s : Store} (h : s.WellFormed) (key : String) :
    (s.remove key).order = s.order.filter (· != key) := by
  by_cases hkey : s.contains key
  · simp [remove, hkey]
  · simp [remove, hkey, h.filter_order hkey]

theorem WellFormed.empty : Store.empty.WellFormed where
  nodup := List.nodup_nil
  listed key := by simp [Store.empty, contains]
  own key r h := by simp at h

theorem WellFormed.post {s : Store} (h : s.WellFormed) (r : Record) : (s.post r).WellFormed where
  nodup := by
    cases hr : s.contains r.key with
    | true => simpa [Store.post, hr] using h.nodup
    | false =>
      have hnot : r.key ∉ s.order := by
        rw [h.listed, hr]
        exact Bool.false_ne_true
      rw [Store.post, hr, if_neg Bool.false_ne_true, List.nodup_append]
      refine ⟨h.nodup, List.nodup_singleton _, ?_⟩
      intro key hkey k hk he
      rw [he, List.mem_singleton.1 hk] at hkey
      exact hnot hkey
  listed key := by
    rw [contains_post, ← h.listed]
    cases hr : s.contains r.key with
    | true =>
      have hmem : r.key ∈ s.order := (h.listed _).2 hr
      simp only [Store.post, hr, if_true]
      exact ⟨.inr, fun hkey => hkey.elim (· ▸ hmem) id⟩
    | false =>
      simp only [Store.post, hr, Bool.false_eq_true, if_false, List.mem_append,
        List.mem_singleton]
      exact ⟨fun hkey => hkey.symm.imp Eq.symm id, fun hkey => hkey.symm.imp id Eq.symm⟩
  own key x hx := by
    rw [get?_post] at hx
    split at hx
    · cases hx
      assumption
    · exact h.own key x hx

theorem WellFormed.remove {s : Store} (h : s.WellFormed) (key : String) :
    (s.remove key).WellFormed where
  nodup := by
    rw [order_remove h]
    exact h.nodup.filter _
  listed k := by
    rw [contains_remove, order_remove h, List.mem_filter, bne_iff_ne, h.listed, and_comm, ne_comm]
  own k r hr := by
    rw [get?_remove] at hr
    split at hr
    · cases hr
    · exact h.own k r hr

theorem WellFormed.withRanking {s : Store} (h : s.WellFormed) (ranking : Ranking) :
    WellFormed { s with ranking := ranking } where
  nodup := h.nodup
  listed := h.listed
  own := h.own

theorem get?_foldl_remove (keys : List String) (s : Store) (k : String) :
    (keys.foldl Store.remove s).get? k = if k ∈ keys then none else s.get? k := by
  induction keys generalizing s with
  | nil => simp
  | cons key keys ih =>
    rw [List.foldl_cons, ih, get?_remove]
    by_cases hk : k ∈ keys
    · simp [hk]
    · by_cases hkey : key = k
      · simp [hkey]
      · simp [hk, hkey, Ne.symm hkey]

theorem WellFormed.foldl_remove {s : Store} (h : s.WellFormed) (keys : List String) :
    (keys.foldl Store.remove s).WellFormed := by
  induction keys generalizing s with
  | nil => exact h
  | cons key keys ih => exact ih (h.remove key)

theorem WellFormed.rank {s : Store} (h : s.WellFormed) (ranking : Ranking) :
    (s.rank ranking).WellFormed :=
  (h.withRanking ranking).foldl_remove _

theorem WellFormed.mem_unlistedKeys {s : Store} (h : s.WellFormed) (ranking : Ranking)
    (key : String) :
    key ∈ s.unlistedKeys ranking ↔ s.contains key ∧ ¬ ranking.contains key := by
  simp [unlistedKeys, h.listed]

theorem WellFormed.get?_rank {s : Store} (h : s.WellFormed) (ranking : Ranking) (key : String) :
    (s.rank ranking).get? key = if ranking.contains key then s.get? key else none := by
  rw [Store.rank, get?_foldl_remove]
  have hget : Store.get? { s with ranking := ranking } key = s.get? key := rfl
  rw [hget]
  by_cases hkey : ranking.contains key
  · simp [h.mem_unlistedKeys, hkey]
  · cases hs : s.get? key with
    | none => simp
    | some r =>
      have hmem : key ∈ s.unlistedKeys ranking := by
        rw [h.mem_unlistedKeys, contains_eq_isSome_get?, hs]
        exact ⟨rfl, hkey⟩
      simp [hmem, hkey]

theorem WellFormed.contains_rank {s : Store} (h : s.WellFormed) (ranking : Ranking)
    (key : String) :
    (s.rank ranking).contains key ↔ ranking.contains key ∧ s.contains key := by
  rw [contains_eq_isSome_get?, contains_eq_isSome_get?, h.get?_rank]
  split
  · simp [*]
  · simp [*]

theorem WellFormed.exists_get? {s : Store} (h : s.WellFormed) {key : String}
    (hkey : s.contains key) : ∃ r, s.get? key = some r ∧ r.key = key := by
  rw [contains_eq_isSome_get?, Option.isSome_iff_exists] at hkey
  obtain ⟨r, hr⟩ := hkey
  exact ⟨r, hr, h.own key r hr⟩

theorem WellFormed.map_key_filterMap {s : Store} (h : s.WellFormed) {keys : List String}
    (hkeys : ∀ key ∈ keys, s.contains key) : (keys.filterMap s.get?).map (·.key) = keys := by
  induction keys with
  | nil => rfl
  | cons key keys ih =>
    obtain ⟨r, hr, hown⟩ := h.exists_get? (hkeys key List.mem_cons_self)
    rw [List.filterMap_cons_some hr, List.map_cons, hown,
      ih fun k hk => hkeys k (List.mem_cons_of_mem _ hk)]

theorem WellFormed.map_key_unlisted {s : Store} (h : s.WellFormed) (ranking : Ranking) :
    (s.unlisted ranking).map (·.key) = s.unlistedKeys ranking := by
  apply h.map_key_filterMap
  intro key hkey
  exact ((h.mem_unlistedKeys ranking key).1 hkey).1

end Store

end Noticeboard
