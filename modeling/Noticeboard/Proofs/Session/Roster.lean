import Noticeboard.Proofs.Session.Store

namespace Noticeboard

namespace Store

inductive Operation where
  | post (r : Record)
  | remove (key : String)
  | rank (ranking : Ranking)
  | clear

inductive Answer where
  | former (r : Option Record)
  | dropped (records : List Record)
  | done
  deriving DecidableEq

def perform (s : Store) : Operation → Answer × Store
  | .post r => (.former (s.get? r.key), s.post r)
  | .remove key => (.former (s.get? key), s.remove key)
  | .rank ranking => (.dropped (s.unlisted ranking), s.rank ranking)
  | .clear => (.done, .empty)

def run {σ : Type} (step : σ → Operation → Answer × σ) : σ → List Operation → List Answer × σ
  | s, [] => ([], s)
  | s, op :: ops =>
    ((step s op).1 :: (run step (step s op).2 ops).1, (run step (step s op).2 ops).2)

/-- Remove keys one by one and collect the records that were under them. -/
def removeEach (s : Store) : List String → List Record × Store
  | [] => ([], s)
  | key :: keys =>
    ((s.get? key).toList ++ ((s.remove key).removeEach keys).1, ((s.remove key).removeEach keys).2)

end Store

namespace Roster

variable (records : List Record)

def find? (key : String) : Option Record :=
  records.find? (·.key == key)

def post (r : Record) : List Record :=
  if (find? records r.key).isSome then records.map fun x => if x.key = r.key then r else x
  else records ++ [r]

def remove (key : String) : List Record :=
  records.filter (·.key != key)

def perform : Store.Operation → Store.Answer × List Record
  | .post r => (.former (find? records r.key), post records r)
  | .remove key => (.former (find? records key), remove records key)
  | .rank ranking =>
    (.dropped (records.filter (!ranking.contains ·.key)), records.filter (ranking.contains ·.key))
  | .clear => (.done, [])

end Roster

namespace Store

/-- A store is well-formed, and whoever asks it gets what the list says. -/
structure StandsFor (s : Store) (records : List Record) : Prop where
  wellFormed : s.WellFormed
  distinct : (records.map (·.key)).Nodup
  order : s.order = records.map (·.key)
  toList : s.toList = records
  get? : ∀ key, s.get? key = Roster.find? records key
  contains : ∀ key, s.contains key ↔ ∃ r ∈ records, r.key = key
  size : s.size = records.length
  isEmpty : s.isEmpty = records.isEmpty

namespace WellFormed

variable {s : Store}

theorem map_key_toList (h : s.WellFormed) : s.toList.map (·.key) = s.order := by
  apply h.map_key_filterMap
  intro key hkey
  exact (h.listed key).1 hkey

theorem find?_toList (h : s.WellFormed) (key : String) :
    Roster.find? s.toList key = s.get? key := by
  have hown : ∀ r ∈ s.toList, s.get? r.key = some r := by
    intro r hr
    obtain ⟨k, -, hk⟩ := List.mem_filterMap.1 hr
    rwa [h.own k r hk]
  cases hfind : Roster.find? s.toList key with
  | some r =>
    have hkey : r.key = key := by simpa using List.find?_some hfind
    rw [← hkey, hown r (List.mem_of_find?_eq_some hfind)]
  | none =>
    cases hget : s.get? key with
    | none => rfl
    | some r =>
      have hlisted : key ∈ s.order := by
        rw [h.listed, contains_eq_isSome_get?, hget]
        rfl
      have hr : r ∈ s.toList := List.mem_filterMap.2 ⟨key, hlisted, hget⟩
      have hne := List.find?_eq_none.1 hfind r hr
      rw [h.own key r hget] at hne
      simp at hne

theorem size_eq_length (h : s.WellFormed) : s.size = s.order.length := by
  have hperm : s.records.keys.Perm s.order := by
    rw [List.perm_ext_iff_of_nodup Std.ExtTreeMap.nodup_keys h.nodup]
    intro key
    rw [Std.ExtTreeMap.mem_keys, h.listed]
    exact Std.ExtTreeMap.contains_iff_mem.symm
  rw [Store.size, ← Std.ExtTreeMap.length_keys, hperm.length_eq]

theorem standsFor (h : s.WellFormed) : s.StandsFor s.toList where
  wellFormed := h
  distinct := by
    rw [h.map_key_toList]
    exact h.nodup
  order := h.map_key_toList.symm
  toList := rfl
  get? key := (h.find?_toList key).symm
  contains key := by
    rw [← h.listed, ← h.map_key_toList, List.mem_map]
  size := by
    rw [h.size_eq_length, ← h.map_key_toList, List.length_map]
  isEmpty := by
    rw [Bool.eq_iff_iff, List.isEmpty_iff_length_eq_zero, ← List.length_map (·.key),
      h.map_key_toList, ← h.size_eq_length, Store.isEmpty, Std.ExtTreeMap.isEmpty_eq_size_beq_zero,
      beq_iff_eq]
    rfl

theorem toList_post (h : s.WellFormed) (r : Record) :
    (s.post r).toList = Roster.post s.toList r := by
  rw [Roster.post, h.find?_toList, ← contains_eq_isSome_get?]
  cases hr : s.contains r.key with
  | true =>
    rw [if_pos rfl, toList, toList, List.map_filterMap]
    simp only [Store.post, hr, if_true]
    apply List.filterMap_congr
    intro key hkey
    obtain ⟨x, hx, rfl⟩ := h.exists_get? ((h.listed key).1 hkey)
    change (s.post r).get? x.key = _
    rw [get?_post, hx, Option.map_some, apply_ite some]
    exact if_congr eq_comm rfl rfl
  | false =>
    have hlast : (s.post r).get? r.key = some r := by rw [get?_post, if_pos rfl]
    have hold : s.order.filterMap (s.post r).get? = s.toList := by
      apply List.filterMap_congr
      intro key hkey
      have hne : r.key ≠ key := by
        rintro rfl
        rw [h.listed, hr] at hkey
        exact Bool.false_ne_true hkey
      rw [get?_post, if_neg hne]
    have horder : (s.post r).order = s.order ++ [r.key] := by simp [Store.post, hr]
    rw [if_neg Bool.false_ne_true, toList, horder, List.filterMap_append, hold,
      List.filterMap_cons_some hlast, List.filterMap_nil]

theorem filterMap_filter_order (h : s.WellFormed) (p : String → Bool) :
    (s.order.filter p).filterMap s.get? = s.toList.filter fun r => p r.key := by
  rw [toList, List.filterMap_filter, List.filter_filterMap]
  apply List.filterMap_congr
  intro key hkey
  obtain ⟨r, hr, rfl⟩ := h.exists_get? ((h.listed key).1 hkey)
  rw [hr, Option.filter_some]

theorem toList_remove (h : s.WellFormed) (key : String) :
    (s.remove key).toList = Roster.remove s.toList key := by
  rw [Roster.remove, toList, order_remove h, ← h.filterMap_filter_order (· != key)]
  apply List.filterMap_congr
  intro k hk
  have hne : k ≠ key := bne_iff_ne.1 (List.mem_filter.1 hk).2
  rw [get?_remove, if_neg hne.symm]

theorem order_foldl_remove (h : s.WellFormed) (keys : List String) :
    (keys.foldl Store.remove s).order = s.order.filter (· ∉ keys) := by
  induction keys generalizing s with
  | nil => simp
  | cons key keys ih =>
    rw [List.foldl_cons, ih (h.remove key), order_remove h, List.filter_filter]
    apply List.filter_congr
    intro k _
    rw [Bool.eq_iff_iff]
    simp [and_comm]

theorem order_rank (h : s.WellFormed) (ranking : Ranking) :
    (s.rank ranking).order = s.order.filter ranking.contains := by
  rw [Store.rank, (h.withRanking ranking).order_foldl_remove]
  apply List.filter_congr
  intro key hkey
  have hunlisted : key ∉ s.unlistedKeys ranking ↔ ranking.contains key := by
    rw [h.mem_unlistedKeys, ← h.listed]
    simp [hkey]
  rw [Bool.eq_iff_iff, decide_eq_true_iff, hunlisted]

theorem toList_rank (h : s.WellFormed) (ranking : Ranking) :
    (s.rank ranking).toList = s.toList.filter (ranking.contains ·.key) := by
  rw [toList, h.order_rank, ← h.filterMap_filter_order]
  apply List.filterMap_congr
  intro key hkey
  rw [h.get?_rank, if_pos (List.mem_filter.1 hkey).2]

theorem unlisted_eq_filter (h : s.WellFormed) (ranking : Ranking) :
    s.unlisted ranking = s.toList.filter (!ranking.contains ·.key) :=
  h.filterMap_filter_order fun key => !ranking.contains key

/-- The records that a ranking drops are those that are there when their keys are removed in
turn. -/
theorem removeEach_unlistedKeys (h : s.WellFormed) (ranking : Ranking) :
    removeEach { s with ranking := ranking } (s.unlistedKeys ranking) =
      (s.unlisted ranking, s.rank ranking) := by
  have hloop : ∀ (keys : List String) (t : Store), keys.Nodup →
      t.removeEach keys = (keys.filterMap t.get?, keys.foldl Store.remove t) := by
    intro keys
    induction keys with
    | nil => exact fun t _ => rfl
    | cons key keys ih =>
      intro t hkeys
      obtain ⟨hkey, hkeys⟩ := List.nodup_cons.1 hkeys
      have hlater : keys.filterMap (t.remove key).get? = keys.filterMap t.get? := by
        apply List.filterMap_congr
        intro k hk
        have hne : key ≠ k := by
          rintro rfl
          exact hkey hk
        rw [get?_remove, if_neg hne]
      rw [removeEach, ih (t.remove key) hkeys, hlater]
      cases hget : t.get? key with
      | none => rw [List.filterMap_cons_none hget]; rfl
      | some r => rw [List.filterMap_cons_some hget]; rfl
  exact hloop _ _ (h.nodup.filter _)

theorem perform (h : s.WellFormed) (op : Operation) : (s.perform op).2.WellFormed := by
  cases op with
  | post r => exact h.post r
  | remove key => exact h.remove key
  | rank ranking => exact h.rank ranking
  | clear => exact .empty

theorem perform_eq (h : s.WellFormed) (op : Operation) :
    Roster.perform s.toList op = ((s.perform op).1, (s.perform op).2.toList) := by
  cases op with
  | post r => rw [Roster.perform, h.find?_toList, ← h.toList_post]; rfl
  | remove key => rw [Roster.perform, h.find?_toList, ← h.toList_remove]; rfl
  | rank ranking => rw [Roster.perform, ← h.unlisted_eq_filter, ← h.toList_rank]; rfl
  | clear => rfl

theorem run_eq (h : s.WellFormed) (ops : List Operation) :
    (run Store.perform s ops).2.WellFormed ∧
      run Roster.perform s.toList ops =
        ((run Store.perform s ops).1, (run Store.perform s ops).2.toList) := by
  induction ops generalizing s with
  | nil => exact ⟨h, rfl⟩
  | cons op ops ih =>
    obtain ⟨hlast, hrun⟩ := ih (h.perform op)
    refine ⟨hlast, ?_⟩
    rw [run, h.perform_eq, hrun]
    rfl

end WellFormed

/-- After every run from an empty store the store stands for the list that the same operations
make, every operation has given the answer that the list gives, and to take a ranking is to remove
what it does not list. -/
theorem stands_after (ops : List Operation) :
    let s := (run perform .empty ops).2
    s.StandsFor (run Roster.perform [] ops).2 ∧
    (run perform .empty ops).1 = (run Roster.perform [] ops).1 ∧
    ∀ ranking, removeEach { s with ranking := ranking } (s.unlistedKeys ranking) =
      (s.unlisted ranking, s.rank ranking) := by
  intro s
  obtain ⟨hs, hrun⟩ := WellFormed.empty.run_eq ops
  have hempty : Store.empty.toList = [] := rfl
  rw [hempty] at hrun
  rw [hrun]
  exact ⟨hs.standsFor, rfl, hs.removeEach_unlistedKeys⟩

end Store

end Noticeboard
