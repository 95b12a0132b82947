import Noticeboard.Proofs.Difference.Replay

namespace Noticeboard

namespace Edit

variable {α : Type} {current next : List α} {i : Nat} {a : α}

theorem exists_of_removeAt? (h : removeAt? current i = some next) :
    ∃ as a bs, current = as ++ a :: bs ∧ current[i]? = some a ∧ next = as ++ bs := by
  rw [removeAt?, Option.ite_none_right_eq_some] at h
  obtain ⟨hi, hnext⟩ := h
  refine ⟨current.take i, current[i], current.drop (i + 1), ?_, List.getElem?_eq_getElem hi, ?_⟩
  · rw [List.getElem_cons_drop, List.take_append_drop]
  · rw [← Option.some.inj hnext, List.eraseIdx_eq_take_drop_succ]

theorem exists_of_insertAt? (h : insertAt? current i a = some next) :
    ∃ as bs, current = as ++ bs ∧ next = as ++ a :: bs := by
  rw [insertAt?, Option.ite_none_right_eq_some] at h
  obtain ⟨hi, hnext⟩ := h
  refine ⟨current.take i, current.drop i, (List.take_append_drop i current).symm, ?_⟩
  have hlength : (current.take i).length = i := List.length_take_of_le hi
  rw [← insertIdx_append, List.take_append_drop, hlength]
  exact (Option.some.inj hnext).symm

end Edit

namespace Difference

variable {n : Nat} {α : Type}

/-- Where an item comes from. -/
inductive Trail (n : Nat) (α : Type) where
  | stayed (i : Fin n)
  | moved (i : Fin n)
  | added (a : α)

namespace Trail

def item (old : Fin n → α) : Trail n α → α
  | stayed i | moved i => old i
  | added a => a

def origin? : Trail n α → Option (Fin n)
  | stayed i | moved i => some i
  | added _ => none

def stayed? : Trail n α → Option (Fin n)
  | stayed i => some i
  | moved _ | added _ => none

def move : Trail n α → Trail n α
  | stayed i | moved i => moved i
  | added a => added a

variable (t : Trail n α)

theorem item_move (old : Fin n → α) : t.move.item old = t.item old := by
  cases t with
  | stayed i | moved i | added a => rfl

theorem origin?_move : t.move.origin? = t.origin? := by
  cases t with
  | stayed i | moved i | added a => rfl

theorem stayed?_move : t.move.stayed? = none := by
  cases t with
  | stayed i | moved i | added a => rfl

theorem item_of_origin? {t : Trail n α} {i : Fin n} (h : t.origin? = some i) (old : Fin n → α) :
    t.item old = old i := by
  cases t with
  | stayed k | moved k => rw [item, Option.some.inj h]
  | added a => cases h

theorem origin?_of_stayed? {t : Trail n α} {i : Fin n} (h : t.stayed? = some i) :
    t.origin? = some i := by
  cases t with
  | stayed k => exact h
  | moved k | added a => cases h

end Trail

/-- The trails of the items of a list that so many steps have made of the old one. -/
structure Traced (old : Fin n → α) (steps : Nat) (trails : List (Trail n α)) (current : List α) :
    Prop where
  items : trails.map (Trail.item old) = current
  ascending : (trails.filterMap Trail.stayed?).Pairwise (· < ·)
  once : (trails.filterMap Trail.origin?).Nodup
  cost : n + trails.length ≤
    steps + (trails.filterMap Trail.stayed?).length + (trails.filterMap Trail.origin?).length

namespace Traced

variable {old : Fin n → α} {steps : Nat} {as bs cs ds : List (Trail n α)} {t : Trail n α}
  {current next new : List α}

theorem start (old : Fin n → α) :
    Traced old 0 ((List.finRange n).map .stayed) ((List.finRange n).map old) := by
  have hstayed : ((List.finRange n).map (Trail.stayed (α := α))).filterMap Trail.stayed? =
      List.finRange n := by
    rw [List.filterMap_map]
    exact List.filterMap_some
  have horigin : ((List.finRange n).map (Trail.stayed (α := α))).filterMap Trail.origin? =
      List.finRange n := by
    rw [List.filterMap_map]
    exact List.filterMap_some
  refine ⟨?_, ?_, ?_, ?_⟩
  · rw [List.map_map]
    rfl
  · rw [hstayed]
    exact List.pairwise_lt_finRange n
  · rw [horigin]
    exact List.nodup_finRange n
  · rw [hstayed, horigin, List.length_map, List.length_finRange]
    omega

theorem remove (h : Traced old steps (as ++ t :: bs) current) :
    Traced old (steps + 1) (as ++ bs) ((as ++ bs).map (Trail.item old)) := by
  have hsub : (as ++ bs).Sublist (as ++ t :: bs) := (List.sublist_cons_self t bs).append_left as
  refine ⟨rfl, h.ascending.sublist (hsub.filterMap _), h.once.sublist (hsub.filterMap _), ?_⟩
  have hcost := h.cost
  cases t with
  | stayed i | moved i | added a =>
    simp only [List.filterMap_append, List.filterMap_cons, Trail.stayed?, Trail.origin?,
      List.length_append, List.length_cons] at hcost ⊢
    omega

theorem insert (h : Traced old steps (as ++ bs) current) (a : α) :
    Traced old (steps + 1) (as ++ .added a :: bs)
      ((as ++ .added a :: bs).map (Trail.item old)) := by
  have hstayed : (as ++ .added a :: bs).filterMap Trail.stayed? =
      (as ++ bs).filterMap Trail.stayed? := by
    rw [List.filterMap_append, List.filterMap_cons_none rfl, List.filterMap_append]
  have horigin : (as ++ .added a :: bs).filterMap Trail.origin? =
      (as ++ bs).filterMap Trail.origin? := by
    rw [List.filterMap_append, List.filterMap_cons_none rfl, List.filterMap_append]
  refine ⟨rfl, hstayed ▸ h.ascending, horigin ▸ h.once, ?_⟩
  have hcost := h.cost
  rw [hstayed, horigin]
  simp only [List.length_append, List.length_cons] at hcost ⊢
  omega

theorem move (h : Traced old steps (as ++ t :: bs) current) (hsplit : as ++ bs = cs ++ ds) :
    Traced old (steps + 1) (cs ++ t.move :: ds)
      ((cs ++ t.move :: ds).map (Trail.item old)) := by
  have hstayed : (cs ++ t.move :: ds).filterMap Trail.stayed? =
      (as ++ bs).filterMap Trail.stayed? := by
    rw [List.filterMap_append, List.filterMap_cons_none t.stayed?_move, ← List.filterMap_append,
      hsplit]
  have horigin : ((cs ++ t.move :: ds).filterMap Trail.origin?).Perm
      ((as ++ t :: bs).filterMap Trail.origin?) := by
    have hafter : ((cs ++ t.move :: ds).filterMap Trail.origin?).Perm
        ((t.move :: (cs ++ ds)).filterMap Trail.origin?) := List.perm_middle.filterMap _
    have hbefore : ((as ++ t :: bs).filterMap Trail.origin?).Perm
        ((t :: (as ++ bs)).filterMap Trail.origin?) := List.perm_middle.filterMap _
    refine hafter.trans (List.Perm.trans ?_ hbefore.symm)
    rw [List.filterMap_cons, t.origin?_move, ← List.filterMap_cons, hsplit]
  have hsub : (as ++ bs).Sublist (as ++ t :: bs) := (List.sublist_cons_self t bs).append_left as
  refine ⟨rfl, hstayed ▸ h.ascending.sublist (hsub.filterMap _), horigin.nodup_iff.2 h.once, ?_⟩
  have hcost := h.cost
  have hlength := congrArg List.length hsplit
  have hstaying : ((as ++ t :: bs).filterMap Trail.stayed?).length ≤
      ((as ++ bs).filterMap Trail.stayed?).length + 1 := by
    cases t with
    | stayed i | moved i | added a =>
      simp only [List.filterMap_append, List.filterMap_cons, Trail.stayed?, List.length_append,
        List.length_cons]
      omega
  rw [hstayed, horigin.length_eq]
  simp only [List.length_append, List.length_cons] at hcost hlength ⊢
  omega

variable {trails : List (Trail n α)} {op : Edit}

theorem patch? (h : Traced old steps trails current) (hop : op.isChange = false)
    (hpatch : op.patch? new current = some next) :
    ∃ trails, Traced old (steps + 1) trails next := by
  -- Where a step takes the list apart, it takes the trails apart.
  cases op with
  | remove i =>
    obtain ⟨as, a, bs, hcurrent, -, rfl⟩ := Edit.exists_of_removeAt? hpatch
    have hitems := h.items.trans hcurrent
    obtain ⟨as, ts, rfl, rfl, hts⟩ := List.map_eq_append_iff.1 hitems
    obtain ⟨t, bs, rfl, rfl, rfl⟩ := List.map_eq_cons_iff.1 hts
    rw [← List.map_append]
    exact ⟨_, h.remove⟩
  | insert i =>
    rw [Edit.patch?, Option.bind_eq_bind, Option.bind_eq_some_iff] at hpatch
    obtain ⟨a, -, hpatch⟩ := hpatch
    obtain ⟨as, bs, hcurrent, rfl⟩ := Edit.exists_of_insertAt? hpatch
    obtain ⟨as, bs, rfl, rfl, rfl⟩ := List.map_eq_append_iff.1 (h.items.trans hcurrent)
    have hnext := h.insert a
    rw [List.map_append, List.map_cons] at hnext
    exact ⟨_, hnext⟩
  | move source target =>
    simp only [Edit.patch?, Option.bind_eq_bind, Option.bind_eq_some_iff] at hpatch
    obtain ⟨a, ha, shorter, hremove, hinsert⟩ := hpatch
    obtain ⟨as, b, bs, hcurrent, hb, rfl⟩ := Edit.exists_of_removeAt? hremove
    obtain rfl : a = b := Option.some.inj (ha.symm.trans hb)
    obtain ⟨cs, ds, hshorter, rfl⟩ := Edit.exists_of_insertAt? hinsert
    obtain ⟨as, ts, rfl, rfl, hts⟩ := List.map_eq_append_iff.1 (h.items.trans hcurrent)
    obtain ⟨t, bs, rfl, rfl, rfl⟩ := List.map_eq_cons_iff.1 hts
    rw [← List.map_append] at hshorter
    obtain ⟨cs, ds, hsplit, rfl, rfl⟩ := List.map_eq_append_iff.1 hshorter
    have hnext := h.move hsplit
    rw [List.map_append, List.map_cons, t.item_move] at hnext
    exact ⟨_, hnext⟩
  | change i => cases hop

theorem patch?_script {ops : List Edit} (h : Traced old steps trails current)
    (hops : ∀ op ∈ ops, op.isChange = false)
    (hpatch : (⟨ops⟩ : EditScript).patch? current new = some next) :
    ∃ trails, Traced old (steps + ops.length) trails next := by
  induction ops generalizing steps trails current with
  | nil =>
    obtain rfl : current = next := Option.some.inj hpatch
    exact ⟨trails, h⟩
  | cons op ops ih =>
    rw [EditScript.patch?_cons, Option.bind_eq_some_iff] at hpatch
    obtain ⟨between, hfirst, hrest⟩ := hpatch
    obtain ⟨trails, hnext⟩ := h.patch? (hops op List.mem_cons_self) hfirst
    obtain ⟨trails, hlast⟩ := ih hnext (fun op hop => hops op (List.mem_cons_of_mem _ hop)) hrest
    refine ⟨trails, ?_⟩
    rwa [List.length_cons, Nat.add_comm ops.length, ← Nat.add_assoc]

end Traced

end Difference

end Noticeboard
