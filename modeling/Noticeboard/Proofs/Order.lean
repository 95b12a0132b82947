import Mathlib.Data.List.Induction
import Mathlib.Data.List.Nodup

namespace Noticeboard

variable {α β : Type} {le : α → α → Bool} {xs ys zs : List α}

/-- Any two items compare, and what is below an item is below all above it. -/
structure Preorders (le : α → α → Bool) : Prop where
  trans : ∀ a b c, le a b → le b c → le a c
  total : ∀ a b, le a b || le b a

def tied (le : α → α → Bool) (a b : α) : Bool :=
  le a b && le b a

/-- The list `ys` is `xs` in ascending order, and tied items stand in it as in `xs`. -/
structure Arranged (le : α → α → Bool) (xs ys : List α) : Prop where
  ascending : ys.Pairwise fun a b => le a b
  ties : ∀ a, ys.filter (tied le a) = xs.filter (tied le a)

theorem tied_iff {a b : α} : tied le a b ↔ le a b ∧ le b a :=
  Bool.and_eq_true_iff

namespace Preorders

variable (h : Preorders le)

include h

theorem refl (a : α) : le a a := by
  simpa using h.total a a

theorem tied_self (a : α) : tied le a a :=
  tied_iff.2 ⟨h.refl a, h.refl a⟩

theorem pairwise_tied (a : α) (xs : List α) :
    (xs.filter (tied le a)).Pairwise fun b c => le b c := by
  apply List.pairwise_of_forall_mem_list
  intro b hb c hc
  have hba := (tied_iff.1 (List.mem_filter.1 hb).2).2
  have hac := (tied_iff.1 (List.mem_filter.1 hc).2).1
  exact h.trans b a c hba hac

theorem arranged_mergeSort (xs : List α) : Arranged le xs (xs.mergeSort le) where
  ascending := List.pairwise_mergeSort h.trans h.total xs
  ties a := by
    have hsub := (List.sublist_mergeSort h.trans h.total (h.pairwise_tied a xs)
      List.filter_sublist).filter (tied le a)
    simp only [List.filter_filter, Bool.and_self] at hsub
    have hperm := (List.mergeSort_perm xs le).filter (tied le a)
    exact (hsub.eq_of_length_le (Nat.le_of_eq hperm.length_eq)).symm

theorem mem_of_ties (hties : ∀ a, xs.filter (tied le a) = ys.filter (tied le a)) {a : α}
    (ha : a ∈ xs) : a ∈ ys := by
  have hmem := List.mem_filter.2 ⟨ha, h.tied_self a⟩
  rw [hties a] at hmem
  exact List.mem_of_mem_filter hmem

theorem head_le {x a : α} (hxs : (x :: xs).Pairwise fun a b => le a b) (ha : a ∈ x :: xs) :
    le x a := by
  obtain rfl | ha := List.mem_cons.1 ha
  · exact h.refl a
  · exact (List.pairwise_cons.1 hxs).1 a ha

/-- Two ascending lists with the same ties are the same: their first items are each below the other,
so they are tied, and among what is tied with them both come first. -/
theorem eq_of_ties (hxs : xs.Pairwise fun a b => le a b) (hys : ys.Pairwise fun a b => le a b)
    (hties : ∀ a, xs.filter (tied le a) = ys.filter (tied le a)) : xs = ys := by
  induction xs generalizing ys with
  | nil =>
    cases ys with
    | nil => rfl
    | cons y ys => cases h.mem_of_ties (fun a => (hties a).symm) List.mem_cons_self
  | cons x xs ih =>
    cases ys with
    | nil => cases h.mem_of_ties hties List.mem_cons_self
    | cons y ys =>
      have hmem : y ∈ x :: xs := h.mem_of_ties (fun a => (hties a).symm) List.mem_cons_self
      have hxy : le x y := h.head_le hxs hmem
      have hyx : le y x := h.head_le hys (h.mem_of_ties hties List.mem_cons_self)
      have hfirst := hties x
      rw [List.filter_cons_of_pos (h.tied_self x),
        List.filter_cons_of_pos (tied_iff.2 ⟨hxy, hyx⟩)] at hfirst
      obtain rfl := (List.cons.inj hfirst).1
      have hrest : ∀ a, xs.filter (tied le a) = ys.filter (tied le a) := by
        intro a
        have ha := hties a
        by_cases hax : tied le a x
        · rw [List.filter_cons_of_pos hax, List.filter_cons_of_pos hax] at ha
          exact (List.cons.inj ha).2
        · rwa [List.filter_cons_of_neg hax, List.filter_cons_of_neg hax] at ha
      exact congrArg (x :: ·) (ih hxs.tail hys.tail hrest)

theorem tied_eq_of_tied {a b : α} (hab : tied le a b) : tied le a = tied le b := by
  obtain ⟨hle, hge⟩ := tied_iff.1 hab
  funext c
  rw [Bool.eq_iff_iff, tied_iff, tied_iff]
  constructor
  · rintro ⟨hac, hca⟩
    exact ⟨h.trans b a c hge hac, h.trans c a b hca hle⟩
  · rintro ⟨hbc, hcb⟩
    exact ⟨h.trans a b c hle hbc, h.trans c b a hcb hge⟩

theorem arranged_of_perm (hperm : ys.Perm xs) (hys : ys.Pairwise fun a b => le a b)
    (hties : ∀ a ∈ xs, ys.filter (tied le a) = xs.filter (tied le a)) : Arranged le xs ys where
  ascending := hys
  ties a := by
    by_cases htied : ∃ b ∈ xs, tied le a b
    · obtain ⟨b, hb, hab⟩ := htied
      rw [h.tied_eq_of_tied hab]
      exact hties b hb
    · have hnone : ∀ b ∈ xs, ¬ tied le a b := fun b hb hab => htied ⟨b, hb, hab⟩
      rw [List.filter_eq_nil_iff.2 hnone, List.filter_eq_nil_iff]
      intro b hb
      exact hnone b (hperm.mem_iff.1 hb)

end Preorders

namespace Arranged

theorem filter (h : Arranged le xs ys) (p : α → Bool) :
    Arranged le (xs.filter p) (ys.filter p) where
  ascending := h.ascending.filter p
  ties a := by
    rw [List.filter_comm, h.ties a, List.filter_comm]

theorem mergeSort_eq (h : Arranged le xs ys) (hle : Preorders le) : xs.mergeSort le = ys := by
  have hsorted := hle.arranged_mergeSort xs
  apply hle.eq_of_ties hsorted.ascending h.ascending
  intro a
  rw [hsorted.ties, h.ties]

theorem pairwise (h : Arranged le xs ys) (hle : Preorders le) {r : α → α → Prop}
    (hr : xs.Pairwise r) : ys.Pairwise fun a b => le a b ∧ (le b a → r a b) := by
  rw [List.pairwise_iff_forall_sublist]
  intro a b hab
  have hascending : le a b := List.pairwise_iff_forall_sublist.1 h.ascending hab
  refine ⟨hascending, fun hback => ?_⟩
  have hties : [a, b].filter (tied le a) = [a, b] := by
    simp [hle.tied_self, tied_iff.2 ⟨hascending, hback⟩]
  have hsub := hab.filter (tied le a)
  rw [hties, h.ties a] at hsub
  exact List.pairwise_iff_forall_sublist.1 hr (hsub.trans List.filter_sublist)

end Arranged

theorem Preorders.mergeSort_append (h : Preorders le) (xs ys : List α) :
    (xs.mergeSort le ++ ys).mergeSort le = (xs ++ ys).mergeSort le := by
  have hwhole := h.arranged_mergeSort (xs ++ ys)
  refine Arranged.mergeSort_eq ⟨hwhole.ascending, fun a => ?_⟩ h
  rw [hwhole.ties, List.filter_append, List.filter_append, (h.arranged_mergeSort xs).ties]

/-- Sorting forgets how the items stood if no two different ones are tied. -/
theorem Preorders.mergeSort_eq_of_perm (h : Preorders le) (hperm : xs.Perm ys)
    (hties : ∀ a ∈ xs, ∀ b ∈ xs, le a b → le b a → a = b) : xs.mergeSort le = ys.mergeSort le := by
  have hsorted : (xs.mergeSort le).Perm (ys.mergeSort le) :=
    ((List.mergeSort_perm xs le).trans hperm).trans (List.mergeSort_perm ys le).symm
  apply hsorted.eq_of_pairwise _ (h.arranged_mergeSort xs).ascending
    (h.arranged_mergeSort ys).ascending
  intro a b ha hb
  have hb : b ∈ xs := hperm.mem_iff.2 (List.mem_mergeSort.1 hb)
  exact hties a (List.mem_mergeSort.1 ha) b hb

theorem eq_of_perm_of_forall_eq (hperm : xs.Perm ys) (h : ∀ a ∈ xs, ∀ b ∈ xs, a = b) :
    xs = ys := by
  have hall : ∀ zs : List α, zs.Pairwise fun _ _ => True := fun zs =>
    List.pairwise_of_forall fun _ _ => trivial
  apply hperm.eq_of_pairwise _ (hall xs) (hall ys)
  intro a b ha hb _ _
  exact h a ha b (hperm.mem_iff.2 hb)

variable [BEq β] [LawfulBEq β]

theorem eraseDups_concat (bs : List β) (b : β) :
    (bs ++ [b]).eraseDups = if b ∈ bs then bs.eraseDups else bs.eraseDups ++ [b] := by
  rw [List.eraseDups_append]
  by_cases hb : b ∈ bs
  · simp [List.removeAll, hb]
  · simp [List.removeAll, hb, List.eraseDups_cons]

theorem nodup_eraseDups (bs : List β) : bs.eraseDups.Nodup := by
  induction bs using List.reverseRecOn with
  | nil => exact List.nodup_nil
  | append_singleton bs b ih =>
    rw [eraseDups_concat]
    split
    · exact ih
    · rename_i hb
      rw [← List.concat_eq_append]
      exact ih.concat fun hmem => hb (List.mem_eraseDups.1 hmem)

theorem eraseDups_perm {bs cs : List β} (hperm : bs.Perm cs) : bs.eraseDups.Perm cs.eraseDups := by
  rw [List.perm_ext_iff_of_nodup (nodup_eraseDups bs) (nodup_eraseDups cs)]
  intro b
  rw [List.mem_eraseDups, List.mem_eraseDups, hperm.mem_iff]

theorem eraseDups_append_of_forall_eq {bs cs : List β} {b : β} (hne : bs ≠ [])
    (hbs : ∀ a ∈ bs, a = b) (hcs : b ∉ cs) : (bs ++ cs).eraseDups = b :: cs.eraseDups := by
  cases bs with
  | nil => exact absurd rfl hne
  | cons a bs =>
    obtain rfl := hbs a List.mem_cons_self
    rw [List.cons_append, List.eraseDups_cons, List.filter_append, List.filter_eq_nil_iff.2,
      List.filter_eq_self.2, List.nil_append]
    · intro c hc
      simpa using fun hsame : c = a => hcs (hsame ▸ hc)
    · intro c hc
      simpa using hbs c (List.mem_cons_of_mem a hc)

/-- Where the first item stands that is picked and has the value `b`. -/
def firstIdx (pick : α → Bool) (f : α → β) (xs : List α) (b : β) : Nat :=
  xs.findIdx fun a => pick a && f a == b

section

variable {pick : α → Bool} {f : α → β} {b : β}

theorem firstIdx_lt_length (hb : b ∈ (xs.filter pick).map f) :
    firstIdx pick f xs b < xs.length := by
  obtain ⟨a, ha, rfl⟩ := List.mem_map.1 hb
  obtain ⟨hmem, hpick⟩ := List.mem_filter.1 ha
  exact List.findIdx_lt_length_of_exists ⟨a, hmem, by simp [hpick]⟩

theorem firstIdx_append_of_mem (hb : b ∈ (xs.filter pick).map f) (ys : List α) :
    firstIdx pick f (xs ++ ys) b = firstIdx pick f xs b := by
  rw [firstIdx, List.findIdx_append]
  exact if_pos (firstIdx_lt_length hb)

theorem length_le_firstIdx_append (hb : b ∉ (xs.filter pick).map f) (ys : List α) :
    xs.length ≤ firstIdx pick f (xs ++ ys) b := by
  rw [firstIdx, List.findIdx_append, if_neg]
  · exact Nat.le_add_left _ _
  · intro hlt
    obtain ⟨a, ha, hab⟩ := List.findIdx_lt_length.1 hlt
    rw [Bool.and_eq_true, beq_iff_eq] at hab
    exact hb (List.mem_map.2 ⟨a, List.mem_filter.2 ⟨ha, hab.1⟩, hab.2⟩)

theorem pairwise_eraseDups (pick : α → Bool) (f : α → β) (xs : List α) :
    ((xs.filter pick).map f).eraseDups.Pairwise fun b c =>
      firstIdx pick f xs b < firstIdx pick f xs c := by
  induction xs using List.reverseRecOn with
  | nil => exact List.Pairwise.nil
  | append_singleton xs x ih =>
    have hbefore : ((xs.filter pick).map f).eraseDups.Pairwise fun b c =>
        firstIdx pick f (xs ++ [x]) b < firstIdx pick f (xs ++ [x]) c := by
      apply ih.imp_of_mem
      intro b c hb hc hlt
      rwa [firstIdx_append_of_mem (List.mem_eraseDups.1 hb),
        firstIdx_append_of_mem (List.mem_eraseDups.1 hc)]
    cases hx : pick x with
    | false => simpa [List.filter_append, hx] using hbefore
    | true =>
      rw [List.filter_append, List.filter_cons_of_pos hx, List.filter_nil, List.map_append,
        List.map_singleton, eraseDups_concat]
      split
      · exact hbefore
      · rename_i hnew
        refine List.pairwise_append.2 ⟨hbefore, List.pairwise_singleton _ _, ?_⟩
        intro b hb c hc
        rw [List.mem_singleton] at hc
        subst hc
        rw [firstIdx_append_of_mem (List.mem_eraseDups.1 hb)]
        exact Nat.lt_of_lt_of_le (firstIdx_lt_length (List.mem_eraseDups.1 hb))
          (length_le_firstIdx_append hnew [x])

end

end Noticeboard
