import Noticeboard.Proofs.Alignment.Round

namespace Noticeboard.Alignment

variable {n m : Nat} {same : Fin n → Fin m → Bool}

/-- The frontiers before some first rounds, last first. -/
inductive History (same : Fin n → Fin m → Bool) : List Frontier → Prop where
  | start : History same [Frontier.start n m]
  | next {f g : Frontier} {earlier : List Frontier} (h : History same (f :: earlier))
      (hg : Follows same earlier.length f g) : History same (g :: f :: earlier)

structure Ready (same : Fin n → Fin m → Bool) (d : Nat) (f : Frontier) : Prop where
  range : ∀ k : Int, -(n + m : Nat) ≤ k → k ≤ (n + m : Nat) → ∃ x, f.get? k = some x
  reach : ∀ k, Turn d k → ∃ x y : Nat, reach? same d k f = some (x : Int) ∧ (x : Int) - y = k ∧
    Furthest same d x y

theorem ready_start : Ready same 0 (Frontier.start n m) where
  range k hl hr := ⟨0, Frontier.get?_start n m k hl (by omega)⟩
  reach k hk := by
    have hk : k = 0 := by
      have := hk.1
      have := hk.2.1
      omega
    subst hk
    obtain ⟨x, hx, hf⟩ := reach?_zero same
      (Frontier.get?_start n m 1 (by omega) (by omega))
    exact ⟨x, x, hx, by omega, hf⟩

theorem Ready.next {d : Nat} {f g : Frontier} (h : Ready same d f) (hg : Follows same d f g) :
    Ready same (d + 1) g where
  range k hl hr := by
    rw [hg k]
    split
    · next hk =>
      obtain ⟨x, _, hx, _⟩ := h.reach k hk
      exact ⟨x, hx⟩
    · exact h.range k hl hr
  reach k hk := by
    apply reach?_succ _ hk
    intro j hj
    obtain ⟨x, y, hx, hxy, hf⟩ := h.reach j hj
    exact ⟨x, y, by rw [hg j, if_pos hj, hx], hxy, hf⟩

theorem History.ready {f : Frontier} {earlier : List Frontier} (h : History same (f :: earlier)) :
    Ready same earlier.length f := by
  generalize hfs : f :: earlier = fs at h
  induction h generalizing f earlier with
  | start =>
    cases hfs
    exact ready_start
  | next h hg ih =>
    cases hfs
    exact (ih rfl).next hg

theorem Ready.round {d : Nat} {f : Frontier} (h : Ready same d f) (hd : d ≤ n + m) :
    (∃ next j x, round? same d (d + 1) (-d) f = some (next, true) ∧ Turn d j ∧
      reach? same d j f = some x ∧ Done n m j x) ∨
    (∃ next, round? same d (d + 1) (-d) f = some (next, false) ∧ Follows same d f next ∧
      ∀ j x, Turn d j → reach? same d j f = some x → ¬ Done n m j x) := by
  have hreach : ∀ k, Turn d k → ∃ x, reach? same d k f = some x := by
    intro k hk
    obtain ⟨x, _, hx, _⟩ := h.reach k hk
    exact ⟨x, hx⟩
  have hrange : ∀ k, Turn d k → ∃ x, f.get? k = some x := by
    intro k hk
    obtain ⟨hl, hr, _⟩ := hk
    exact h.range k (by omega) (by omega)
  refine (round?_spec hreach hrange (d + 1) (-d) f (by omega) (by omega) .start).imp_right ?_
  rintro ⟨next, hround, hf, hnot⟩
  exact ⟨next, hround, hf, fun j x hj => hnot j x hj hj.1⟩

theorem Path.corner_of_done {d x y : Nat} (hp : Path same d x y)
    (h : Done n m ((x : Int) - y) x) : ∃ e ≤ d, Path same e n m := by
  obtain ⟨hn, hm⟩ := h
  obtain ⟨e, hp, he⟩ := hp.clamp
  rw [Nat.min_eq_right (by omega), Nat.min_eq_right (by omega)] at hp
  exact ⟨e, by omega, hp⟩

theorem search?_spec (left : Nat) (f : Frontier) (earlier : List Frontier)
    (h : History same (f :: earlier)) (hleft : left + earlier.length = n + m + 1)
    (hfirst : ∀ e < earlier.length, ¬ Path same e n m) :
    ∃ f' earlier', search? same left earlier.length f earlier = some (f' :: earlier') ∧
      History same (f' :: earlier') ∧ Path same earlier'.length n m ∧
      ∀ e < earlier'.length, ¬ Path same e n m := by
  -- No path has reached the corner yet, but after so many rounds the straight one would have.
  induction left generalizing f earlier with
  | zero => exact absurd Path.straight (hfirst (n + m) (by omega))
  | succ left ih =>
    obtain ⟨next, j, x, hround, hj, hx, hdone⟩ | ⟨next, hround, hf, hnot⟩ :=
      h.ready.round (by omega)
    · obtain ⟨a, b, ha, hab, hfar⟩ := h.ready.reach j hj
      rw [hx, Option.some.injEq] at ha
      subst ha hab
      obtain ⟨e, he, hp⟩ := hfar.path.corner_of_done hdone
      have hlast : e = earlier.length := by
        obtain hlt | heq := Nat.lt_or_eq_of_le he
        · exact absurd hp (hfirst e hlt)
        · exact heq
      refine ⟨f, earlier, ?_, h, hlast ▸ hp, hfirst⟩
      simp [search?, hround]
    · have hnone : ∀ e < earlier.length + 1, ¬ Path same e n m := by
        intro e he hp
        obtain hlt | rfl := Nat.lt_or_eq_of_le (Nat.le_of_lt_succ he)
        · exact hfirst e hlt hp
        · obtain ⟨a, b, ha, hab, hfar⟩ := h.ready.reach _ hp.turn
          have hle := hfar.le n m hp hab.symm
          exact hnot _ _ hp.turn ha ⟨by omega, by omega⟩
      obtain ⟨f', earlier', hsearch, hh⟩ := ih next (f :: earlier) (h.next hf)
        (by simp only [List.length_cons]; omega) (by simpa using hnone)
      refine ⟨f', earlier', ?_, hh⟩
      simpa [search?, hround] using hsearch

/-- The search keeps the frontiers of the rounds before a path first reaches the far corner. -/
theorem search?_corner (same : Fin n → Fin m → Bool) :
    ∃ f earlier, search? same (n + m + 1) 0 (Frontier.start n m) [] = some (f :: earlier) ∧
      History same (f :: earlier) ∧ earlier.length ≤ n + m ∧ Path same earlier.length n m ∧
      ∀ e < earlier.length, ¬ Path same e n m := by
  obtain ⟨f, earlier, hsearch, hhistory, hend, hfirst⟩ :=
    search?_spec (n + m + 1) _ _ (.start : History same _) rfl (by simp)
  refine ⟨f, earlier, hsearch, hhistory, ?_, hend, hfirst⟩
  have hstraight : ¬ n + m < earlier.length := fun hlt => hfirst (n + m) hlt .straight
  omega

theorem History.reach?_corner {f : Frontier} {earlier : List Frontier}
    (h : History same (f :: earlier)) (hend : Path same earlier.length n m)
    (hfirst : ∀ e < earlier.length, ¬ Path same e n m) :
    reach? same earlier.length ((n : Int) - m) f = some (n : Int) := by
  obtain ⟨x, y, hx, hxy, hf⟩ := h.ready.reach _ hend.turn
  obtain ⟨rfl, rfl⟩ := hf.eq_corner hxy hend hfirst
  exact hx

def Ascending (pairs : List (Fin n × Fin m)) : Prop :=
  pairs.Pairwise fun p q => p.1 < q.1 ∧ p.2 < q.2

theorem Ascending.fst_lt {pairs : List (Fin n × Fin m)} (h : Ascending pairs) {p q : Fin n × Fin m}
    (hp : p ∈ pairs) (hq : q ∈ pairs) (hlt : p.2 < q.2) : p.1 < q.1 := by
  obtain ⟨a, ha, rfl⟩ := List.mem_iff_getElem.1 hp
  obtain ⟨b, hb, rfl⟩ := List.mem_iff_getElem.1 hq
  obtain hab | rfl | hba := Nat.lt_trichotomy a b
  · exact (List.pairwise_iff_getElem.1 h a b ha hb hab).1
  · exact absurd hlt (Fin.lt_irrefl _)
  · exact absurd (List.pairwise_iff_getElem.1 h b a hb ha hba).2 (Fin.lt_asymm hlt)

/-- Ascending pairs of same items, all of them from `(x₀, y₀)` on and before `(x, y)`. -/
structure Common (same : Fin n → Fin m → Bool) (x₀ y₀ x y : Nat) (pairs : List (Fin n × Fin m)) :
    Prop where
  ascending : Ascending pairs
  same : ∀ p ∈ pairs, same p.1 p.2
  lower : ∀ p ∈ pairs, x₀ ≤ p.1 ∧ y₀ ≤ p.2
  upper : ∀ p ∈ pairs, p.1 < x ∧ p.2 < y

namespace Common

variable {x₀ y₀ x₁ y₁ x y : Nat} {front back : List (Fin n × Fin m)}

theorem nil : Common same x y x y [] :=
  ⟨.nil, by simp, by simp, by simp⟩

theorem append (h : Common same x₀ y₀ x₁ y₁ front) (h' : Common same x₁ y₁ x y back)
    (hx : x₀ ≤ x₁ ∧ x₁ ≤ x) (hy : y₀ ≤ y₁ ∧ y₁ ≤ y) : Common same x₀ y₀ x y (front ++ back) where
  ascending := by
    refine List.pairwise_append.2 ⟨h.ascending, h'.ascending, ?_⟩
    intro p hp q hq
    have hu := h.upper p hp
    have hl := h'.lower q hq
    constructor <;> omega
  same p hp := (List.mem_append.1 hp).elim (h.same p) (h'.same p)
  lower p hp := by
    obtain hp | hp := List.mem_append.1 hp
    · exact h.lower p hp
    · have := h'.lower p hp
      omega
  upper p hp := by
    obtain hp | hp := List.mem_append.1 hp
    · have := h.upper p hp
      omega
    · exact h'.upper p hp

theorem mono (h : Common same x₁ y₁ x y front) (hx : x₀ ≤ x₁) (hy : y₀ ≤ y₁) :
    Common same x₀ y₀ x y front :=
  { h with lower := fun p hp => by have := h.lower p hp; omega }

end Common

theorem climb?_spec {x y s : Nat} (hs : ∀ t < s, Meets same (x + t) (y + t))
    (pairs : List (Fin n × Fin m)) :
    ∃ run, climb? s ((x + s : Nat) : Int) ((y + s : Nat) : Int) pairs = some (run ++ pairs) ∧
      Common same x y (x + s) (y + s) run ∧ run.length = s := by
  induction s generalizing pairs with
  | zero => exact ⟨[], rfl, .nil, rfl⟩
  | succ s ih =>
    obtain ⟨hx, hy, hsame⟩ := hs s (by omega)
    obtain ⟨run, hclimb, hrun, hlen⟩ :=
      ih (fun t ht => hs t (by omega)) ((⟨x + s, hx⟩, ⟨y + s, hy⟩) :: pairs)
    have hlast : Common same (x + s) (y + s) (x + (s + 1)) (y + (s + 1))
        [(⟨x + s, hx⟩, ⟨y + s, hy⟩)] :=
      ⟨List.pairwise_singleton _ _, by simpa using hsame, by simp, by simp⟩
    refine ⟨run ++ [(⟨x + s, hx⟩, ⟨y + s, hy⟩)], ?_, hrun.append hlast (by omega) (by omega), ?_⟩
    · have hx' : ((x + (s + 1) : Nat) : Int) - 1 = (x + s : Nat) := by omega
      have hy' : ((y + (s + 1) : Nat) : Int) - 1 = (y + s : Nat) := by omega
      simp only [climb?, hx', hy', point?_of_lt hx hy, Option.bind_eq_bind, Option.bind_some,
        hclimb, List.append_assoc, List.singleton_append]
    · simp [hlen]

theorem retrace?_cons {f : Frontier} {earlier : List Frontier} {x y s : Nat} {down : Bool}
    {x₀ : Int} {pairs pairs' : List (Fin n × Fin m)}
    (hdown : f.entersDown? earlier.length ((x : Int) - y) = some down)
    (hx₀ : f.get? (if down then (x : Int) - y + 1 else x - y - 1) = some x₀)
    (hs : (x : Int) = s + if down then x₀ else x₀ + 1) (hclimb : climb? s x y pairs = some pairs') :
    retrace? (f :: earlier) x y pairs =
      if earlier.length = 0 then retrace? earlier (x - s) (y - s) pairs'
      else retrace? earlier x₀ (x₀ - if down then (x : Int) - y + 1 else x - y - 1) pairs' := by
  have hsteps : min ((x : Int) - x₀).toNat
      ((y : Int) - (x₀ - if down then (x : Int) - y + 1 else x - y - 1)).toNat = s := by
    cases down with
    | true => simp only [if_true] at hs ⊢; omega
    | false => simp only [Bool.false_eq_true, if_false] at hs ⊢; omega
  simp only [retrace?, hdown, hx₀, hsteps, hclimb, Option.bind_eq_bind, Option.bind_some]

theorem retrace?_start {x y : Nat} (hturn : Turn 0 ((x : Int) - y))
    (hx : reach? same (0 : Nat) ((x : Int) - y) (Frontier.start n m) = some (x : Int))
    (pairs : List (Fin n × Fin m)) :
    ∃ front, retrace? [Frontier.start n m] x y pairs = some ((0, 0), front ++ pairs) ∧
      Common same 0 0 x y front ∧ 2 * front.length = x + y := by
  have hxy : x = y := by
    obtain ⟨hl, hr, _⟩ := hturn
    omega
  subst hxy
  have hk : (x : Int) - x = 0 := Int.sub_self _
  have hget := Frontier.get?_start n m 1 (by omega) (by omega)
  have hdown : (Frontier.start n m).entersDown? 0 0 = some true :=
    (Frontier.start n m).entersDown?_lower 0
  obtain ⟨s, hreach, hs, -⟩ := reach?_of_enter same (x := 0) (y := 0) hdown hget rfl rfl
  have hsx : s = x := by
    rw [hk] at hx
    have := Option.some.inj (hreach.symm.trans hx)
    omega
  subst hsx
  obtain ⟨run, hclimb, hrun, hlen⟩ := climb?_spec hs pairs
  simp only [Nat.zero_add] at hclimb hrun
  refine ⟨run, ?_, hrun, by omega⟩
  have hfirst : (Frontier.start n m).entersDown? ([] : List Frontier).length ((s : Int) - s) =
      some true := by
    rw [hk]
    exact hdown
  have hone : (Frontier.start n m).get?
      (if true then (s : Int) - s + 1 else (s : Int) - s - 1) = some 0 := by
    rw [if_pos rfl, hk]
    exact hget
  rw [retrace?_cons hfirst hone (by simp) hclimb]
  simp [retrace?]

theorem exists_landing {x₀ y₀ : Nat} {k : Int} {down : Bool}
    (hxy : (x₀ : Int) - y₀ = if down then k + 1 else k - 1) :
    ∃ x₁ y₁ : Nat, ((x₁ : Int) = if down then (x₀ : Int) else x₀ + 1) ∧ (x₁ : Int) - y₁ = k ∧
      x₀ ≤ x₁ ∧ y₀ ≤ y₁ ∧ x₁ + y₁ = x₀ + y₀ + 1 := by
  cases down with
  | true =>
    rw [if_pos rfl] at hxy
    exact ⟨x₀, y₀ + 1, rfl, by omega, by omega, by omega, by omega⟩
  | false =>
    rw [if_neg Bool.false_ne_true] at hxy
    exact ⟨x₀ + 1, y₀, rfl, by omega, by omega, by omega, by omega⟩

/-- The way back from a point that the last round came to. -/
theorem retrace?_spec {f : Frontier} {earlier : List Frontier} (h : History same (f :: earlier))
    {x y : Nat} (hturn : Turn earlier.length ((x : Int) - y))
    (hx : reach? same earlier.length ((x : Int) - y) f = some (x : Int))
    (pairs : List (Fin n × Fin m)) :
    ∃ front, retrace? (f :: earlier) x y pairs = some ((0, 0), front ++ pairs) ∧
      Common same 0 0 x y front ∧ 2 * front.length + earlier.length = x + y := by
  -- Going back one round leads to a point that the round before came to.
  induction earlier generalizing f x y pairs with
  | nil =>
    cases h
    exact retrace?_start hturn hx pairs
  | cons g earlier ih =>
    cases h with
    | next h hg =>
      have hsettled : Settled same earlier.length f := by
        intro j hj
        obtain ⟨a, b, ha, hab⟩ := h.ready.reach j hj
        exact ⟨a, b, by rw [hg j, if_pos hj, ha], hab⟩
      obtain ⟨down, x₀, y₀, hdown, hget, hxy, hf, -, -⟩ := hsettled.entrance hturn
      have hback : reach? same earlier.length ((x₀ : Int) - y₀) g = some (x₀ : Int) := by
        rw [← hget, hg, ← hxy, if_pos hf.path.turn]
      obtain ⟨x₁, y₁, hx₁, hk₁, hle⟩ := exists_landing hxy
      obtain ⟨s, hreach, hs, -⟩ := reach?_of_enter same hdown hget hx₁ hk₁
      have hsx : x = x₁ + s := Int.ofNat_inj.1 (Option.some.inj (hx.symm.trans hreach))
      have hsy : y = y₁ + s := by omega
      subst hsx hsy
      obtain ⟨run, hclimb, hrun, hlen⟩ := climb?_spec hs pairs
      obtain ⟨front, hretrace, hfront, hcount⟩ := ih h hf.path.turn hback (run ++ pairs)
      refine ⟨front ++ run, ?_, hfront.append (hrun.mono hle.1 hle.2.1) (by omega) (by omega), ?_⟩
      · rw [← List.length_cons (a := g)] at hdown
        have hstep := retrace?_cons hdown hget (by omega) hclimb
        rw [if_neg (by simp), ← hxy, Int.sub_sub_self] at hstep
        rw [hstep, hretrace, List.append_assoc]
      · simp only [List.length_append, List.length_cons]
        omega

/-- The search and the way back stay inside their lists. They find common pairs, and as many as
the steps of a shortest path leave. -/
theorem path?_spec (same : Fin n → Fin m → Bool) :
    ∃ pairs d, path? same = some ((0, 0), pairs) ∧ Common same 0 0 n m pairs ∧
      2 * pairs.length + d = n + m ∧ ∀ e < d, ¬ Path same e n m := by
  obtain ⟨f, earlier, hsearch, hhistory, -, hend, hfirst⟩ := search?_corner same
  have hcorner := hhistory.reach?_corner hend hfirst
  obtain ⟨pairs, hretrace, hcommon, hcount⟩ := retrace?_spec hhistory hend.turn hcorner []
  rw [List.append_nil] at hretrace
  refine ⟨pairs, earlier.length, ?_, hcommon, hcount, hfirst⟩
  simp only [path?, hsearch, Option.bind_eq_bind, Option.bind_some, hretrace]

theorem commonSubsequence_common (same : Fin n → Fin m → Bool) :
    Common same 0 0 n m (commonSubsequence same) := by
  obtain ⟨pairs, d, hpath, hcommon, -⟩ := path?_spec same
  simpa only [commonSubsequence, hpath] using hcommon

end Noticeboard.Alignment
