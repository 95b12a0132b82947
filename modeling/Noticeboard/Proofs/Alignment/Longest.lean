import Noticeboard.Proofs.Alignment.Search

namespace Noticeboard.Alignment

variable {n m : Nat} {same : Fin n → Fin m → Bool}

/-- A path that goes on along the diagonals of some pairs to the far corner. -/
theorem Path.follow {d x y : Nat} (h : Path same d x y) (hx : x ≤ n) (hy : y ≤ m)
    {pairs : List (Fin n × Fin m)} (hpairs : Common same x y n m pairs) :
    ∃ e, Path same e n m ∧ e + x + y + 2 * pairs.length = d + n + m := by
  induction pairs generalizing d x y with
  | nil =>
    refine ⟨d + (n - x) + (m - y), ?_, by rw [List.length_nil]; omega⟩
    have hend := h.reach (n - x) (m - y)
    rwa [Nat.add_sub_cancel' hx, Nat.add_sub_cancel' hy] at hend
  | cons p pairs ih =>
    obtain ⟨hpx, hpy⟩ := hpairs.lower p List.mem_cons_self
    obtain ⟨hfirst, hascending⟩ := List.pairwise_cons.1 hpairs.ascending
    have hp := h.reach (p.1 - x) (p.2 - y)
    rw [Nat.add_sub_cancel' hpx, Nat.add_sub_cancel' hpy] at hp
    have hmeets : Meets same p.1 p.2 := ⟨p.1.2, p.2.2, hpairs.same p List.mem_cons_self⟩
    have hrest : Common same (p.1 + 1) (p.2 + 1) n m pairs := by
      refine ⟨hascending, ?_, hfirst, ?_⟩
      · intro q hq
        exact hpairs.same q (List.mem_cons_of_mem p hq)
      · intro q _
        exact ⟨q.1.2, q.2.2⟩
    obtain ⟨e, he, hcount⟩ := ih (hp.diagonal hmeets) p.1.2 p.2.2 hrest
    refine ⟨e, he, ?_⟩
    rw [List.length_cons]
    omega

theorem length_le_commonSubsequence {pairs : List (Fin n × Fin m)} (hascending : Ascending pairs)
    (hsame : ∀ p ∈ pairs, same p.1 p.2) : pairs.length ≤ (commonSubsequence same).length := by
  have hpairs : Common same 0 0 n m pairs := by
    refine ⟨hascending, hsame, ?_, ?_⟩
    · exact fun p _ => ⟨Nat.zero_le _, Nat.zero_le _⟩
    · exact fun p _ => ⟨p.1.2, p.2.2⟩
  have horigin : Path same 0 0 0 := .origin
  obtain ⟨e, he, hcount⟩ := horigin.follow (Nat.zero_le n) (Nat.zero_le m) hpairs
  obtain ⟨found, d, hpath, -, hlength, hfirst⟩ := path?_spec same
  have hfound : commonSubsequence same = found := by simp only [commonSubsequence, hpath]
  have hshortest : ¬ e < d := fun hlt => hfirst e hlt he
  rw [hfound]
  omega

theorem done_corner (n m : Nat) : Done n m (n - m) n :=
  ⟨Int.le_refl _, by omega⟩

namespace History

variable {f : Frontier} {earlier : List Frontier}

theorem done_iff (h : History same (f :: earlier))
    (hfirst : ∀ e < earlier.length, ¬ Path same e n m)
    {k x : Int} (hk : Turn earlier.length k) (hx : reach? same earlier.length k f = some x) :
    Done n m k x ↔ k = n - m ∧ x = n := by
  constructor
  · rintro ⟨hn, hm⟩
    obtain ⟨a, b, ha, hab, hf⟩ := h.ready.reach k hk
    rw [hx, Option.some.injEq] at ha
    subst ha hab
    obtain ⟨rfl, rfl⟩ := hf.eq_corner_of_le (by omega) (by omega) hfirst
    exact ⟨rfl, rfl⟩
  · rintro ⟨rfl, rfl⟩
    exact done_corner n m

/-- A round that ran to its end would have come past the corner without stopping there. -/
theorem round?_stops (h : History same (f :: earlier)) (hlength : earlier.length ≤ n + m)
    (hend : Path same earlier.length n m) (hfirst : ∀ e < earlier.length, ¬ Path same e n m) :
    ∃ next, round? same earlier.length (earlier.length + 1) (-earlier.length) f =
      some (next, true) := by
  obtain ⟨next, _, _, hround, -⟩ | ⟨next, -, -, hnot⟩ := h.ready.round hlength
  · exact ⟨next, hround⟩
  · exact absurd (done_corner n m) (hnot _ _ hend.turn (h.reach?_corner hend hfirst))

end History

/-- The search never leaves its frontiers and asks only for items of the two lists. In round
`n + m` at the latest it comes to the far corner, where it stops. The way back ends at the origin.
What it finds are ascending pairs of same items, and there are never more of them. -/
theorem search_longest (same : Fin n → Fin m → Bool) :
    ∃ f earlier, search? same (n + m + 1) 0 (Frontier.start n m) [] = some (f :: earlier) ∧
      earlier.length ≤ n + m ∧
      (∃ next, round? same earlier.length (earlier.length + 1) (-earlier.length) f =
        some (next, true)) ∧
      reach? same earlier.length ((n : Int) - m) f = some (n : Int) ∧
      (∀ k x, Turn earlier.length k → reach? same earlier.length k f = some x →
        (Done n m k x ↔ k = n - m ∧ x = n)) ∧
      retrace? (f :: earlier) n m [] = some ((0, 0), commonSubsequence same) ∧
      Ascending (commonSubsequence same) ∧ (∀ p ∈ commonSubsequence same, same p.1 p.2) ∧
      ∀ pairs, Ascending pairs → (∀ p ∈ pairs, same p.1 p.2) →
        pairs.length ≤ (commonSubsequence same).length := by
  obtain ⟨f, earlier, hsearch, hhistory, hlength, hend, hfirst⟩ := search?_corner same
  have hcorner := hhistory.reach?_corner hend hfirst
  obtain ⟨pairs, hretrace, -⟩ := retrace?_spec hhistory hend.turn hcorner []
  rw [List.append_nil] at hretrace
  have hfound : commonSubsequence same = pairs := by
    simp only [commonSubsequence, path?, hsearch, Option.bind_eq_bind, Option.bind_some, hretrace]
  have hcommon := commonSubsequence_common same
  refine ⟨f, earlier, hsearch, hlength, hhistory.round?_stops hlength hend hfirst, hcorner, ?_,
    hfound ▸ hretrace, hcommon.ascending, hcommon.same, ?_⟩
  · intro k x hk hx
    exact hhistory.done_iff hfirst hk hx
  · intro others hascending hsame
    exact length_le_commonSubsequence hascending hsame

end Noticeboard.Alignment
