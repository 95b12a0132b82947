namespace Noticeboard.Alignment

/-- How far along the old items each diagonal has been reached. Diagonal `k` holds the points `(x,
y)` with `x - y = k`: a step to the right drops an old item, a step down takes a new one, and a step
along the diagonal keeps an item. What could reach outside a list answers `none`. -/
structure Frontier where
  offset : Nat
  reached : Array Int

namespace Frontier

def start (n m : Nat) : Frontier :=
  ⟨n + m, Array.replicate (2 * (n + m) + 2) 0⟩

def index? (f : Frontier) (k : Int) : Option Nat :=
  (k + f.offset).toNat?

def get? (f : Frontier) (k : Int) : Option Int := do
  f.reached[← f.index? k]?

def set? (f : Frontier) (k x : Int) : Option Frontier := do
  let i ← f.index? k
  if i < f.reached.size then some { f with reached := f.reached.setIfInBounds i x } else none

theorem get?_set? {f g : Frontier} {k x : Int} (h : f.set? k x = some g) (j : Int) :
    g.get? j = if j = k then some x else f.get? j := by
  unfold set? at h
  cases hk : f.index? k with
  | none => simp [hk] at h
  | some i =>
    simp only [hk, Option.bind_eq_bind, Option.bind_some] at h
    split at h
    · next hi =>
      simp only [Option.some.injEq] at h
      subst h
      by_cases hj : j = k
      · subst hj
        simp [get?, index?] at hk ⊢
        simp [hk, hi]
      · simp only [get?, index?, hj, if_false] at hk ⊢
        cases hn : (j + (f.offset : Int)).toNat? with
        | none => rfl
        | some n =>
          have hk' := Int.mem_toNat?.1 hk
          have hn' := Int.mem_toNat?.1 hn
          have hne : i ≠ n := by omega
          simp [Array.getElem?_setIfInBounds, hne]
    · simp at h

/-- Whether diagonal `k` is entered in round `d` from the diagonal above it, by a step down. -/
def entersDown? (f : Frontier) (d k : Int) : Option Bool :=
  if k = -d then some true
  else if k = d then some false
  else do return (← f.get? (k - 1)) < (← f.get? (k + 1))

end Frontier

variable {n m : Nat}

def point? (n m : Nat) (x y : Int) : Option (Fin n × Fin m) :=
  if h : (0 ≤ x ∧ x < n) ∧ 0 ≤ y ∧ y < m then
    some (⟨x.toNat, by omega⟩, ⟨y.toNat, by omega⟩)
  else none

variable (same : Fin n → Fin m → Bool)

/-- Follow a diagonal as long as the items are the same. At most `left` old items are left. -/
def slide? : Nat → Int → Int → Option Int
  | 0, x, _ => some x
  | left + 1, x, y =>
    if y < m then do
      let (i, j) ← point? n m x y
      if same i j then slide? left (x + 1) (y + 1) else some x
    else some x

/-- The furthest point on diagonal `k` after `d` steps. -/
def reach? (d k : Int) (f : Frontier) : Option Int := do
  let x ← if ← f.entersDown? d k then f.get? (k + 1) else (· + 1) <$> f.get? (k - 1)
  slide? same (n - x).toNat x (x - k)

/-- Round `d` on the next `left` diagonals from `k` on, and whether the end is reached. -/
def round? (d : Int) : Nat → Int → Frontier → Option (Frontier × Bool)
  | 0, _, f => some (f, false)
  | left + 1, k, f => do
    let x ← reach? same d k f
    let f ← f.set? k x
    if n ≤ x ∧ m ≤ x - k then some (f, true) else round? d left (k + 2) f

/-- The frontiers before each round, last first, from round `d` on for at most `left` rounds. -/
def search? : Nat → Nat → Frontier → List Frontier → Option (List Frontier)
  | 0, _, _, _ => none
  | left + 1, d, f, earlier => do
    let (next, done) ← round? same d (d + 1) (-d) f
    if done then some (f :: earlier) else search? left (d + 1) next (f :: earlier)

/-- Go `steps` back along a diagonal and note the pairs passed. -/
def climb? : Nat → Int → Int → List (Fin n × Fin m) → Option (List (Fin n × Fin m))
  | 0, _, _, pairs => some pairs
  | steps + 1, x, y, pairs => do
    let p ← point? n m (x - 1) (y - 1)
    climb? steps (x - 1) (y - 1) (p :: pairs)

/-- Trace the path back through the frontiers. The answer is where it began and the pairs on its
diagonals. -/
def retrace? : List Frontier → Int → Int → List (Fin n × Fin m) →
    Option ((Int × Int) × List (Fin n × Fin m))
  | [], x, y, pairs => some ((x, y), pairs)
  | f :: earlier, x, y, pairs => do
    let d := earlier.length
    let k := x - y
    let before := if ← f.entersDown? d k then k + 1 else k - 1
    let x₀ ← f.get? before
    let y₀ := x₀ - before
    let steps := min (x - x₀).toNat (y - y₀).toNat
    let pairs ← climb? steps x y pairs
    if d = 0 then retrace? earlier (x - steps) (y - steps) pairs
    else retrace? earlier x₀ y₀ pairs

def path? : Option ((Int × Int) × List (Fin n × Fin m)) := do
  let frontiers ← search? same (n + m + 1) 0 (Frontier.start n m) []
  retrace? frontiers n m []

/-- The pairs of a longest common subsequence, ascending. -/
def commonSubsequence : List (Fin n × Fin m) :=
  match path? same with
  | some (_, pairs) => pairs
  | none => []

end Noticeboard.Alignment
