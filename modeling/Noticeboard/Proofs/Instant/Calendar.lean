import Noticeboard.Instant.Calendar

namespace Noticeboard.Date

theorem daysBeforeYear_succ (year : Int) :
    daysBeforeYear (year + 1) = daysBeforeYear year + daysBeforeMonth (isLeap year) 13 := by
  have hleap : isLeap year = true ↔ year % 4 = 0 ∧ (year % 100 ≠ 0 ∨ year % 400 = 0) := by
    simp [isLeap]
  have hlength : daysBeforeMonth (isLeap year) 13 = 365 + if isLeap year then 1 else 0 := rfl
  rw [hlength]
  unfold daysBeforeYear
  split
  · next h =>
    have h := hleap.mp h
    omega
  · next h =>
    have h := mt hleap.mpr h
    omega

/-- The mean length of a year, 146097 days in 400 years, gives the year of a day up to one. -/
theorem daysBeforeYear_yearOf (days : Int) :
    daysBeforeYear (yearOf days) ≤ days ∧ days < daysBeforeYear (yearOf days + 1) := by
  have hbelow : daysBeforeYear ((days + 719162) * 400 / 146097 + 1 - 1) ≤ days := by
    unfold daysBeforeYear
    omega
  have habove : days < daysBeforeYear ((days + 719162) * 400 / 146097 + 1 + 1 + 1) := by
    unfold daysBeforeYear
    omega
  unfold yearOf
  generalize (days + 719162) * 400 / 146097 + 1 = guess at hbelow habove
  dsimp only
  split
  · next h => exact ⟨hbelow, by rwa [Int.sub_add_cancel]⟩
  · next h =>
    split
    · next h' => exact ⟨h', habove⟩
    · next h' => exact ⟨Int.not_lt.mp h, Int.not_le.mp h'⟩

theorem monthOf_mono (leap : Bool) {day later : Nat} (h : day ≤ later) :
    monthOf leap day ≤ monthOf leap later := by
  rw [monthOf, monthOf, ← List.countP_eq_length_filter, ← List.countP_eq_length_filter]
  refine List.countP_mono_left fun month _ hmonth => ?_
  exact decide_eq_true (Nat.le_trans (of_decide_eq_true hmonth) h)

/-- Months begin one after the other, so that it is enough to look at their first days and at the
days before these. -/
theorem le_monthOf_iff (leap : Bool) {month day : Nat} (h : 1 ≤ month ∧ month ≤ 12) :
    month ≤ monthOf leap day ↔ daysBeforeMonth leap month ≤ day := by
  have hfirst : ∀ leap, ∀ month ≤ 12, 1 ≤ month →
      month ≤ monthOf leap (daysBeforeMonth leap month) := by decide
  have hbefore : ∀ leap, ∀ month ≤ 12, 0 < daysBeforeMonth leap month →
      monthOf leap (daysBeforeMonth leap month - 1) < month := by decide
  constructor
  · intro hle
    refine Nat.le_of_not_lt fun hlt => ?_
    have hday := monthOf_mono leap (Nat.le_sub_one_of_lt hlt)
    have hmonth := hbefore leap month h.2 (Nat.zero_lt_of_lt hlt)
    omega
  · intro hle
    exact Nat.le_trans (hfirst leap month h.2 h.1) (monthOf_mono leap hle)

theorem daysBeforeMonth_monthOf (leap : Bool) {day : Nat} (h : day < daysBeforeMonth leap 13) :
    (1 ≤ monthOf leap day ∧ monthOf leap day ≤ 12) ∧
      daysBeforeMonth leap (monthOf leap day) ≤ day ∧
      day < daysBeforeMonth leap (monthOf leap day + 1) := by
  have hpos : 1 ≤ monthOf leap day := (le_monthOf_iff leap (by decide)).mpr (Nat.zero_le day)
  have hle : monthOf leap day ≤ 12 := List.length_filter_le _ _
  refine ⟨⟨hpos, hle⟩, (le_monthOf_iff leap ⟨hpos, hle⟩).mp (Nat.le_refl _), ?_⟩
  rcases Nat.lt_or_eq_of_le hle with hlt | heq
  · have hnext := mt (le_monthOf_iff leap ⟨Nat.le_add_left 1 _, hlt⟩).mpr (Nat.not_succ_le_self _)
    exact Nat.not_le.mp hnext
  · rwa [heq]

variable (days : Int)

theorem dayOfYear_lt : (days - daysBeforeYear (yearOf days)).toNat <
    daysBeforeMonth (isLeap (yearOf days)) 13 := by
  have h := daysBeforeYear_yearOf days
  rw [daysBeforeYear_succ] at h
  omega

theorem toDays_ofDays : (ofDays days).toDays = days := by
  have hyear := daysBeforeYear_yearOf days
  have hmonth := daysBeforeMonth_monthOf _ (dayOfYear_lt days)
  simp only [toDays, ofDays]
  omega

theorem isValid_ofDays : (ofDays days).isValid = true := by
  have hmonth := daysBeforeMonth_monthOf _ (dayOfYear_lt days)
  simp only [isValid, ofDays, daysInMonth, Bool.and_eq_true]
  exact ⟨⟨⟨decide_eq_true hmonth.1.1, decide_eq_true hmonth.1.2⟩, decide_eq_true (by omega)⟩,
    decide_eq_true (by omega)⟩

theorem ofDays_le : (ofDays days).month ≤ 12 ∧ (ofDays days).day ≤ 31 := by
  have hmonth := daysBeforeMonth_monthOf _ (dayOfYear_lt days)
  have hlength : ∀ leap, ∀ month ≤ 12, daysInMonth leap month ≤ 31 := by decide
  have hday := hlength (isLeap (yearOf days)) _ hmonth.1.2
  rw [daysInMonth] at hday
  refine ⟨hmonth.1.2, ?_⟩
  simp only [ofDays]
  omega

end Noticeboard.Date
