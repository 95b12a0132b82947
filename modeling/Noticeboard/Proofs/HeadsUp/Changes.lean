import Noticeboard.Center.Basic
import Noticeboard.Proofs.HeadsUp.Operations

namespace Noticeboard

namespace HeadsUp

/-- An answer tells how the place came from one state to the next. -/
structure Tells (h : HeadsUp) (answer : Option HeadsUp.Change) (h' : HeadsUp) : Prop where
  settings : h'.settings = h.settings
  visible : h'.key? = answer.elim h.key? HeadsUp.Change.visible
  news : ∀ change, answer = some change →
    (change.visible = h.key? ↔ ∃ key, change = .updated key)
  allowed : h'.key?.isSome → h.key?.isSome ∨ h.settings.enabled

variable {h h' : HeadsUp} {answer : Option HeadsUp.Change}

theorem Tells.idle (h : HeadsUp) : Tells h none h where
  settings := rfl
  visible := rfl
  news _ he := by cases he
  allowed := .inl

/-- An answer that went unheard was no news just when it was none or an update. -/
theorem Tells.key?_eq_iff (t : Tells h answer h') :
    h'.key? = h.key? ↔ answer = none ∨ ∃ key, answer = some (.updated key) := by
  cases answer with
  | none => simp [t.visible]
  | some change =>
    rw [t.visible, Option.elim_some, t.news change rfl]
    simp

theorem Tells.isSome_imp_enabled (t : Tells h answer h')
    (hvisible : h.key?.isSome → h.settings.enabled) (hkey : h'.key?.isSome) :
    h'.settings.enabled := by
  rw [t.settings]
  obtain hbefore | henabled := t.allowed hkey
  · exact hvisible hbefore
  · exact henabled

theorem visible_arrival (h : HeadsUp) (key : String) : (h.arrival key).visible = some key := by
  rw [arrival]
  split
  · rfl
  · split
    · rfl
    · rfl

theorem arrival_eq_updated (h : HeadsUp) (key : String) :
    (∃ k, h.arrival key = .updated k) ↔ h.key? = some key := by
  rw [arrival]
  cases hkey : h.key? with
  | none => simp
  | some previous =>
    by_cases he : previous = key
    · simp [he]
    · simp [he]

theorem present_tells (now : Nat) (r : Record) (h : HeadsUp) :
    Tells h (h.present now r).1 (h.present now r).2 := by
  by_cases henabled : h.settings.enabled
  · rw [present_of_enabled henabled]
    refine ⟨rfl, (visible_arrival h r.key).symm, ?_, fun _ => .inr henabled⟩
    intro change hchange
    cases hchange
    rw [visible_arrival, arrival_eq_updated, eq_comm]
  · rw [present_of_disabled henabled]
    exact .idle h

theorem tells_emptied {key : String} (reason : EndReason) (hkey : h.key? = some key) :
    Tells h (some (.dismissed key reason)) h.emptied where
  settings := rfl
  visible := rfl
  news change hchange := by
    cases hchange
    simp [HeadsUp.Change.visible, hkey]
  allowed hsome := by cases hsome

theorem dismiss_tells (key : String) (reason : EndReason) (h : HeadsUp) :
    Tells h (h.dismiss key reason).1 (h.dismiss key reason).2 := by
  by_cases hkey : h.key? = some key
  · rw [dismiss_of_visible hkey]
    exact tells_emptied reason hkey
  · rw [dismiss_of_not_visible hkey]
    exact .idle h

theorem clear_tells (h : HeadsUp) : Tells h h.clear.1 h.clear.2 := by
  rw [clear_eq]
  cases hkey : h.key? with
  | none =>
    refine ⟨rfl, hkey.symm, ?_, ?_⟩
    · intro change hchange
      cases hchange
    · intro hsome
      cases hsome
  | some key => exact tells_emptied .reset hkey

theorem expire_tells (e : Expiry) (h : HeadsUp) : Tells h (h.expire e).1 (h.expire e).2 := by
  obtain ⟨-, he⟩ | ⟨key, -, hkey, he⟩ := expire_cases e h
  · rw [he]
    exact .idle h
  · rw [he]
    exact tells_emptied .timeout hkey

theorem key?_present (now : Nat) (r : Record) (h : HeadsUp) :
    (h.present now r).2.key? = if h.settings.enabled then some r.key else h.key? := by
  split
  · rename_i henabled
    rw [present_of_enabled henabled]
    rfl
  · rename_i hdisabled
    rw [present_of_disabled hdisabled]

theorem key?_dismiss {key k : String} {reason : EndReason}
    (hkey : (h.dismiss key reason).2.key? = some k) : h.key? = some k ∧ k ≠ key := by
  by_cases hvisible : h.key? = some key
  · rw [dismiss_of_visible hvisible] at hkey
    cases hkey
  · rw [dismiss_of_not_visible hvisible] at hkey
    exact ⟨hkey, fun he => hvisible (he ▸ hkey)⟩

theorem key?_expire {e : Expiry} {key : String} (hkey : (h.expire e).2.key? = some key) :
    h.key? = some key := by
  obtain ⟨-, he⟩ | ⟨_, -, -, he⟩ := expire_cases e h
  · rwa [he] at hkey
  · rw [he] at hkey
    cases hkey

theorem fire_tells (now : Nat) (h : HeadsUp) : Tells h none (h.fire now).2 := by
  obtain he | ⟨_, -, -, he⟩ := fire_cases now h
  · rw [he]
    exact .idle h
  · rw [he]
    exact ⟨rfl, rfl, fun _ hchange => (by cases hchange), .inl⟩

end HeadsUp

namespace Center

variable {h : HeadsUp} {keys : List String} {reason : EndReason}

def dismissNext (reason : EndReason) (told : Option HeadsUp.Change × HeadsUp) (key : String) :
    Option HeadsUp.Change × HeadsUp :=
  ((told.2.dismiss key reason).1.or told.1, (told.2.dismiss key reason).2)

theorem dismissAll_eq_foldl (keys : List String) (reason : EndReason) (h : HeadsUp) :
    dismissAll keys reason h = keys.foldl (dismissNext reason) (none, h) :=
  rfl

theorem foldl_dismissNext_of_not_mem (hkeys : ∀ key ∈ keys, h.key? ≠ some key)
    (answer : Option HeadsUp.Change) :
    keys.foldl (dismissNext reason) (answer, h) = (answer, h) := by
  induction keys with
  | nil => rfl
  | cons key keys ih =>
    have hturn : dismissNext reason (answer, h) key = (answer, h) := by
      rw [dismissNext, HeadsUp.dismiss_of_not_visible (hkeys key List.mem_cons_self)]
      rfl
    rw [List.foldl_cons, hturn]
    exact ih fun k hk => hkeys k (List.mem_cons_of_mem _ hk)

theorem dismissAll_of_not_mem (hkeys : ∀ key ∈ keys, h.key? ≠ some key) :
    dismissAll keys reason h = (none, h) :=
  foldl_dismissNext_of_not_mem hkeys none

theorem dismissAll_of_mem {key : String} (hkey : h.key? = some key) (hmem : key ∈ keys) :
    dismissAll keys reason h = h.dismiss key reason := by
  rw [dismissAll_eq_foldl]
  induction keys with
  | nil => cases hmem
  | cons k keys ih =>
    rw [List.foldl_cons]
    by_cases he : k = key
    · have hturn : dismissNext reason (none, h) k = h.dismiss key reason := by
        rw [dismissNext, he, Option.or_none]
      have hrest : ∀ k' ∈ keys, (h.dismiss key reason).2.key? ≠ some k' := by
        intro k' _
        rw [HeadsUp.dismiss_of_visible hkey]
        exact (Option.some_ne_none k').symm
      rw [hturn]
      exact foldl_dismissNext_of_not_mem hrest (h.dismiss key reason).1
    · have hnot : h.key? ≠ some k := by
        rw [hkey]
        exact fun hk => he (Option.some.inj hk).symm
      have hturn : dismissNext reason (none, h) k = (none, h) := by
        rw [dismissNext, HeadsUp.dismiss_of_not_visible hnot]
        rfl
      rw [hturn]
      exact ih (List.mem_of_ne_of_mem (Ne.symm he) hmem)

theorem dismissAll_cases (keys : List String) (reason : EndReason) (h : HeadsUp) :
    (∃ key ∈ keys, h.key? = some key ∧ dismissAll keys reason h = h.dismiss key reason) ∨
      (∀ key ∈ keys, h.key? ≠ some key) ∧ dismissAll keys reason h = (none, h) := by
  by_cases hvisible : ∃ key ∈ keys, h.key? = some key
  · obtain ⟨key, hmem, hkey⟩ := hvisible
    exact .inl ⟨key, hmem, hkey, dismissAll_of_mem hkey hmem⟩
  · have hnot : ∀ key ∈ keys, h.key? ≠ some key := fun key hmem hkey => hvisible ⟨key, hmem, hkey⟩
    exact .inr ⟨hnot, dismissAll_of_not_mem hnot⟩

theorem dismissAll_tells (keys : List String) (reason : EndReason) (h : HeadsUp) :
    HeadsUp.Tells h (dismissAll keys reason h).1 (dismissAll keys reason h).2 := by
  obtain ⟨key, -, -, hdismiss⟩ | ⟨-, hdismiss⟩ := dismissAll_cases keys reason h
  · rw [hdismiss]
    exact HeadsUp.dismiss_tells key reason h
  · rw [hdismiss]
    exact .idle h

theorem key?_dismissAll {key : String}
    (hkey : (dismissAll keys reason h).2.key? = some key) : h.key? = some key ∧ key ∉ keys := by
  obtain ⟨k, -, hk, hdismiss⟩ | ⟨hnot, hdismiss⟩ := dismissAll_cases keys reason h
  · rw [hdismiss, HeadsUp.dismiss_of_visible hk] at hkey
    cases hkey
  · rw [hdismiss] at hkey
    exact ⟨hkey, fun hmem => hnot key hmem hkey⟩

end Center

end Noticeboard
