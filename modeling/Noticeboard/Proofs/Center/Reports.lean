import Noticeboard.Proofs.Center.Calls

namespace Noticeboard

namespace Center

def published (c : Center) (calls : List Call) : List Update :=
  (c.trace calls).filterMap (·.2)

def hear (key : Option String) (u : Update) : Option String :=
  u.headsUp.elim key HeadsUp.Change.visible

def replay (updates : List Update) : Option String :=
  updates.foldl hear none

/-- A call that publishes nothing leaves the visible key. -/
def Outspoken (c : Center) : Call → Prop
  | .handle now e => (∃ err, (c.handle now e).result = .error err) →
      (c.apply now e).change = none ∨ ∃ key, (c.apply now e).change = some (.updated key)
  | _ => True

theorem published_concat (c : Center) (calls : List Call) (call : Call) :
    c.published (calls ++ [call]) = c.published calls ++ ((c.after calls).update? call).toList := by
  rw [published, trace_concat, List.filterMap_append]
  cases h : (c.after calls).update? call with
  | none => rfl
  | some u => rfl

theorem replay_concat (c : Center) (calls : List Call) (call : Call) :
    replay (c.published (calls ++ [call])) =
      ((c.after calls).update? call).elim (replay (c.published calls))
        (hear (replay (c.published calls))) := by
  rw [published_concat, replay, List.foldl_append]
  cases h : (c.after calls).update? call with
  | none => rfl
  | some u => rfl

theorem heard_iff (c : Center) (call : Call) :
    (c.update? call).elim c.headsUp.key? (hear c.headsUp.key?) = (c.next call).headsUp.key? ↔
      c.Outspoken call := by
  cases call with
  | handle now e =>
    have htells := c.apply_tells now e
    rw [headsUp_next_handle]
    obtain ⟨err, hresult, -⟩ | ⟨u, s, -, hresult, -, hchange⟩ := c.handle_cases now e
    · have hsilent : c.update? (.handle now e) = none := by
        rw [update?, hresult]
        rfl
      rw [hsilent, Option.elim_none, eq_comm, htells.key?_eq_iff, Outspoken]
      exact ⟨fun h _ => h, fun h => h ⟨err, hresult⟩⟩
    · have hupdate : c.update? (.handle now e) = some u := by
        rw [update?, hresult]
        rfl
      have hright : hear c.headsUp.key? u = (c.apply now e).headsUp.key? := by
        rw [hear, hchange, htells.visible]
      rw [hupdate, Option.elim_some]
      refine iff_of_true hright ?_
      rintro ⟨err, herror⟩
      rw [hresult] at herror
      cases herror
  | expire e =>
    have htells := c.headsUp.expire_tells e
    have hnext : (c.next (.expire e)).headsUp = (c.headsUp.expire e).2 := rfl
    refine iff_of_true ?_ trivial
    rw [hnext, htells.visible, update?_expire]
    cases (c.headsUp.expire e).1 with
    | none => rfl
    | some change => rfl
  | fire now => exact iff_of_true (c.headsUp.fire_tells now).visible.symm trivial

/-- The changes published tell throughout a run which record is visible, just if no list fails to
be made while the visible record changes. -/
theorem replay_published_iff (config : Config) (car : Car) (calls : List Call) :
    (∀ earlier, earlier <+: calls →
      replay ((fresh config car).published earlier) =
        ((fresh config car).after earlier).headsUp.key?) ↔
    ∀ earlier now e, earlier ++ [.handle now e] <+: calls →
      (∃ err, (((fresh config car).after earlier).handle now e).result = .error err) →
      (((fresh config car).after earlier).apply now e).change = none ∨
        ∃ key, (((fresh config car).after earlier).apply now e).change = some (.updated key) := by
  have step : ∀ earlier call,
      replay ((fresh config car).published earlier) =
        ((fresh config car).after earlier).headsUp.key? →
      (replay ((fresh config car).published (earlier ++ [call])) =
          ((fresh config car).after (earlier ++ [call])).headsUp.key? ↔
        ((fresh config car).after earlier).Outspoken call) := by
    intro earlier call hreplay
    rw [replay_concat, hreplay, after_concat]
    exact heard_iff _ call
  rw [forall_prefix_iff (P := fun earlier =>
    replay ((fresh config car).published earlier) =
      ((fresh config car).after earlier).headsUp.key?) rfl step]
  constructor
  · intro h earlier now e hprefix
    exact h earlier _ hprefix
  · intro h earlier call hprefix
    cases call with
    | handle now e => exact h earlier now e hprefix
    | expire e => trivial
    | fire now => trivial

/-- Two records of different packages get into one group, and the list can no longer be made; then
the warning that is visible is removed. -/
def conflictingRun : List Call :=
  [.handle 0 (.posted warning none), .handle 0 (.posted (plain "b" "z" 2 (some "x|y")) none),
    .handle 0 (.posted (plain "c" "y|z" 3 (some "x")) none), .handle 0 (.removed "a")]

theorem replay_conflictingRun :
    replay ((fresh .default .default).published conflictingRun) ≠
      ((fresh .default .default).after conflictingRun).headsUp.key? := by
  have hheard : replay ((fresh .default .default).published conflictingRun) = some "a" := by
    decide +kernel
  have hgone : ((fresh .default .default).after conflictingRun).headsUp.key? = none := by
    decide +kernel
  rw [hheard, hgone]
  exact Option.some_ne_none "a"

end Center

end Noticeboard
