import MyPerson.MaxLogin.Passwords

/-!
# `MaxLogin.Verdicts` — is "invalid password" right?

A call that submitted a password waits until MAX authorized the session, the login ended or PyMax asks again; only then
does it call the password invalid. It speaks of the password that was handed over in its turn, which is the call's own
unless the wait of another call had taken the prompt already. A call whose thirty seconds are over says the same of a
password that MAX is still looking at.

## Contents
- `wrong_is_right`.
-/

namespace MyPerson.MaxLogin

open Lib

variable {s s' : State} {r : RestCall} {now : MaxSession.Time}

/-- A woken call is the one of that number. -/
theorem woken (h : Ok s) (hr : r ∈ s.calls) {told : Told} (hstep : stepTold s (.wake r.call) = some (s', told)) :
    r.awaits.holds s = true ∧ goOn s r = (s', told) := by
  obtain ⟨r', hfind, hgone⟩ := Option.map_eq_some_iff.mp hstep
  have hholds := List.find?_some hfind
  simp only [decide_eq_true_eq] at hholds
  obtain rfl : r' = r := List.inj_on_of_nodup_map h.calls.2 (List.mem_of_find?_eq_some hfind) hr hholds.1
  exact ⟨hholds.2, hgone⟩

/-- What the verdict takes. -/
theorem wrong_of_loginResult {wrong error : String} {left : Nat} (h : loginResult s wrong = .wrong error left) :
    s.ui = .awaitingPassword ∧ s.running = true ∧ s.login.passwordAttempts ≠ 0 ∧
      error = s.login.lastError.getD wrong ∧ left = s.login.passwordAttemptsLeft := by
  unfold loginResult at h
  split at h
  · cases h
  · split at h
    · rename_i hwaiting
      split at h
      · cases h
      · rename_i hattempts
        cases h
        exact ⟨hwaiting.1, hwaiting.2, hattempts, rfl, rfl⟩
    · cases h

/-- **The verdict.** When a call that waited for its password answers "invalid password" because of what it waited for,
    PyMax had a password after the call began and asks again now; the attempts it leaves are those that are left; and the
    password that the call submitted, if it was taken, is the one that PyMax had in its turn, or is lost. -/
theorem wrong_is_right (now : MaxSession.Time) (s s' : State) (h : Run step Always (started now) s) (r : RestCall)
    (hr : r ∈ s.calls) (before : Nat) (hawaits : r.awaits = .password before) (error : String) (left : Nat)
    (htold : stepTold s (.wake r.call) = some (s', some (r.call, .wrong error left))) :
    error = "invalid password" ∧ s.login.passwordPending = true ∧ before < s.handed.length ∧
      s.handed.length + left = passwordMaxAttempts ∧ 0 < left ∧
      ∀ p ∈ s.accepted, p.call = r.call → s.handed[before]? = some p ∨ p ∈ s.lost := by
  have hok := Ok.run h
  obtain ⟨hholds, hgone⟩ := woken hok hr htold
  unfold goOn at hgone
  rw [hawaits] at hholds hgone
  have hresult : loginResult { s with calls := s.calls.filter fun x => x.call != r.call } "invalid password" =
      .wrong error left := (Prod.mk.inj (Option.some.inj (Prod.mk.inj hgone).2)).2
  obtain ⟨hui, hrunning, hattempts, herror, hleft⟩ := wrong_of_loginResult hresult
  have hui' : s.ui = .awaitingPassword := hui
  have hrunning' : s.running = true := hrunning
  -- the session is not authorized and the login goes on: PyMax has asked again
  obtain ⟨hbefore, hpending⟩ : before < s.login.passwordAttempts ∧ s.login.passwordPending = true := by
    simpa [Awaits.holds, hui', hrunning'] using hholds
  obtain ⟨w, hw, hdone⟩ : ∃ w, s.login.password = some w ∧ w.future.done = false := by
    unfold LoginController.passwordPending at hpending
    obtain ⟨w, hw, hnot⟩ := (Option.any_eq_true _ _).mp hpending
    exact ⟨w, hw, by simpa using hnot⟩
  have hnothing : s.carried = [] := carried_of_pending hw hdone
  obtain ⟨hfew, -, -, -, htells⟩ := hok.wait w hw
  have hpos : 0 < s.login.passwordAttempts := Nat.pos_of_ne_zero hattempts
  have hcount := hok.count
  have hleft' : left = passwordMaxAttempts - s.login.passwordAttempts := hleft
  refine ⟨?_, hpending, ?_, ?_, ?_, ?_⟩
  · rw [herror]
    show s.login.lastError.getD "invalid password" = "invalid password"
    rw [htells hpos]
    rfl
  · rw [hcount]
    exact hbefore
  · omega
  · omega
  · intro p hp hcall
    -- of the three places of an accepted password, "on its way" is out
    rcases hok.own r hr before hawaits p hp hcall with ⟨hmem, -⟩ | hgone
    · rw [hnothing] at hmem
      cases hmem
    · exact hgone

/-- The first password is wrong. -/
def firstTry : List Action := [.askPassword (some "pet"), .post none (some "cat"), .resume, .askPassword (some "pet")]

theorem firstTry_goes : (exec step (started 0) firstTry).isSome = true := by decide +kernel

theorem wrong_is_right_firstTry :
    ((exec step (started 0) firstTry).get firstTry_goes).handed[0]? = some ⟨0, "cat"⟩ := by
  have htold : ∃ s', stepTold ((exec step (started 0) firstTry).get firstTry_goes) (.wake 0) =
      some (s', some (0, .wrong "invalid password" 2)) := ⟨_, rfl⟩
  obtain ⟨s', htold⟩ := htold
  have hr : (⟨0, .password 0, 0⟩ : RestCall) ∈ ((exec step (started 0) firstTry).get firstTry_goes).calls := by
    decide +kernel
  obtain ⟨-, -, -, -, -, hown⟩ := wrong_is_right 0 _ s' (Run.get_exec firstTry_goes) ⟨0, .password 0, 0⟩ hr 0 rfl
    "invalid password" 2 htold
  refine (hown ⟨0, "cat"⟩ ?_ rfl).resolve_right ?_
  · decide +kernel
  · decide +kernel

end MyPerson.MaxLogin
