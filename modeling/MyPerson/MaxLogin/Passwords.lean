import Mathlib.Data.List.Nodup
import MyPerson.Lib.Run
import MyPerson.MaxLogin.Controller

/-!
# `MaxLogin.Passwords` — what becomes of the passwords of a login

Whatever PyMax asks, the REST layer submits and the clock does: PyMax gets three passwords at most, each one that was
submitted, in their order and once; it is made to wait only in the ten minutes from the first prompt; and a password
that was taken reaches it, unless the login was stopped or the ten minutes ran out.

## Contents
- `Ok`, the invariant; what each action does to it;
- `passwords_accounted`, and `twoTries`.
-/

namespace MyPerson.MaxLogin

open Lib

variable {s s' : State} {a : Action} {now : MaxSession.Time}

/-- The password on its way to PyMax. -/
def State.carried (s : State) : List Submitted := (s.login.password.bind WaitFor.carried).toList

/-- The first prompt of the login. -/
def State.firstPrompt (s : State) : Option MaxSession.Time := s.prompts.getLast?

/-- The login has come to its end: it was stopped, or its time is over. -/
def State.Over (s : State) : Prop :=
  s.running = false ∨ ∃ first, s.firstPrompt = some first ∧ first + passwordTimeout ≤ s.now

/-- A wait for a password, in its login. -/
structure WaitOk (s : State) (w : WaitFor Submitted) : Prop where
  few      : s.login.passwordAttempts < passwordMaxAttempts
  deadline : s.login.passwordDeadline = some w.deadline
  /-- What takes a result away. -/
  expired  : w.expired = true → w.deadline ≤ s.now
  stopped  : w.cancelled = true ∨ w.future = .cancelled → s.running = false ∨ w.expired = true
  told     : 0 < s.login.passwordAttempts → s.login.lastError = some "invalid password"

structure Ok (s : State) : Prop where
  count    : s.handed.length = s.login.passwordAttempts
  most     : s.login.passwordAttempts ≤ passwordMaxAttempts
  order    : (s.handed ++ s.carried).Sublist s.accepted
  fate     : s.accepted.Perm (s.handed ++ s.lost ++ s.carried)
  deadline : s.login.passwordDeadline = s.firstPrompt.map (· + passwordTimeout)
  prompts  : ∀ t ∈ s.prompts, ∀ first, s.firstPrompt = some first → t < first + passwordTimeout
  asked    : 0 < s.login.passwordAttempts → s.firstPrompt.isSome = true
  wait     : ∀ w, s.login.password = some w → WaitOk s w
  lost     : s.lost ≠ [] → s.Over
  calls    : (s.accepted.map Submitted.call).Nodup ∧ (s.calls.map RestCall.call).Nodup
  known    : (∀ p ∈ s.accepted, p.call < s.nextCall) ∧ ∀ r ∈ s.calls, r.call < s.nextCall
  /-- A call that waits for the code has submitted no password yet. -/
  fresh    : ∀ r ∈ s.calls, ∀ password, r.awaits = .code password → ∀ p ∈ s.accepted, p.call ≠ r.call
  /-- The password of a call that waits: on its way, handed over in its turn, or lost. -/
  own      : ∀ r ∈ s.calls, ∀ before, r.awaits = .password before → ∀ p ∈ s.accepted, p.call = r.call →
    p ∈ s.carried ∧ s.login.passwordAttempts = before ∨ s.handed[before]? = some p ∨ p ∈ s.lost

/-! ## Actions that leave the passwords alone -/

theorem State.Over.mono (h : s.Over) (hprompts : s'.firstPrompt = s.firstPrompt) (hnow : s.now ≤ s'.now)
    (hrunning : s.running = false → s'.running = false) : s'.Over := by
  rcases h with h | ⟨first, hfirst, hle⟩
  · exact .inl (hrunning h)
  · exact .inr ⟨first, hprompts.trans hfirst, Nat.le_trans hle hnow⟩

theorem WaitOk.mono {w : WaitFor Submitted} (h : WaitOk s w)
    (hattempts : s'.login.passwordAttempts = s.login.passwordAttempts)
    (hlastError : s'.login.lastError = s.login.lastError)
    (hdeadline : s'.login.passwordDeadline = s.login.passwordDeadline) (hnow : s.now ≤ s'.now)
    (hrunning : s.running = false → s'.running = false) : WaitOk s' w := by
  constructor
  · rw [hattempts]
    exact h.few
  · rw [hdeadline]
    exact h.deadline
  · intro hexp
    exact Nat.le_trans (h.expired hexp) hnow
  · intro hstopped
    exact (h.stopped hstopped).imp hrunning id
  · rw [hattempts, hlastError]
    exact h.told

/-- Nothing but the clock, the state and the code has changed. -/
structure SamePasswords (s s' : State) : Prop where
  password  : s'.login.password = s.login.password
  attempts  : s'.login.passwordAttempts = s.login.passwordAttempts
  lastError : s.login.password ≠ none → s'.login.lastError = s.login.lastError
  deadline  : s'.login.passwordDeadline = s.login.passwordDeadline
  ledger    : s'.accepted = s.accepted ∧ s'.handed = s.handed ∧ s'.lost = s.lost ∧ s'.prompts = s.prompts
  now       : s.now ≤ s'.now
  running   : s.running = false → s'.running = false

theorem Ok.same (h : Ok s) (hsame : SamePasswords s s') (hcalls : s'.calls = s.calls) (hnext : s'.nextCall = s.nextCall) :
    Ok s' := by
  obtain ⟨haccepted, hhanded, hlost, hprompts⟩ := hsame.ledger
  have hfirst : s'.firstPrompt = s.firstPrompt := congrArg List.getLast? hprompts
  have hcarried : s'.carried = s.carried := by
    unfold State.carried
    rw [hsame.password]
  constructor
  · rw [hhanded, hsame.attempts]
    exact h.count
  · rw [hsame.attempts]
    exact h.most
  · rw [hhanded, hcarried, haccepted]
    exact h.order
  · rw [hhanded, hcarried, haccepted, hlost]
    exact h.fate
  · rw [hsame.deadline, hfirst]
    exact h.deadline
  · rw [hprompts, hfirst]
    exact h.prompts
  · rw [hsame.attempts, hfirst]
    exact h.asked
  · intro w hw
    rw [hsame.password] at hw
    have hsome : s.login.password ≠ none := by
      rw [hw]
      exact Option.some_ne_none w
    exact (h.wait w hw).mono hsame.attempts (hsame.lastError hsome) hsame.deadline hsame.now hsame.running
  · intro hne
    rw [hlost] at hne
    exact (h.lost hne).mono hfirst hsame.now hsame.running
  · rw [haccepted, hcalls]
    exact h.calls
  · rw [haccepted, hcalls, hnext]
    exact h.known
  · rw [haccepted, hcalls]
    exact h.fresh
  · rw [haccepted, hcalls, hcarried, hhanded, hlost, hsame.attempts]
    exact h.own

/-- The controller and the session change, but for the passwords. -/
theorem Ok.sameLogin {login : LoginController} {ui : MaxSession.UiState} {lastError : Option String}
    {current running : Bool} (h : Ok s) (hpassword : login.password = s.login.password)
    (hattempts : login.passwordAttempts = s.login.passwordAttempts)
    (hlastError : s.login.password ≠ none → login.lastError = s.login.lastError)
    (hdeadline : login.passwordDeadline = s.login.passwordDeadline) (hrunning : s.running = false → running = false) :
    Ok { s with login := login, ui := ui, lastError := lastError, current := current, running := running } := by
  refine h.same ⟨hpassword, hattempts, hlastError, hdeadline, ⟨rfl, rfl, rfl, rfl⟩, Nat.le_refl _, hrunning⟩ rfl rfl

/-! ## PyMax asks -/

theorem Ok.onLoginStep (h : Ok s) : Ok (onLoginStep s) := by
  unfold MaxLogin.onLoginStep
  cases s.login.step with
  | none => exact h
  | some step =>
      cases s.current with
      | false => exact h
      | true => exact h.sameLogin rfl rfl (fun _ => rfl) rfl id

theorem passwordTimeout_pos : 0 < passwordTimeout := by
  unfold passwordTimeout MaxSession.seconds
  decide

/-- The deadline is set once, and asking again tells of a wrong password. -/
theorem askedAgain_spec (c : LoginController) (at' : MaxSession.Time) :
    (c.askedAgain at').passwordAttempts = c.passwordAttempts ∧ (c.askedAgain at').password = c.password ∧
      (c.askedAgain at').passwordDeadline = some (c.passwordDeadline.getD (at' + passwordTimeout)) ∧
      (c.passwordDeadline.isSome = true → 0 < c.passwordAttempts →
        (c.askedAgain at').lastError = some "invalid password") := by
  unfold LoginController.askedAgain
  cases hdeadline : c.passwordDeadline with
  | none => exact ⟨rfl, rfl, rfl, fun hsome => (nomatch hsome)⟩
  | some deadline =>
      by_cases hpos : 0 < c.passwordAttempts
      · simp [hpos]
      · simp [hpos, hdeadline]

/-- What `wait_password` does before its await. -/
inductive Asked (s : State) : State → Prop
  | exceeded : Asked s { s with login := { s.login with lastError := some "password attempts exceeded" } }
  | late (login : LoginController) (hattempts : login.passwordAttempts = s.login.passwordAttempts)
      (hpassword : login.password = s.login.password) (hdeadline : login.passwordDeadline = s.login.passwordDeadline) :
      Asked s { s with login := login }
  | prompted (login : LoginController) (first : MaxSession.Time) (hfew : s.login.passwordAttempts < passwordMaxAttempts)
      (hfirst : s.firstPrompt.getD s.now = first) (htime : s.now < first + passwordTimeout)
      (hattempts : login.passwordAttempts = s.login.passwordAttempts)
      (hdeadline : login.passwordDeadline = some (first + passwordTimeout))
      (hwait : login.password = some (.start (first + passwordTimeout)))
      (htold : 0 < s.login.passwordAttempts → login.lastError = some "invalid password") :
      Asked s (MaxLogin.onLoginStep { s with login := login, prompts := s.now :: s.prompts })

theorem asked (h : Ok s) (hint : Option String) : Asked s (askPassword s hint) := by
  unfold askPassword LoginController.waitPassword
  by_cases hmost : passwordMaxAttempts ≤ s.login.passwordAttempts
  · rw [if_pos hmost]
    exact .exceeded
  · rw [if_neg hmost]
    obtain ⟨hattempts, hpassword, hset, htold⟩ := askedAgain_spec s.login s.now
    have hdeadline : s.login.passwordDeadline.getD (s.now + passwordTimeout) =
        s.firstPrompt.getD s.now + passwordTimeout := by
      rw [h.deadline]
      cases s.firstPrompt with
      | none => simp
      | some first => simp
    rw [hdeadline] at hset
    simp only [hset, Option.getD_some]
    by_cases hlate : s.firstPrompt.getD s.now + passwordTimeout ≤ s.now
    · rw [if_pos hlate]
      refine .late _ hattempts hpassword ?_
      -- at the first prompt there is time left
      cases hfirst : s.firstPrompt with
      | none =>
          rw [hfirst] at hlate
          exact absurd hlate (Nat.not_le.mpr (Nat.lt_add_of_pos_right passwordTimeout_pos))
      | some first => rw [hset, h.deadline, hfirst, Option.getD_some, Option.map_some]
    · rw [if_neg hlate]
      refine .prompted _ _ (Nat.lt_of_not_le hmost) rfl (Nat.lt_of_not_le hlate) hattempts rfl rfl ?_
      intro hpos
      refine htold ?_ hpos
      rw [h.deadline, Option.isSome_map]
      exact h.asked hpos

theorem carried_of_none (h : s.login.password = none) : s.carried = [] := by
  unfold State.carried
  rw [h]
  rfl

theorem carried_of_some {w : WaitFor Submitted} (h : s.login.password = some w) : s.carried = w.carried.toList := by
  unfold State.carried
  rw [h]
  rfl

/-- While PyMax waits, no password is on its way. -/
theorem carried_of_pending {w : WaitFor Submitted} (h : s.login.password = some w) (hdone : w.future.done = false) :
    s.carried = [] := by
  rw [carried_of_some h, WaitFor.carried_of_not_done hdone]
  rfl

/-- A wait ends ten minutes after the first prompt. -/
theorem Ok.prompted {w : WaitFor Submitted} (h : Ok s) (hw : s.login.password = some w) :
    ∃ first, s.firstPrompt = some first ∧ first + passwordTimeout = w.deadline := by
  have hdeadline := (h.wait w hw).deadline
  rw [h.deadline] at hdeadline
  exact Option.map_eq_some_iff.mp hdeadline

/-- **A prompt.** -/
theorem Ok.askPassword (h : Ok s) (hidle : s.login.password = none) (hint : Option String) :
    Ok (askPassword s hint) := by
  have hasked := MaxLogin.asked h hint
  generalize MaxLogin.askPassword s hint = s' at hasked ⊢
  cases hasked with
  | exceeded => exact h.sameLogin rfl rfl (fun hne => absurd hidle hne) rfl id
  | late login hattempts hpassword hdeadline =>
      exact h.sameLogin hpassword hattempts (fun hne => absurd hidle hne) hdeadline id
  | prompted login first hfew hfirst htime hattempts hdeadline hwait htold =>
      -- the wait is new: nothing is on its way, before and after
      apply Ok.onLoginStep
      have hlast : State.firstPrompt { s with login := login, prompts := s.now :: s.prompts } = some first := by
        show (s.now :: s.prompts).getLast? = some first
        rw [List.getLast?_cons]
        exact congrArg some hfirst
      have hnothing : State.carried { s with login := login, prompts := s.now :: s.prompts } = [] := by
        show (login.password.bind WaitFor.carried).toList = []
        rw [hwait]
        rfl
      have hbefore : s.carried = [] := carried_of_none hidle
      constructor
      · exact h.count.trans hattempts.symm
      · show login.passwordAttempts ≤ passwordMaxAttempts
        rw [hattempts]
        exact h.most
      · rw [hnothing, ← hbefore]
        exact h.order
      · rw [hnothing, ← hbefore]
        exact h.fate
      · rw [hlast]
        exact hdeadline
      · intro t ht first' hfirst'
        obtain rfl := Option.some.inj (hlast.symm.trans hfirst')
        rcases List.mem_cons.mp ht with rfl | ht
        · exact htime
        · -- an earlier prompt has the same first one
          cases hprompts : s.firstPrompt with
          | none =>
              rw [List.getLast?_eq_none_iff.mp hprompts] at ht
              cases ht
          | some first'' =>
              rw [hprompts] at hfirst
              obtain rfl : first'' = first := hfirst
              exact h.prompts t ht first'' hprompts
      · intro _
        rw [hlast]
        rfl
      · intro w hw
        obtain rfl := Option.some.inj (hwait.symm.trans hw)
        refine ⟨?_, hdeadline, fun hexp => (nomatch hexp), ?_, ?_⟩
        · show login.passwordAttempts < passwordMaxAttempts
          rw [hattempts]
          exact hfew
        · rintro (hcancelled | hcancelled)
          · cases hcancelled
          · cases hcancelled
        · intro hpos
          exact htold (hattempts ▸ hpos)
      · intro hne
        -- a prompt is opened in time only
        rcases h.lost hne with hstopped | ⟨first', hfirst', hle⟩
        · exact .inl hstopped
        · rw [hfirst'] at hfirst
          obtain rfl : first' = first := hfirst
          exact absurd hle (Nat.not_le.mpr htime)
      · exact h.calls
      · exact h.known
      · exact h.fresh
      · intro r hr before hawaits p hp hcall
        rcases h.own r hr before hawaits p hp hcall with ⟨hcarried, -⟩ | hgone
        · rw [hbefore] at hcarried
          cases hcarried
        · exact .inr hgone

/-! ## The wait ends -/

/-- The wait changes, but not what it carries. -/
theorem Ok.rewait {w w' : WaitFor Submitted} (running : Bool) (h : Ok s) (hw : s.login.password = some w)
    (hcarried : w'.carried = w.carried) (hrunning : s.running = false → running = false)
    (hwait : WaitOk { s with login := { s.login with password := some w' }, running := running } w') :
    Ok { s with login := { s.login with password := some w' }, running := running } := by
  have hsame :
      State.carried { s with login := { s.login with password := some w' }, running := running } = s.carried := by
    unfold State.carried
    rw [hw]
    exact congrArg Option.toList hcarried
  constructor
  · exact h.count
  · exact h.most
  · rw [hsame]
    exact h.order
  · rw [hsame]
    exact h.fate
  · exact h.deadline
  · exact h.prompts
  · exact h.asked
  · intro w'' hw''
    obtain rfl := Option.some.inj hw''
    exact hwait
  · intro hne
    exact (h.lost hne).mono rfl (Nat.le_refl _) hrunning
  · exact h.calls
  · exact h.known
  · exact h.fresh
  · rw [hsame]
    exact h.own

theorem Ok.expire (h : Ok s) (hstep : expire s = some s') : Ok s' := by
  unfold MaxLogin.expire at hstep
  cases hw : s.login.password with
  | some w =>
      rw [hw] at hstep
      obtain ⟨⟨hdue, -⟩, hstep⟩ := Option.ite_none_right_eq_some.mp hstep
      obtain rfl := Option.some.inj hstep
      obtain ⟨hfew, hdeadline, -, -, htold⟩ := h.wait w hw
      exact h.rewait s.running hw (WaitFor.carried_expire w) id ⟨hfew, hdeadline, fun _ => hdue, fun _ => .inr rfl, htold⟩
  | none =>
      rw [hw] at hstep
      cases hcode : s.login.code with
      | none =>
          rw [hcode] at hstep
          cases hstep
      | some w =>
          rw [hcode] at hstep
          obtain ⟨-, hstep⟩ := Option.ite_none_right_eq_some.mp hstep
          obtain rfl := Option.some.inj hstep
          exact h.sameLogin rfl rfl (fun _ => rfl) rfl id

/-- What takes a result away ends the login. -/
theorem over_of_not_value {w : WaitFor Submitted} {p : Submitted} (h : Ok s) (hw : s.login.password = some w)
    (hcarried : w.carried = some p) (hnot : ∀ value, w.resume ≠ some (.value value)) : s.Over := by
  obtain ⟨-, -, hexpired, hstopped, -⟩ := h.wait w hw
  have hover : w.expired = true → s.Over := by
    intro hexp
    obtain ⟨first, hfirst, hsum⟩ := h.prompted hw
    exact .inr ⟨first, hfirst, hsum ▸ hexpired hexp⟩
  cases hexp : w.expired with
  | true => exact hover hexp
  | false =>
      cases hcancelled : w.cancelled with
      | true =>
          rcases hstopped (.inl hcancelled) with hrunning | hexp'
          · exact .inl hrunning
          · exact hover hexp'
      | false => exact absurd (WaitFor.resume_value.mpr ⟨hcarried, hexp, hcancelled⟩) (hnot p)

/-- **A password is handed over**, or its wait ends otherwise. -/
theorem Ok.resumePassword {w : WaitFor Submitted} (h : Ok s) (hw : s.login.password = some w)
    (hstep : resumePassword s w = some s') : Ok s' := by
  have hbefore : s.carried = w.carried.toList := carried_of_some hw
  have horder := h.order
  have hfate := h.fate
  rw [hbefore] at horder hfate
  unfold MaxLogin.resumePassword at hstep
  cases hresume : w.resume with
  | none =>
      rw [hresume] at hstep
      cases hstep
  | some ending =>
      rw [hresume] at hstep
      cases ending with
      | value value =>
          obtain rfl := Option.some.inj hstep
          obtain ⟨hcarried, -, -⟩ := WaitFor.resume_value.mp hresume
          rw [hcarried] at horder hfate
          constructor
          · show (s.handed ++ [value]).length = s.login.passwordAttempts + 1
            rw [List.length_append, h.count]
            rfl
          · exact (h.wait w hw).few
          · show (s.handed ++ [value] ++ []).Sublist s.accepted
            rw [List.append_nil]
            exact horder
          · show s.accepted.Perm (s.handed ++ [value] ++ s.lost ++ [])
            rw [List.append_nil]
            refine hfate.trans ?_
            rw [List.append_assoc, List.append_assoc]
            exact (List.perm_append_comm).append_left s.handed
          · exact h.deadline
          · exact h.prompts
          · intro _
            show s.firstPrompt.isSome = true
            obtain ⟨first, hfirst, -⟩ := h.prompted hw
            rw [hfirst]
            rfl
          · intro w' hw'
            cases hw'
          · exact h.lost
          · exact h.calls
          · exact h.known
          · exact h.fresh
          · intro r hr before hawaits p hp hcall
            right
            rcases h.own r hr before hawaits p hp hcall with ⟨hmem, hattempts⟩ | hhanded | hlost
            · -- it was on its way, and its turn is now
              rw [hbefore, hcarried] at hmem
              obtain rfl := List.mem_singleton.mp hmem
              left
              show (s.handed ++ [p])[before]? = some p
              rw [← hattempts, ← h.count, List.getElem?_concat_length]
            · left
              show (s.handed ++ [value])[before]? = some p
              rw [List.getElem?_append_left (List.getElem?_eq_some_iff.mp hhanded).1]
              exact hhanded
            · exact .inr hlost
      | _ =>
          -- what the future held, if anything, is lost
          obtain rfl := Option.some.inj hstep
          have hnot : ∀ value, w.resume ≠ some (.value value) := by
            intro value hvalue
            rw [hresume] at hvalue
            cases hvalue
          constructor
          · exact h.count
          · exact h.most
          · show (s.handed ++ []).Sublist s.accepted
            rw [List.append_nil]
            exact (List.prefix_append s.handed w.carried.toList).sublist.trans horder
          · show s.accepted.Perm (s.handed ++ (s.lost ++ w.carried.toList) ++ [])
            rw [List.append_nil, ← List.append_assoc]
            exact hfate
          · exact h.deadline
          · exact h.prompts
          · exact h.asked
          · intro w' hw'
            cases hw'
          · intro hne
            cases hcarried : w.carried with
            | none =>
                refine h.lost fun hnil => hne ?_
                show s.lost ++ w.carried.toList = []
                rw [hcarried, hnil]
                rfl
            | some p =>
                have hover : s.Over := over_of_not_value h hw hcarried hnot
                exact hover.mono rfl (Nat.le_refl _) id
          · exact h.calls
          · exact h.known
          · exact h.fresh
          · intro r hr before hawaits p hp hcall
            right
            rcases h.own r hr before hawaits p hp hcall with ⟨hmem, -⟩ | hhanded | hlost
            · rw [hbefore] at hmem
              exact .inr (List.mem_append_right _ hmem)
            · exact .inl hhanded
            · exact .inr (List.mem_append_left _ hlost)

theorem Ok.resume (h : Ok s) (hstep : resume s = some s') : Ok s' := by
  unfold MaxLogin.resume at hstep
  cases hw : s.login.password with
  | some w =>
      rw [hw] at hstep
      exact h.resumePassword hw hstep
  | none =>
      rw [hw] at hstep
      cases hcode : s.login.code with
      | none =>
          rw [hcode] at hstep
          cases hstep
      | some w =>
          rw [hcode] at hstep
          obtain ⟨ending, -, rfl⟩ := Option.map_eq_some_iff.mp hstep
          exact h.sameLogin rfl rfl (fun _ => rfl) rfl id

theorem Ok.stop (h : Ok s) : Ok { s with login := s.login.cancel, running := false } := by
  cases hw : s.login.password with
  | none =>
      have hnone : s.login.cancel.password = none := by
        unfold LoginController.cancel
        rw [hw]
        rfl
      exact h.sameLogin (hnone.trans hw.symm) rfl (fun _ => rfl) rfl fun _ => rfl
  | some w =>
      obtain ⟨hfew, hdeadline, hexpired, -, htold⟩ := h.wait w hw
      have hcarried : w.cancelFuture.cancelTask.carried = w.carried := by simp
      have hrewait := h.rewait false hw hcarried (fun _ => rfl)
        ⟨hfew, hdeadline, hexpired, fun _ => .inl rfl, htold⟩
      -- the code's wait, too
      refine hrewait.sameLogin ?_ rfl (fun _ => rfl) rfl id
      show s.login.cancel.password = some w.cancelFuture.cancelTask
      unfold LoginController.cancel
      rw [hw]
      rfl

/-! ## REST calls -/

/-- The calls that wait are others; their passwords are accounted for. -/
theorem Ok.setCalls {calls : List RestCall} (h : Ok s) (hnodup : (calls.map RestCall.call).Nodup)
    (hknown : ∀ r ∈ calls, r.call < s.nextCall)
    (hfresh : ∀ r ∈ calls, ∀ password, r.awaits = .code password → ∀ p ∈ s.accepted, p.call ≠ r.call)
    (hown : ∀ r ∈ calls, ∀ before, r.awaits = .password before → ∀ p ∈ s.accepted, p.call = r.call →
      p ∈ s.carried ∧ s.login.passwordAttempts = before ∨ s.handed[before]? = some p ∨ p ∈ s.lost) :
    Ok { s with calls := calls } := by
  refine ⟨h.count, h.most, h.order, h.fate, h.deadline, h.prompts, h.asked, ?_, h.lost, ⟨h.calls.1, hnodup⟩,
    ⟨h.known.1, hknown⟩, hfresh, hown⟩
  intro w hw
  exact (h.wait w hw).mono rfl rfl rfl (Nat.le_refl _) id

/-- A call of that number has submitted no password, and none waits. -/
structure Unheard (s : State) (call : Nat) : Prop where
  known    : call < s.nextCall
  silent   : ∀ p ∈ s.accepted, p.call ≠ call
  notThere : ∀ r ∈ s.calls, r.call ≠ call

/-- A call begins to wait, with its password accounted for. -/
theorem Ok.await {call : Nat} {awaits : Awaits} (h : Ok s) (hknown : call < s.nextCall)
    (hnew : ∀ r ∈ s.calls, r.call ≠ call)
    (hfresh : ∀ password, awaits = .code password → ∀ p ∈ s.accepted, p.call ≠ call)
    (hown : ∀ before, awaits = .password before → ∀ p ∈ s.accepted, p.call = call →
      p ∈ s.carried ∧ s.login.passwordAttempts = before ∨ s.handed[before]? = some p ∨ p ∈ s.lost) :
    Ok (await s call awaits) := by
  apply h.setCalls
  · rw [List.map_append, List.map_singleton, ← List.concat_eq_append]
    refine List.Nodup.concat ?_ h.calls.2
    intro hmem
    obtain ⟨r, hr, hcall⟩ := List.mem_map.mp hmem
    exact hnew r hr hcall
  · intro r hr
    rcases List.mem_append.mp hr with hr | hr
    · exact h.known.2 r hr
    · obtain rfl := List.mem_singleton.mp hr
      exact hknown
  · intro r hr
    rcases List.mem_append.mp hr with hr | hr
    · exact h.fresh r hr
    · obtain rfl := List.mem_singleton.mp hr
      exact hfresh
  · intro r hr
    rcases List.mem_append.mp hr with hr | hr
    · exact h.own r hr
    · obtain rfl := List.mem_singleton.mp hr
      exact hown

theorem Ok.awaitUnheard {call : Nat} {awaits : Awaits} (h : Ok s) (hunheard : Unheard s call) :
    Ok (MaxLogin.await s call awaits) := by
  apply h.await hunheard.known hunheard.notThere
  · intro _ _ p hp
    exact hunheard.silent p hp
  · intro _ _ p hp hcall
    exact absurd hcall (hunheard.silent p hp)

theorem submitPassword_spec (c : LoginController) (p : Submitted) :
    c.submitPassword p = (c, false) ∨ ∃ w, c.password = some w ∧ w.future.done = false ∧
      c.submitPassword p = ({ c with password := some (w.setResult p) }, true) := by
  unfold LoginController.submitPassword
  cases hw : c.password with
  | none => exact .inl rfl
  | some w =>
      cases hdone : w.future.done with
      | true =>
          left
          simp [hdone]
      | false =>
          right
          refine ⟨w, rfl, hdone, ?_⟩
          simp [hdone]

/-- **A password is submitted.** -/
theorem Ok.submitPassword {call : Nat} (h : Ok s) (hunheard : Unheard s call) (text : String) :
    Ok (submitPassword s call text) := by
  unfold MaxLogin.submitPassword
  rcases submitPassword_spec s.login ⟨call, text⟩ with hrefused | ⟨w, hw, hdone, htaken⟩
  · simp only [hrefused]
    exact h.awaitUnheard hunheard
  · simp only [htaken, if_true]
    have hbefore : s.carried = [] := carried_of_pending hw hdone
    have horder := h.order
    have hfate := h.fate
    rw [hbefore, List.append_nil] at horder hfate
    obtain ⟨hfew, hdeadline, hexpired, hstopped, htold⟩ := h.wait w hw
    -- the state with the password on its way, before the call begins to wait
    have hok : Ok { s with
        login := { s.login with password := some (w.setResult ⟨call, text⟩) }
        accepted := s.accepted ++ [⟨call, text⟩] } := by
      constructor
      · exact h.count
      · exact h.most
      · show (s.handed ++ [Submitted.mk call text]).Sublist (s.accepted ++ [Submitted.mk call text])
        exact horder.append (List.Sublist.refl _)
      · show (s.accepted ++ [Submitted.mk call text]).Perm (s.handed ++ s.lost ++ [Submitted.mk call text])
        exact hfate.append_right _
      · exact h.deadline
      · exact h.prompts
      · exact h.asked
      · intro w' hw'
        obtain rfl := Option.some.inj hw'
        refine ⟨hfew, hdeadline, hexpired, ?_, htold⟩
        rintro (hcancelled | hcancelled)
        · exact hstopped (.inl hcancelled)
        · cases hcancelled
      · exact h.lost
      · refine ⟨?_, h.calls.2⟩
        rw [List.map_append, List.map_singleton, ← List.concat_eq_append]
        refine List.Nodup.concat ?_ h.calls.1
        intro hmem
        obtain ⟨p, hp, hcall⟩ := List.mem_map.mp hmem
        exact hunheard.silent p hp hcall
      · refine ⟨?_, h.known.2⟩
        intro p hp
        rcases List.mem_append.mp hp with hp | hp
        · exact h.known.1 p hp
        · obtain rfl := List.mem_singleton.mp hp
          exact hunheard.known
      · intro r hr password hawaits p hp
        rcases List.mem_append.mp hp with hp | hp
        · exact h.fresh r hr password hawaits p hp
        · obtain rfl := List.mem_singleton.mp hp
          exact (hunheard.notThere r hr).symm
      · intro r hr before hawaits p hp hcall
        rcases List.mem_append.mp hp with hp | hp
        · rcases h.own r hr before hawaits p hp hcall with ⟨hmem, -⟩ | hgone
          · rw [hbefore] at hmem
            cases hmem
          · exact .inr hgone
        · obtain rfl := List.mem_singleton.mp hp
          exact absurd hcall.symm (hunheard.notThere r hr)
    -- the call waits for what becomes of it
    refine hok.await hunheard.known hunheard.notThere ?_ ?_
    · intro password hawaits
      cases hawaits
    · intro before hawaits p hp hcall
      obtain rfl : s.login.passwordAttempts = before := Awaits.password.inj hawaits
      left
      refine ⟨?_, rfl⟩
      rcases List.mem_append.mp hp with hp | hp
      · exact absurd hcall (hunheard.silent p hp)
      · obtain rfl := List.mem_singleton.mp hp
        exact List.mem_singleton_self _

theorem Ok.numbered (h : Ok s) : Ok { s with nextCall := s.nextCall + 1 } ∧
    Unheard { s with nextCall := s.nextCall + 1 } s.nextCall := by
  constructor
  · refine ⟨h.count, h.most, h.order, h.fate, h.deadline, h.prompts, h.asked, ?_, h.lost, h.calls, ?_, h.fresh, h.own⟩
    · intro w hw
      exact (h.wait w hw).mono rfl rfl rfl (Nat.le_refl _) id
    · exact ⟨fun p hp => Nat.lt_succ_of_lt (h.known.1 p hp), fun r hr => Nat.lt_succ_of_lt (h.known.2 r hr)⟩
  · exact ⟨Nat.lt_succ_self _, fun p hp => Nat.ne_of_lt (h.known.1 p hp), fun r hr => Nat.ne_of_lt (h.known.2 r hr)⟩

theorem Ok.submitCode (h : Ok s) (code : Submitted) : Ok { s with login := (s.login.submitCode code).1 } := by
  unfold LoginController.submitCode
  split
  · split
    · exact h
    · exact h.sameLogin rfl rfl (fun _ => rfl) rfl id
  · exact h

theorem Ok.post (h : Ok s) (code password : Option String) : Ok (post s code password).1 := by
  obtain ⟨hok, hunheard⟩ := h.numbered
  unfold MaxLogin.post
  simp only
  split
  · exact hok
  · split
    · split
      · exact hok
      · rename_i text _
        -- the code is submitted
        have hsubmitted := hok.submitCode ⟨s.nextCall, text⟩
        exact hsubmitted.awaitUnheard ⟨hunheard.known, hunheard.silent, hunheard.notThere⟩
    · split
      · exact hok
      · exact hok.submitPassword hunheard _
    · exact hok

/-- A call that goes on waits no more. -/
theorem Ok.leave {r : RestCall} (h : Ok s) (hr : r ∈ s.calls) :
    Ok { s with calls := s.calls.filter fun x => x.call != r.call } ∧
      ∀ password, r.awaits = .code password →
        Unheard { s with calls := s.calls.filter fun x => x.call != r.call } r.call := by
  have hsub : ∀ x ∈ s.calls.filter fun x => x.call != r.call, x ∈ s.calls := fun x hx => (List.mem_filter.mp hx).1
  constructor
  · apply h.setCalls
    · exact h.calls.2.sublist (List.filter_sublist.map RestCall.call)
    · exact fun x hx => h.known.2 x (hsub x hx)
    · exact fun x hx => h.fresh x (hsub x hx)
    · exact fun x hx => h.own x (hsub x hx)
  · intro password hawaits
    refine ⟨h.known.2 r hr, h.fresh r hr password hawaits, ?_⟩
    intro x hx
    simpa using (List.mem_filter.mp hx).2

theorem Ok.goOn {r : RestCall} (h : Ok s) (hr : r ∈ s.calls) : Ok (goOn s r).1 := by
  obtain ⟨hok, hunheard⟩ := h.leave hr
  unfold MaxLogin.goOn
  cases hawaits : r.awaits with
  | password before => exact hok
  | code password =>
      cases password with
      | none => exact hok
      | some password =>
          simp only
          split
          · exact hok.submitPassword (hunheard _ hawaits) password
          · exact hok

/-! ## Runs -/

theorem idle_of_not_waiting (h : s.login.waiting = false) : s.login.password = none := by
  unfold LoginController.waiting at h
  obtain ⟨-, hpassword⟩ := Bool.or_eq_false_iff.mp h
  simpa using hpassword

/-- **One stretch of code.** -/
theorem Ok.step (h : Ok s) (hstep : step s a = some s') : Ok s' := by
  unfold MaxLogin.step at hstep
  obtain ⟨⟨s'', answered⟩, htold, rfl⟩ := Option.map_eq_some_iff.mp hstep
  clear hstep
  show Ok s''
  cases a with
  | tick d =>
      cases htold
      exact h.same ⟨rfl, rfl, fun _ => rfl, rfl, ⟨rfl, rfl, rfl, rfl⟩, Nat.le_add_right _ d, id⟩ rfl rfl
  | qr =>
      obtain ⟨-, htold⟩ := Option.ite_none_left_eq_some.mp htold
      cases htold
      apply Ok.onLoginStep
      exact h.sameLogin rfl rfl (fun _ => rfl) rfl id
  | askCode =>
      obtain ⟨-, htold⟩ := Option.ite_none_left_eq_some.mp htold
      cases htold
      apply Ok.onLoginStep
      exact h.sameLogin rfl rfl (fun _ => rfl) rfl id
  | askPassword hint =>
      obtain ⟨hidle, htold⟩ := Option.ite_none_left_eq_some.mp htold
      cases htold
      exact h.askPassword (idle_of_not_waiting ((Bool.not_eq_true _).mp hidle)) hint
  | expire =>
      obtain ⟨t, hexpire, heq⟩ := Option.map_eq_some_iff.mp htold
      cases heq
      exact h.expire hexpire
  | resume =>
      obtain ⟨t, hresume, heq⟩ := Option.map_eq_some_iff.mp htold
      cases heq
      exact h.resume hresume
  | authorize =>
      obtain ⟨-, htold⟩ := Option.ite_none_left_eq_some.mp htold
      cases htold
      exact h.sameLogin rfl rfl (fun _ => rfl) rfl id
  | fail error =>
      obtain ⟨-, htold⟩ := Option.ite_none_left_eq_some.mp htold
      cases htold
      exact h.sameLogin rfl rfl (fun _ => rfl) rfl (fun _ => rfl)
  | stop =>
      cases htold
      exact h.stop
  | stopped =>
      obtain ⟨-, htold⟩ := Option.ite_none_left_eq_some.mp htold
      cases htold
      exact h.sameLogin rfl rfl (fun _ => rfl) rfl id
  | post code password =>
      have hpost := h.post code password
      rw [Option.some.inj htold] at hpost
      exact hpost
  | wake call =>
      obtain ⟨r, hfind, heq⟩ := Option.map_eq_some_iff.mp htold
      have hgone := h.goOn (List.mem_of_find?_eq_some hfind)
      rwa [heq] at hgone
  | giveUp call =>
      obtain ⟨r, hfind, heq⟩ := Option.map_eq_some_iff.mp htold
      have hgone := h.goOn (List.mem_of_find?_eq_some hfind)
      rwa [heq] at hgone

theorem Ok.started (now : MaxSession.Time) : Ok (started now) := by
  constructor <;> simp [MaxLogin.started, State.carried, State.firstPrompt]

theorem Ok.run (h : Run MaxLogin.step Always (MaxLogin.started now) s) : Ok s :=
  h.invariant (fun _ _ _ hok _ hstep => hok.step hstep) (Ok.started now)

/-- **Passwords.** In every run of a login PyMax got three passwords at most, each of them one that a call submitted, in
    their order and once; a password that was taken is there, on its way, or lost with a login that was stopped or whose
    ten minutes are over; and every prompt was opened in the ten minutes from the first one. -/
theorem passwords_accounted (now : MaxSession.Time) (s : State) (h : Run step Always (started now) s) :
    s.handed.length = s.login.passwordAttempts ∧ s.handed.length ≤ passwordMaxAttempts ∧
      s.handed.Sublist s.accepted ∧ (s.accepted.map Submitted.call).Nodup ∧
      s.accepted.Perm (s.handed ++ s.lost ++ s.carried) ∧ (s.lost ≠ [] → s.Over) ∧
      ∀ t ∈ s.prompts, ∀ first, s.firstPrompt = some first → t < first + passwordTimeout := by
  have hok := Ok.run h
  refine ⟨hok.count, ?_, ?_, hok.calls.1, hok.fate, hok.lost, hok.prompts⟩
  · rw [hok.count]
    exact hok.most
  · exact (List.sublist_append_left _ _).trans hok.order

/-- Two passwords; the second one is right. -/
def twoTries : List Action :=
  [.askPassword (some "pet"), .post none (some "cat"), .tick 20, .resume, .askPassword (some "pet"), .wake 0,
   .post none (some "dog"), .resume, .authorize, .wake 1]

theorem twoTries_goes : (exec step (started 0) twoTries).isSome = true := by decide +kernel

theorem passwords_accounted_twoTries :
    let s := (exec step (started 0) twoTries).get twoTries_goes
    s.handed.length = 2 ∧ s.handed.Sublist s.accepted ∧ s.lost = [] := by
  obtain ⟨hcount, -, horder, -⟩ := passwords_accounted 0 _ (Run.get_exec twoTries_goes)
  refine ⟨hcount.trans ?_, horder, ?_⟩
  · decide +kernel
  · decide +kernel

end MyPerson.MaxLogin
