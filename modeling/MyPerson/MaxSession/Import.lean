import MyPerson.MaxSession.Outcomes

/-!
# `MaxSession.Import` — `import_session`: all or nothing?

`POST /auth/session` logs in with a foreign session text and is meant to keep it only when that
worked. The call is the supervisor machine with the call's own code around it: parse, stop the old
supervisor, spawn a one-shot login on a `SeededStore`, wait up to 30 s for `authorized`, and
otherwise stop it and start whatever is stored.

The session is saved by `promote`, right after `connect()`, while the identity check and the hooks
still follow: a call that fails or runs out of time after that point has already overwritten the row.

## Contents
- `State.writes`: the steps of a login that write `account_sessions`;
- `importSession`, the call against what happens during its waits;
- `Authorized`: which sequences of actions leave the account authorized;
- `overwrites`: which sequences of actions change the row;
- `import_all_or_nothing_iff`, and the failing call `import_all_or_nothing_fails`.
-/

namespace MyPerson.MaxSession

open Lib

variable {cfg : Config} {s s' : State} {t : Supervisor}

/-! ## Writes to `account_sessions` -/

/-- A call on a `PgSessionStore` writes the row. -/
def StoreCall.writes (t : Transport) (stored : Option Raw) : StoreCall → Bool
  | .save _ => true
  | .updateToken old _ => (pgLoadSession t stored).any fun info => info.token = old
  | .delete token => (pgLoadSession t stored).any fun info => info.token = token

/-- MAX says that the token is revoked. -/
def Raised.revoked (e : Raised) : Bool :=
  match e.cls with
  | .api error message => isUnauthorized error message
  | _ => false

/-- The step writes the account's row of `account_sessions`. -/
def State.writes (s : State) (a : Act) : Bool :=
  match s.task, a with
  | some t, .promote =>
      match t.store with
      | .seeded session _ => session.isSome
      | .pg _ => false
  | some t, .storeCall call =>
      match t.store.target? with
      | some target => call.writes target s.stored
      | none => false
  | some t, .raises e => e.revoked && !t.seeded && s.stored.isSome
  | _, _ => false

/-- One of the actions, taken in turn from `s`, writes the row. -/
def writesRow (cfg : Config) : State → List Act → Bool
  | _, [] => false
  | s, a :: as =>
      s.writes a ||
        match step cfg s a with
        | some s' => writesRow cfg s' as
        | none => false

theorem onPg_of_not_writes {call : StoreCall} {t : Transport} {stored : Option Raw}
    (h : call.writes t stored = false) : call.onPg t stored = stored := by
  cases call with
  | save info => cases h
  | updateToken old new =>
      simp only [StoreCall.onPg, pgUpdateToken]
      cases hload : pgLoadSession t stored with
      | none => rfl
      | some info =>
          have hne : info.token ≠ old := by simpa [StoreCall.writes, hload] using h
          simp [hne]
  | delete token =>
      simp only [StoreCall.onPg, pgDeleteSession]
      cases hload : pgLoadSession t stored with
      | none => rfl
      | some info =>
          have hne : info.token ≠ token := by simpa [StoreCall.writes, hload] using h
          simp [hne]

theorem handle_stored (s : State) (t : Supervisor) (e : Raised) :
    (s.handle t e).stored = if e.revoked && !t.seeded then none else s.stored := by
  obtain ⟨cls, text, name⟩ := e
  cases cls with
  | api error message =>
      by_cases hu : isUnauthorized error message
      · cases hseed : t.seeded <;> simp [State.handle, Raised.revoked, hu, hseed, deactivateSession]
      · by_cases hb : isBanned error message <;> simp [State.handle, Raised.revoked, hu, hb]
  | _ => rfl

theorem stop_stored (s : State) : s.stop.stored = s.stored := by
  unfold State.stop
  split <;> rfl

theorem start_stored (s : State) : s.start.stored = s.stored := by
  unfold State.start
  split
  · rfl
  · split <;> rfl

/-- **Step.** What does not write the row leaves it as it is. -/
theorem stored_of_not_writes {a : Act} (ha : a.isCommand = false) (hquiet : s.writes a = false)
    (h : step cfg s a = some s') : s'.stored = s.stored := by
  cases step_cases h with
  | supervised t ht hsup =>
      cases hsup with
      | run hp =>
          unfold State.run
          split <;> rfl
      | connect hp => rfl
      | connected isConnected userId hp =>
          unfold State.connected
          split
          · exact handle_stored ..
          · split <;> rfl
      | promote userId session target hp hs =>
          have hnone : session = none := by simpa [State.writes, ht, hs] using hquiet
          subst hnone
          rfl
      | identify userId hp =>
          unfold State.identify
          split
          · exact handle_stored ..
          · rfl
      | hooksDone hp => rfl
      | closed hp => exact handle_stored ..
      | raises e hp =>
          rw [handle_stored]
          split
          · rename_i hrevoked
            simp only [State.writes, ht, hrevoked, Bool.true_and] at hquiet
            exact (Option.not_isSome_iff_eq_none.mp (by simp [hquiet])).symm
          · rfl
      | clientClosed next hp =>
          cases next with
          | done => rfl
          | failed e => by_cases hone : t.oneShot <;> simp [State.afterClose, hone]
      | wake wakeAt hp hle => rfl
      | loginStep step login hp hi hl => rfl
      | storeCall call hp =>
          obtain ⟨transport, store⟩ := t
          simp only [State.writes, ht] at hquiet
          cases store with
          | pg transport => exact onPg_of_not_writes hquiet
          | seeded session target =>
              cases target with
              | none => rfl
              | some transport => exact onPg_of_not_writes hquiet
  | tick d => rfl
  | frame conn h1 hn =>
      unfold State.frame
      split <;> rfl
  | liveMessage conn chat hlog =>
      unfold State.liveMessage
      split <;> rfl
  | markCaughtUp chat => rfl
  | start => cases ha
  | startLogin method => cases ha
  | importSession raw t info hparse => cases ha
  | badSession raw e hparse => cases ha
  | stop => cases ha
  | logout => cases ha

/-! ## The call -/

/-- `REST_WAIT_S`. -/
def restWait : Time := seconds 30

inductive ImportResult
  | authorized (userId : Option Nat)
  | error (detail : String)
deriving DecidableEq, Repr

def ImportResult.isError : ImportResult → Bool
  | .authorized _ => false
  | .error _ => true

/-- What happens while no command is given. -/
def unattended (cfg : Config) : State → List Act → Option State :=
  execOk (step cfg) fun _ a => !a.isCommand

/-- `import_session` from the moment `stop()` is done with the old supervisor: `during` happens
    while the call waits, `late` while it waits for background jobs in its second `stop()`. -/
def importSession (cfg : Config) (s : State) (raw : Raw) (during late : List Act) :
    Option (ImportResult × State) :=
  match parseSessionJson raw none with
  | .error e => some (.error ("Session is invalid: " ++ e.text), s)
  | .ok (t, info) =>
      (unattended cfg (s.importLogin t info) during).bind fun s₁ =>
        if s₁.ui = .authorized then some (.authorized s₁.userId, s₁)
        -- the wait goes on
        else if s₁.running && s₁.now < s.now + restWait then none
        else (unattended cfg s₁ late).map fun s₂ =>
          (.error "Session is invalid or expired", s₂.stop.start)

/-- An import that returns an error has left the stored session as it was, and none of the login's
    steps wrote the row. -/
def AllOrNothing (cfg : Config) (s : State) (raw : Raw) (during late : List Act) (result : ImportResult)
    (s' : State) : Prop :=
  result.isError = true → s'.stored = s.stored ∧ ∀ t info, parseSessionJson raw none = .ok (t, info) →
    writesRow cfg (s.importLogin t info) (during ++ late) = false

/-! ## Which logins end authorized -/

/-- What an action says about being authorized: the end of `_on_authorized`, the end of a client. -/
def Act.announces : Act → Option Bool
  | .hooksDone => some true
  | .clientClosed => some false
  | .raises e => if e.cls.final then some false else none
  | _ => none

/-- The last of the actions that say anything is the end of `_on_authorized`. -/
def Authorized (acts : List Act) : Prop :=
  acts.foldl (fun authorized a => a.announces.getD authorized) false = true

instance (acts : List Act) : Decidable (Authorized acts) :=
  inferInstanceAs (Decidable (_ = _))

theorem handle_ui_final {e : Raised} (h : e.cls.final = true) :
    (s.handle t e).ui ≠ .authorized := by
  obtain ⟨cls, text, name⟩ := e
  cases cls with
  | api error message =>
      by_cases hu : isUnauthorized error message
      · simp [State.handle, hu]
      · have hb : isBanned error message = true := by simpa [ExcClass.final, hu] using h
        simp [State.handle, hu, hb]
  | network => cases h
  | other => cases h
  | _ => simp [State.handle]

theorem handle_ui_other {e : Raised} (h : e.cls.final = false) : (s.handle t e).ui = s.ui := by
  obtain ⟨cls, text, name⟩ := e
  cases cls with
  | api error message =>
      obtain ⟨hu, hb⟩ : isUnauthorized error message = false ∧ isBanned error message = false := by
        simpa [ExcClass.final] using h
      simp [State.handle, hu, hb]
  | network => rfl
  | other => rfl
  | _ => cases h

/-- The UI says `authorized` exactly as the actions announce it, and then the connection is open or
    its client is being closed after a failure. -/
structure Announced (authorized : Bool) (s : State) : Prop where
  ui : s.ui = .authorized ↔ authorized = true
  point : authorized = true →
    ∃ t, s.task = some t ∧ (t.point = .listening ∨ ∃ e, t.point = .closing (.failed e))

theorem announced_false (h : s.ui ≠ .authorized) : Announced false s :=
  ⟨by simp [h], fun hf => by cases hf⟩

theorem Announced.off {authorized : Bool} (h : Announced authorized s) (ht : s.task = some t)
    (hlisten : t.point ≠ .listening) (hclosing : ∀ e, t.point ≠ .closing (.failed e)) :
    authorized = false := by
  by_contra hne
  obtain ⟨t', ht', hp⟩ := h.point (by simpa using hne)
  rw [ht] at ht'
  cases ht'
  rcases hp with hp | ⟨e, hp⟩
  · exact hlisten hp
  · exact hclosing e hp

/-- A failure that is not final leaves the UI state to what follows the closing. -/
theorem Announced.handle {authorized : Bool} {e : Raised} (h : Announced authorized s)
    (hother : e.cls.final = false) : Announced authorized (s.handle t e) := by
  refine ⟨by rw [handle_ui_other hother]; exact h.ui, fun _ => ?_⟩
  have htask := handle_task s t e
  simp only [hother] at htask
  exact ⟨_, htask, Or.inr ⟨e, rfl⟩⟩

theorem announced_supervised {a : Act} {authorized : Bool} (h : Announced authorized s)
    (ht : s.task = some t) (hsup : Supervised cfg s t a s') :
    Announced (a.announces.getD authorized) s' := by
  cases hsup with
  | run hp =>
      have hoff := h.off ht (by simp [hp]) (by simp [hp])
      subst hoff
      apply announced_false
      unfold State.run State.beginAttempt
      split
      · simp only [goto_ui, setState_ui]
        split <;> simp
      · simp
  | connect hp =>
      have hoff := h.off ht (by simp [hp]) (by simp [hp])
      subst hoff
      exact announced_false (by simpa [State.connect] using h.ui)
  | connected isConnected userId hp =>
      have hoff := h.off ht (by simp [hp]) (by simp [hp])
      subst hoff
      unfold State.connected
      split
      · exact h.handle rfl
      · apply announced_false
        split <;> simpa [State.goLive] using h.ui
  | promote userId session target hp hs =>
      have hoff := h.off ht (by simp [hp]) (by simp [hp])
      subst hoff
      exact announced_false (by simpa [State.promote, State.goLive] using h.ui)
  | identify userId hp =>
      have hoff := h.off ht (by simp [hp]) (by simp [hp])
      subst hoff
      apply announced_false
      unfold State.identify
      split
      · exact handle_ui_final rfl
      · simpa using h.ui
  | hooksDone hp => exact ⟨by simp [State.authorized, Act.announces], fun _ => ⟨_, rfl, Or.inl rfl⟩⟩
  | closed hp => exact h.handle rfl
  | raises e hp =>
      by_cases hfinal : e.cls.final
      · simp only [Act.announces, hfinal]
        exact announced_false (handle_ui_final hfinal)
      · simp only [Act.announces, hfinal]
        exact h.handle (by simpa using hfinal)
  | clientClosed next hp =>
      apply announced_false
      cases next with
      | done =>
          have hoff := h.off ht (by simp [hp]) (by simp [hp])
          subst hoff
          simpa [State.afterClose] using h.ui
      | failed e =>
          by_cases hone : t.oneShot
          · simp [State.afterClose, hone]
          · rw [State.afterClose, if_neg hone, goto_ui, setState_ui]
            split <;> simp
  | wake wakeAt hp hle =>
      have hoff := h.off ht (by simp [hp]) (by simp [hp])
      subst hoff
      apply announced_false
      simp only [State.beginAttempt, goto_ui, setState_ui]
      split <;> simp
  | loginStep step login hp hi hl =>
      have hoff := h.off ht (by simp [hp]) (by simp [hp])
      subst hoff
      apply announced_false
      cases step <;> simp [LoginStep.ui]
  | storeCall call hp =>
      refine ⟨h.ui, fun hauth => ?_⟩
      obtain ⟨t', ht', hpoint⟩ := h.point hauth
      rw [ht] at ht'
      cases ht'
      exact ⟨_, rfl, hpoint⟩

/-- **Step.** -/
theorem announced_step {a : Act} {authorized : Bool} (h : Announced authorized s)
    (ha : a.isCommand = false) (hstep : step cfg s a = some s') :
    Announced (a.announces.getD authorized) s' := by
  cases step_cases hstep with
  | supervised t ht hsup => exact announced_supervised h ht hsup
  | tick d => exact ⟨h.ui, h.point⟩
  | frame conn h1 hn =>
      unfold State.frame
      split <;> exact ⟨h.ui, h.point⟩
  | liveMessage conn chat hlog =>
      unfold State.liveMessage
      split <;> exact ⟨h.ui, h.point⟩
  | markCaughtUp chat => exact ⟨h.ui, h.point⟩
  | start => cases ha
  | startLogin method => cases ha
  | importSession raw t info hparse => cases ha
  | badSession raw e hparse => cases ha
  | stop => cases ha
  | logout => cases ha

theorem importLogin_ui (s : State) (t : Transport) (info : SessionInfo) :
    (s.importLogin t info).ui ≠ .authorized := by
  show s.stop.ui ≠ .authorized
  unfold State.stop
  split
  · rename_i h
    rcases h with h | h <;> simp [h]
  · simp

/-- **Run.** The account is authorized when the wait ends exactly if the actions say so. -/
theorem authorized_iff {t : Transport} {info : SessionInfo} {during : List Act}
    (h : unattended cfg (s.importLogin t info) during = some s') :
    s'.ui = .authorized ↔ Authorized during := by
  have hkeep : ∀ b x a y, Announced b x → (!a.isCommand) = true → step cfg x a = some y →
      Announced (a.announces.getD b) y := fun b x a y hx ha hxy =>
    announced_step hx (by simpa using ha) hxy
  have hfold := execOk_foldl hkeep h (announced_false (importLogin_ui s t info))
  exact hfold.ui

/-- **Run.** Actions of which none writes the row leave it as it is. -/
theorem stored_of_not_writesRow {acts : List Act} :
    ∀ {s s' : State}, unattended cfg s acts = some s' → writesRow cfg s acts = false →
      s'.stored = s.stored := by
  induction acts with
  | nil =>
      intro s s' h _
      cases h
      rfl
  | cons a acts ih =>
      intro s s' h hquiet
      obtain ⟨ha, h⟩ := Option.ite_none_right_eq_some.mp h
      obtain ⟨s₁, hs₁, h⟩ := Option.bind_eq_some_iff.mp h
      obtain ⟨hfirst, hrest⟩ : s.writes a = false ∧ writesRow cfg s₁ acts = false := by
        simpa [writesRow, hs₁] using hquiet
      exact (ih h hrest).trans (stored_of_not_writes (by simpa using ha) hfirst hs₁)

/-! ## Before and after the promotion -/

/-- The session in memory after an event. -/
def Act.remembers (session : Option SessionInfo) : Act → Option SessionInfo
  | .storeCall call => call.onSeeded session
  | _ => session

/-- After the promotion the event changes a row that is `stored`. -/
def Act.overwrites (t : Transport) (stored : Option Raw) : Act → Bool
  | .storeCall call => call.writes t stored
  | .raises e => e.revoked && stored.isSome
  | _ => false

/-- The events of a login overwrite the row: it comes to the promotion with a session in memory, or without one,
    and then an event changes the row. -/
def overwrites (t : Transport) (stored : Option Raw) : Option SessionInfo → List Act → Bool
  | _, [] => false
  | session, .promote :: acts => session.isSome || acts.any (Act.overwrites t stored)
  | session, a :: acts => overwrites t stored (a.remembers session) acts

theorem overwrites_cons {t : Transport} {stored : Option Raw} {session : Option SessionInfo} {a : Act}
    {acts : List Act} (h : a ≠ .promote) :
    overwrites t stored session (a :: acts) = overwrites t stored (a.remembers session) acts := by
  cases a with
  | promote => exact (h rfl).elim
  | _ => rfl

/-- The login's store holds the session in memory and has nothing behind it. -/
def Seeded (session : Option SessionInfo) (transport : Transport) (s : State) : Prop :=
  ∀ t, s.task = some t → t.seeded = true ∧ t.store = .seeded session none ∧ t.transport = transport

/-- The login's store writes through. -/
def Promoted (transport : Transport) (s : State) : Prop :=
  ∀ t, s.task = some t → t.seeded = false ∧ t.store.target? = some transport ∧ t.transport = transport ∧
    ∀ userId, t.point ≠ .promoting userId

variable {session : Option SessionInfo} {transport : Transport}

theorem seeded_supervised {a : Act} (h : Seeded session transport s) (ht : s.task = some t) (ha : a ≠ .promote)
    (hsup : Supervised cfg s t a s') : Seeded (a.remembers session) transport s' := by
  have hstore := h t ht
  cases hsup with
  | run hp =>
      unfold State.run
      split
      · exact task_of_some rfl hstore
      · exact task_of_none rfl
  | connect hp =>
      refine task_of_some rfl ⟨hstore.1, ?_, hstore.2.2⟩
      simp only [hstore.1, if_true]
      exact hstore.2.1
  | connected isConnected userId hp =>
      unfold State.connected
      split
      · exact task_of_some (handle_task ..) hstore
      · rw [if_pos hstore.1]
        exact task_of_some rfl hstore
  | promote userId session target hp hs => exact (ha rfl).elim
  | identify userId hp =>
      unfold State.identify
      split
      · exact task_of_some (handle_task ..) hstore
      · exact task_of_some rfl hstore
  | hooksDone hp => exact task_of_some rfl hstore
  | closed hp => exact task_of_some (handle_task ..) hstore
  | raises e hp => exact task_of_some (handle_task ..) hstore
  | clientClosed next hp =>
      cases next with
      | done => exact task_of_none rfl
      | failed e =>
          by_cases hone : t.oneShot
          · rw [State.afterClose, if_pos hone]
            exact task_of_none rfl
          · rw [State.afterClose, if_neg hone]
            exact task_of_some rfl hstore
  | wake wakeAt hp hle => exact task_of_some rfl hstore
  | loginStep step login hp hi hl => exact task_of_some ht hstore
  | storeCall call hp =>
      refine task_of_some rfl ⟨hstore.1, ?_, hstore.2.2⟩
      rw [hstore.2.1]
      rfl

/-- **Step.** Before the promotion nothing is written. -/
theorem seeded_step {a : Act} (h : Seeded session transport s) (hpromote : a ≠ .promote) (ha : a.isCommand = false)
    (hstep : step cfg s a = some s') : Seeded (a.remembers session) transport s' ∧ s.writes a = false := by
  have hquiet : s.writes a = false := by
    unfold State.writes
    split
    · exact (hpromote rfl).elim
    · rename_i t call ht
      rw [(h t ht).2.1]
      rfl
    · rename_i t e ht
      simp [(h t ht).1]
    · rfl
  refine ⟨?_, hquiet⟩
  cases step_cases hstep with
  | supervised t ht hsup => exact seeded_supervised h ht hpromote hsup
  | tick d => exact h
  | frame conn h1 hn =>
      unfold State.frame
      split <;> exact h
  | liveMessage conn chat hlog =>
      unfold State.liveMessage
      split <;> exact h
  | markCaughtUp chat => exact h
  | start => cases ha
  | startLogin method => cases ha
  | importSession raw t info hparse => cases ha
  | badSession raw e hparse => cases ha
  | stop => cases ha
  | logout => cases ha

/-- **The promotion** writes what the store holds in memory. -/
theorem promoted_of_seeded (h : Seeded session transport s) (hstep : step cfg s .promote = some s') :
    Promoted transport s' ∧ s.writes .promote = session.isSome := by
  cases step_cases hstep with
  | supervised t ht hsup =>
      obtain ⟨-, hstore, htransport⟩ := h t ht
      cases hsup with
      | promote userId session' target hp hs =>
          obtain ⟨rfl, rfl⟩ := Store.seeded.inj (hstore.symm.trans hs)
          refine ⟨task_of_some rfl ⟨rfl, congrArg some htransport, htransport, fun _ => Point.noConfusion⟩, ?_⟩
          simp [State.writes, ht, hs]

theorem promoted_supervised {a : Act} (h : Promoted transport s) (ht : s.task = some t)
    (hsup : Supervised cfg s t a s') : Promoted transport s' := by
  obtain ⟨hseeded, htarget, htransport, hpoint⟩ := h t ht
  cases hsup with
  | run hp =>
      unfold State.run
      split
      · exact task_of_some rfl ⟨hseeded, htarget, htransport, fun _ => Point.noConfusion⟩
      · exact task_of_none rfl
  | connect hp =>
      refine task_of_some rfl ⟨hseeded, ?_, htransport, fun _ => Point.noConfusion⟩
      simp only [hseeded, Bool.false_eq_true, if_false]
      exact congrArg some htransport
  | connected isConnected userId hp =>
      unfold State.connected
      split
      · exact task_of_some (handle_task ..) ⟨hseeded, htarget, htransport, fun _ => Point.noConfusion⟩
      · rw [if_neg (by rw [hseeded]; exact Bool.false_ne_true)]
        exact task_of_some rfl ⟨hseeded, htarget, htransport, fun _ => Point.noConfusion⟩
  | promote userId session target hp hs => exact absurd hp (hpoint userId)
  | identify userId hp =>
      unfold State.identify
      split
      · exact task_of_some (handle_task ..) ⟨hseeded, htarget, htransport, fun _ => Point.noConfusion⟩
      · exact task_of_some rfl ⟨hseeded, htarget, htransport, fun _ => Point.noConfusion⟩
  | hooksDone hp => exact task_of_some rfl ⟨hseeded, htarget, htransport, fun _ => Point.noConfusion⟩
  | closed hp => exact task_of_some (handle_task ..) ⟨hseeded, htarget, htransport, fun _ => Point.noConfusion⟩
  | raises e hp => exact task_of_some (handle_task ..) ⟨hseeded, htarget, htransport, fun _ => Point.noConfusion⟩
  | clientClosed next hp =>
      cases next with
      | done => exact task_of_none rfl
      | failed e =>
          by_cases hone : t.oneShot
          · rw [State.afterClose, if_pos hone]
            exact task_of_none rfl
          · rw [State.afterClose, if_neg hone]
            exact task_of_some rfl ⟨hseeded, htarget, htransport, fun _ => Point.noConfusion⟩
  | wake wakeAt hp hle => exact task_of_some rfl ⟨hseeded, htarget, htransport, fun _ => Point.noConfusion⟩
  | loginStep step login hp hi hl => exact task_of_some ht ⟨hseeded, htarget, htransport, hpoint⟩
  | storeCall call hp =>
      exact task_of_some rfl ⟨hseeded, (Store.call_target? ..).trans htarget, htransport, hpoint⟩

/-- **Step.** After the promotion the row is written when the event overwrites it. -/
theorem promoted_step {a : Act} (h : Promoted transport s) (ha : a.isCommand = false)
    (hstep : step cfg s a = some s') : Promoted transport s' ∧ s.writes a = a.overwrites transport s.stored := by
  cases step_cases hstep with
  | supervised t ht hsup =>
      refine ⟨promoted_supervised h ht hsup, ?_⟩
      obtain ⟨hseeded, htarget, -, hpoint⟩ := h t ht
      cases hsup with
      | promote userId session target hp hs => exact absurd hp (hpoint userId)
      | storeCall call hp => simp [State.writes, ht, htarget, Act.overwrites]
      | raises e hp => simp [State.writes, ht, hseeded, Act.overwrites]
      | _ => simp [State.writes, ht, Act.overwrites]
  | tick d => exact ⟨h, by simp [State.writes, Act.overwrites]⟩
  | frame conn h1 hn =>
      refine ⟨?_, by simp [State.writes, Act.overwrites]⟩
      unfold State.frame
      split <;> exact h
  | liveMessage conn chat hlog =>
      refine ⟨?_, by simp [State.writes, Act.overwrites]⟩
      unfold State.liveMessage
      split <;> exact h
  | markCaughtUp chat => exact ⟨h, by simp [State.writes, Act.overwrites]⟩
  | start => cases ha
  | startLogin method => cases ha
  | importSession raw t info hparse => cases ha
  | badSession raw e hparse => cases ha
  | stop => cases ha
  | logout => cases ha

theorem eq_promote_or (a : Act) : a = .promote ∨ a ≠ .promote := by
  cases a with
  | promote => exact .inl rfl
  | _ => exact .inr nofun

/-- **Run.** After the promotion: the first event that overwrites the row finds it as it was. -/
theorem writesRow_promoted {acts : List Act} : ∀ {s s' : State}, Promoted transport s →
    unattended cfg s acts = some s' →
      writesRow cfg s acts = acts.any (Act.overwrites transport s.stored) := by
  induction acts with
  | nil =>
      intro s s' _ _
      rfl
  | cons a acts ih =>
      intro s s' hs h
      obtain ⟨ha, h⟩ := Option.ite_none_right_eq_some.mp h
      obtain ⟨s₁, hs₁, h⟩ := Option.bind_eq_some_iff.mp h
      have hcommand : a.isCommand = false := by simpa using ha
      obtain ⟨hs₁', hwrites⟩ := promoted_step hs hcommand hs₁
      rw [List.any_cons, ← hwrites]
      cases hfirst : s.writes a with
      | true => simp [writesRow, hfirst]
      | false =>
          have hstored : s₁.stored = s.stored := stored_of_not_writes hcommand hfirst hs₁
          rw [← hstored, ← ih hs₁' h]
          simp [writesRow, hfirst, hs₁]

/-- **Run.** A login writes the row exactly when its events overwrite it. -/
theorem writesRow_eq {acts : List Act} : ∀ {session : Option SessionInfo} {s s' : State},
    Seeded session transport s → unattended cfg s acts = some s' →
      writesRow cfg s acts = overwrites transport s.stored session acts := by
  induction acts with
  | nil =>
      intro session s s' _ _
      rfl
  | cons a acts ih =>
      intro session s s' hs h
      obtain ⟨ha, h⟩ := Option.ite_none_right_eq_some.mp h
      obtain ⟨s₁, hs₁, hrest⟩ := Option.bind_eq_some_iff.mp h
      have hcommand : a.isCommand = false := by simpa using ha
      rcases eq_promote_or a with rfl | hpromote
      · obtain ⟨hs₁', hwrites⟩ := promoted_of_seeded hs hs₁
        rw [overwrites, ← hwrites]
        cases hfirst : s.writes .promote with
        | true => simp [writesRow, hfirst]
        | false =>
            -- there was no session to save: the row is as it was
            have hstored : s₁.stored = s.stored := stored_of_not_writes hcommand hfirst hs₁
            rw [← hstored, ← writesRow_promoted hs₁' hrest]
            simp [writesRow, hfirst, hs₁]
      · obtain ⟨hs₁', hquiet⟩ := seeded_step hs hpromote hcommand hs₁
        have hstored : s₁.stored = s.stored := stored_of_not_writes hcommand hquiet hs₁
        rw [overwrites_cons hpromote, ← hstored, ← ih hs₁' hrest]
        simp [writesRow, hquiet, hs₁]

theorem seeded_importLogin (s : State) (t : Transport) (info : SessionInfo) :
    Seeded (some info) t (s.importLogin t info) := task_of_some rfl ⟨rfl, rfl, rfl⟩

/-! ## The main result -/

/-- **When an import is all or nothing.** For every state, session text and course of events the call
    keeps the promise if and only if the text cannot be read, or the login had authorized the account
    when the wait ended and its connection had not ended since, or its events (before the second
    `stop()` is through) do not overwrite the row: it does not come to the promotion. -/
theorem import_all_or_nothing_iff (cfg : Config) (s s' : State) (raw : Raw) (during late : List Act)
    (result : ImportResult) (h : importSession cfg s raw during late = some (result, s')) :
    AllOrNothing cfg s raw during late result s' ↔
      ∀ t info, parseSessionJson raw none = .ok (t, info) →
        Authorized during ∨ overwrites t s.stored (some info) (during ++ late) = false := by
  obtain ⟨parsed, hparse⟩ : ∃ parsed, parseSessionJson raw none = parsed := ⟨_, rfl⟩
  unfold importSession at h
  cases parsed with
  | error e =>
      rw [hparse] at h
      cases h
      have hno : ∀ t info, parseSessionJson raw none ≠ .ok (t, info) := by simp [hparse]
      exact ⟨fun _ t info hok => (hno t info hok).elim,
        fun _ _ => ⟨rfl, fun t info hok => (hno t info hok).elim⟩⟩
  | ok p =>
      obtain ⟨t, info⟩ := p
      simp only [hparse] at h
      obtain ⟨s₁, hs₁, h⟩ := Option.bind_eq_some_iff.mp h
      have hauth := authorized_iff hs₁
      split at h
      · rename_i hui
        cases h
        exact ⟨fun _ _ _ _ => Or.inl (hauth.mp hui), fun _ herr => by cases herr⟩
      · rename_i hui
        split at h
        · cases h
        · obtain ⟨s₂, hs₂, hres⟩ := Option.map_eq_some_iff.mp h
          cases hres
          have hrun : unattended cfg (s.importLogin t info) (during ++ late) = some s₂ := by
            unfold unattended at hs₁ hs₂ ⊢
            rw [execOk_append, hs₁]
            exact hs₂
          have hwrites := writesRow_eq (seeded_importLogin s t info) hrun
          rw [show (s.importLogin t info).stored = s.stored from stop_stored s] at hwrites
          constructor
          · intro hkeeps t' info' hok
            rw [hparse] at hok
            cases hok
            right
            rw [← hwrites]
            exact (hkeeps rfl).2 t info hparse
          · intro hcond _
            have hquiet : writesRow cfg (s.importLogin t info) (during ++ late) = false :=
              hwrites.trans ((hcond t info hparse).resolve_left fun hd => hui (hauth.mpr hd))
            refine ⟨?_, fun t' info' hok => ?_⟩
            · calc s₂.stop.start.stored
                  = s₂.stored := (start_stored _).trans (stop_stored _)
                _ = (s.importLogin t info).stored := stored_of_not_writesRow hrun hquiet
                _ = s.stored := stop_stored s
            · rw [hparse] at hok
              cases hok
              exact hquiet

def foreignSession : SessionInfo := ⟨"foreign", "device", none, ""⟩

/-- MAX accepts the token, but the profile is not the account's. -/
def foreignLogin : List Act :=
  [.run, .connect, .connected true (some 8), .promote, .identify, .clientClosed]

/-- A session of another user is imported: the call returns an error, and the foreign session has
    replaced the stored one. -/
theorem import_all_or_nothing_fails :
    ∃ result s', importSession (plainConfig true) (resting ownSession (some 7))
        (sessionToJson foreignSession .web) foreignLogin [] = some (result, s') ∧
      ¬AllOrNothing (plainConfig true) (resting ownSession (some 7)) (sessionToJson foreignSession .web)
        foreignLogin [] result s' ∧
      s'.stored = some (sessionToJson foreignSession .web) := by
  refine ⟨_, _, rfl, fun h => ?_, rfl⟩
  have hquiet := (h rfl).2 .web foreignSession (by decide)
  revert hquiet
  decide

/-- The token of the imported session is revoked: an error, and nothing was written. -/
def revokedLogin : List Act :=
  [.run, .connect, .raises ⟨.api (some "FAIL_LOGIN_TOKEN") none, "revoked", "ApiError"⟩, .clientClosed]

theorem import_all_or_nothing_revoked :
    ∃ result s', AllOrNothing (plainConfig true) (resting ownSession (some 7))
      (sessionToJson foreignSession .web) revokedLogin [] result s' := by
  refine ⟨_, _, (import_all_or_nothing_iff (plainConfig true) (resting ownSession (some 7)) _
    (sessionToJson foreignSession .web) revokedLogin [] _ rfl).mpr fun t info hok => Or.inr ?_⟩
  cases hok
  decide

end MyPerson.MaxSession
