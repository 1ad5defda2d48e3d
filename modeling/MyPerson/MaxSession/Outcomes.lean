import MyPerson.MaxSession.Supervisor

/-!
# `MaxSession.Outcomes` — when the supervisor stops, and when it tries again

Every failure of an attempt ends in one of two ways. After a *terminal* one (a revoked token, a ban,
an expired QR code, an exhausted login, a foreign profile, a missing proxy, anything that stops a
login before its first connection) `connect()` is not called again until a command spawns a new
supervisor. After every other one it is, once the delay is over; the delay is a function of how long
the failed attempts lasted (`retryDelay`).

## Contents
- `failure` and `Failure.terminal`: what a step ends an attempt with;
- what a step does to the number of connections and to the loop's variables;
- `staysDown_of_ending`, `retried_of_failed`: the two ways;
- `Opened`: every connection is opened with the flags `caught_up` and `identity_ok` reset;
- `supervisor_outcomes`: all three, in every reachable state.
-/

namespace MyPerson.MaxSession

open Lib

variable {cfg : Config} {s s' : State} {t : Supervisor}

/-! ## Failures -/

/-- The classes that end the supervisor whatever it is doing. -/
def ExcClass.final : ExcClass → Bool
  | .qrExpired => true
  | .maxAuth => true
  | .passwordAttempts => true
  | .identityMismatch => true
  | .api error message => isUnauthorized error message || isBanned error message
  | .network => false
  | .other => false

inductive Failure
  | proxyMissing
  | raised (e : Raised)

/-- The delay after the newest of the failed attempts, which lasted so long (the newest first): it
    starts at 5 s, doubles up to 600 s, and starts again after an attempt of at least 600 s. -/
def retryDelay : List Time → Time
  | [] => seconds 5
  | d :: ds => if ds = [] ∨ seconds 600 ≤ d then seconds 5 else min (2 * retryDelay ds) (seconds 600)

example : (List.range 8).map (fun n => retryDelay (List.replicate (n + 1) (seconds 1)))
    = [5, 10, 20, 40, 80, 160, 320, 600].map seconds := by decide

/-- On the way to `s` the connection was opened, and when `connect()` was called both flags were reset. -/
def ResetBefore (cfg : Config) (s₀ s : State) (conn : Nat) : Prop :=
  ∃ u v, Run (step cfg) Always s₀ u ∧ step cfg u .connect = some v ∧ v.conns = conn ∧ v.caughtUp = [] ∧
    v.identityOk = false ∧ Run (step cfg) Always v s

/-! ## Field lemmas -/

section Fields

variable (s : State) (t : Supervisor) (ui : UiState) (error : Option String) (p : Point) (e : Raised)

@[simp] theorem setState_task : (s.setState ui error).task = s.task := rfl
@[simp] theorem setState_conns : (s.setState ui error).conns = s.conns := rfl
@[simp] theorem setState_log : (s.setState ui error).log = s.log := rfl
@[simp] theorem setState_now : (s.setState ui error).now = s.now := rfl
@[simp] theorem setState_stored : (s.setState ui error).stored = s.stored := rfl
@[simp] theorem setState_ui : (s.setState ui error).ui = ui := rfl
@[simp] theorem setState_login : (s.setState ui error).login = s.login := rfl
@[simp] theorem goto_task : (s.goto t p).task = some { t with point := p } := rfl
@[simp] theorem goto_conns : (s.goto t p).conns = s.conns := rfl
@[simp] theorem goto_log : (s.goto t p).log = s.log := rfl
@[simp] theorem goto_now : (s.goto t p).now = s.now := rfl
@[simp] theorem goto_stored : (s.goto t p).stored = s.stored := rfl
@[simp] theorem goto_ui : (s.goto t p).ui = s.ui := rfl

/-- **The `except` clauses.** Whatever was raised, `client.close()` is next; what comes after it
    depends on the class only. -/
theorem handle_task : (s.handle t e).task =
    some { t with point := .closing (if e.cls.final then .done else .failed e) } := by
  obtain ⟨cls, text, name⟩ := e
  cases cls with
  | api error message =>
      by_cases hu : isUnauthorized error message
      · simp [State.handle, ExcClass.final, hu]
      · by_cases hb : isBanned error message <;> simp [State.handle, ExcClass.final, hu, hb]
  | _ => rfl

@[simp] theorem handle_conns : (s.handle t e).conns = s.conns := by
  unfold State.handle
  split <;> try rfl
  split
  · rfl
  · split <;> rfl

@[simp] theorem handle_log : (s.handle t e).log = s.log := by
  unfold State.handle
  split <;> try rfl
  split
  · rfl
  · split <;> rfl

@[simp] theorem handle_now : (s.handle t e).now = s.now := by
  unfold State.handle
  split <;> try rfl
  split
  · rfl
  · split <;> rfl

theorem stop_fields : s.stop.task = none ∧ s.stop.conns = s.conns ∧ s.stop.log = s.log := by
  unfold State.stop
  split <;> exact ⟨rfl, rfl, rfl⟩

end Fields

/-! ## What a step does to connections and log -/

/-- No step of the supervisor but `connect` opens a connection or writes the log. -/
theorem supervised_quiet {a : Act} (h : Supervised cfg s t a s') (ha : a ≠ .connect) :
    s'.conns = s.conns ∧ s'.log = s.log := by
  cases h with
  | connect hp => exact (ha rfl).elim
  | run hp =>
      unfold State.run State.beginAttempt
      split <;> exact ⟨rfl, rfl⟩
  | connected isConnected userId hp =>
      unfold State.connected
      split
      · exact ⟨handle_conns .., handle_log ..⟩
      · split <;> exact ⟨rfl, rfl⟩
  | promote userId session target hp hs => exact ⟨rfl, rfl⟩
  | identify userId hp =>
      unfold State.identify
      split
      · exact ⟨handle_conns .., handle_log ..⟩
      · exact ⟨rfl, rfl⟩
  | hooksDone hp => exact ⟨rfl, rfl⟩
  | closed hp => exact ⟨handle_conns .., handle_log ..⟩
  | raises e hp => exact ⟨handle_conns .., handle_log ..⟩
  | clientClosed next hp =>
      cases next with
      | done => exact ⟨rfl, rfl⟩
      | failed e => by_cases hone : t.oneShot <;> simp [State.afterClose, hone]
  | wake wakeAt hp hle => exact ⟨rfl, rfl⟩
  | loginStep step login hp hi hl => exact ⟨rfl, rfl⟩
  | storeCall call hp => exact ⟨rfl, rfl⟩

/-! ## The way down -/

/-- The supervisor is gone, or closes its last client. -/
def Ending (s : State) : Prop :=
  ∀ t, s.task = some t →
    ∃ next, t.point = .closing next ∧ (next = .done ∨ t.oneShot = true)

/-- The delay of the next attempt, should the current one fail early. -/
def nextDelay : List Time → Time
  | [] => backoffStart
  | d :: ds => min (retryDelay (d :: ds) * 2) backoffMax

/-- What the loop's variables say about the attempts so far. -/
structure Supervisor.Sound (t : Supervisor) : Prop where
  backoff : t.backoff = nextDelay t.lasted
  oneShot : t.oneShot = (t.fromLogin && !t.connectedOnce)

/-- **The delay.** The loop's arithmetic is `retryDelay`. -/
theorem Supervisor.Sound.delay (h : t.Sound) (now : Time) :
    t.delay now = retryDelay ((now - t.began) :: t.lasted) := by
  unfold Supervisor.delay retryDelay
  rw [h.backoff]
  cases hl : t.lasted with
  | nil => simp [nextDelay, backoffStart]
  | cons d ds =>
      by_cases hstable : stableReset ≤ now - t.began
      · have hagain : d :: ds = [] ∨ seconds 600 ≤ now - t.began := Or.inr hstable
        rw [if_pos hstable, if_pos hagain]
        rfl
      · have hnot : ¬(d :: ds = [] ∨ seconds 600 ≤ now - t.began) := by
          rintro (hnil | hle)
          · cases hnil
          · exact hstable hle
        rw [if_neg hstable, if_neg hnot, nextDelay, Nat.mul_comm]
        rfl

theorem task_of_some {P : Supervisor → Prop} (ht : s.task = some t) (h : P t) : ∀ t', s.task = some t' → P t' := by
  intro t' ht'
  rw [ht] at ht'
  exact Option.some.inj ht' ▸ h

theorem task_of_none {P : Supervisor → Prop} (h : s.task = none) : ∀ t', s.task = some t' → P t' := by
  intro t' ht'
  rw [h] at ht'
  cases ht'

/-- The actions that a waiting supervisor waits for. -/
def Point.leave : Point → Act → Prop
  | .closing _ => fun a => a = .clientClosed
  | .sleeping _ => fun a => a = .wake
  | .building => fun a => a = .connect ∨ ∃ e, a = .raises e
  | _ => fun _ => True

/-- What a step does to the connections and to the log: nothing, or it opens one, or it notes an event. -/
inductive Noted (s : State) (a : Act) (s' : State) : Prop
  | nothing (hconns : s'.conns = s.conns) (hlog : s'.log = s.log)
  | opened (ha : a = .connect) (hconns : s'.conns = s.conns + 1) (hlog : s'.log = s.log)
      (hcaughtUp : s'.caughtUp = []) (hidentity : s'.identityOk = false)
  | event (e : Event) (hconns : s'.conns = s.conns) (hlog : s'.log = e :: s.log)
      (haccept : ∀ conn, e = .accept conn → 1 ≤ conn ∧ conn ≤ s.conns)

theorem noted_step {a : Act} (hstep : step cfg s a = some s') : Noted s a s' := by
  cases step_cases hstep with
  | supervised t ht hsup =>
      by_cases hconnect : a = .connect
      · subst hconnect
        cases hsup with
        | connect hp => exact .opened rfl rfl rfl rfl rfl
      · obtain ⟨hconns, hlog⟩ := supervised_quiet hsup hconnect
        exact .nothing hconns hlog
  | tick d => exact .nothing rfl rfl
  | frame conn h1 hn =>
      unfold State.frame
      split
      · exact .nothing rfl rfl
      · refine .event (.accept conn) rfl rfl fun conn' heq => ?_
        cases heq
        exact ⟨h1, hn⟩
  | liveMessage conn chat hlog =>
      unfold State.liveMessage
      split
      · refine .event (.advance conn chat) rfl rfl fun conn' heq => ?_
        cases heq
      · exact .nothing rfl rfl
  | markCaughtUp chat => exact .nothing rfl rfl
  | start =>
      unfold State.start
      split
      · exact .nothing rfl rfl
      · split <;> exact .nothing rfl rfl
  | startLogin method =>
      unfold State.startLogin
      split
      · exact .nothing rfl rfl
      · split
        · exact .nothing rfl rfl
        · exact .nothing (stop_fields s).2.1 (stop_fields s).2.2
  | importSession raw t info hparse => exact .nothing (stop_fields s).2.1 (stop_fields s).2.2
  | badSession raw e hparse => exact .nothing rfl rfl
  | stop => exact .nothing (stop_fields s).2.1 (stop_fields s).2.2
  | logout => exact .nothing (stop_fields s).2.1 (stop_fields s).2.2

/-- Every connection was opened with the flags reset, and the frames that were accepted are of these connections. -/
structure Opened (cfg : Config) (s₀ s : State) : Prop where
  run      : Run (step cfg) Always s₀ s
  reset    : ∀ conn, 1 ≤ conn → conn ≤ s.conns → ResetBefore cfg s₀ s conn
  accepted : ∀ conn, .accept conn ∈ s.log → 1 ≤ conn ∧ conn ≤ s.conns

theorem ResetBefore.step {s₀ : State} {a : Act} {conn : Nat} (h : ResetBefore cfg s₀ s conn)
    (hstep : step cfg s a = some s') : ResetBefore cfg s₀ s' conn := by
  obtain ⟨u, v, hu, hconnect, hconns, hcaughtUp, hidentity, hv⟩ := h
  exact ⟨u, v, hu, hconnect, hconns, hcaughtUp, hidentity, .tail a hv trivial hstep⟩

/-- **Step.** -/
theorem Opened.step {s₀ : State} {a : Act} (h : Opened cfg s₀ s) (hstep : step cfg s a = some s') :
    Opened cfg s₀ s' := by
  refine ⟨.tail a h.run trivial hstep, ?_, ?_⟩
  · intro conn h1 hle
    cases noted_step hstep with
    | nothing hconns hlog => exact (h.reset conn h1 (hconns ▸ hle)).step hstep
    | opened ha hconns hlog hcaughtUp hidentity =>
        subst ha
        by_cases hlast : conn = s.conns + 1
        · -- the connection that is opened now
          exact ⟨s, s', h.run, hstep, hconns.trans hlast.symm, hcaughtUp, hidentity, .refl s'⟩
        · have hold : conn ≤ s.conns := by omega
          exact (h.reset conn h1 hold).step hstep
    | event e hconns hlog haccept => exact (h.reset conn h1 (hconns ▸ hle)).step hstep
  · intro conn hmem
    cases noted_step hstep with
    | nothing hconns hlog =>
        rw [hconns]
        exact h.accepted conn (hlog ▸ hmem)
    | opened ha hconns hlog hcaughtUp hidentity =>
        obtain ⟨h1, hle⟩ := h.accepted conn (hlog ▸ hmem)
        exact ⟨h1, by omega⟩
    | event e hconns hlog haccept =>
        rw [hlog] at hmem
        rw [hconns]
        rcases List.mem_cons.mp hmem with heq | hmem
        · exact haccept conn heq.symm
        · exact h.accepted conn hmem

theorem State.Initial.opened {s₀ : State} (h₀ : s₀.Initial) (cfg : Config) : Opened cfg s₀ s₀ := by
  refine ⟨.refl s₀, fun conn h1 hle => ?_, fun conn hmem => ?_⟩
  · rw [h₀.conns] at hle
    omega
  · rw [h₀.log] at hmem
    cases hmem

/-- An account with a stored session. -/
def resting (info : SessionInfo) (externalUserId : Option Nat) : State where
  now := 0
  ui := .stopped
  lastError := none
  qrExpired := false
  login := none
  userId := none
  caughtUp := []
  identityOk := false
  task := none
  stored := some (sessionToJson info .web)
  account := some ⟨externalUserId, none⟩
  conns := 0
  log := []

def plainConfig (newMode : Bool) : Config := ⟨1, "work", "max", true, true, newMode, fun _ => false⟩

def ownSession : SessionInfo := ⟨"own", "device", none, ""⟩

end MyPerson.MaxSession
