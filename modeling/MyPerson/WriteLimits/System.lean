import MyPerson.Lib.Run
import MyPerson.WriteLimits.Basic

/-!
# `WriteLimits.System` — concurrent reservations as a state machine

`reserve` and `reserve_bundle` cut at their statements: each phase of a task ends where the code
awaits the database. Between two phases of one task any other task may take its steps, except that a
section under the account's advisory lock keeps other sections of that account out. `Slot.release`
takes no lock: it may delete rows between two statements of a section.

A section that is refused or aborted rolls back, its purge included; the purge and the new rows
become visible together at the commit.
-/

namespace MyPerson.WriteLimits

/-- What the process is configured with: the storage mode and the accounts, their limits fixed. -/
structure Config where
  newMode  : Bool
  accounts : Nat → Option AccountRow

/-- A call of `reserve` or of `reserve_bundle`. -/
inductive Job
  | reserve (kind : Kind) (tool : String) (chatId : Option Int)
  | bundle (needs : Needs) (tool : String) (chatId : Option Int)

def bundleKinds : List Kind := [.action, .groupCreate, .groupInvite, .chatJoin, .contactImport]

/-- The assertions at the start of `reserve` and `reserve_bundle`. -/
def Job.allowed : Job → Bool
  | .reserve kind _ _ => kind == .send || kind == .action || kind == .lookup
  | .bundle needs _ _ => needs.entries.all fun p => bundleKinds.contains p.1

def Job.tool : Job → String
  | .reserve _ tool _ => tool
  | .bundle _ tool _ => tool

def Job.chatId : Job → Option Int
  | .reserve _ _ chatId => chatId
  | .bundle _ _ chatId => chatId

def Job.needs : Job → Needs
  | .reserve kind _ _ => Needs.one kind
  | .bundle needs _ _ => needs

/-- The chat of a send that is not yet known to have been written to. -/
def Job.sendChat : Job → Option Int
  | .reserve .send _ chatId => chatId
  | _ => none

/-- The limits a call runs under: lookups are limited where writes are not. `none`: no limits. -/
def Job.limits (job : Job) (eff : Effective) : Option Limits :=
  match eff.limits, job with
  | some limits, _ => some limits
  | none, .reserve .lookup _ _ => some noLimits
  | none, _ => none

/-- The local variables of a critical section. -/
structure Section where
  eff     : Effective
  limits  : Limits
  job     : Job
  history : Bool
  now     : Time

abbrev Section.account (c : Section) : Nat := c.eff.accountId

structure Slot where
  eventIds  : List Nat
  accountId : Nat
deriving DecidableEq, Repr

/-- The rows left when the slot is given back. -/
def Slot.rowsLeft (slot : Slot) (rows : List WriteEvent) : List WriteEvent :=
  rows.filter fun e => !slot.eventIds.contains e.id

/-- Where a task stands. From `dialog` to `store` it holds the account's lock. -/
inductive Phase
  /-- No call made yet. -/
  | idle
  /-- Before the first short session: settings and, for a send, `_sent_to`. -/
  | called (account : Nat) (job : Job)
  /-- Before `_has_history`. -/
  | history (eff : Effective) (limits : Limits) (job : Job)
  /-- Before `pg_advisory_xact_lock`. -/
  | atLock (eff : Effective) (limits : Limits) (job : Job) (history : Bool)
  /-- Before the second `_sent_to`, which decides `new_dialog`. -/
  | dialog (c : Section)
  /-- In the loop of `_check_windows`: the windows left and the full ones found. -/
  | windows (c : Section) (newDialog : Bool) (rest : List Window) (full : List Full)
  /-- Between `_count` and `_retry_after` of a full window. -/
  | retry (c : Section) (newDialog : Bool) (w : Window) (limit used n : Nat)
      (rest : List Window) (full : List Full)
  /-- Before `_last_send`. -/
  | pace (c : Section) (newDialog : Bool)
  /-- Before the insert and the commit. -/
  | store (c : Section) (newDialog : Bool) (atTime : Time)
  /-- Returned `None`: the account writes without limits. -/
  | unlimited
  | refused (error : WriteLimited)
  /-- Cancelled or failed before the commit. -/
  | aborted
  /-- The slot is taken; the write itself runs. -/
  | granted (slot : Slot)
  | kept (slot : Slot)
  | released (slot : Slot)

/-- The section of a task that holds a lock. -/
def Phase.section? : Phase → Option Section
  | .dialog c => some c
  | .windows c _ _ _ => some c
  | .retry c _ _ _ _ _ _ _ => some c
  | .pace c _ => some c
  | .store c _ _ => some c
  | _ => none

/-- No reservation of the task is under way. -/
def Phase.quiet : Phase → Bool
  | .idle => true
  | .unlimited => true
  | .refused _ => true
  | .aborted => true
  | .kept _ => true
  | .released _ => true
  | _ => false

/-- How a row came about. The table has no such columns: statements about runs need them. -/
structure Origin where
  /-- The task whose call stored the row. -/
  task : Nat
  /-- The clock of its critical section. -/
  made : Time
  /-- The sends of the account to the same chat that were stored then. -/
  existing : List Nat
  /-- The chat had a stored message then. -/
  hadMessage : Bool
deriving DecidableEq, Repr

structure State where
  /-- `write_events`, the newest row first. -/
  rows     : List WriteEvent
  nextId   : Nat
  phase    : Nat → Phase
  /-- The task that holds the advisory lock of an account. -/
  lock     : Nat → Option Nat
  /-- The last clock reading under the lock of an account. -/
  clock    : Nat → Time
  messages : List Message
  /-- Origins of the rows by id (for statements only). -/
  origin   : Nat → Origin
  /-- Ids given back so far (for statements only). -/
  released : List Nat

def State.setPhase (s : State) (t : Nat) (p : Phase) : State :=
  { s with phase := Function.update s.phase t p }

/-- Leave the critical section of account `a`. -/
def State.unlock (s : State) (a : Nat) : State :=
  { s with lock := Function.update s.lock a none }

def State.init (start : Time) : State where
  rows := []
  nextId := 0
  phase _ := .idle
  lock _ := none
  clock _ := start
  messages := []
  origin _ := ⟨0, 0, [], false⟩
  released := []

inductive Action
  | call (t account : Nat) (job : Job)
  | readSettings (t : Nat)
  | readHistory (t : Nat)
  | lock (t : Nat) (now : Time)
  | decideDialog (t : Nat)
  | checkWindow (t : Nat)
  | readRetryAfter (t : Nat)
  | pace (t : Nat) (jitter : Time)
  | commit (t : Nat)
  | abort (t : Nat)
  | keep (t : Nat)
  | release (t : Nat)
  | message (m : Message)

/-! ## The steps -/

/-- Before the lock: settings, the switch `enabled`, whether the history has to be read. -/
def readSettings (cfg : Config) (s : State) (a : Nat) (job : Job) : Phase :=
  match effective cfg.accounts a with
  | none => .unlimited
  | some eff =>
      match job.limits eff with
      | none => .unlimited
      | some limits =>
          if limits.enabled = false then .refused (disabled eff job.tool)
          else match job.sendChat with
            | none => .atLock eff limits job false
            | some chat =>
                if sentTo s.rows a chat then .atLock eff limits job false
                else .history eff limits job

def readHistory (cfg : Config) (s : State) (eff : Effective) (job : Job) : Bool :=
  match job.sendChat with
  | none => false
  | some chat => hasHistory cfg.newMode s.messages eff chat

/-- The table a section sees: its own purge applies at once. -/
def Section.view (c : Section) (rows : List WriteEvent) : List WriteEvent :=
  purge rows c.account c.now

/-- `new_dialog`, decided under the lock. -/
def decideDialog (c : Section) (rows : List WriteEvent) : Bool :=
  match c.job.sendChat with
  | none => false
  | some chat => !c.history && !sentTo (c.view rows) c.account chat

/-- The next phase in the loop of `_check_windows`; `none`: refused. -/
def checkStep (c : Section) (rows : List WriteEvent) (newDialog : Bool) (full : List Full) :
    List Window → Phase
  | [] =>
      match refuseFull c.eff c.job.tool full with
      | some error => .refused error
      | none => .pace c newDialog
  | w :: rest =>
      match checked c.limits c.job.needs newDialog w with
      | none => .windows c newDialog rest full
      | some (limit, n) =>
          let used := count (c.view rows) c.account w c.now
          if used + n > limit then
            if n > limit then .windows c newDialog rest (full ++ [⟨w, limit, used, none, n⟩])
            else .retry c newDialog w limit used n rest full
          else .windows c newDialog rest full

/-- The pause a send is given: `min_interval_sec`, `none` when it is off, or not a single send. -/
def Section.minInterval (c : Section) : Option Nat :=
  match c.job with
  | .reserve .send _ _ => c.limits.minIntervalSec.filter (· ≠ 0)
  | _ => none

/-- The largest jitter, `random.uniform(0, jitter_sec)`. -/
def Section.maxJitter (c : Section) : Time := seconds (c.limits.jitterSec.getD 0)

/-- The planned time of the write. -/
def planned (c : Section) (rows : List WriteEvent) (jitter : Time) : Time :=
  match c.minInterval, lastSend (c.view rows) c.account with
  | some d, some last => max c.now (last + (seconds d + jitter))
  | _, _ => c.now

/-- `min_interval`: a wait longer than `maxWaitSec` is refused. -/
def paceStep (c : Section) (rows : List WriteEvent) (newDialog : Bool) (jitter : Time) : Phase :=
  let at_ := planned c rows jitter
  if at_ - c.now > seconds maxWaitSec then
    .refused (queued c.eff c.job.tool (c.minInterval.getD 0) (at_ - c.now))
  else .store c newDialog at_

/-- The rows a section stores, the newest first. -/
def newRows (c : Section) (newDialog : Bool) (atTime : Time) (nextId : Nat) : List WriteEvent :=
  ((c.job.needs.kinds.zipIdx nextId).map fun (kind, i) =>
    (⟨i, c.account, kind, c.job.tool, c.job.chatId, newDialog, atTime⟩ : WriteEvent)).reverse

/-- The origin of the rows a section of task `t` stores. -/
def originOf (cfg : Config) (s : State) (t : Nat) (c : Section) : Origin where
  task := t
  made := c.now
  existing := match c.job.sendChat with
    | none => []
    | some chat => ((c.view s.rows).filter (isSendTo c.account chat)).map (·.id)
  hadMessage := match c.job.sendChat with
    | none => false
    | some chat => hasHistory cfg.newMode s.messages c.eff chat

/-- Insert and commit: the purge and the new rows become visible, the lock is free. -/
def commit (cfg : Config) (s : State) (t : Nat) (c : Section) (newDialog : Bool) (atTime : Time) :
    State :=
  let new := newRows c newDialog atTime s.nextId
  let origin := originOf cfg s t c
  { s with
    rows := new ++ c.view s.rows
    nextId := s.nextId + c.job.needs.kinds.length
    phase := Function.update s.phase t (.granted ⟨new.reverse.map (·.id), c.account⟩)
    lock := Function.update s.lock c.account none
    origin := fun i => if s.nextId ≤ i then origin else s.origin i }

/-- `Slot.release`. -/
def release (s : State) (t : Nat) (slot : Slot) : State :=
  { s with
    rows := slot.rowsLeft s.rows
    phase := Function.update s.phase t (.released slot)
    released := slot.eventIds ++ s.released }

/-- A phase reached inside a section: a refusal gives the lock back. -/
def State.inSection (s : State) (t : Nat) (a : Nat) (p : Phase) : State :=
  match p.section? with
  | some _ => s.setPhase t p
  | none => (s.setPhase t p).unlock a

/-- The transition function; `none`: the action is not possible. -/
def step (cfg : Config) (s : State) : Action → Option State
  | .call t a job =>
      match s.phase t with
      | .idle => if job.allowed then some (s.setPhase t (.called a job)) else none
      | _ => none
  | .readSettings t =>
      match s.phase t with
      | .called a job => some (s.setPhase t (readSettings cfg s a job))
      | _ => none
  | .readHistory t =>
      match s.phase t with
      | .history eff limits job =>
          some (s.setPhase t (.atLock eff limits job (readHistory cfg s eff job)))
      | _ => none
  | .lock t now =>
      match s.phase t with
      | .atLock eff limits job history =>
          if s.lock eff.accountId = none ∧ s.clock eff.accountId ≤ now then
            some { s with
              phase := Function.update s.phase t (.dialog ⟨eff, limits, job, history, now⟩)
              lock := Function.update s.lock eff.accountId (some t)
              clock := Function.update s.clock eff.accountId now }
          else none
      | _ => none
  | .decideDialog t =>
      match s.phase t with
      | .dialog c => some (s.setPhase t (.windows c (decideDialog c s.rows) windows []))
      | _ => none
  | .checkWindow t =>
      match s.phase t with
      | .windows c newDialog rest full =>
          some (s.inSection t c.account (checkStep c s.rows newDialog full rest))
      | _ => none
  | .readRetryAfter t =>
      match s.phase t with
      | .retry c newDialog w limit used n rest full =>
          let wait := retryAfter (c.view s.rows) c.account w c.now used limit n
          some (s.setPhase t (.windows c newDialog rest (full ++ [⟨w, limit, used, some wait, n⟩])))
      | _ => none
  | .pace t jitter =>
      match s.phase t with
      | .pace c newDialog =>
          if 0 ≤ jitter ∧ jitter ≤ c.maxJitter then
            some (s.inSection t c.account (paceStep c s.rows newDialog jitter))
          else none
      | _ => none
  | .commit t =>
      match s.phase t with
      | .store c newDialog atTime => some (commit cfg s t c newDialog atTime)
      | _ => none
  | .abort t =>
      match s.phase t with
      | .called _ _ => some (s.setPhase t .aborted)
      | .history _ _ _ => some (s.setPhase t .aborted)
      | .atLock _ _ _ _ => some (s.setPhase t .aborted)
      | p => p.section?.map fun c => (s.setPhase t .aborted).unlock c.account
  | .keep t =>
      match s.phase t with
      | .granted slot => some (s.setPhase t (.kept slot))
      | _ => none
  | .release t =>
      match s.phase t with
      | .granted slot => some (release s t slot)
      | _ => none
  | .message m => some { s with messages := m :: s.messages }

/-! ## What an action does -/

/-- A call that has not taken its lock. -/
def Phase.beforeLock : Phase → Bool
  | .called .. | .history .. | .atLock .. => true
  | _ => false

/-- The state after an action, with what the action found. -/
inductive Stepped (cfg : Config) (s : State) : Action → State → Prop
  | call {t a : Nat} {job : Job} (hph : s.phase t = .idle) (hallowed : job.allowed = true) :
      Stepped cfg s (.call t a job) (s.setPhase t (.called a job))
  | readSettings {t a : Nat} {job : Job} (hph : s.phase t = .called a job) :
      Stepped cfg s (.readSettings t) (s.setPhase t (MyPerson.WriteLimits.readSettings cfg s a job))
  | readHistory {t : Nat} {eff : Effective} {limits : Limits} {job : Job}
      (hph : s.phase t = .history eff limits job) :
      Stepped cfg s (.readHistory t)
        (s.setPhase t (.atLock eff limits job (MyPerson.WriteLimits.readHistory cfg s eff job)))
  | lock {t : Nat} {eff : Effective} {limits : Limits} {job : Job} {history : Bool} {now : Time}
      (hph : s.phase t = .atLock eff limits job history) (hfree : s.lock eff.accountId = none) :
      Stepped cfg s (.lock t now) { s with
        phase := Function.update s.phase t (.dialog ⟨eff, limits, job, history, now⟩)
        lock := Function.update s.lock eff.accountId (some t)
        clock := Function.update s.clock eff.accountId now }
  | decideDialog {t : Nat} {c : Section} (hph : s.phase t = .dialog c) :
      Stepped cfg s (.decideDialog t)
        (s.setPhase t (.windows c (MyPerson.WriteLimits.decideDialog c s.rows) windows []))
  | checkWindow {t : Nat} {c : Section} {newDialog : Bool} {rest : List Window} {full : List Full}
      (hph : s.phase t = .windows c newDialog rest full) :
      Stepped cfg s (.checkWindow t) (s.inSection t c.account (checkStep c s.rows newDialog full rest))
  | readRetryAfter {t : Nat} {c : Section} {newDialog : Bool} {w : Window} {limit used n : Nat}
      {rest : List Window} {full : List Full} (hph : s.phase t = .retry c newDialog w limit used n rest full) :
      Stepped cfg s (.readRetryAfter t) (s.setPhase t (.windows c newDialog rest
        (full ++ [⟨w, limit, used, some (retryAfter (c.view s.rows) c.account w c.now used limit n), n⟩])))
  | pace {t : Nat} {jitter : Time} {c : Section} {newDialog : Bool} (hph : s.phase t = .pace c newDialog)
      (hjitter : 0 ≤ jitter) :
      Stepped cfg s (.pace t jitter) (s.inSection t c.account (paceStep c s.rows newDialog jitter))
  | commit {t : Nat} {c : Section} {newDialog : Bool} {atTime : Time} (hph : s.phase t = .store c newDialog atTime) :
      Stepped cfg s (.commit t) (MyPerson.WriteLimits.commit cfg s t c newDialog atTime)
  | abort {t : Nat} (hph : (s.phase t).beforeLock = true) : Stepped cfg s (.abort t) (s.setPhase t .aborted)
  | abortSection {t : Nat} {c : Section} (hph : (s.phase t).section? = some c) :
      Stepped cfg s (.abort t) ((s.setPhase t .aborted).unlock c.account)
  | keep {t : Nat} {slot : Slot} (hph : s.phase t = .granted slot) :
      Stepped cfg s (.keep t) (s.setPhase t (.kept slot))
  | release {t : Nat} {slot : Slot} (hph : s.phase t = .granted slot) :
      Stepped cfg s (.release t) (MyPerson.WriteLimits.release s t slot)
  | message {m : Message} : Stepped cfg s (.message m) { s with messages := m :: s.messages }

/-- **Step.** -/
theorem stepped {cfg : Config} {s s' : State} {a : Action} (hstep : step cfg s a = some s') : Stepped cfg s a s' := by
  cases a with
  | call t a job =>
      simp only [step] at hstep
      split at hstep
      · rename_i hph
        obtain ⟨hallowed, heq⟩ := Option.ite_none_right_eq_some.mp hstep
        cases heq
        exact .call hph hallowed
      · cases hstep
  | readSettings t =>
      simp only [step] at hstep
      split at hstep
      · rename_i a job hph
        cases hstep
        exact .readSettings hph
      · cases hstep
  | readHistory t =>
      simp only [step] at hstep
      split at hstep
      · rename_i eff limits job hph
        cases hstep
        exact .readHistory hph
      · cases hstep
  | lock t now =>
      simp only [step] at hstep
      split at hstep
      · rename_i eff limits job history hph
        obtain ⟨hguard, heq⟩ := Option.ite_none_right_eq_some.mp hstep
        cases heq
        exact .lock hph hguard.1
      · cases hstep
  | decideDialog t =>
      simp only [step] at hstep
      split at hstep
      · rename_i c hph
        cases hstep
        exact .decideDialog hph
      · cases hstep
  | checkWindow t =>
      simp only [step] at hstep
      split at hstep
      · rename_i c newDialog rest full hph
        cases hstep
        exact .checkWindow hph
      · cases hstep
  | readRetryAfter t =>
      simp only [step] at hstep
      split at hstep
      · rename_i c newDialog w limit used n rest full hph
        cases hstep
        exact .readRetryAfter hph
      · cases hstep
  | pace t jitter =>
      simp only [step] at hstep
      split at hstep
      · rename_i c newDialog hph
        obtain ⟨hjitter, heq⟩ := Option.ite_none_right_eq_some.mp hstep
        cases heq
        exact .pace hph hjitter.1
      · cases hstep
  | commit t =>
      simp only [step] at hstep
      split at hstep
      · rename_i c newDialog atTime hph
        cases hstep
        exact .commit hph
      · cases hstep
  | abort t =>
      simp only [step] at hstep
      split at hstep
      case h_1 hph | h_2 hph | h_3 hph =>
        cases hstep
        exact .abort (by rw [hph]; rfl)
      case h_4 =>
        obtain ⟨c, hc, rfl⟩ := Option.map_eq_some_iff.mp hstep
        exact .abortSection hc
  | keep t =>
      simp only [step] at hstep
      split at hstep
      · rename_i slot hph
        cases hstep
        exact .keep hph
      · cases hstep
  | release t =>
      simp only [step] at hstep
      split at hstep
      · rename_i slot hph
        cases hstep
        exact .release hph
      · cases hstep
  | message m =>
      cases hstep
      exact .message

/-- The actions of a call that finds room in every window. -/
def writeActions (t a : Nat) (job : Job) (readsHistory : Bool) (now jitter : Time) : List Action :=
  [.call t a job, .readSettings t] ++ (if readsHistory then [.readHistory t] else []) ++
    [.lock t now, .decideDialog t] ++ List.replicate (windows.length + 1) (.checkWindow t) ++
    [.pace t jitter, .commit t]

end MyPerson.WriteLimits
