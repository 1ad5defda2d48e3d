import MyPerson.Lib.ReentrantLock
import MyPerson.Lib.Run

/-!
# `Partitions.Lock` — the advisory lock of the partition maintenance

`ensure_partitions` of `app/services/partition_maintenance.py`, statement by statement. The session takes a
connection of the pool for its first statement and for the first one after a commit; a failed statement aborts
the transaction, and every later statement of the session fails until it is closed. The advisory lock belongs to
the connection: neither commit nor rollback gives it back.

## Contents
- `Session`, `execute`, `commit`;
- `ensurePartitions`;
- `givesBack`, `partition_lock_released`.
-/

namespace MyPerson.Partitions

open Lib

/-- Who may hold the lock: a connection of the pool, another process. -/
inductive Holder
  | pooled (conn : Nat)
  | elsewhere
deriving DecidableEq, Repr

abbrev Lock := Option (Hold Holder)

/-- The statements of `ensure_partitions`. -/
inductive Stmt
  | tryLock
  | ensurePartition (offset : Nat)
  | dropOld (days : Nat)
  | commit
  | unlock
  | commitUnlock
deriving DecidableEq, Repr

/-- What a call meets: which statements fail, and the connection that the pool gives for a statement when the
    session has none. -/
structure Env where
  fails : Stmt → Bool
  conn  : Stmt → Nat

structure Session where
  lock    : Lock
  conn    : Option Nat
  aborted : Bool

/-- `session.execute`; `none`: it raises. -/
def execute (env : Env) (stmt : Stmt) (effect : Lock → Holder → Lock × Bool) (s : Session) : Session × Option Bool :=
  if s.aborted then (s, none)
  else
    let conn := s.conn.getD (env.conn stmt)
    if env.fails stmt then (⟨s.lock, some conn, true⟩, none)
    else (⟨(effect s.lock (.pooled conn)).1, some conn, false⟩, some (effect s.lock (.pooled conn)).2)

/-- `session.commit` gives the connection back. -/
def commit (env : Env) (stmt : Stmt) (s : Session) : Session × Option Bool :=
  if s.aborted then (s, none)
  else if env.fails stmt then ({ s with aborted := true }, none)
  else ({ s with conn := none }, some true)

/-- Statements that leave the lock alone. -/
def executeAll (env : Env) : List Stmt → Session → Session × Option Bool
  | [], s => (s, some true)
  | stmt :: rest, s =>
      match execute env stmt (fun lock _ => (lock, true)) s with
      | (s, none) => (s, none)
      | (s, some _) => executeAll env rest s

def maintenance : List Stmt := [.ensurePartition 0, .ensurePartition 1, .ensurePartition 2, .dropOld 90]

/-- The statements under the lock, with their commit. -/
def body (env : Env) (s : Session) : Session × Option Bool :=
  match executeAll env maintenance s with
  | (s, none) => (s, none)
  | (s, some _) => commit env .commit s

inductive Outcome
  | done
  /-- "lock held elsewhere, skipping". -/
  | skipped
  /-- An exception, logged. -/
  | failed
deriving DecidableEq, Repr

/-- The `finally` of `ensure_partitions`, and its end. -/
def giveBack (env : Env) (worked : Option Bool) (s : Session) : Lock × Outcome :=
  match execute env .unlock Hold.release s with
  | (s, none) => (s.lock, .failed)
  | (s, some _) =>
      let (s, committed) := commit env .commitUnlock s
      (s.lock, if worked.isSome && committed.isSome then .done else .failed)

/-- `ensure_partitions`, with the lock before and after. -/
def ensurePartitions (env : Env) (lock : Lock) : Lock × Outcome :=
  match execute env .tryLock Hold.acquire ⟨lock, none, false⟩ with
  | (s, none) => (s.lock, .failed)
  | (s, some false) => (s.lock, .skipped)
  | (s, some true) => giveBack env (body env s).2 (body env s).1

/-! ## The lock of one call -/

/-- The statements after the lock was taken, up to giving it back. -/
def underLock : List Stmt := maintenance ++ [.commit, .unlock]

/-- The call does not take the lock, or none of its statements fails while it holds it and the pool gives the same
    connection after the commit. -/
def givesBack (env : Env) (lock : Lock) : Prop :=
  env.fails .tryLock = true ∨ (Hold.acquire lock (.pooled (env.conn .tryLock))).2 = false ∨
    ((∀ stmt ∈ underLock, env.fails stmt = false) ∧ env.conn .unlock = env.conn .tryLock)

variable {env : Env} {lock : Lock} {c : Nat}

theorem executeAll_spec (stmts : List Stmt) :
    executeAll env stmts ⟨lock, some c, false⟩
      = if ∀ stmt ∈ stmts, env.fails stmt = false then (⟨lock, some c, false⟩, some true)
        else (⟨lock, some c, true⟩, none) := by
  induction stmts with
  | nil => simp [executeAll]
  | cons stmt rest ih =>
      unfold executeAll execute
      cases hfails : env.fails stmt with
      | true => simp [hfails]
      | false =>
          simp only [Bool.false_eq_true, if_false, Option.getD_some]
          rw [ih]
          simp [hfails]

/-- The body keeps the lock, and is left with an unusable session or without a connection. -/
theorem body_spec : body env ⟨lock, some c, false⟩
    = if ∀ stmt ∈ maintenance ++ [.commit], env.fails stmt = false then (⟨lock, none, false⟩, some true)
      else (⟨lock, some c, true⟩, none) := by
  unfold body
  rw [executeAll_spec]
  by_cases hall : ∀ stmt ∈ maintenance, env.fails stmt = false
  · rw [if_pos hall]
    cases hfails : env.fails .commit with
    | true =>
        rw [if_neg fun h => absurd (h .commit (by simp)) (by simp [hfails])]
        simp [commit, hfails]
    | false =>
        rw [if_pos ?_]
        · simp [commit, hfails]
        · intro stmt hstmt
          rcases List.mem_append.mp hstmt with hin | hlast
          · exact hall stmt hin
          · rw [List.mem_singleton.mp hlast]
            exact hfails
  · rw [if_neg hall, if_neg fun h => hall fun stmt hin => h stmt (List.mem_append_left _ hin)]

/-- After the lock was taken: it is given back when nothing failed and the connection is the same one. -/
theorem unlock_spec {taken : Lock} (c : Nat) :
    (execute env .unlock Hold.release (body env ⟨taken, some c, false⟩).1).1.lock
      = if ∀ stmt ∈ underLock, env.fails stmt = false then (Hold.release taken (.pooled (env.conn .unlock))).1
        else taken := by
  rw [body_spec]
  by_cases hbody : ∀ stmt ∈ maintenance ++ [.commit], env.fails stmt = false
  · rw [if_pos hbody]
    cases hfails : env.fails .unlock with
    | true =>
        rw [if_neg fun h => absurd (h .unlock (by simp [underLock])) (by simp [hfails])]
        simp [execute, hfails]
    | false =>
        rw [if_pos ?_]
        · simp [execute, hfails]
        · intro stmt hstmt
          unfold underLock at hstmt
          rw [List.append_cons] at hstmt
          rcases List.mem_append.mp hstmt with hin | hlast
          · exact hbody stmt hin
          · rw [List.mem_singleton.mp hlast]
            exact hfails
  · have hunder : ¬ ∀ stmt ∈ underLock, env.fails stmt = false := by
      intro hall
      refine hbody fun stmt hin => hall stmt ?_
      unfold underLock
      rw [List.append_cons]
      exact List.mem_append_left _ hin
    rw [if_neg hbody, if_neg hunder]
    rfl

theorem commit_lock (stmt : Stmt) (s : Session) : (commit env stmt s).1.lock = s.lock := by
  unfold commit
  split
  · rfl
  · split <;> rfl

theorem giveBack_lock (worked : Option Bool) (s : Session) :
    (giveBack env worked s).1 = (execute env .unlock Hold.release s).1.lock := by
  unfold giveBack
  split
  · rename_i heq
    rw [heq]
  · rename_i heq
    rw [heq]
    exact commit_lock _ _

theorem tryLock_spec : execute env .tryLock Hold.acquire ⟨lock, none, false⟩ =
    if env.fails .tryLock = true then (⟨lock, some (env.conn .tryLock), true⟩, none)
    else (⟨(Hold.acquire lock (.pooled (env.conn .tryLock))).1, some (env.conn .tryLock), false⟩,
      some (Hold.acquire lock (.pooled (env.conn .tryLock))).2) :=
  if_neg Bool.false_ne_true

/-- **Lock.** What a call leaves of the lock. -/
theorem ensurePartitions_lock : (ensurePartitions env lock).1 =
    if env.fails .tryLock = true ∨ (Hold.acquire lock (.pooled (env.conn .tryLock))).2 = false then lock
    else if ∀ stmt ∈ underLock, env.fails stmt = false then
      (Hold.release (Hold.acquire lock (.pooled (env.conn .tryLock))).1 (.pooled (env.conn .unlock))).1
    else (Hold.acquire lock (.pooled (env.conn .tryLock))).1 := by
  unfold ensurePartitions
  rw [tryLock_spec]
  by_cases hfails : env.fails .tryLock = true
  · rw [if_pos hfails, if_pos (Or.inl hfails)]
  · rw [if_neg hfails]
    cases htaken : (Hold.acquire lock (.pooled (env.conn .tryLock))).2 with
    | false =>
        rw [if_pos (Or.inr rfl)]
        exact Hold.acquire_of_refused htaken
    | true =>
        rw [if_neg (by simp [hfails])]
        show (giveBack env _ _).1 = _
        rw [giveBack_lock, unlock_spec]

/-- **One call.** The lock is as before the call exactly when the call meets the condition. -/
theorem lock_unchanged_iff : (ensurePartitions env lock).1 = lock ↔ givesBack env lock := by
  rw [ensurePartitions_lock]
  unfold givesBack
  by_cases hnot : env.fails .tryLock = true ∨ (Hold.acquire lock (.pooled (env.conn .tryLock))).2 = false
  · rw [if_pos hnot]
    exact ⟨fun _ => hnot.imp_right Or.inl, fun _ => rfl⟩
  · rw [if_neg hnot]
    push Not at hnot
    obtain ⟨hfails, htaken⟩ := hnot
    rw [ne_eq, Bool.not_eq_false] at htaken
    have hrest : env.fails .tryLock = true ∨ (Hold.acquire lock (.pooled (env.conn .tryLock))).2 = false ∨
        ((∀ stmt ∈ underLock, env.fails stmt = false) ∧ env.conn .unlock = env.conn .tryLock) ↔
        (∀ stmt ∈ underLock, env.fails stmt = false) ∧ env.conn .unlock = env.conn .tryLock := by
      simp [hfails, htaken]
    rw [hrest]
    by_cases hall : ∀ stmt ∈ underLock, env.fails stmt = false
    · rw [if_pos hall]
      by_cases hsame : env.conn .unlock = env.conn .tryLock
      · rw [hsame, Hold.release_acquire htaken]
        exact ⟨fun _ => ⟨hall, rfl⟩, fun _ => rfl⟩
      · have hother : Holder.pooled (env.conn .unlock) ≠ .pooled (env.conn .tryLock) :=
          fun heq => hsame (Holder.pooled.inj heq)
        rw [Hold.release_other htaken hother]
        exact ⟨fun heq => absurd heq (Hold.acquire_ne htaken), fun h => absurd h.2 hsame⟩
    · rw [if_neg hall]
      exact ⟨fun heq => absurd heq (Hold.acquire_ne htaken), fun h => absurd h.1 hall⟩

/-! ## Later calls -/

theorem giveBack_not_skipped (worked : Option Bool) (s : Session) : (giveBack env worked s).2 ≠ .skipped := by
  unfold giveBack
  split
  · exact fun h => nomatch h
  · dsimp only
    split <;> exact fun h => nomatch h

/-- A call is skipped when another holds the lock. -/
theorem skipped_iff : (ensurePartitions env lock).2 = .skipped ↔
    env.fails .tryLock = false ∧ (Hold.acquire lock (.pooled (env.conn .tryLock))).2 = false := by
  unfold ensurePartitions
  rw [tryLock_spec]
  cases hfails : env.fails .tryLock with
  | true =>
      rw [if_pos rfl]
      exact ⟨fun h => (nomatch h), fun h => (nomatch h.1)⟩
  | false =>
      rw [if_neg Bool.false_ne_true]
      cases htaken : (Hold.acquire lock (.pooled (env.conn .tryLock))).2 with
      | false => exact ⟨fun _ => ⟨rfl, rfl⟩, fun _ => rfl⟩
      | true => exact ⟨fun h => absurd h (giveBack_not_skipped _ _), fun h => (nomatch h.2)⟩

/-- **Leak.** After a call that does not meet the condition, every call on another connection is skipped. -/
theorem leak_skips (hnot : ¬ givesBack env lock) {later : Env} (hruns : later.fails .tryLock = false)
    (hother : later.conn .tryLock ≠ env.conn .tryLock) :
    (ensurePartitions later (ensurePartitions env lock).1).2 = .skipped := by
  unfold givesBack at hnot
  push Not at hnot
  obtain ⟨hfails, htaken, hrest⟩ := hnot
  rw [ne_eq, Bool.not_eq_false] at htaken
  have hleft : (ensurePartitions env lock).1 = (Hold.acquire lock (.pooled (env.conn .tryLock))).1 := by
    rw [ensurePartitions_lock, if_neg (by simp [hfails, htaken])]
    by_cases hall : ∀ stmt ∈ underLock, env.fails stmt = false
    · have hne : Holder.pooled (env.conn .unlock) ≠ .pooled (env.conn .tryLock) :=
        fun heq => hrest hall (Holder.pooled.inj heq)
      rw [if_pos hall, Hold.release_other htaken hne]
    · exact if_neg hall
  obtain ⟨n, hheld, -⟩ := Hold.acquire_taken htaken
  refine skipped_iff.mpr ⟨hruns, Hold.acquire_refused.mpr ⟨_, hleft.trans hheld, fun heq => ?_⟩⟩
  exact hother (Holder.pooled.inj heq).symm

/-- The maintenance of this process, and another one that takes the lock and gives it back. -/
inductive Action
  | maintain (env : Env)
  | otherTakes
  | otherGives

def step (lock : Lock) : Action → Option Lock
  | .maintain env => some (ensurePartitions env lock).1
  | .otherTakes => some (Hold.acquire lock .elsewhere).1
  | .otherGives => some (Hold.release lock .elsewhere).1

/-- Every call of the maintenance meets the condition. -/
def callsGiveBack (lock : Lock) : Action → Prop
  | .maintain env => givesBack env lock
  | _ => True

/-- No connection of the pool holds the lock. -/
def NotOurs (lock : Lock) : Prop := ∀ hold, lock = some hold → hold.owner = .elsewhere

theorem notOurs_step {after : Lock} {a : Action} (h : NotOurs lock) (hok : callsGiveBack lock a)
    (hstep : step lock a = some after) : NotOurs after := by
  cases a with
  | maintain env =>
      obtain rfl := Option.some.inj hstep
      rw [lock_unchanged_iff.mpr hok]
      exact h
  | otherTakes =>
      obtain rfl := Option.some.inj hstep
      cases lock with
      | none =>
          rintro hold hhold
          obtain rfl := Option.some.inj hhold
          rfl
      | some held =>
          have howner := h held rfl
          rintro hold hhold
          simp only [Hold.acquire, howner, if_true, Option.some.injEq] at hhold
          rw [← hhold]
  | otherGives =>
      obtain rfl := Option.some.inj hstep
      cases lock with
      | none =>
          intro hold hhold
          cases hhold
      | some held =>
          have howner := h held rfl
          rintro hold hhold
          simp only [Hold.release, howner, if_true] at hhold
          cases hagain : held.again with
          | zero => simp [hagain] at hhold
          | succ n =>
              simp only [hagain, Option.some.injEq] at hhold
              rw [← hhold]

/-- **Partition lock.** A call leaves the lock as it found it exactly when it meets the condition; and while all
    calls do, no connection of the pool holds the lock between them, so that a call is skipped only when another
    process holds it. -/
theorem partition_lock_released (env : Env) (lock : Lock) :
    ((ensurePartitions env lock).1 = lock ↔ givesBack env lock) ∧
      (Run step callsGiveBack none lock → NotOurs lock ∧
        ((ensurePartitions env lock).2 = .skipped → ∃ hold, lock = some hold ∧ hold.owner = .elsewhere)) := by
  refine ⟨lock_unchanged_iff, fun h => ?_⟩
  have hnot : NotOurs lock := h.invariant (P := NotOurs) (fun _ _ _ hs hok hstep => notOurs_step hs hok hstep)
    fun _ hnone => nomatch hnone
  refine ⟨hnot, fun hskipped => ?_⟩
  obtain ⟨hold, hlock, -⟩ := Hold.acquire_refused.mp (skipped_iff.mp hskipped).2
  exact ⟨hold, hlock, hnot hold hlock⟩

/-- Dropping old partitions fails. -/
def dropFails : Env := ⟨fun stmt => stmt == .dropOld 90, fun _ => 0⟩

/-- Nothing fails, and the pool gives another connection after the commit. -/
def otherConnection : Env := ⟨fun _ => false, fun stmt => if stmt = .unlock then 1 else 0⟩

/-- A pool with one connection, where nothing fails. -/
def oneConnection : Env := ⟨fun _ => false, fun _ => 0⟩

theorem partition_lock_released_example : (ensurePartitions oneConnection none).1 = none :=
  (partition_lock_released oneConnection none).1.mpr (Or.inr (Or.inr ⟨fun _ _ => rfl, rfl⟩))

/-- With a statement that fails, and without one, a connection of the pool is left with the lock. -/
theorem partition_lock_kept :
    (¬ ∀ env lock, env.conn .unlock = env.conn .tryLock → (ensurePartitions env lock).1 = lock) ∧
      ¬ ∀ env lock, (∀ stmt, env.fails stmt = false) → (ensurePartitions env lock).1 = lock := by
  constructor
  · intro hall
    exact absurd (hall dropFails none rfl) (by decide)
  · intro hall
    exact absurd (hall otherConnection none fun _ => rfl) (by decide)

end MyPerson.Partitions
