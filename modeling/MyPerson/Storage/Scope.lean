import MyPerson.Lib.Decimal
import MyPerson.Lib.RowSecurity
import MyPerson.Lib.Run

/-!
# `Storage.Scope` — sessions on the data tables

`app/storage.py` and `ensure_scope` of `app/repo/__init__.py`, over PostgreSQL's row policy `acc_isolation` of the
migration 010. A session takes a connection of the pool for each of its transactions; `after_begin` writes the
scope into two settings that live as long as the transaction, and the policy reads them. Statements see the
committed rows and the changes of their own transaction. The functions of `app/repo` name an account: they
check the scope of the session and are about rows of that account. What statements take from the id sequences and
the tables without a policy, such as `identities`, is shared by all accounts; it comes with each statement.

## Contents
- `Settings.sees`, the policy; `setScope`, `ensureScope`;
- connections, sessions, `step`;
- `Scope`: what a session is for, and that settings show just that (`setScope_sees`).
-/

namespace MyPerson.Storage

open Lib

/-! ## Settings -/

/-- `app.account_id` and `app.scope`; `none` is NULL, for a setting that was never set on the connection. -/
structure Settings where
  accountId : Option String
  scope     : Option String
deriving DecidableEq, Repr

/-- `nullif(x, '')`. -/
def nullifEmpty : Option String → Option String
  | none => none
  | some text => if text = "" then none else some text

/-- `POLICY_EXPR` on a row of that account. -/
def Settings.sees (g : Settings) (rowAccount : Int) : Bool :=
  (nullifEmpty g.accountId).bind Decimal.read == some rowAccount || g.scope == some "owner"

/-- What the two settings of a connection read as outside of a transaction that sets them. -/
def Settings.Blank (g : Settings) : Prop :=
  (g.accountId = none ∨ g.accountId = some "") ∧ (g.scope = none ∨ g.scope = some "")

def unset : Settings := ⟨none, none⟩

/-- Settings that were local to a transaction are empty after it. -/
def emptied : Settings := ⟨some "", some ""⟩

/-! ## Sessions -/

/-- `session.info`. -/
structure Info where
  scope     : Option String
  accountId : Option Int
deriving DecidableEq, Repr

/-- `account_db(account_id)`. -/
def accountDb (accountId : Int) : Info := ⟨some "account", some accountId⟩

/-- `owner_db()`. -/
def ownerDb : Info := ⟨some "owner", none⟩

/-- `_set_scope`; `none` is its `RuntimeError`. -/
def setScope (info : Info) : Option Settings :=
  if info.scope = some "owner" then some ⟨some "", some "owner"⟩
  else
    match info.scope, info.accountId with
    | some "account", some accountId => some ⟨some (toString accountId), some "account"⟩
    | _, _ => none

/-- `ensure_scope`: it does not raise. -/
def ensureScope (info : Info) (accountId : Int) : Bool :=
  info.scope == some "owner" || (info.scope == some "account" && info.accountId == some accountId)

inductive Kind
  /-- A `DataSession`. -/
  | data (info : Info)
  /-- `async_session()`, whose `info` is empty. -/
  | plain
deriving DecidableEq, Repr

def Kind.info : Kind → Info
  | .data info => info
  | .plain => ⟨none, none⟩

/-! ## What a session is for -/

inductive Scope
  | account (accountId : Int)
  | owner
  | nothing
deriving DecidableEq, Repr

def Kind.scope : Kind → Scope
  | .plain => .nothing
  | .data info =>
      if info.scope = some "owner" then .owner
      else
        match info.scope, info.accountId with
        | some "account", some accountId => .account accountId
        | _, _ => .nothing

def Scope.shows : Scope → Int → Bool
  | .account accountId, rowAccount => rowAccount == accountId
  | .owner, _ => true
  | .nothing, _ => false

@[simp] theorem scope_accountDb (accountId : Int) : (Kind.data (accountDb accountId)).scope = .account accountId := rfl

@[simp] theorem scope_ownerDb : (Kind.data ownerDb).scope = .owner := rfl

@[simp] theorem scope_plain : Kind.plain.scope = .nothing := rfl

theorem Settings.Blank.sees {g : Settings} (h : g.Blank) (rowAccount : Int) : g.sees rowAccount = false := by
  obtain ⟨haccount, hscope⟩ := h
  unfold Settings.sees nullifEmpty
  rcases haccount with haccount | haccount <;> rcases hscope with hscope | hscope <;> rw [haccount, hscope] <;> rfl

/-- A number that is written to a setting is read back. -/
theorem nullifEmpty_toString (n : Int) : (nullifEmpty (some (toString n))).bind Decimal.read = some n := by
  have hne : toString n ≠ "" := by
    intro h
    have hread := Decimal.read_toString n
    rw [h] at hread
    cases hread
  rw [nullifEmpty, if_neg hne]
  exact Decimal.read_toString n

/-- **The settings of a transaction show the rows that its session is for.** -/
theorem setScope_sees {info : Info} {g : Settings} (h : setScope info = some g) (rowAccount : Int) :
    g.sees rowAccount = (Kind.data info).scope.shows rowAccount := by
  unfold setScope at h
  split at h
  · rename_i howner
    obtain rfl := Option.some.inj h
    simp only [Kind.scope, if_pos howner]
    rfl
  · rename_i howner
    split at h
    · rename_i accountId hscope haccount
      obtain rfl := Option.some.inj h
      simp only [Kind.scope, hscope, haccount, Scope.shows, Settings.sees, nullifEmpty_toString]
      rw [show (some "account" == some "owner") = false from rfl, Bool.or_false, Option.some_beq_some]
      exact Bool.beq_comm
    · cases h

/-- A function of `app/repo` runs for an account that its session is for. -/
theorem ensureScope_shows {kind : Kind} {accountId : Int} (h : ensureScope kind.info accountId = true) :
    kind.scope.shows accountId = true := by
  cases kind with
  | plain => simp [Kind.info, ensureScope] at h
  | data info =>
      obtain ⟨scope, account⟩ := info
      simp only [ensureScope, Kind.info, Bool.or_eq_true, Bool.and_eq_true, beq_iff_eq] at h
      rcases h with rfl | ⟨rfl, rfl⟩
      · rfl
      · simp [Kind.scope, Scope.shows]

/-! ## The system -/

variable {γ δ α : Type}

/-- A row of one of the data tables. -/
structure Row (δ : Type) where
  accountId : Int
  data      : δ
deriving DecidableEq, Repr

/-- A transaction or a savepoint in it. -/
structure Frame (δ : Type) where
  settings : Settings
  changes  : List (Change (Row δ))
deriving DecidableEq, Repr

structure Connection (δ : Type) where
  base : Settings
  /-- The innermost savepoint first; empty when the connection is in the pool. -/
  tx   : List (Frame δ)
deriving DecidableEq, Repr

structure Session where
  kind : Kind
  conn : Option Nat
deriving DecidableEq, Repr

/-- A statement that was run: for whom, on which rows, with which answer and change. -/
structure Entry (δ α : Type) where
  kind    : Kind
  seen    : List (Row δ)
  outcome : Option (α × Change (Row δ))

structure State (δ α : Type) where
  /-- The role of `DATABASE_URL` is not subject to the policy. -/
  bypass   : Bool
  rows     : List (Row δ)
  conns    : List (Connection δ)
  sessions : List Session
  log      : List (Entry δ α)

def start (bypass : Bool) (rows : List (Row δ)) : State δ α := ⟨bypass, rows, [], [], []⟩

/-- `γ` is what a statement takes from the sequences and the tables that all accounts share. -/
inductive Action (γ δ α : Type)
  /-- The pool opens a connection. -/
  | connect
  | openSession (kind : Kind)
  /-- The session takes a connection out of the pool, and `after_begin`. -/
  | begin (i c : Nat)
  /-- A function of `app/repo`. -/
  | call (i : Nat) (accountId : Int) (shared : γ) (stmt : γ → Statement (Row δ) α)
  /-- Any other statement on the data tables. -/
  | run (i : Nat) (shared : γ) (stmt : γ → Statement (Row δ) α)
  | savepoint (i : Nat)
  | release (i : Nat)
  | rollbackTo (i : Nat)
  | commit (i : Nat)
  /-- `rollback`, `close`, or the end of the session by an error. -/
  | rollback (i : Nat)

namespace State

variable [DecidableEq δ]

/-- The session, and its connection while it is in a transaction. -/
def tx (s : State δ α) (i : Nat) : Option (Session × Nat × Connection δ) := do
  let session ← s.sessions[i]?
  let c ← session.conn
  let conn ← s.conns[c]?
  some (session, c, conn)

def changes (tx : List (Frame δ)) : List (Change (Row δ)) := tx.reverse.flatMap Frame.changes

def setTx (s : State δ α) (c : Nat) (conn : Connection δ) (tx : List (Frame δ)) : State δ α :=
  { s with conns := s.conns.set c { conn with tx := tx } }

/-- The settings a new transaction, or savepoint, of the session has on a connection with these settings. -/
def begun (kind : Kind) (current : Settings) : Option Settings :=
  match kind with
  | .data info => setScope info
  | .plain => some current

/-- A statement on the rows that meet `p` and that the policy shows. -/
def execute (s : State δ α) (session : Session) (c : Nat) (conn : Connection δ) (p : Row δ → Bool)
    (stmt : Statement (Row δ) α) : Option (State δ α) :=
  match conn.tx with
  | [] => none
  | frame :: rest =>
      let visible : Row δ → Bool := fun r => (s.bypass || frame.settings.sees r.accountId) && p r
      let rows := view (changes (frame :: rest)) s.rows
      let outcome := secured visible stmt rows
      let frame := { frame with changes := frame.changes ++ (outcome.map Prod.snd).toList }
      some { s.setTx c conn (frame :: rest) with log := s.log ++ [⟨session.kind, rows.filter visible, outcome⟩] }

/-- The connection goes back to the pool. -/
def finish (s : State δ α) (i : Nat) (session : Session) (c : Nat) (conn : Connection δ) : State δ α :=
  { s with
    conns := s.conns.set c ⟨match session.kind with | .data _ => emptied | .plain => conn.base, []⟩
    sessions := s.sessions.set i { session with conn := none } }

end State

def step [DecidableEq δ] (s : State δ α) : Action γ δ α → Option (State δ α)
  | .connect => some { s with conns := s.conns ++ [⟨unset, []⟩] }
  | .openSession kind => some { s with sessions := s.sessions ++ [⟨kind, none⟩] }
  | .begin i c => do
      let session ← s.sessions[i]?
      let conn ← s.conns[c]?
      if session.conn.isNone && conn.tx.isEmpty then
        let settings ← State.begun session.kind conn.base
        some
          { s with
            conns := s.conns.set c { conn with tx := [⟨settings, []⟩] }
            sessions := s.sessions.set i { session with conn := some c } }
      else none
  | .call i accountId shared stmt => do
      let (session, c, conn) ← s.tx i
      if ensureScope session.kind.info accountId then
        s.execute session c conn (fun r => r.accountId == accountId) (stmt shared)
      else some { s with log := s.log ++ [⟨session.kind, [], none⟩] }
  | .run i shared stmt => do
      let (session, c, conn) ← s.tx i
      s.execute session c conn (fun _ => true) (stmt shared)
  | .savepoint i => do
      let (session, c, conn) ← s.tx i
      let frame ← conn.tx.head?
      let settings ← State.begun session.kind frame.settings
      some (s.setTx c conn (⟨settings, []⟩ :: conn.tx))
  | .release i => do
      let (_, c, conn) ← s.tx i
      match conn.tx with
      | top :: below :: rest => some (s.setTx c conn (⟨top.settings, below.changes ++ top.changes⟩ :: rest))
      | _ => none
  | .rollbackTo i => do
      let (_, c, conn) ← s.tx i
      match conn.tx with
      | _ :: below :: rest => some (s.setTx c conn (below :: rest))
      | _ => none
  | .commit i => do
      let (session, c, conn) ← s.tx i
      match conn.tx with
      | [frame] => some { s.finish i session c conn with rows := view frame.changes s.rows }
      | _ => none
  | .rollback i => do
      let (session, c, conn) ← s.tx i
      some (s.finish i session c conn)

/-! ### What a step does -/

variable {s t : State δ α} {i c : Nat} {session : Session} {conn : Connection δ}

theorem tx_eq_some : s.tx i = some (session, c, conn) ↔
    s.sessions[i]? = some session ∧ session.conn = some c ∧ s.conns[c]? = some conn := by
  unfold State.tx
  constructor
  · intro h
    obtain ⟨session', hs, h⟩ := Option.bind_eq_some_iff.mp h
    obtain ⟨c', hc, h⟩ := Option.bind_eq_some_iff.mp h
    obtain ⟨conn', hconn, h⟩ := Option.bind_eq_some_iff.mp h
    cases h
    exact ⟨hs, hc, hconn⟩
  · rintro ⟨hs, hc, hconn⟩
    simp [hs, hc, hconn]

variable [DecidableEq δ]

theorem step_begin (h : step s (.begin i c : Action γ δ α) = some t) : ∃ session conn settings,
    s.sessions[i]? = some session ∧ s.conns[c]? = some conn ∧ session.conn = none ∧ conn.tx = [] ∧
      State.begun session.kind conn.base = some settings ∧
      t = { s with
            conns := s.conns.set c { conn with tx := [⟨settings, []⟩] }
            sessions := s.sessions.set i { session with conn := some c } } := by
  obtain ⟨session, hs, h⟩ := Option.bind_eq_some_iff.mp h
  obtain ⟨conn, hconn, h⟩ := Option.bind_eq_some_iff.mp h
  obtain ⟨hfree, h⟩ := Option.ite_none_right_eq_some.mp h
  obtain ⟨settings, hsettings, h⟩ := Option.bind_eq_some_iff.mp h
  rw [Bool.and_eq_true, Option.isNone_iff_eq_none, List.isEmpty_iff] at hfree
  exact ⟨session, conn, settings, hs, hconn, hfree.1, hfree.2, hsettings, (Option.some.inj h).symm⟩

/-- A statement that was run: the frame of its transaction, its outcome, and the state after it. -/
theorem execute_some {p : Row δ → Bool} {stmt : Statement (Row δ) α}
    (h : s.execute session c conn p stmt = some t) : ∃ frame rest outcome, conn.tx = frame :: rest ∧
      outcome = secured (fun r => (s.bypass || frame.settings.sees r.accountId) && p r) stmt
        (view (State.changes (frame :: rest)) s.rows) ∧
      t = { s.setTx c conn ({ frame with changes := frame.changes ++ (outcome.map Prod.snd).toList } :: rest) with
            log := s.log ++ [⟨session.kind, (view (State.changes (frame :: rest)) s.rows).filter
              (fun r => (s.bypass || frame.settings.sees r.accountId) && p r), outcome⟩] } := by
  unfold State.execute at h
  split at h
  · cases h
  · rename_i frame rest htx
    exact ⟨frame, rest, _, htx, rfl, (Option.some.inj h).symm⟩

theorem step_call {accountId : Int} {shared : γ} {stmt : γ → Statement (Row δ) α}
    (h : step s (.call i accountId shared stmt) = some t) :
    ∃ session c conn, s.tx i = some (session, c, conn) ∧
      (ensureScope session.kind.info accountId = true ∧
          s.execute session c conn (fun r => r.accountId == accountId) (stmt shared) = some t ∨
        ensureScope session.kind.info accountId = false ∧
          t = { s with log := s.log ++ [⟨session.kind, [], none⟩] }) := by
  obtain ⟨⟨session, c, conn⟩, htx, h⟩ := Option.bind_eq_some_iff.mp h
  refine ⟨session, c, conn, htx, ?_⟩
  simp only at h
  split at h
  · rename_i hscope
    exact Or.inl ⟨hscope, h⟩
  · rename_i hscope
    exact Or.inr ⟨Bool.eq_false_iff.mpr hscope, (Option.some.inj h).symm⟩

theorem step_run {shared : γ} {stmt : γ → Statement (Row δ) α} (h : step s (.run i shared stmt) = some t) :
    ∃ session c conn, s.tx i = some (session, c, conn) ∧
      s.execute session c conn (fun _ => true) (stmt shared) = some t := by
  obtain ⟨⟨session, c, conn⟩, htx, h⟩ := Option.bind_eq_some_iff.mp h
  exact ⟨session, c, conn, htx, h⟩

theorem step_savepoint (h : step s (.savepoint i : Action γ δ α) = some t) : ∃ session c conn frame rest settings,
    s.tx i = some (session, c, conn) ∧ conn.tx = frame :: rest ∧
      State.begun session.kind frame.settings = some settings ∧ t = s.setTx c conn (⟨settings, []⟩ :: conn.tx) := by
  obtain ⟨⟨session, c, conn⟩, htx, h⟩ := Option.bind_eq_some_iff.mp h
  obtain ⟨frame, hframe, h⟩ := Option.bind_eq_some_iff.mp h
  obtain ⟨settings, hsettings, h⟩ := Option.bind_eq_some_iff.mp h
  obtain ⟨rest, hrest⟩ := List.head?_eq_some_iff.mp hframe
  exact ⟨session, c, conn, frame, rest, settings, htx, hrest, hsettings, (Option.some.inj h).symm⟩

theorem step_release (h : step s (.release i : Action γ δ α) = some t) : ∃ session c conn top below rest,
    s.tx i = some (session, c, conn) ∧ conn.tx = top :: below :: rest ∧
      t = s.setTx c conn (⟨top.settings, below.changes ++ top.changes⟩ :: rest) := by
  obtain ⟨⟨session, c, conn⟩, htx, h⟩ := Option.bind_eq_some_iff.mp h
  simp only at h
  split at h
  · rename_i top below rest hframes
    exact ⟨session, c, conn, top, below, rest, htx, hframes, (Option.some.inj h).symm⟩
  · cases h

theorem step_rollbackTo (h : step s (.rollbackTo i : Action γ δ α) = some t) : ∃ session c conn top below rest,
    s.tx i = some (session, c, conn) ∧ conn.tx = top :: below :: rest ∧ t = s.setTx c conn (below :: rest) := by
  obtain ⟨⟨session, c, conn⟩, htx, h⟩ := Option.bind_eq_some_iff.mp h
  simp only at h
  split at h
  · rename_i top below rest hframes
    exact ⟨session, c, conn, top, below, rest, htx, hframes, (Option.some.inj h).symm⟩
  · cases h

theorem step_commit (h : step s (.commit i : Action γ δ α) = some t) : ∃ session c conn frame,
    s.tx i = some (session, c, conn) ∧ conn.tx = [frame] ∧
      t = { s.finish i session c conn with rows := view frame.changes s.rows } := by
  obtain ⟨⟨session, c, conn⟩, htx, h⟩ := Option.bind_eq_some_iff.mp h
  simp only at h
  split at h
  · rename_i frame hframes
    exact ⟨session, c, conn, frame, htx, hframes, (Option.some.inj h).symm⟩
  · cases h

theorem step_rollback (h : step s (.rollback i : Action γ δ α) = some t) : ∃ session c conn,
    s.tx i = some (session, c, conn) ∧ t = s.finish i session c conn := by
  obtain ⟨⟨session, c, conn⟩, htx, h⟩ := Option.bind_eq_some_iff.mp h
  exact ⟨session, c, conn, htx, (Option.some.inj h).symm⟩

end MyPerson.Storage
