import MyPerson.Storage.Scope

/-!
# `Storage.Confinement` — a session keeps to its account

Connections go from session to session, and the scope is written anew for each transaction. In every interleaving
of sessions a statement is shown rows of its session's account only, and changes no others; a plain session is
shown nothing. Under a role that the policy does not bind this is still so for the functions of `app/repo`.
The rows of an account change only when a session of this account, or of the owner, commits.

## Contents
- `Scoped`: the settings in force are those of the session that holds the connection; kept by every step;
- `session_confined`, `rows_kept`.
-/

namespace MyPerson.Storage

open Lib

variable {γ δ α : Type} {s t : State δ α} {i c : Nat} {session : Session} {conn : Connection δ} {kind : Kind}

/-- A row that a session of this kind is for. -/
def Kind.allows (kind : Kind) (r : Row δ) : Bool := kind.scope.shows r.accountId

/-- The settings and the changes of a frame are those of a session of this kind. -/
structure FrameOk (kind : Kind) (f : Frame δ) : Prop where
  sees    : ∀ rowAccount, f.settings.sees rowAccount = kind.scope.shows rowAccount
  changes : ∀ change ∈ f.changes, change.Within kind.allows

structure EntryOk (e : Entry δ α) : Prop where
  seen    : ∀ r ∈ e.seen, e.kind.allows r = true
  outcome : ∀ answer change, e.outcome = some (answer, change) → change.Within e.kind.allows

/-- A transaction in progress, run by a session of this kind. -/
def TxOk (kind : Kind) (tx : List (Frame δ)) : Prop := tx ≠ [] ∧ ∀ f ∈ tx, FrameOk kind f

structure Scoped (s : State δ α) : Prop where
  base  : ∀ conn ∈ s.conns, conn.base.Blank
  held  : ∀ (i : Nat) (session : Session) (c : Nat), s.sessions[i]? = some session → session.conn = some c →
    ∃ conn, s.conns[c]? = some conn ∧ TxOk session.kind conn.tx
  apart : ∀ (i j : Nat) (session session' : Session) (c : Nat), s.sessions[i]? = some session → s.sessions[j]? = some session' →
    session.conn = some c → session'.conn = some c → i = j
  log   : ∀ e ∈ s.log, EntryOk e

/-- Under a role that the policy does not bind, only the functions of `app/repo` are run. -/
def Guarded (γ : Type) (s : State δ α) : Action γ δ α → Prop
  | .run _ _ _ => s.bypass = false
  | _ => True

theorem scoped_start (bypass : Bool) (rows : List (Row δ)) : Scoped (start bypass rows : State δ α) where
  base _ h := by cases h
  held _ _ _ h := by cases h
  apart _ _ _ _ _ h := by cases h
  log _ h := by cases h

/-! ## One step -/

/-- The settings a transaction begins with. -/
theorem frameOk_begun {current settings : Settings} (h : State.begun kind current = some settings)
    (hcurrent : kind = .plain → ∀ rowAccount, current.sees rowAccount = false) : FrameOk kind (⟨settings, []⟩ : Frame δ) where
  sees rowAccount := by
    cases kind with
    | data info => exact setScope_sees h rowAccount
    | plain =>
        obtain rfl := Option.some.inj h
        exact hcurrent rfl rowAccount
  changes _ hmem := by cases hmem

theorem Scoped.tx_ok (h : Scoped s) (htx : s.tx i = some (session, c, conn)) : TxOk session.kind conn.tx := by
  obtain ⟨hs, hc, hconn⟩ := tx_eq_some.mp htx
  obtain ⟨conn', hconn', hok⟩ := h.held i session c hs hc
  obtain rfl := Option.some.inj (hconn.symm.trans hconn')
  exact hok

/-- The changes of a whole transaction are about rows that its session is for. -/
theorem TxOk.changes_within {tx : List (Frame δ)} (h : TxOk kind tx) :
    ∀ change ∈ State.changes tx, change.Within kind.allows := by
  intro change hchange
  obtain ⟨f, hf, hmem⟩ := List.mem_flatMap.mp hchange
  exact (h.2 f (List.mem_reverse.mp hf)).changes change hmem

/-- The transaction of a session moves on, on the connection that it holds. -/
theorem Scoped.setTx (h : Scoped s) (htx : s.tx i = some (session, c, conn)) {tx : List (Frame δ)}
    (hok : TxOk session.kind tx) : Scoped (s.setTx c conn tx) where
  base conn' hconn' := by
    obtain ⟨-, -, hconn⟩ := tx_eq_some.mp htx
    rcases List.mem_or_eq_of_mem_set hconn' with hold | rfl
    · exact h.base conn' hold
    · exact h.base conn (List.mem_of_getElem? hconn)
  held j session' c' hs' hc' := by
    obtain ⟨hs, hc, hconn⟩ := tx_eq_some.mp htx
    by_cases heq : c = c'
    · subst heq
      obtain rfl := h.apart i j session session' c hs hs' hc hc'
      obtain rfl := Option.some.inj (hs.symm.trans hs')
      exact ⟨_, List.getElem?_set_self (List.getElem?_eq_some_iff.mp hconn).1, hok⟩
    · obtain ⟨conn', hconn', hok'⟩ := h.held j session' c' hs' hc'
      exact ⟨conn', (List.getElem?_set_ne heq).trans hconn', hok'⟩
  apart := h.apart
  log := h.log

theorem Scoped.addLog (h : Scoped s) {e : Entry δ α} (he : EntryOk e) : Scoped { s with log := s.log ++ [e] } where
  base := h.base
  held := h.held
  apart := h.apart
  log e' he' := (List.mem_append.mp he').elim (h.log e') fun hlast => List.mem_singleton.mp hlast ▸ he

/-- The session has given its connection back. -/
theorem Scoped.finish (h : Scoped s) (htx : s.tx i = some (session, c, conn)) : Scoped (s.finish i session c conn) := by
  obtain ⟨hs, hc, hconn⟩ := tx_eq_some.mp htx
  have hsession : ∀ j session', (s.finish i session c conn).sessions[j]? = some session' → ∀ c', session'.conn = some c' →
      s.sessions[j]? = some session' ∧ j ≠ i := by
    intro j session' hs' c' hc'
    by_cases hj : i = j
    · subst hj
      rw [show (s.finish i session c conn).sessions = s.sessions.set i { session with conn := none } from rfl,
        List.getElem?_set_self (List.getElem?_eq_some_iff.mp hs).1] at hs'
      obtain rfl := Option.some.inj hs'
      cases hc'
    · exact ⟨(List.getElem?_set_ne hj).symm.trans hs', Ne.symm hj⟩
  refine ⟨fun conn' hconn' => ?_, fun j session' c' hs' hc' => ?_, fun j k sj sk c' hj hk hcj hck => ?_, h.log⟩
  · rcases List.mem_or_eq_of_mem_set hconn' with hold | rfl
    · exact h.base conn' hold
    · cases session.kind with
      | data info => exact ⟨Or.inr rfl, Or.inr rfl⟩
      | plain => exact h.base conn (List.mem_of_getElem? hconn)
  · obtain ⟨hold, hne⟩ := hsession j session' hs' c' hc'
    obtain ⟨conn', hconn', hok⟩ := h.held j session' c' hold hc'
    have heq : c ≠ c' := fun heq => hne (h.apart j i session' session c' hold hs hc' (heq ▸ hc))
    exact ⟨conn', (List.getElem?_set_ne heq).trans hconn', hok⟩
  · exact h.apart j k sj sk c' (hsession j sj hj c' hcj).1 (hsession k sk hk c' hck).1 hcj hck

theorem Scoped.begin [DecidableEq δ] (h : Scoped s) (hstep : step s (.begin i c : Action γ δ α) = some t) : Scoped t := by
  obtain ⟨session, conn, settings, hs, hconn, hfree, hidle, hbegun, rfl⟩ := step_begin hstep
  have hlt := (List.getElem?_eq_some_iff.mp hconn).1
  have hlt' := (List.getElem?_eq_some_iff.mp hs).1
  -- nobody else holds a connection that is idle
  have hother : ∀ (j : Nat) (session' : Session), s.sessions[j]? = some session' → session'.conn ≠ some c := by
    intro j session' hs' hc'
    obtain ⟨conn', hconn', hok⟩ := h.held j session' c hs' hc'
    obtain rfl := Option.some.inj (hconn.symm.trans hconn')
    exact hok.1 hidle
  have hframe : FrameOk session.kind (⟨settings, []⟩ : Frame δ) :=
    frameOk_begun hbegun fun _ => (h.base conn (List.mem_of_getElem? hconn)).sees
  refine ⟨fun conn' hconn' => ?_, fun j session' c' hs' hc' => ?_, fun j k sj sk c' hj hk hcj hck => ?_, h.log⟩
  · rcases List.mem_or_eq_of_mem_set hconn' with hold | rfl
    · exact h.base conn' hold
    · exact h.base conn (List.mem_of_getElem? hconn)
  · by_cases hj : i = j
    · subst hj
      rw [List.getElem?_set_self hlt'] at hs'
      obtain rfl := Option.some.inj hs'
      obtain rfl := Option.some.inj hc'
      exact ⟨_, List.getElem?_set_self hlt, List.cons_ne_nil _ _,
        fun f hf => List.mem_singleton.mp hf ▸ hframe⟩
    · rw [List.getElem?_set_ne hj] at hs'
      obtain ⟨conn', hconn', hok⟩ := h.held j session' c' hs' hc'
      have heq : c ≠ c' := fun heq => hother j session' hs' (heq ▸ hc')
      exact ⟨conn', (List.getElem?_set_ne heq).trans hconn', hok⟩
  · by_cases hij : i = j
    · by_cases hik : i = k
      · exact hij.symm.trans hik
      · subst hij
        rw [List.getElem?_set_self hlt'] at hj
        obtain rfl := Option.some.inj hj
        obtain rfl := Option.some.inj hcj
        rw [List.getElem?_set_ne hik] at hk
        exact absurd hck (hother k sk hk)
    · rw [List.getElem?_set_ne hij] at hj
      by_cases hik : i = k
      · subst hik
        rw [List.getElem?_set_self hlt'] at hk
        obtain rfl := Option.some.inj hk
        obtain rfl := Option.some.inj hck
        exact absurd hcj (hother j sj hj)
      · rw [List.getElem?_set_ne hik] at hk
        exact h.apart j k sj sk c' hj hk hcj hck

/-- **A statement is shown, and changes, rows that its session is for.** `p` are the rows that the statement is
    about; a role that the policy does not bind runs it for rows of the session only. -/
theorem Scoped.execute [DecidableEq δ] (h : Scoped s) (htx : s.tx i = some (session, c, conn)) {p : Row δ → Bool}
    {stmt : Statement (Row δ) α} (hp : s.bypass = true → ∀ r, p r = true → session.kind.allows r = true)
    (hrun : s.execute session c conn p stmt = some t) : Scoped t := by
  obtain ⟨frame, rest, outcome, hframes, houtcome, rfl⟩ := execute_some hrun
  have hok := h.tx_ok htx
  rw [hframes] at hok
  have hframe := hok.2 frame List.mem_cons_self
  have hvisible : ∀ r : Row δ, ((s.bypass || frame.settings.sees r.accountId) && p r) = true →
      session.kind.allows r = true := by
    intro r hr
    obtain ⟨hor, hpr⟩ := Bool.and_eq_true_iff.mp hr
    rcases Bool.or_eq_true_iff.mp hor with hbypass | hsees
    · exact hp hbypass r hpr
    · exact (hframe.sees r.accountId).symm.trans hsees
  have hwithin : ∀ answer change, outcome = some (answer, change) → change.Within session.kind.allows :=
    fun answer change heq => (secured_within (houtcome.symm.trans heq)).mono hvisible
  refine (h.setTx htx ⟨List.cons_ne_nil _ _, fun f hf => ?_⟩).addLog
    ⟨fun r hr => hvisible r (List.mem_filter.mp hr).2, hwithin⟩
  rcases List.mem_cons.mp hf with rfl | hf
  · refine ⟨hframe.sees, fun change hchange => ?_⟩
    rcases List.mem_append.mp hchange with hold | hnew
    · exact hframe.changes change hold
    · obtain ⟨⟨answer, change'⟩, heq, rfl⟩ := Option.map_eq_some_iff.mp (Option.mem_toList.mp hnew)
      exact hwithin answer change' heq
  · exact hok.2 f (List.mem_cons_of_mem frame hf)

/-- A session that has just been opened holds no connection. -/
theorem of_getElem?_concat {sessions : List Session} {kind : Kind} (h : (sessions ++ [⟨kind, none⟩])[i]? = some session)
    (hc : session.conn = some c) : sessions[i]? = some session := by
  rw [List.getElem?_append] at h
  split at h
  · exact h
  · obtain rfl := List.mem_singleton.mp (List.mem_of_getElem? h)
    cases hc

/-- **Every step keeps the settings with the sessions.** -/
theorem Scoped.step [DecidableEq δ] (h : Scoped s) {a : Action γ δ α} (hguarded : Guarded γ s a)
    (hstep : Storage.step s a = some t) : Scoped t := by
  cases a with
  | connect =>
      obtain rfl := Option.some.inj hstep
      refine ⟨fun conn hconn => ?_, fun i session c hs hc => ?_, h.apart, h.log⟩
      · rcases List.mem_append.mp hconn with hold | hnew
        · exact h.base conn hold
        · exact List.mem_singleton.mp hnew ▸ ⟨Or.inl rfl, Or.inl rfl⟩
      · obtain ⟨conn, hconn, hok⟩ := h.held i session c hs hc
        exact ⟨conn, (List.getElem?_append_left (List.getElem?_eq_some_iff.mp hconn).1).trans hconn, hok⟩
  | openSession kind =>
      obtain rfl := Option.some.inj hstep
      exact ⟨h.base, fun i session c hs hc => h.held i session c (of_getElem?_concat hs hc) hc,
        fun i j si sj c hi hj hci hcj =>
          h.apart i j si sj c (of_getElem?_concat hi hci) (of_getElem?_concat hj hcj) hci hcj, h.log⟩
  | begin i c => exact h.begin hstep
  | call i accountId shared stmt =>
      obtain ⟨session, c, conn, htx, ⟨hscope, hrun⟩ | ⟨-, rfl⟩⟩ := step_call hstep
      · refine h.execute htx (fun _ r hr => ?_) hrun
        have haccount : r.accountId = accountId := beq_iff_eq.mp hr
        exact (congrArg session.kind.scope.shows haccount).trans (ensureScope_shows hscope)
      · exact h.addLog ⟨fun r hr => (List.not_mem_nil hr).elim, fun _ _ heq => by cases heq⟩
  | run i shared stmt =>
      obtain ⟨session, c, conn, htx, hrun⟩ := step_run hstep
      exact h.execute htx (fun hbypass => by rw [hguarded] at hbypass; cases hbypass) hrun
  | savepoint i =>
      obtain ⟨session, c, conn, frame, rest, settings, htx, hframes, hbegun, rfl⟩ := step_savepoint hstep
      have hok := h.tx_ok htx
      refine h.setTx htx ⟨List.cons_ne_nil _ _, fun f hf => ?_⟩
      rcases List.mem_cons.mp hf with rfl | hf
      · refine frameOk_begun hbegun fun hplain rowAccount => ?_
        rw [(hok.2 frame (hframes ▸ List.mem_cons_self)).sees, hplain]
        rfl
      · exact hok.2 f hf
  | release i =>
      obtain ⟨session, c, conn, top, below, rest, htx, hframes, rfl⟩ := step_release hstep
      have hok := h.tx_ok htx
      rw [hframes] at hok
      have htop := hok.2 top List.mem_cons_self
      have hbelow := hok.2 below (List.mem_cons_of_mem _ List.mem_cons_self)
      refine h.setTx htx ⟨List.cons_ne_nil _ _, fun f hf => ?_⟩
      rcases List.mem_cons.mp hf with rfl | hf
      · exact ⟨htop.sees, fun change hchange =>
          (List.mem_append.mp hchange).elim (hbelow.changes change) (htop.changes change)⟩
      · exact hok.2 f (List.mem_cons_of_mem _ (List.mem_cons_of_mem _ hf))
  | rollbackTo i =>
      obtain ⟨session, c, conn, top, below, rest, htx, hframes, rfl⟩ := step_rollbackTo hstep
      have hok := h.tx_ok htx
      rw [hframes] at hok
      exact h.setTx htx ⟨List.cons_ne_nil _ _, fun f hf => hok.2 f (List.mem_cons_of_mem _ hf)⟩
  | commit i =>
      obtain ⟨session, c, conn, frame, htx, -, rfl⟩ := step_commit hstep
      have hfinish := h.finish htx
      exact ⟨hfinish.base, hfinish.held, hfinish.apart, hfinish.log⟩
  | rollback i =>
      obtain ⟨session, c, conn, htx, rfl⟩ := step_rollback hstep
      exact h.finish htx

/-! ## Whole runs -/

variable [DecidableEq δ]

theorem scoped_run {bypass : Bool} {rows : List (Row δ)}
    (h : Run step (Guarded γ) (start bypass rows : State δ α) s) : Scoped s :=
  h.invariant (fun _ _ _ hx hok hstep => hx.step hok hstep) (scoped_start bypass rows)

/-- **A session keeps to its account.** In every interleaving, whichever connections the sessions pass on to each
    other: a statement of an account's session is shown rows of this account and changes no others, a statement
    of a session that carries no scope is shown nothing and changes nothing. -/
theorem session_confined {bypass : Bool} {rows : List (Row δ)}
    (h : Run step (Guarded γ) (start bypass rows : State δ α) s) {e : Entry δ α} (he : e ∈ s.log) :
    (∀ accountId, e.kind = .data (accountDb accountId) →
        (∀ r ∈ e.seen, r.accountId = accountId) ∧
        ∀ answer change, e.outcome = some (answer, change) →
          ∀ r ∈ change.removed ++ change.added, r.accountId = accountId) ∧
      (e.kind = .plain →
        e.seen = [] ∧ ∀ answer change, e.outcome = some (answer, change) → change = ⟨[], []⟩) := by
  obtain ⟨hseen, houtcome⟩ := (scoped_run h).log e he
  refine ⟨fun accountId hkind => ⟨fun r hr => ?_, fun answer change heq r hr => ?_⟩, fun hkind => ⟨?_, ?_⟩⟩
  · have hallows := hseen r hr
    rw [hkind] at hallows
    exact beq_iff_eq.mp hallows
  · have hwithin := houtcome answer change heq
    rw [hkind] at hwithin
    exact (List.mem_append.mp hr).elim (fun hr => beq_iff_eq.mp (hwithin.1 r hr))
      fun hr => beq_iff_eq.mp (hwithin.2 r hr)
  · refine List.eq_nil_iff_forall_not_mem.mpr fun r hr => ?_
    have hallows := hseen r hr
    rw [hkind] at hallows
    cases hallows
  · intro answer change heq
    have hwithin := houtcome answer change heq
    rw [hkind] at hwithin
    obtain ⟨removed, added⟩ := change
    congr 1
    · exact List.eq_nil_iff_forall_not_mem.mpr fun r hr => Bool.false_ne_true (hwithin.1 r hr)
    · exact List.eq_nil_iff_forall_not_mem.mpr fun r hr => Bool.false_ne_true (hwithin.2 r hr)

/-- The step is not the commit of a session that is for the account. -/
def NotFrom (γ : Type) (accountId : Int) (s : State δ α) (a : Action γ δ α) : Prop :=
  Guarded γ s a ∧ ∀ i, a = .commit i → ∀ session, s.sessions[i]? = some session → session.kind.scope.shows accountId = false

/-- **The rows of an account change when its own session commits, or the owner's**, and at no other step, whatever
    the other sessions run. -/
theorem rows_kept {bypass : Bool} {rows : List (Row δ)} {accountId : Int}
    (h : Run step (Guarded γ) (start bypass rows : State δ α) s) (h' : Run step (NotFrom γ accountId) s t) :
    t.rows.filter (fun r => r.accountId == accountId) = s.rows.filter fun r => r.accountId == accountId := by
  refine h'.relation (P := Scoped) (R := fun s t => t.rows.filter (fun r => r.accountId == accountId) =
    s.rows.filter fun r => r.accountId == accountId) (fun _ => rfl) (fun _ _ _ h₁ h₂ => h₂.trans h₁)
    (fun _ _ _ hx hok hstep => hx.step hok.1 hstep) ?_ (scoped_run h)
  intro x a y hx hok hstep
  cases a with
  | commit i =>
      obtain ⟨session, c, conn, frame, htx, hframes, rfl⟩ := step_commit hstep
      have hshows := hok.2 i rfl session (tx_eq_some.mp htx).1
      have hframe := (hx.tx_ok htx).2 frame (hframes ▸ List.mem_cons_self)
      refine filter_view_of_disjoint hframe.changes (fun r hr => ?_) x.rows
      refine beq_eq_false_iff_ne.mpr fun heq => ?_
      have htrue : session.kind.scope.shows accountId = true := heq ▸ hr
      rw [hshows] at htrue
      cases htrue
  | connect =>
      obtain rfl := Option.some.inj hstep
      rfl
  | openSession kind =>
      obtain rfl := Option.some.inj hstep
      rfl
  | begin i c =>
      obtain ⟨session, conn, settings, -, -, -, -, -, rfl⟩ := step_begin hstep
      rfl
  | call i account shared stmt =>
      obtain ⟨session, c, conn, htx, ⟨-, hrun⟩ | ⟨-, rfl⟩⟩ := step_call hstep
      · obtain ⟨frame, rest, outcome, -, -, rfl⟩ := execute_some hrun
        rfl
      · rfl
  | run i shared stmt =>
      obtain ⟨session, c, conn, htx, hrun⟩ := step_run hstep
      obtain ⟨frame, rest, outcome, -, -, rfl⟩ := execute_some hrun
      rfl
  | savepoint i =>
      obtain ⟨session, c, conn, frame, rest, settings, -, -, -, rfl⟩ := step_savepoint hstep
      rfl
  | release i =>
      obtain ⟨session, c, conn, top, below, rest, -, -, rfl⟩ := step_release hstep
      rfl
  | rollbackTo i =>
      obtain ⟨session, c, conn, top, below, rest, -, -, rfl⟩ := step_rollbackTo hstep
      rfl
  | rollback i =>
      obtain ⟨session, c, conn, -, rfl⟩ := step_rollback hstep
      rfl

/-! ### Two accounts and a plain session on one connection -/

/-- `SELECT *`, and an `INSERT` for the account 1 with an id of the sequence. -/
def selectAndInsert (nextval : Nat) : Statement (Row Nat) (List (Row Nat)) := fun rows => (rows, ⟨[], [⟨1, nextval⟩]⟩)

def bothRows : List (Row Nat) := [⟨1, 10⟩, ⟨2, 20⟩]

def oneConnection : List (Action Nat Nat (List (Row Nat))) :=
  [.connect, .openSession (.data (accountDb 1)), .openSession (.data (accountDb 2)), .openSession .plain,
    .begin 0 0, .run 0 5 selectAndInsert, .commit 0, .begin 1 0, .call 1 2 6 selectAndInsert,
    .call 1 1 7 selectAndInsert, .commit 1, .begin 2 0, .run 2 8 selectAndInsert]

def guarded (s : State Nat (List (Row Nat))) : Action Nat Nat (List (Row Nat)) → Bool
  | .run _ _ _ => !s.bypass
  | _ => true

theorem guarded_spec (s : State Nat (List (Row Nat))) (a : Action Nat Nat (List (Row Nat)))
    (h : guarded s a = true) : Guarded Nat s a := by
  cases a with
  | run i shared stmt => exact (Bool.not_eq_true' _).mp h
  | _ => exact trivial

theorem oneConnection_possible : (execOk step guarded (start false bothRows) oneConnection).isSome = true := by
  decide +kernel

def oneConnectionState : State Nat (List (Row Nat)) :=
  (execOk step guarded (start false bothRows) oneConnection).get oneConnection_possible

theorem oneConnection_run : Run step (Guarded Nat) (start false bothRows) oneConnectionState :=
  Run.of_execOk guarded_spec (Option.some_get oneConnection_possible).symm

theorem oneConnection_logged : oneConnectionState.log ≠ [] := by
  intro h
  have hlength : oneConnectionState.log.length = 4 := by decide +kernel
  rw [h] at hlength
  cases hlength

theorem session_confined_oneConnection :
    (∀ accountId, (oneConnectionState.log.head oneConnection_logged).kind = .data (accountDb accountId) →
        (∀ r ∈ (oneConnectionState.log.head oneConnection_logged).seen, r.accountId = accountId) ∧
        ∀ answer change, (oneConnectionState.log.head oneConnection_logged).outcome = some (answer, change) →
          ∀ r ∈ change.removed ++ change.added, r.accountId = accountId) ∧
      ((oneConnectionState.log.head oneConnection_logged).kind = .plain →
        (oneConnectionState.log.head oneConnection_logged).seen = [] ∧
          ∀ answer change, (oneConnectionState.log.head oneConnection_logged).outcome = some (answer, change) →
            change = ⟨[], []⟩) :=
  session_confined oneConnection_run (List.head_mem oneConnection_logged)

/-- What the four statements were shown. -/
example : oneConnectionState.log.map Entry.seen = [[⟨1, 10⟩], [⟨2, 20⟩], [], []] := by decide +kernel

def notFromTwo (s : State Nat (List (Row Nat))) (a : Action Nat Nat (List (Row Nat))) : Bool :=
  guarded s a && match a with
    | .commit i => s.sessions[i]?.all fun session => !session.kind.scope.shows 2
    | _ => true

theorem notFromTwo_spec (s : State Nat (List (Row Nat))) (a : Action Nat Nat (List (Row Nat)))
    (h : notFromTwo s a = true) : NotFrom Nat 2 s a := by
  obtain ⟨hguarded, hcommit⟩ := Bool.and_eq_true_iff.mp h
  refine ⟨guarded_spec s a hguarded, ?_⟩
  rintro i rfl session hs
  have hall : s.sessions[i]?.all (fun session => !session.kind.scope.shows 2) = true := hcommit
  rw [hs, Option.all_some] at hall
  exact (Bool.not_eq_true' _).mp hall

theorem firstAccount_possible :
    (execOk step notFromTwo (start false bothRows) (oneConnection.take 10)).isSome = true := by
  decide +kernel

theorem rows_kept_firstAccount :
    ((execOk step notFromTwo (start false bothRows) (oneConnection.take 10)).get firstAccount_possible).rows.filter
        (fun r => r.accountId == 2) =
      (start false bothRows : State Nat (List (Row Nat))).rows.filter fun r => r.accountId == 2 :=
  rows_kept (.refl _) (Run.of_execOk notFromTwo_spec (Option.some_get firstAccount_possible).symm)

end MyPerson.Storage
