import MyPerson.Storage.Confinement

/-!
# `Storage.Noninterference` — what an account reads of the others

The others reach an account's sessions through the id sequences and the tables that all share, and not otherwise.
Two databases that agree on the rows of an account, with the same interleaving of sessions on any connections,
show the account's statements the same rows, give them the same answers and leave them the same rows, when these take
the same from what is shared; the statements of the others may be others. The role is one that the policy binds, and
sessions of the owner are left out, since they may copy rows from one account to another.

## Contents
- `Alike`: two states that an account cannot tell apart; kept by a step on both sides;
- `SameFor`: two runs that differ in the statements of other accounts;
- `account_noninterference`.
-/

namespace MyPerson.Storage

open Lib

variable {γ δ α : Type} {s s' t t' : State δ α} {i c : Nat} {session : Session} {conn conn' : Connection δ}
  {accountId : Int}

/-- A connection up to the changes of its transaction. -/
def Connection.shape (conn : Connection δ) : Settings × List Settings := (conn.base, conn.tx.map Frame.settings)

def Kind.isFor (accountId : Int) (kind : Kind) : Bool := decide (kind.scope = .account accountId)

structure Alike (accountId : Int) (s s' : State δ α) : Prop where
  bypass   : s.bypass = false
  bypass'  : s'.bypass = false
  rows     : s.rows.filter (fun r => r.accountId == accountId) = s'.rows.filter fun r => r.accountId == accountId
  sessions : s.sessions = s'.sessions
  noOwner  : ∀ session ∈ s.sessions, session.kind.scope ≠ .owner
  conns    : s.conns.map Connection.shape = s'.conns.map Connection.shape
  own      : ∀ (i : Nat) (session : Session) (c : Nat), s.sessions[i]? = some session → session.conn = some c →
    session.kind.isFor accountId = true → s.conns[c]? = s'.conns[c]?
  log      : s.log.filter (fun e => e.kind.isFor accountId) = s'.log.filter fun e => e.kind.isFor accountId

theorem alike_start {rows rows' : List (Row δ)}
    (h : rows.filter (fun r => r.accountId == accountId) = rows'.filter fun r => r.accountId == accountId) :
    Alike accountId (start false rows : State δ α) (start false rows') where
  bypass := rfl
  bypass' := rfl
  rows := h
  sessions := rfl
  noOwner _ hmem := by cases hmem
  conns := rfl
  own _ _ _ hs := by cases hs
  log := rfl

/-! ## The two sides of a step -/

theorem Alike.length (h : Alike accountId s s') : s.conns.length = s'.conns.length := by
  have hlength := congrArg List.length h.conns
  rwa [List.length_map, List.length_map] at hlength

/-- The connections with the same number on both sides. -/
theorem Alike.connection (h : Alike accountId s s') (hconn : s.conns[c]? = some conn) :
    ∃ conn', s'.conns[c]? = some conn' ∧ conn.shape = conn'.shape := by
  have hshape := congrArg (fun l => l[c]?) h.conns
  simp only [List.getElem?_map, hconn, Option.map_some] at hshape
  obtain ⟨conn', hconn', heq⟩ := Option.map_eq_some_iff.mp hshape.symm
  exact ⟨conn', hconn', heq.symm⟩

/-- A session is in a transaction on both sides, on the same connection; and if it is the account's, on an equal one. -/
theorem Alike.tx (h : Alike accountId s s') (htx : s.tx i = some (session, c, conn)) :
    ∃ conn', s'.tx i = some (session, c, conn') ∧ conn.shape = conn'.shape ∧
      (session.kind.isFor accountId = true → conn = conn') := by
  obtain ⟨hs, hc, hconn⟩ := tx_eq_some.mp htx
  obtain ⟨conn', hconn', hshape⟩ := h.connection hconn
  refine ⟨conn', tx_eq_some.mpr ⟨h.sessions ▸ hs, hc, hconn'⟩, hshape, fun hown => ?_⟩
  have heq := h.own i session c hs hc hown
  rw [hconn, hconn'] at heq
  exact Option.some.inj heq

/-- The connection of a session moves on, on both sides. -/
theorem Alike.set (h : Alike accountId s s') (hscoped : Scoped s) (htx : s.tx i = some (session, c, conn))
    {new new' : Connection δ} (hshape : new.shape = new'.shape)
    (hown : session.kind.isFor accountId = true → new = new') :
    Alike accountId { s with conns := s.conns.set c new } { s' with conns := s'.conns.set c new' } where
  bypass := h.bypass
  bypass' := h.bypass'
  rows := h.rows
  sessions := h.sessions
  noOwner := h.noOwner
  conns := by rw [List.map_set, List.map_set, h.conns, hshape]
  own j session' c' hs' hc' hown' := by
    obtain ⟨hs, hc, -⟩ := tx_eq_some.mp htx
    by_cases heq : c = c'
    · subst heq
      obtain rfl := hscoped.apart i j session session' c hs hs' hc hc'
      obtain rfl := Option.some.inj (hs.symm.trans hs')
      simp only [List.getElem?_set, h.length, hown hown', if_true]
    · rw [List.getElem?_set_ne heq, List.getElem?_set_ne heq]
      exact h.own j session' c' hs' hc' hown'
  log := h.log

theorem Alike.setTx (h : Alike accountId s s') (hscoped : Scoped s) (htx : s.tx i = some (session, c, conn))
    {tx tx' : List (Frame δ)} (hbase : conn.base = conn'.base)
    (hsettings : tx.map Frame.settings = tx'.map Frame.settings)
    (hown : session.kind.isFor accountId = true → tx = tx') :
    Alike accountId (s.setTx c conn tx) (s'.setTx c conn' tx') := by
  refine h.set hscoped htx (Prod.ext hbase hsettings) fun hown' => ?_
  rw [hown hown', hbase]

theorem Alike.addLog (h : Alike accountId s s') {e e' : Entry δ α} (hkind : e.kind = e'.kind)
    (hown : e.kind.isFor accountId = true → e = e') :
    Alike accountId { s with log := s.log ++ [e] } { s' with log := s'.log ++ [e'] } where
  bypass := h.bypass
  bypass' := h.bypass'
  rows := h.rows
  sessions := h.sessions
  noOwner := h.noOwner
  conns := h.conns
  own := h.own
  log := by
    rw [List.filter_append, List.filter_append, h.log]
    congr 1
    by_cases hfor : e.kind.isFor accountId = true
    · rw [hown hfor]
    · have hfor' : ¬ e'.kind.isFor accountId = true := hkind ▸ hfor
      simp [hfor, hfor']

theorem Alike.finish (h : Alike accountId s s') (hscoped : Scoped s) (htx : s.tx i = some (session, c, conn))
    (hbase : conn.base = conn'.base) :
    Alike accountId (s.finish i session c conn) (s'.finish i session c conn') where
  bypass := h.bypass
  bypass' := h.bypass'
  rows := h.rows
  sessions := by rw [State.finish, State.finish, h.sessions]
  noOwner session' hmem := by
    rcases List.mem_or_eq_of_mem_set hmem with hold | rfl
    · exact h.noOwner session' hold
    · exact h.noOwner session (List.mem_of_getElem? (tx_eq_some.mp htx).1)
  conns := by
    simp only [State.finish, List.map_set, h.conns, hbase]
  own j session' c' hs' hc' hown' := by
    obtain ⟨hs, hc, -⟩ := tx_eq_some.mp htx
    have hne : i ≠ j := by
      rintro rfl
      rw [show (s.finish i session c conn).sessions = s.sessions.set i { session with conn := none } from rfl,
        List.getElem?_set_self (List.getElem?_eq_some_iff.mp hs).1] at hs'
      obtain rfl := Option.some.inj hs'
      cases hc'
    have hold : s.sessions[j]? = some session' := (List.getElem?_set_ne hne).symm.trans hs'
    have hc'' : c ≠ c' := fun heq => hne (hscoped.apart i j session session' c hs hold hc (heq ▸ hc'))
    simp only [State.finish, List.getElem?_set_ne hc'']
    exact h.own j session' c' hold hc' hown'
  log := h.log

/-- The rows that a transaction of the account works on, as far as the policy shows them. -/
theorem filter_view_own {changes : List (Change (Row δ))} [DecidableEq δ] {rows rows' : List (Row δ)}
    (hchanges : ∀ change ∈ changes, change.Within fun r => r.accountId == accountId) {p : Row δ → Bool}
    (hp : ∀ r, p r = true → (r.accountId == accountId) = true)
    (h : rows.filter (fun r => r.accountId == accountId) = rows'.filter fun r => r.accountId == accountId) :
    (view changes rows).filter p = (view changes rows').filter p := by
  have hsplit : ∀ l : List (Row δ), l.filter p = (l.filter fun r => r.accountId == accountId).filter p := by
    intro l
    rw [List.filter_filter]
    refine List.filter_congr fun r _ => ?_
    cases hr : p r with
    | false => rfl
    | true => rw [hp r hr]; rfl
  rw [hsplit, hsplit (view changes rows'), filter_view hchanges, filter_view hchanges, h]

theorem isFor_shows {kind : Kind} (h : kind.isFor accountId = true) (rowAccount : Int) :
    kind.scope.shows rowAccount = (rowAccount == accountId) := by
  rw [of_decide_eq_true h]
  rfl

/-- A row that a session of another account may touch is not the account's. -/
theorem not_of_allows {kind : Kind} {r : Row δ} (howner : kind.scope ≠ .owner) (hfor : ¬ kind.isFor accountId = true)
    (hr : kind.allows r = true) : (r.accountId == accountId) = false := by
  unfold Kind.allows at hr
  unfold Kind.isFor at hfor
  cases hscope : kind.scope with
  | owner => exact absurd hscope howner
  | nothing =>
      rw [hscope] at hr
      cases hr
  | account other =>
      rw [hscope] at hr hfor
      have hrow : r.accountId = other := beq_iff_eq.mp hr
      refine beq_eq_false_iff_ne.mpr fun heq => hfor (decide_eq_true ?_)
      rw [← hrow, heq]

/-- A transaction begins, on both sides. -/
theorem Alike.begin (h : Alike accountId s s') {settings : Settings} (hs : s.sessions[i]? = some session)
    (hconn : s.conns[c]? = some conn) (hconn' : s'.conns[c]? = some conn') (hbase : conn.base = conn'.base) :
    Alike accountId
      { s with
        conns := s.conns.set c { conn with tx := [⟨settings, []⟩] }
        sessions := s.sessions.set i { session with conn := some c } }
      { s' with
        conns := s'.conns.set c { conn' with tx := [⟨settings, []⟩] }
        sessions := s'.sessions.set i { session with conn := some c } } where
  bypass := h.bypass
  bypass' := h.bypass'
  rows := h.rows
  sessions := congrArg (fun l => l.set i { session with conn := some c }) h.sessions
  noOwner session' hmem := by
    rcases List.mem_or_eq_of_mem_set hmem with hold | rfl
    · exact h.noOwner session' hold
    · exact h.noOwner session (List.mem_of_getElem? hs)
  conns := by simp only [List.map_set, h.conns, Connection.shape, hbase]
  own j session' c' hj hcj hown := by
    by_cases heq : c = c'
    · subst heq
      simp only [List.getElem?_set_self (List.getElem?_eq_some_iff.mp hconn).1,
        List.getElem?_set_self (List.getElem?_eq_some_iff.mp hconn').1, hbase]
    · simp only [List.getElem?_set_ne heq]
      by_cases hij : i = j
      · subst hij
        rw [List.getElem?_set_self (List.getElem?_eq_some_iff.mp hs).1] at hj
        obtain rfl := Option.some.inj hj
        exact absurd (Option.some.inj hcj) heq
      · exact h.own j session' c' ((List.getElem?_set_ne hij).symm.trans hj) hcj hown
  log := h.log

variable [DecidableEq δ]

/-- A statement, on both sides. -/
theorem Alike.execute (h : Alike accountId s s') (hscoped : Scoped s) (hscoped' : Scoped s')
    (htx : s.tx i = some (session, c, conn)) {p : Row δ → Bool} {stmt : Statement (Row δ) α}
    (hrun : s.execute session c conn p stmt = some t) :
    ∃ conn' t', s'.tx i = some (session, c, conn') ∧ s'.execute session c conn' p stmt = some t' ∧ Alike accountId t t' := by
  obtain ⟨conn', htx', hshape, hown⟩ := h.tx htx
  obtain ⟨frame, rest, outcome, hframes, houtcome, rfl⟩ := execute_some hrun
  have hok := hscoped.tx_ok htx
  obtain ⟨frame', rest', hframes'⟩ := List.exists_cons_of_ne_nil (hscoped'.tx_ok htx').1
  have hsettings := congrArg Prod.snd hshape
  simp only [Connection.shape, hframes, hframes', List.map_cons, List.cons.injEq] at hsettings
  refine ⟨conn', _, htx', by rw [State.execute, hframes'], ?_⟩
  have hequal : session.kind.isFor accountId = true → frame = frame' ∧ rest = rest' := fun hfor => by
    have heq := hframes.symm.trans ((congrArg Connection.tx (hown hfor)).trans hframes')
    exact List.cons.inj heq
  -- the account's own statement is shown the same rows
  have hshown : session.kind.isFor accountId = true →
      (view (State.changes (frame :: rest)) s.rows).filter
          (fun r => (s.bypass || frame.settings.sees r.accountId) && p r) =
        (view (State.changes (frame' :: rest')) s'.rows).filter
          (fun r => (s'.bypass || frame'.settings.sees r.accountId) && p r) := by
    intro hfor
    obtain ⟨rfl, rfl⟩ := hequal hfor
    rw [h.bypass, h.bypass']
    refine filter_view_own (fun change hchange => ?_) (fun r hr => ?_) h.rows
    · exact ((hframes ▸ hok).changes_within change hchange).mono fun r hr => (isFor_shows hfor r.accountId) ▸ hr
    · have hsees := (Bool.and_eq_true_iff.mp hr).1
      rw [Bool.false_or, (hok.2 frame (hframes ▸ List.mem_cons_self)).sees, isFor_shows hfor] at hsees
      exact hsees
  have hsame : session.kind.isFor accountId = true → outcome =
      secured (fun r => (s'.bypass || frame'.settings.sees r.accountId) && p r) stmt
        (view (State.changes (frame' :: rest')) s'.rows) := by
    intro hfor
    have hrows := hshown hfor
    obtain ⟨rfl, rfl⟩ := hequal hfor
    rw [houtcome]
    rw [h.bypass, h.bypass'] at hrows ⊢
    exact secured_congr stmt hrows
  refine (h.setTx hscoped htx (congrArg Prod.fst hshape) ?_ fun hfor => ?_).addLog rfl fun hfor => ?_
  · rw [List.map_cons, List.map_cons, hsettings.1, hsettings.2]
  · obtain ⟨rfl, rfl⟩ := hequal hfor
    rw [hsame hfor]
  · rw [hshown hfor, hsame hfor]

/-- **One step, on both sides.** -/
theorem Alike.step (h : Alike accountId s s') (hscoped : Scoped s) (hscoped' : Scoped s') {a : Action γ δ α}
    (howner : ∀ kind, a = .openSession kind → kind.scope ≠ .owner) (hstep : Storage.step s a = some t) :
    ∃ t', Storage.step s' a = some t' ∧ Alike accountId t t' := by
  cases a with
  | connect =>
      obtain rfl := Option.some.inj hstep
      refine ⟨_, rfl, h.bypass, h.bypass', h.rows, h.sessions, h.noOwner, ?_, fun i session c hs hc hown => ?_, h.log⟩
      · rw [List.map_append, List.map_append, h.conns]
      · rw [List.getElem?_append, List.getElem?_append, h.length, h.own i session c hs hc hown]
  | openSession kind =>
      obtain rfl := Option.some.inj hstep
      refine ⟨_, rfl, h.bypass, h.bypass', h.rows, congrArg (· ++ [⟨kind, none⟩]) h.sessions, fun session hmem => ?_,
        h.conns, fun i session c hs hc hown => h.own i session c (of_getElem?_concat hs hc) hc hown, h.log⟩
      rcases List.mem_append.mp hmem with hold | hnew
      · exact h.noOwner session hold
      · exact List.mem_singleton.mp hnew ▸ howner kind rfl
  | begin i c =>
      obtain ⟨session, conn, settings, hs, hconn, hfree, hidle, hbegun, rfl⟩ := step_begin hstep
      obtain ⟨conn', hconn', hshape⟩ := h.connection hconn
      have hbase : conn.base = conn'.base := congrArg Prod.fst hshape
      have hidle' : conn'.tx = [] := by
        have hnil := congrArg Prod.snd hshape
        rw [Connection.shape, Connection.shape, hidle] at hnil
        exact List.map_eq_nil_iff.mp hnil.symm
      have hs' : s'.sessions[i]? = some session := h.sessions ▸ hs
      exact ⟨_, by simp [Storage.step, hs', hconn', hfree, hidle', ← hbase, hbegun], h.begin hs hconn hconn' hbase⟩
  | call i account shared stmt =>
      obtain ⟨session, c, conn, htx, ⟨hscope, hrun⟩ | ⟨hscope, rfl⟩⟩ := step_call hstep
      · obtain ⟨conn', t', htx', hrun', halike⟩ := h.execute hscoped hscoped' htx hrun
        exact ⟨t', by simp [Storage.step, htx', hscope, hrun'], halike⟩
      · obtain ⟨conn', htx', -, -⟩ := h.tx htx
        exact ⟨_, by simp [Storage.step, htx', hscope], h.addLog rfl fun _ => rfl⟩
  | run i shared stmt =>
      obtain ⟨session, c, conn, htx, hrun⟩ := step_run hstep
      obtain ⟨conn', t', htx', hrun', halike⟩ := h.execute hscoped hscoped' htx hrun
      exact ⟨t', by simp [Storage.step, htx', hrun'], halike⟩
  | savepoint i =>
      obtain ⟨session, c, conn, frame, rest, settings, htx, hframes, hbegun, rfl⟩ := step_savepoint hstep
      obtain ⟨conn', htx', hshape, hown⟩ := h.tx htx
      obtain ⟨frame', rest', hframes'⟩ := List.exists_cons_of_ne_nil (hscoped'.tx_ok htx').1
      have hsettings := congrArg Prod.snd hshape
      have hhead : frame.settings = frame'.settings := by
        simp only [Connection.shape, hframes, hframes', List.map_cons, List.cons.injEq] at hsettings
        exact hsettings.1
      refine ⟨s'.setTx c conn' (⟨settings, []⟩ :: conn'.tx), by simp [Storage.step, htx', hframes', ← hhead, hbegun], ?_⟩
      refine h.setTx hscoped htx (congrArg Prod.fst hshape) ?_ fun hfor => by rw [hown hfor]
      rw [List.map_cons, List.map_cons]
      exact congrArg (settings :: ·) hsettings
  | release i =>
      obtain ⟨session, c, conn, top, below, rest, htx, hframes, rfl⟩ := step_release hstep
      obtain ⟨conn', htx', hshape, hown⟩ := h.tx htx
      have hsettings := congrArg Prod.snd hshape
      simp only [Connection.shape, hframes, List.map_cons] at hsettings
      obtain ⟨top', l, hframes', htop, hl⟩ := List.map_eq_cons_iff.mp hsettings.symm
      obtain ⟨below', rest', rfl, hbelow, hrest⟩ := List.map_eq_cons_iff.mp hl
      refine ⟨s'.setTx c conn' (⟨top'.settings, below'.changes ++ top'.changes⟩ :: rest'),
        by simp [Storage.step, htx', hframes'], ?_⟩
      refine h.setTx hscoped htx (congrArg Prod.fst hshape) ?_ fun hfor => ?_
      · rw [List.map_cons, List.map_cons, hrest]
        exact congrArg (· :: _) htop.symm
      · obtain ⟨rfl, heq⟩ := List.cons.inj (hframes.symm.trans ((congrArg Connection.tx (hown hfor)).trans hframes'))
        obtain ⟨rfl, rfl⟩ := List.cons.inj heq
        rfl
  | rollbackTo i =>
      obtain ⟨session, c, conn, top, below, rest, htx, hframes, rfl⟩ := step_rollbackTo hstep
      obtain ⟨conn', htx', hshape, hown⟩ := h.tx htx
      have hsettings := congrArg Prod.snd hshape
      simp only [Connection.shape, hframes, List.map_cons] at hsettings
      obtain ⟨top', l, hframes', htop, hl⟩ := List.map_eq_cons_iff.mp hsettings.symm
      obtain ⟨below', rest', rfl, hbelow, hrest⟩ := List.map_eq_cons_iff.mp hl
      refine ⟨s'.setTx c conn' (below' :: rest'), by simp [Storage.step, htx', hframes'], ?_⟩
      refine h.setTx hscoped htx (congrArg Prod.fst hshape) ?_ fun hfor => ?_
      · rw [List.map_cons, List.map_cons, hrest, hbelow]
      · obtain ⟨-, heq⟩ := List.cons.inj (hframes.symm.trans ((congrArg Connection.tx (hown hfor)).trans hframes'))
        exact heq
  | commit i =>
      obtain ⟨session, c, conn, frame, htx, hframes, rfl⟩ := step_commit hstep
      obtain ⟨conn', htx', hshape, hown⟩ := h.tx htx
      have hsettings := congrArg Prod.snd hshape
      simp only [Connection.shape, hframes, List.map_cons, List.map_nil] at hsettings
      obtain ⟨frame', l, hframes', -, hl⟩ := List.map_eq_cons_iff.mp hsettings.symm
      obtain rfl := List.map_eq_nil_iff.mp hl
      have hfinish := h.finish hscoped htx (congrArg Prod.fst hshape)
      refine ⟨{ s'.finish i session c conn' with rows := view frame'.changes s'.rows },
        by simp [Storage.step, htx', hframes'], hfinish.bypass, hfinish.bypass', ?_, hfinish.sessions,
        hfinish.noOwner, hfinish.conns, hfinish.own, hfinish.log⟩
      have hframe := (hscoped.tx_ok htx).2 frame (hframes ▸ List.mem_cons_self)
      have hframe' := (hscoped'.tx_ok htx').2 frame' (hframes' ▸ List.mem_cons_self)
      show (view frame.changes s.rows).filter _ = (view frame'.changes s'.rows).filter _
      by_cases hfor : session.kind.isFor accountId = true
      · obtain ⟨rfl, -⟩ := List.cons.inj (hframes.symm.trans ((congrArg Connection.tx (hown hfor)).trans hframes'))
        refine filter_view_own (fun change hchange => ?_) (fun _ hr => hr) h.rows
        exact (hframe.changes change hchange).mono fun r hr => (isFor_shows hfor r.accountId) ▸ hr
      · -- another account's commit leaves the rows alone
        have howner := h.noOwner session (List.mem_of_getElem? (tx_eq_some.mp htx).1)
        have hother := fun r : Row δ => not_of_allows (r := r) howner hfor
        rw [filter_view_of_disjoint hframe.changes hother, filter_view_of_disjoint hframe'.changes hother, h.rows]
  | rollback i =>
      obtain ⟨session, c, conn, htx, rfl⟩ := step_rollback hstep
      obtain ⟨conn', htx', hshape, -⟩ := h.tx htx
      exact ⟨_, by simp [Storage.step, htx'], h.finish hscoped htx (congrArg Prod.fst hshape)⟩

/-! ### Statements of the others -/

/-- The session whose statement it is. -/
def Action.statementOf : Action γ δ α → Option Nat
  | .call i _ _ _ | .run i _ _ => some i
  | _ => none

/-- What a statement may change: the changes of its session's transaction, and the log. -/
theorem statement_moves {a : Action γ δ α} (ha : a.statementOf = some i) (h : Storage.step s a = some t) :
    ∃ session c conn tx e, s.tx i = some (session, c, conn) ∧ tx.map Frame.settings = conn.tx.map Frame.settings ∧
      e.kind = session.kind ∧ t = { s.setTx c conn tx with log := s.log ++ [e] } := by
  have hexecute : ∀ {session : Session} {c : Nat} {conn : Connection δ} {p : Row δ → Bool}
      {stmt : Statement (Row δ) α}, s.execute session c conn p stmt = some t → ∃ tx e,
        tx.map Frame.settings = conn.tx.map Frame.settings ∧ e.kind = session.kind ∧
        t = { s.setTx c conn tx with log := s.log ++ [e] } := by
    intro session c conn p stmt hrun
    obtain ⟨frame, rest, outcome, hframes, -, rfl⟩ := execute_some hrun
    exact ⟨_, _, by rw [hframes]; rfl, rfl, rfl⟩
  cases a with
  | call j account shared stmt =>
      obtain rfl := Option.some.inj ha
      obtain ⟨session, c, conn, htx, ⟨-, hrun⟩ | ⟨-, rfl⟩⟩ := step_call h
      · obtain ⟨tx, e, hsettings, hkind, rfl⟩ := hexecute hrun
        exact ⟨session, c, conn, tx, e, htx, hsettings, hkind, rfl⟩
      · obtain ⟨hlt, hconn⟩ := List.getElem?_eq_some_iff.mp (tx_eq_some.mp htx).2.2
        have hset : s.conns.set c { conn with tx := conn.tx } = s.conns := by
          rw [show ({ conn with tx := conn.tx } : Connection δ) = conn from rfl, ← hconn, List.set_getElem_self]
        exact ⟨session, c, conn, conn.tx, ⟨session.kind, [], none⟩, htx, rfl, rfl, by rw [State.setTx, hset]⟩
  | run j shared stmt =>
      obtain rfl := Option.some.inj ha
      obtain ⟨session, c, conn, htx, hrun⟩ := step_run h
      obtain ⟨tx, e, hsettings, hkind, rfl⟩ := hexecute hrun
      exact ⟨session, c, conn, tx, e, htx, hsettings, hkind, rfl⟩
  | _ => cases ha

/-- A session in a transaction can run a statement. -/
theorem statement_possible {a : Action γ δ α} (ha : a.statementOf = some i) (htx : s.tx i = some (session, c, conn))
    (hne : conn.tx ≠ []) : ∃ t, Storage.step s a = some t := by
  obtain ⟨frame, rest, hframes⟩ := List.exists_cons_of_ne_nil hne
  cases a with
  | call j account shared stmt =>
      obtain rfl := Option.some.inj ha
      by_cases hscope : ensureScope session.kind.info account = true
      · exact ⟨_, by simp [Storage.step, htx, hscope, State.execute, hframes]; rfl⟩
      · exact ⟨_, by simp [Storage.step, htx, hscope]; rfl⟩
  | run j shared stmt =>
      obtain rfl := Option.some.inj ha
      exact ⟨_, by simp [Storage.step, htx, State.execute, hframes]; rfl⟩
  | _ => cases ha

/-- **Whatever another account's session runs**, on both sides. -/
theorem Alike.step_other (h : Alike accountId s s') (hscoped : Scoped s) (hscoped' : Scoped s') {a a' : Action γ δ α}
    (ha : a.statementOf = some i) (ha' : a'.statementOf = some i)
    (hother : ∀ session, s.sessions[i]? = some session → session.kind.isFor accountId = false)
    (hstep : Storage.step s a = some t) : ∃ t', Storage.step s' a' = some t' ∧ Alike accountId t t' := by
  obtain ⟨session, c, conn, tx, e, htx, hsettings, hkind, rfl⟩ := statement_moves ha hstep
  obtain ⟨conn', htx', hshape, -⟩ := h.tx htx
  obtain ⟨t', hstep'⟩ := statement_possible ha' htx' (hscoped'.tx_ok htx').1
  obtain ⟨session', c', conn'', tx', e', htx'', hsettings', hkind', rfl⟩ := statement_moves ha' hstep'
  obtain ⟨rfl, rfl, rfl⟩ : session = session' ∧ c = c' ∧ conn' = conn'' := by
    rw [htx'] at htx''
    simpa using htx''
  have hnot : ¬ session.kind.isFor accountId = true := Bool.eq_false_iff.mp (hother session (tx_eq_some.mp htx).1)
  refine ⟨_, hstep', (h.setTx hscoped htx (congrArg Prod.fst hshape) ?_ fun hfor => absurd hfor hnot).addLog
    (hkind.trans hkind'.symm) fun hfor => absurd (hkind ▸ hfor) hnot⟩
  rw [hsettings, hsettings']
  exact congrArg Prod.snd hshape

/-! ## Whole runs -/

/-- A step keeps the settings with the sessions; without a bypass every statement is guarded. -/
theorem Scoped.step_policy (h : Scoped s) (hbypass : s.bypass = false) {a : Action γ δ α}
    (hstep : Storage.step s a = some t) : Scoped t := by
  refine h.step ?_ hstep
  cases a with
  | run i shared stmt => exact hbypass
  | _ => exact trivial

theorem map_kind_set {sessions : List Session} (h : sessions[i]? = some session) (conn : Option Nat) :
    (sessions.set i { session with conn := conn }).map Session.kind = sessions.map Session.kind := by
  obtain ⟨hlt, rfl⟩ := List.getElem?_eq_some_iff.mp h
  rw [List.map_set]
  refine List.ext_getElem? fun j => ?_
  rw [List.getElem?_set]
  split
  · rename_i heq
    subst heq
    simp [hlt]
  · rfl

/-- Sessions stay what they are. -/
theorem kinds_step {a : Action γ δ α} (hstep : Storage.step s a = some t) :
    s.sessions.map Session.kind <+: t.sessions.map Session.kind := by
  have hfinish : ∀ {i c : Nat} {session : Session} {conn : Connection δ}, s.tx i = some (session, c, conn) →
      s.sessions.map Session.kind <+: (s.finish i session c conn).sessions.map Session.kind := by
    intro i c session conn htx
    exact ⟨[], (List.append_nil _).trans (map_kind_set (tx_eq_some.mp htx).1 _).symm⟩
  cases a with
  | connect =>
      obtain rfl := Option.some.inj hstep
      exact List.prefix_rfl
  | openSession kind =>
      obtain rfl := Option.some.inj hstep
      rw [List.map_append]
      exact List.prefix_append _ _
  | begin i c =>
      obtain ⟨session, conn, settings, hs, -, -, -, -, rfl⟩ := step_begin hstep
      exact ⟨[], (List.append_nil _).trans (map_kind_set hs _).symm⟩
  | call i account shared stmt =>
      obtain ⟨session, c, conn, tx, e, -, -, -, rfl⟩ := statement_moves rfl hstep
      exact List.prefix_rfl
  | run i shared stmt =>
      obtain ⟨session, c, conn, tx, e, -, -, -, rfl⟩ := statement_moves rfl hstep
      exact List.prefix_rfl
  | savepoint i =>
      obtain ⟨session, c, conn, frame, rest, settings, -, -, -, rfl⟩ := step_savepoint hstep
      exact List.prefix_rfl
  | release i =>
      obtain ⟨session, c, conn, top, below, rest, -, -, rfl⟩ := step_release hstep
      exact List.prefix_rfl
  | rollbackTo i =>
      obtain ⟨session, c, conn, top, below, rest, -, -, rfl⟩ := step_rollbackTo hstep
      exact List.prefix_rfl
  | commit i =>
      obtain ⟨session, c, conn, frame, htx, -, rfl⟩ := step_commit hstep
      exact hfinish htx
  | rollback i =>
      obtain ⟨session, c, conn, htx, rfl⟩ := step_rollback hstep
      exact hfinish htx

theorem kinds_exec {as : List (Action γ δ α)} (h : exec Storage.step s as = some t) :
    s.sessions.map Session.kind <+: t.sessions.map Session.kind := by
  induction as generalizing s with
  | nil =>
      obtain rfl := Option.some.inj h
      exact List.prefix_rfl
  | cons a as ih =>
      obtain ⟨s₁, hstep, hrest⟩ := Option.bind_eq_some_iff.mp h
      exact (kinds_step hstep).trans (ih hrest)

/-- The same action on both sides, with the same from the sequences and the shared tables; or statements of a session
    that is not the account's. `kinds` are the sessions. -/
inductive SameFor (accountId : Int) (kinds : List Kind) : Action γ δ α → Action γ δ α → Prop
  | same (a : Action γ δ α) : SameFor accountId kinds a a
  | other {a a' : Action γ δ α} {i : Nat} {kind : Kind} (hkind : kinds[i]? = some kind)
      (hother : kind.isFor accountId = false) (ha : a.statementOf = some i) (ha' : a'.statementOf = some i) :
      SameFor accountId kinds a a'

theorem Alike.exec {as as' : List (Action γ δ α)} (h : Alike accountId s s') (hscoped : Scoped s)
    (hscoped' : Scoped s') (howner : ∀ kind, .openSession kind ∈ as → kind.scope ≠ .owner)
    (hrun : Lib.exec Storage.step s as = some t)
    (hsame : List.Forall₂ (SameFor accountId (t.sessions.map Session.kind)) as as') :
    ∃ t', Lib.exec Storage.step s' as' = some t' ∧ Alike accountId t t' := by
  induction as generalizing s s' as' with
  | nil =>
      cases hsame
      obtain rfl := Option.some.inj hrun
      exact ⟨s', rfl, h⟩
  | cons a as ih =>
      cases hsame with
      | @cons _ a' _ as' ha hrest =>
          obtain ⟨s₁, hstep, hrun₁⟩ := Option.bind_eq_some_iff.mp hrun
          obtain ⟨s₁', hstep', h₁⟩ : ∃ s₁', Storage.step s' a' = some s₁' ∧ Alike accountId s₁ s₁' := by
            cases ha with
            | same =>
                exact h.step hscoped hscoped' (fun kind heq => howner kind (heq ▸ List.mem_cons_self)) hstep
            | @other _ i kind hkind hother ha ha' =>
                refine h.step_other hscoped hscoped' ha ha' (fun session hs => ?_) hstep
                obtain ⟨hlt, rfl⟩ := List.getElem?_eq_some_iff.mp hs
                have hlater := List.prefix_iff_getElem?.mp (kinds_exec hrun) i (by rwa [List.length_map])
                rw [hkind, List.getElem_map] at hlater
                rw [← Option.some.inj hlater]
                exact hother
          obtain ⟨t', hrun', ht⟩ := ih h₁ (hscoped.step_policy h.bypass hstep) (hscoped'.step_policy h.bypass' hstep')
            (fun kind hmem => howner kind (List.mem_cons_of_mem a hmem)) hrun₁ hrest
          exact ⟨t', by rw [Lib.exec, hstep', Option.bind_some, hrun'], ht⟩

/-- **An account sees of the others what all share, and no more.** If two databases have the same rows of an account,
    then an interleaving of sessions, none of them the owner's, that is possible on one is possible on the other, with
    any other statements of the other accounts; the statements of the account's sessions, when they take the same from
    the sequences and the shared tables, are shown the same rows, answer the same and change the same, and the rows of
    the account are the same at the end. -/
theorem account_noninterference {rows rows' : List (Row δ)} {as as' : List (Action γ δ α)}
    (hrows : rows.filter (fun r => r.accountId == accountId) = rows'.filter fun r => r.accountId == accountId)
    (howner : ∀ kind, .openSession kind ∈ as → kind.scope ≠ .owner)
    (h : exec Storage.step (start false rows : State δ α) as = some t)
    (hsame : List.Forall₂ (SameFor accountId (t.sessions.map Session.kind)) as as') :
    ∃ t', exec Storage.step (start false rows' : State δ α) as' = some t' ∧
      (t.log.filter fun e => e.kind.isFor accountId) = (t'.log.filter fun e => e.kind.isFor accountId) ∧
      (t.rows.filter fun r => r.accountId == accountId) = t'.rows.filter fun r => r.accountId == accountId := by
  obtain ⟨t', hrun', halike⟩ := (alike_start hrows).exec (scoped_start false rows) (scoped_start false rows')
    howner h hsame
  exact ⟨t', hrun', halike.log, halike.rows⟩

theorem oneConnection_possible' : (exec Storage.step (start false bothRows) oneConnection).isSome = true := by
  decide +kernel

/-- The same sessions; the account 2 gets other ids, and reads where it wrote. -/
def otherStatements : List (Action Nat Nat (List (Row Nat))) :=
  [.connect, .openSession (.data (accountDb 1)), .openSession (.data (accountDb 2)), .openSession .plain,
    .begin 0 0, .run 0 5 selectAndInsert, .commit 0, .begin 1 0, .run 1 9 fun _ rows => (rows, ⟨[], []⟩),
    .call 1 2 10 fun nextval rows => (rows, ⟨rows, [⟨2, nextval⟩]⟩), .commit 1, .begin 2 0, .run 2 8 selectAndInsert]

theorem otherStatements_same : List.Forall₂ (SameFor 1
    (((exec Storage.step (start false bothRows) oneConnection).get oneConnection_possible').sessions.map Session.kind))
    oneConnection otherStatements := by
  have hkinds : ((exec Storage.step (start false bothRows) oneConnection).get oneConnection_possible').sessions.map
      Session.kind = [.data (accountDb 1), .data (accountDb 2), .plain] := by decide +kernel
  rw [hkinds]
  refine .cons (.same _) (.cons (.same _) (.cons (.same _) (.cons (.same _) (.cons (.same _) (.cons (.same _)
    (.cons (.same _) (.cons (.same _) (.cons ?_ (.cons ?_ (.cons (.same _) (.cons (.same _) (.cons (.same _)
    .nil))))))))))))
  · exact .other (i := 1) rfl rfl rfl rfl
  · exact .other (i := 1) rfl rfl rfl rfl

theorem account_noninterference_oneConnection :
    ∃ t', exec Storage.step (start false [⟨1, 10⟩, ⟨2, 21⟩, ⟨2, 22⟩]) otherStatements = some t' ∧
      ((((exec Storage.step (start false bothRows) oneConnection).get oneConnection_possible').log.filter
        fun e => e.kind.isFor 1) = t'.log.filter fun e => e.kind.isFor 1) ∧
      ((((exec Storage.step (start false bothRows) oneConnection).get oneConnection_possible').rows.filter
        fun r => r.accountId == 1) = t'.rows.filter fun r => r.accountId == 1) :=
  account_noninterference (by decide) (by
    intro kind hmem
    rcases kind with info | _
    · have hkind : Kind.data info = .data (accountDb 1) ∨ Kind.data info = .data (accountDb 2) := by
        simpa [oneConnection] using hmem
      rcases hkind with hkind | hkind <;> rw [hkind] <;> exact Scope.noConfusion
    · exact Scope.noConfusion) (Option.some_get oneConnection_possible').symm otherStatements_same

end MyPerson.Storage
