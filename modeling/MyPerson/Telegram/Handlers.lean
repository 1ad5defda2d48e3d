import MyPerson.Telegram.Pool

/-!
# `Telegram.Handlers` — every live session has its handlers once

A session that is connected and authorized, whose user passes the identity check, has the event handlers
registered once on its client, for its own account. `restart`, `reload_account` and the start of the service
see to it; a session that `get` starts, and one that `/auth/code` logs in, nobody attends to.

## Contents
- `passes`, and that an account never admits a user it has refused (`Grown`);
- `Once`, what the single operations do to it;
- `handlers_once`, and a session without handlers (`handlers_once_fails`).
-/

namespace MyPerson.Telegram

open Lib

variable {s t : State} {name : String} {session : Session} {client : Client} {accounts accounts' : List Account}

/-! ## The identity check -/

/-- What `confirm_identity` would answer. -/
def State.passes (s : State) (session : Session) (user : Nat) : Bool :=
  !s.newMode || match session.identityOk with
    | some ok => ok
    | none => (session.accountId.bind fun accountId =>
        ensureAccountUser s.accounts accountId (session.meId.getD user)).isSome

/-- The accounts may have changed, but not whose they are, and they admit nobody new. -/
structure Grown (accounts accounts' : List Account) : Prop where
  ids     : accounts'.map Account.id = accounts.map Account.id
  aliases : accounts'.map Account.accountAlias = accounts.map Account.accountAlias
  owners  : accounts'.map (fun a => (a.id, a.accountAlias)) = accounts.map fun a => (a.id, a.accountAlias)
  admits  : ∀ accountId user, (ensureAccountUser accounts' accountId user).isSome = true →
    (ensureAccountUser accounts accountId user).isSome = true

theorem Grown.refl (accounts : List Account) : Grown accounts accounts := ⟨rfl, rfl, rfl, fun _ _ h => h⟩

/-- An account admits a user that it has, or anyone new if it has none. -/
theorem ensure_isSome {accountId user : Nat} :
    (ensureAccountUser accounts accountId user).isSome = true ↔
      ∃ a, byKey Account.id accounts accountId = some a ∧
        (a.externalUserId = some user ∨
          a.externalUserId = none ∧ some user ∉ accounts.map Account.externalUserId) := by
  unfold ensureAccountUser
  cases hrow : byKey Account.id accounts accountId with
  | none => simp
  | some a =>
      cases hknown : a.externalUserId with
      | some known => by_cases heq : known = user <;> simp [hknown, heq]
      | none =>
          by_cases htaken : some user ∈ accounts.map Account.externalUserId
          · simp only [if_pos htaken]
            simp [htaken, hknown]
          · simp only [if_neg htaken]
            simp [htaken, hknown]

/-- An update of rows that fills empty user ids with a user that no other row has. -/
theorem grown_fill {p : Account → Bool} {set : Account → Account} (user : Nat)
    (hid : ∀ a, (set a).id = a.id) (halias : ∀ a, (set a).accountAlias = a.accountAlias)
    (hfill : ∀ a ∈ accounts, p a = true → (set a).externalUserId = a.externalUserId.or (some user))
    (hfree : ∀ a ∈ accounts, p a = true → a.externalUserId = none → some user ∉ accounts.map Account.externalUserId) :
    Grown accounts (updateWhere accounts p set) where
  ids := map_updateWhere Account.id hid
  aliases := map_updateWhere Account.accountAlias halias
  owners := map_updateWhere (fun a : Account => (a.id, a.accountAlias)) fun a => Prod.ext (hid a) (halias a)
  admits := by
    intro accountId user' h
    rw [ensure_isSome] at h ⊢
    obtain ⟨a', hrow', hadmits⟩ := h
    rw [byKey_updateWhere hid] at hrow'
    obtain ⟨a, hrow, rfl⟩ := Option.map_eq_some_iff.mp hrow'
    have ha := (byKey_some hrow).1
    refine ⟨a, hrow, ?_⟩
    -- a user that a row has, it has afterwards
    have hkeeps : some user' ∈ accounts.map Account.externalUserId →
        some user' ∈ (updateWhere accounts p set).map Account.externalUserId := by
      intro hmem
      obtain ⟨b, hb, hbu⟩ := List.mem_map.mp hmem
      by_cases hp : p b = true
      · have hset : (set b).externalUserId = some user' := by
          rw [hfill b hb hp, hbu]
          rfl
        exact List.mem_map.mpr ⟨set b, mem_updateWhere_of_pos hb hp, hset⟩
      · exact List.mem_map.mpr ⟨b, mem_updateWhere_of_not hb (by simpa using hp), hbu⟩
    by_cases hp : p a = true
    · rw [if_pos hp, hfill a ha hp] at hadmits
      cases hknown : a.externalUserId with
      | some known =>
          rw [hknown] at hadmits
          rcases hadmits with heq | ⟨hnone, -⟩
          · exact Or.inl heq
          · cases hnone
      | none =>
          rw [hknown] at hadmits
          rcases hadmits with heq | ⟨hnone, -⟩
          · cases heq
            exact Or.inr ⟨rfl, hfree a ha hp hknown⟩
          · cases hnone
    · rw [if_neg hp] at hadmits
      exact hadmits.imp id fun h => ⟨h.1, fun hmem => h.2 (hkeeps hmem)⟩

theorem grown_ensure {accountId user : Nat} (hids : (accounts.map Account.id).Nodup)
    (h : ensureAccountUser accounts accountId user = some accounts') : Grown accounts accounts' := by
  unfold ensureAccountUser at h
  cases hrow : byKey Account.id accounts accountId with
  | none =>
      rw [hrow] at h
      cases h
  | some a =>
      rw [hrow] at h
      simp only at h
      split at h
      · split at h
        · cases h
          exact Grown.refl accounts
        · cases h
      · rename_i hknown
        split at h
        · cases h
        · rename_i hfree
          cases h
          have hself : ∀ b ∈ accounts, (b.id == accountId) = true → b = a := by
            intro b hb hbid
            obtain ⟨ha, haid⟩ := byKey_some hrow
            exact eq_of_key hids hb ha ((beq_iff_eq.mp hbid).trans haid.symm)
          refine grown_fill user (fun _ => rfl) (fun _ => rfl) ?_ fun _ _ _ _ => hfree
          intro b hb hbid
          rw [hself b hb hbid, hknown]
          rfl

theorem grown_save {user : Nat} (haliases : (accounts.map Account.accountAlias).Nodup)
    (h : refuses accounts name user = false) : Grown accounts (saveUser accounts name user) := by
  refine grown_fill user (fun _ => rfl) (fun _ => rfl) (fun _ _ _ => rfl) ?_
  intro a ha hname hnone hmem
  obtain ⟨b, hb, hbu⟩ := List.mem_map.mp hmem
  unfold refuses at h
  rw [Bool.or_eq_false_iff] at h
  by_cases hsame : b.accountAlias = name
  · have heq := eq_of_key haliases hb ha (hsame.trans (beq_iff_eq.mp hname).symm)
    rw [heq, hnone] at hbu
    cases hbu
  · have htaken := List.any_eq_false.mp h.2 b hb
    simp [hsame, hbu] at htaken

theorem grown_setEnabled (accountId : Nat) (enabled : Bool) :
    Grown accounts (updateWhere accounts (fun a => a.id == accountId) fun a => { a with isEnabled := enabled }) where
  ids := map_updateWhere Account.id fun _ => rfl
  aliases := map_updateWhere Account.accountAlias fun _ => rfl
  owners := map_updateWhere (fun a : Account => (a.id, a.accountAlias)) fun _ => rfl
  admits := by
    intro accountId' user h
    rw [ensure_isSome] at h ⊢
    obtain ⟨a', hrow', hadmits⟩ := h
    have hid : ∀ a : Account, Account.id { a with isEnabled := enabled } = a.id := fun _ => rfl
    have hext : ∀ a : Account, Account.externalUserId { a with isEnabled := enabled } = a.externalUserId := fun _ => rfl
    rw [byKey_updateWhere hid] at hrow'
    obtain ⟨a, hrow, rfl⟩ := Option.map_eq_some_iff.mp hrow'
    rw [map_updateWhere Account.externalUserId hext] at hadmits
    refine ⟨a, hrow, ?_⟩
    by_cases hp : (a.id == accountId) = true
    · rw [if_pos hp] at hadmits
      exact hadmits
    · rw [if_neg hp] at hadmits
      exact hadmits

/-! ## The invariant -/

/-- The registration that a session of the mode has. -/
def State.registration (s : State) (session : Session) : Option Nat := if s.newMode then session.accountId else none

/-- If the session is live and its user passes, the handlers of its client are these. -/
def State.Has (s : State) (handlers : List (Option Nat)) (session : Session) : Prop :=
  ∀ c user, session.client = some c → c.connected = true → c.user = some user → s.passes session user = true →
    c.handlers = handlers

/-- Registered once, for the account of the session. -/
def State.Once (s : State) (session : Session) : Prop := s.Has [s.registration session] session

/-- What always holds of the pool. -/
structure Keys (s : State) : Prop where
  ids     : (s.accounts.map Account.id).Nodup
  aliases : (s.accounts.map Account.accountAlias).Nodup
  names   : s.names.Nodup
  listed  : ∀ name session, s.pool name = some session → name ∈ s.names
  owner   : ∀ name session, s.pool name = some session → session.client.isSome = true →
    ∃ a ∈ s.accounts, a.accountAlias = name ∧ session.accountId = some a.id

structure Inv (s : State) : Prop extends Keys s where
  once : ∀ name session, s.pool name = some session → s.Once session

/-! ## Changes of the state -/

theorem passes_of_grown {user : Nat} (hmode : t.newMode = s.newMode) (hgrown : Grown s.accounts t.accounts)
    (h : t.passes session user = true) : s.passes session user = true := by
  unfold State.passes at h ⊢
  rw [hmode] at h
  rw [Bool.or_eq_true] at h ⊢
  refine h.imp id fun h => ?_
  cases hok : session.identityOk with
  | some ok =>
      rw [hok] at h
      exact h
  | none =>
      rw [hok] at h
      simp only at h ⊢
      obtain ⟨accounts'', h⟩ := Option.isSome_iff_exists.mp h
      obtain ⟨accountId, hid, hensure⟩ := Option.bind_eq_some_iff.mp h
      rw [hid]
      exact hgrown.admits accountId _ (by rw [hensure]; rfl)

theorem State.Has.grown {handlers : List (Option Nat)} (h : s.Has handlers session) (hmode : t.newMode = s.newMode)
    (hgrown : Grown s.accounts t.accounts) : t.Has handlers session :=
  fun c user hc hconnected huser hpasses => h c user hc hconnected huser (passes_of_grown hmode hgrown hpasses)

theorem State.Once.grown (h : s.Once session) (hmode : t.newMode = s.newMode) (hgrown : Grown s.accounts t.accounts) :
    t.Once session := by
  unfold State.Once State.registration
  rw [hmode]
  exact State.Has.grown h hmode hgrown

/-- An owner is one after the change, too. -/
theorem Grown.owner {accountId : Option Nat} (hgrown : Grown accounts accounts')
    (h : ∃ a ∈ accounts, a.accountAlias = name ∧ accountId = some a.id) :
    ∃ a ∈ accounts', a.accountAlias = name ∧ accountId = some a.id := by
  obtain ⟨a, ha, halias, hid⟩ := h
  have hmem : (a.id, a.accountAlias) ∈ accounts'.map fun a => (a.id, a.accountAlias) := by
    rw [hgrown.owners]
    exact List.mem_map.mpr ⟨a, ha, rfl⟩
  obtain ⟨b, hb, heq⟩ := List.mem_map.mp hmem
  rw [Prod.mk.injEq] at heq
  exact ⟨b, hb, heq.2.trans halias, by rw [hid, heq.1]⟩

theorem Keys.grown (h : Keys s) (hgrown : Grown s.accounts accounts') : Keys { s with accounts := accounts' } where
  ids := by
    show (accounts'.map Account.id).Nodup
    rw [hgrown.ids]
    exact h.ids
  aliases := by
    show (accounts'.map Account.accountAlias).Nodup
    rw [hgrown.aliases]
    exact h.aliases
  names := h.names
  listed := h.listed
  owner := fun name session hsession hclient => hgrown.owner (h.owner name session hsession hclient)

theorem Keys.put (h : Keys s)
    (howner : session.client.isSome = true → ∃ a ∈ s.accounts, a.accountAlias = name ∧ session.accountId = some a.id) :
    Keys (s.put name session) where
  ids := h.ids
  aliases := h.aliases
  names := by
    show (if name ∈ s.names then s.names else s.names ++ [name]).Nodup
    by_cases hmem : name ∈ s.names
    · rw [if_pos hmem]
      exact h.names
    · rw [if_neg hmem]
      exact h.names.append (List.nodup_singleton name) (by simpa using hmem)
  listed := by
    intro name' session' hsession'
    show name' ∈ if name ∈ s.names then s.names else s.names ++ [name]
    have hold : name' = name ∨ name' ∈ s.names := by
      rcases Table.of_update hsession' with ⟨hname, -⟩ | ⟨-, hsession'⟩
      · exact Or.inl hname
      · exact Or.inr (h.listed name' session' hsession')
    by_cases hmem : name ∈ s.names
    · rw [if_pos hmem]
      exact hold.elim (fun hname => hname ▸ hmem) id
    · rw [if_neg hmem, List.mem_append, List.mem_singleton]
      exact hold.symm
  owner := by
    refine Table.forall_update (fun session' hsession' hclient => ?_) h.owner
    cases hsession'
    exact howner hclient

theorem Keys.stop (h : Keys s) (name : String) : Keys (s.stop name) where
  ids := h.ids
  aliases := h.aliases
  names := h.names.filter _
  listed := by
    intro name' session' hsession'
    rcases Table.of_update hsession' with ⟨-, heq⟩ | ⟨hne, hsession'⟩
    · cases heq
    · exact List.mem_filter.mpr ⟨h.listed name' session' hsession', by simpa using hne⟩
  owner := Table.forall_erase h.owner

theorem Inv.put (h : Inv s) (hgrown : Grown s.accounts accounts')
    (howner : session.client.isSome = true → ∃ a ∈ s.accounts, a.accountAlias = name ∧ session.accountId = some a.id)
    (honce : { s with accounts := accounts' }.Once session) :
    Inv ({ s with accounts := accounts' }.put name session) where
  toKeys := (h.toKeys.grown hgrown).put fun hclient => hgrown.owner (howner hclient)
  once := by
    refine Table.forall_update (fun session' hsession' => ?_) fun name' session' hsession' =>
      (h.once name' session' hsession').grown rfl hgrown
    cases hsession'
    exact honce

theorem Inv.stop (h : Inv s) (name : String) : Inv (s.stop name) where
  toKeys := h.toKeys.stop name
  once := Table.forall_erase h.once

/-! ## Attaching -/

theorem put_put {session' : Session} : (s.put name session).put name session' = s.put name session' := by
  have hmem : name ∈ if name ∈ s.names then s.names else s.names ++ [name] := by
    by_cases h : name ∈ s.names
    · rw [if_pos h]
      exact h
    · rw [if_neg h]
      simp
  unfold State.put
  simp only [if_pos hmem, Function.update_idem]

theorem put_self (h : Keys s) (hsession : s.pool name = some session) : s.put name session = s := by
  unfold State.put
  rw [if_pos (h.listed name session hsession), ← hsession, Function.update_eq_self]

theorem passes_legacy (hmode : s.newMode = false) (session : Session) (user : Nat) : s.passes session user = true := by
  unfold State.passes
  rw [hmode]
  rfl

theorem passes_new {user : Nat} (hmode : s.newMode = true) :
    s.passes session user = match session.identityOk with
      | some ok => ok
      | none => (session.accountId.bind fun accountId =>
          ensureAccountUser s.accounts accountId (session.meId.getD user)).isSome := by
  unfold State.passes
  rw [hmode]
  rfl

/-- What `confirm_identity` does: it answers, and remembers a refusal. -/
theorem confirm_spec (user : Nat) (h : Keys s) (hsession : s.pool name = some session) :
    ∃ accounts' session', s.confirmIdentity name session user
        = (s.passes session user, session', { s with accounts := accounts' }.put name session') ∧
      Grown s.accounts accounts' ∧ session'.accountId = session.accountId ∧ session'.client = session.client ∧
      (s.passes session user = false → s.newMode = true ∧ session'.identityOk = some false) := by
  have hself : { s with accounts := s.accounts }.put name session = s := put_self h hsession
  unfold State.confirmIdentity
  by_cases hmode : s.newMode = false
  · rw [if_pos hmode]
    have hpasses := passes_legacy hmode session user
    refine ⟨s.accounts, session, ?_, Grown.refl _, rfl, rfl, ?_⟩
    · rw [hpasses, hself]
    · intro hfalse
      rw [hpasses] at hfalse
      cases hfalse
  · rw [if_neg hmode]
    rw [Bool.not_eq_false] at hmode
    rw [passes_new hmode]
    cases hok : session.identityOk with
    | some ok =>
        refine ⟨s.accounts, session, ?_, Grown.refl _, rfl, rfl, ?_⟩
        · rw [hself]
        · intro hfalse
          exact ⟨hmode, hok.trans (congrArg some hfalse)⟩
    | none =>
        simp only
        cases hensure : session.accountId.bind fun accountId =>
            ensureAccountUser s.accounts accountId (session.meId.getD user) with
        | some accounts' =>
            obtain ⟨accountId, -, hfill⟩ := Option.bind_eq_some_iff.mp hensure
            exact ⟨accounts', _, rfl, grown_ensure h.ids hfill, rfl, rfl, nofun⟩
        | none => exact ⟨s.accounts, _, rfl, Grown.refl _, rfl, rfl, fun _ => ⟨hmode, rfl⟩⟩

/-- A session that was refused needs no handlers. -/
theorem once_of_refused (hmode : s.newMode = true) (hok : session.identityOk = some false) : s.Once session := by
  intro c user _ _ _ hpasses
  unfold State.passes at hpasses
  rw [hmode, hok] at hpasses
  cases hpasses

/-- **Attaching handlers** to a client that has none if its user passes. -/
theorem attach_spec {user : Nat} (h : Keys s) (hsession : s.pool name = some session)
    (hempty : s.passes session user = true → client.handlers = []) :
    ∃ accounts' session',
      s.attachHandlers name session client user = { s with accounts := accounts' }.put name session' ∧
      Grown s.accounts accounts' ∧ session'.accountId = session.accountId ∧
      { s with accounts := accounts' }.Once session' := by
  obtain ⟨accounts', session', hconfirm, hgrown, hid, hsame, hrefused⟩ := confirm_spec user h hsession
  unfold State.attachHandlers
  rw [hconfirm]
  cases hpasses : s.passes session user with
  | true =>
      refine ⟨accounts', { session' with client := some { client with
        handlers := client.handlers ++ [if s.newMode then session'.accountId else none] } }, ?_, hgrown, hid, ?_⟩
      · exact put_put
      · intro c user' hc _ _ _
        cases hc
        show client.handlers ++ _ = _
        rw [hempty hpasses]
        rfl
  | false =>
      obtain ⟨hmode, hok⟩ := hrefused hpasses
      exact ⟨accounts', session', rfl, hgrown, hid, once_of_refused hmode hok⟩

/-- The session waits for its handlers, and the call that attaches them does not fail. -/
def State.Pending (s : State) (fails : Bool) (session : Session) : Prop :=
  ∀ c user, session.client = some c → c.connected = true → c.user = some user → s.passes session user = true →
    c.handlers = [] ∧ fails = false

/-- What attaching leads to: the handlers are there, and nothing else has changed. -/
structure Attached (s : State) (name : String) (t : State) : Prop where
  keys  : Keys t
  mode  : t.newMode = s.newMode
  grown : Grown s.accounts t.accounts
  frame : ∀ name', name' ≠ name → t.pool name' = s.pool name'
  once  : ∀ session, t.pool name = some session → t.Once session

theorem attached_attach {user : Nat} (h : Keys s) (hsession : s.pool name = some session)
    (hclient : session.client = some client) (hempty : s.passes session user = true → client.handlers = []) :
    Attached s name (s.attachHandlers name session client user) := by
  obtain ⟨accounts', session', heq, hgrown, hid, honce⟩ := attach_spec h hsession hempty
  rw [heq]
  have howner := h.owner name session hsession (by rw [hclient]; rfl)
  rw [← hid] at howner
  refine ⟨(h.grown hgrown).put fun _ => hgrown.owner howner, rfl, hgrown, ?_, ?_⟩
  · intro name' hne
    exact Function.update_of_ne hne ..
  · intro session'' hsession''
    rcases Table.of_update hsession'' with ⟨-, heq⟩ | ⟨hne, -⟩
    · cases heq
      exact honce
    · exact absurd rfl hne

theorem maybeRegister_spec {fails : Bool} (h : Keys s)
    (hpending : ∀ session, s.pool name = some session → s.Pending fails session) :
    Attached s name (s.maybeRegisterHandlers name fails) := by
  -- where nothing is attached, nothing is live
  have hnothing : (∀ session c user, s.pool name = some session → session.client = some c → c.connected = true →
      c.user = some user → fails = true) → Attached s name s := by
    intro hdead
    refine ⟨h, rfl, Grown.refl _, fun _ _ => rfl, fun session hsession c user hc hconnected huser hpasses => ?_⟩
    have hfails := (hpending session hsession c user hc hconnected huser hpasses).2
    rw [hdead session c user hsession hc hconnected huser] at hfails
    cases hfails
  unfold State.maybeRegisterHandlers
  cases hsession : s.pool name with
  | none =>
      apply hnothing
      intro session c user hsession'
      rw [hsession] at hsession'
      cases hsession'
  | some session =>
      simp only
      cases hclient : session.client with
      | none =>
          apply hnothing
          intro session' c user hsession' hc
          rw [hsession] at hsession'
          cases hsession'
          rw [hclient] at hc
          cases hc
      | some client =>
          simp only
          cases huser : client.user with
          | none =>
              apply hnothing
              intro session' c user hsession' hc _ hu
              rw [hsession] at hsession'
              cases hsession'
              rw [hclient] at hc
              cases hc
              rw [huser] at hu
              cases hu
          | some user =>
              simp only
              by_cases hdead : client.connected = false ∨ fails = true
              · rw [if_pos hdead]
                apply hnothing
                intro session' c user' hsession' hc hconnected _
                rw [hsession] at hsession'
                cases hsession'
                rw [hclient] at hc
                cases hc
                rw [hconnected] at hdead
                exact hdead.resolve_left nofun
              · rw [if_neg hdead]
                have hconnected : client.connected = true := by
                  rw [← Bool.not_eq_false]
                  exact fun hfalse => hdead (Or.inl hfalse)
                refine attached_attach h hsession hclient fun hpasses => ?_
                exact (hpending session hsession client user hclient hconnected huser hpasses).1

theorem State.Pending.grown {fails : Bool} (h : s.Pending fails session) (hmode : t.newMode = s.newMode)
    (hgrown : Grown s.accounts t.accounts) : t.Pending fails session :=
  fun c user hc hconnected huser hpasses => h c user hc hconnected huser (passes_of_grown hmode hgrown hpasses)

/-- **The loop of `attach_all_handlers`**: the sessions it has passed have their handlers, the others wait. -/
theorem inv_attachLoop (fails : String → Bool) (rest : List String) :
    ∀ s : State, Keys s → rest.Nodup →
      (∀ name session, s.pool name = some session → name ∉ rest → s.Once session) →
      (∀ name session, s.pool name = some session → name ∈ rest → s.Pending (fails name) session) →
      Inv (rest.foldl (fun s name => s.maybeRegisterHandlers name (fails name)) s) := by
  induction rest with
  | nil =>
      intro s h _ hdone _
      exact { h with once := fun name session hsession => hdone name session hsession List.not_mem_nil }
  | cons name rest ih =>
      intro s h hnodup hdone htodo
      obtain ⟨hnot, hnodup⟩ := List.nodup_cons.mp hnodup
      have hattached := maybeRegister_spec h fun session hsession =>
        htodo name session hsession (List.mem_cons_self ..)
      rw [List.foldl_cons]
      refine ih _ hattached.keys hnodup ?_ ?_
      · intro name' session hsession hrest
        by_cases hsame : name' = name
        · subst hsame
          exact hattached.once session hsession
        · rw [hattached.frame name' hsame] at hsession
          have hnew : name' ∉ name :: rest := by
            rw [List.mem_cons, not_or]
            exact ⟨hsame, hrest⟩
          exact (hdone name' session hsession hnew).grown hattached.mode hattached.grown
      · intro name' session hsession hrest
        have hsame : name' ≠ name := fun heq => hnot (heq ▸ hrest)
        rw [hattached.frame name' hsame] at hsession
        exact (htodo name' session hsession (List.mem_cons_of_mem _ hrest)).grown hattached.mode hattached.grown

theorem inv_attachAll {fails : String → Bool} (h : Keys s)
    (hpending : ∀ name session, s.pool name = some session → s.Pending (fails name) session) :
    Inv (s.attachAll fails) := by
  refine inv_attachLoop fails s.names s h h.names ?_ fun name session hsession _ => hpending name session hsession
  intro name session hsession hnot
  exact absurd (h.listed name session hsession) hnot

/-! ## Starting -/

theorem of_enabledAccount {a : Account} (h : s.enabledAccount name = some a) :
    a ∈ s.accounts ∧ a.accountAlias = name := by
  have hfound := List.find?_some h
  rw [Bool.and_eq_true] at hfound
  exact ⟨List.mem_of_find?_eq_some h, beq_iff_eq.mp hfound.1⟩

/-- A session that is started belongs to its account. -/
theorem owner_started {a : Account} {answer : Start} (ha : a ∈ s.accounts)
    (hclient : (started a answer).client.isSome = true) :
    ∃ b ∈ s.accounts, b.accountAlias = a.accountAlias ∧ (started a answer).accountId = some b.id := by
  cases answer with
  | failed => cases hclient
  | notConfigured => cases hclient
  | connected user => exact ⟨a, ha, rfl, rfl⟩

/-- The user may use the account: the identity check of a session that has just been started. -/
def State.admits (s : State) (account : Account) (user : Nat) : Bool :=
  !s.newMode || (ensureAccountUser s.accounts account.id user).isSome

/-- A session that is started has no handlers; so it may only be one that needs none. -/
theorem once_started {a : Account} {answer : Start}
    (hquiet : ∀ user, answer = .connected (some user) → s.admits a user = false) : s.Once (started a answer) := by
  intro c user hc _ huser hpasses
  cases answer with
  | failed => cases hc
  | notConfigured => cases hc
  | connected known =>
      cases hc
      cases huser
      have hadmits : s.admits a user = true := hpasses
      rw [hquiet user rfl] at hadmits
      cases hadmits

theorem handlers_started {a : Account} {answer : Start} {c : Client} (hc : (started a answer).client = some c) :
    c.handlers = [] := by
  cases answer with
  | failed => cases hc
  | notConfigured => cases hc
  | connected user =>
      cases hc
      rfl

theorem Keys.startOne {a : Account} (h : Keys s) (ha : a ∈ s.accounts) (answer : Start) : Keys (s.startOne a answer) :=
  h.put (owner_started ha)

theorem Inv.startOne {a : Account} {answer : Start} (h : Inv s) (ha : a ∈ s.accounts)
    (hquiet : ∀ user, answer = .connected (some user) → s.admits a user = false) : Inv (s.startOne a answer) :=
  h.put (Grown.refl _) (owner_started ha) (once_started hquiet)

/-! ## The condition -/

/-- If `get` has to start the session, it does not come up with a user who may use the account. -/
def Quiet (s : State) (name : String) (answer : Start) : Prop :=
  s.isRunning name = false → ∀ a user, s.enabledAccount name = some a → answer = .connected (some user) →
    s.admits a user = false

/-- The login is refused, or the client has its handlers already. -/
def LoggedIn (s : State) (name : String) (user : Nat) : Prop :=
  refuses s.accounts name user = true ∨
    s.isRunning name = true ∧ ∀ session c, s.pool name = some session → session.client = some c →
      c.handlers = [s.registration session]

/-- Nobody but `restart`, `reload_account` and the start of the service makes a session live; and what
    attaches handlers meets only sessions without, and does not fail. -/
def meets (s : State) : Op → Prop
  | .startAll (some finished) => ∀ done ∈ finished, ∀ a user, s.enabledAccount done.1 = some a →
      done.2 = .connected (some user) → s.admits a user = false
  | .attachAll fails => ∀ name session, s.pool name = some session → s.Pending (fails name) session
  | .startUp _ fails => (∀ name, s.pool name = none) ∧ ∀ name, fails name = false
  | .get name answer => Quiet s name answer
  | .requireClient name answer => Quiet s name answer
  | .reloadAccount _ _ fails => fails = false
  | .restart _ _ fails => fails = false
  | .authCode name answer signIn => Quiet s name answer ∧ ∀ user, signIn = .authorized user → LoggedIn s name user
  | _ => True

/-! ## The operations keep the invariant -/

theorem inv_get {answer : Start} (h : Inv s) (hquiet : Quiet s name answer) : Inv (s.get name answer) := by
  unfold State.get
  by_cases hrunning : s.isRunning name = true
  · rw [if_pos hrunning]
    exact h
  · rw [if_neg hrunning]
    cases hfound : s.enabledAccount name with
    | none => exact h
    | some a =>
        exact h.startOne (of_enabledAccount hfound).1 fun user hanswer =>
          hquiet (by simpa using hrunning) a user hfound hanswer

theorem inv_startAll {finished : List (String × Start)} (h : Inv s)
    (hquiet : ∀ done ∈ finished, ∀ a user, s.enabledAccount done.1 = some a → done.2 = .connected (some user) →
      s.admits a user = false) : Inv (s.startAll finished) := by
  unfold State.startAll
  induction finished generalizing s with
  | nil => exact h
  | cons done rest ih =>
      rw [List.foldl_cons]
      cases hfound : s.enabledAccount done.1 with
      | none => exact ih h fun d hd => hquiet d (List.mem_cons_of_mem _ hd)
      | some a =>
          have hinv : Inv (s.startOne a done.2) := h.startOne (of_enabledAccount hfound).1 fun user hanswer =>
            hquiet done (List.mem_cons_self ..) a user hfound hanswer
          exact ih hinv fun d hd => hquiet d (List.mem_cons_of_mem _ hd)

/-- No client in the pool has handlers. -/
def Fresh (s : State) : Prop :=
  ∀ name session c, s.pool name = some session → session.client = some c → c.handlers = []

theorem fresh_startAll {finished : List (String × Start)} (h : Keys s) (hfresh : Fresh s) :
    Keys (s.startAll finished) ∧ Fresh (s.startAll finished) := by
  unfold State.startAll
  induction finished generalizing s with
  | nil => exact ⟨h, hfresh⟩
  | cons done rest ih =>
      rw [List.foldl_cons]
      cases hfound : s.enabledAccount done.1 with
      | none => exact ih h hfresh
      | some a =>
          refine ih (h.startOne (of_enabledAccount hfound).1 done.2) ?_
          intro name session c hsession hc
          rcases Table.of_update hsession with ⟨-, heq⟩ | ⟨-, hsession⟩
          · cases heq
            exact handlers_started hc
          · exact hfresh name session c hsession hc

theorem inv_startUp {fails : String → Bool} (h : Keys s) (hfresh : Fresh s) (hfails : ∀ name, fails name = false) :
    Inv (s.attachAll fails) := by
  refine inv_attachAll h fun name session hsession c user hc _ _ _ => ?_
  exact ⟨hfresh name session c hsession hc, hfails name⟩

theorem pool_stop : (s.stop name).pool name = none := Function.update_self ..

/-- A session that is started afresh waits for its handlers. -/
theorem inv_restart {answer : Start} {fails : Bool} (h : Inv s) (hfails : fails = false) :
    Inv (s.restart name answer fails) := by
  have hstop := h.stop name
  -- the session under the name is new, the others are as they were
  have hget : Keys ((s.stop name).get name answer) ∧ ((s.stop name).get name answer).newMode = s.newMode ∧
      ((s.stop name).get name answer).accounts = s.accounts ∧
      (∀ session c, ((s.stop name).get name answer).pool name = some session → session.client = some c →
        c.handlers = []) ∧
      ∀ name', name' ≠ name → ((s.stop name).get name answer).pool name' = s.pool name' := by
    have hother : ∀ name', name' ≠ name → (s.stop name).pool name' = s.pool name' := fun name' hne =>
      Function.update_of_ne hne ..
    have hnone : ∀ session c, (s.stop name).pool name = some session → session.client = some c → c.handlers = [] := by
      intro session c hsession
      rw [pool_stop] at hsession
      cases hsession
    unfold State.get
    by_cases hrunning : (s.stop name).isRunning name = true
    · rw [if_pos hrunning]
      exact ⟨hstop.toKeys, rfl, rfl, hnone, hother⟩
    · rw [if_neg hrunning]
      cases hfound : (s.stop name).enabledAccount name with
      | none => exact ⟨hstop.toKeys, rfl, rfl, hnone, hother⟩
      | some a =>
          obtain ⟨ha, rfl⟩ := of_enabledAccount hfound
          refine ⟨hstop.toKeys.startOne ha answer, rfl, rfl, ?_, ?_⟩
          · intro session c hsession hc
            rcases Table.of_update hsession with ⟨-, heq⟩ | ⟨hne, -⟩
            · cases heq
              exact handlers_started hc
            · exact absurd rfl hne
          · intro name' hne
            exact (Function.update_of_ne hne ..).trans (hother name' hne)
  obtain ⟨hkeys, hmode, haccounts, hnew, hother⟩ := hget
  have hattached : Attached ((s.stop name).get name answer) name (s.restart name answer fails) :=
    maybeRegister_spec hkeys fun session hsession c user hc _ _ _ => ⟨hnew session c hsession hc, hfails⟩
  refine { hattached.keys with once := fun name' session hsession => ?_ }
  by_cases hsame : name' = name
  · subst hsame
    exact hattached.once session hsession
  · rw [hattached.frame name' hsame, hother name' hsame] at hsession
    refine (h.once name' session hsession).grown (hattached.mode.trans hmode) ?_
    have hgrown := hattached.grown
    rw [haccounts] at hgrown
    exact hgrown

theorem inv_requireClient (h : Inv s) : Inv (s.requireAuthorizedClient name) := by
  unfold State.requireAuthorizedClient
  cases hsession : s.pool name with
  | none => exact h
  | some session =>
      simp only
      cases huser : session.client.bind fun c => if c.connected then c.user else none with
      | none => exact h
      | some user =>
          simp only
          obtain ⟨accounts', session', hconfirm, hgrown, hid, hsame, hrefused⟩ :=
            confirm_spec user h.toKeys hsession
          rw [hconfirm]
          refine h.put hgrown ?_ ?_
          · intro hclient
            rw [hsame] at hclient
            rw [hid]
            exact h.owner name session hsession hclient
          · intro c user' hc' hconnected huser' hpasses
            have hc : session.client = some c := hsame.symm.trans hc'
            rw [hc] at huser
            have huser'' : c.user = some user := by simpa [hconnected] using huser
            rw [huser''] at huser'
            cases huser'
            cases hold : s.passes session user with
            | true =>
                have hhandlers := h.once name session hsession c user hc hconnected huser'' hold
                rw [hhandlers]
                show [if s.newMode then session.accountId else none] = [if s.newMode then session'.accountId else none]
                rw [hid]
            | false =>
                obtain ⟨hmode, hok⟩ := hrefused hold
                have hnone : State.Once { s with accounts := accounts' } session' := once_of_refused hmode hok
                exact hnone c user hc' hconnected huser'' hpasses

theorem inv_login {answer : SignIn} (h : Inv s) (hlogin : ∀ user, answer = .authorized user → LoggedIn s name user) :
    Inv (s.login name answer) := by
  unfold State.login
  cases hsession : s.pool name with
  | none => exact h
  | some session =>
      cases answer with
      | failed => exact h
      | twoFactor => exact h
      | authorized user =>
          simp only
          cases hclient : session.client with
          | none => exact h
          | some client =>
              simp only
              by_cases hdead : client.connected = false
              · rw [if_pos hdead]
                exact h
              · rw [if_neg hdead]
                by_cases hrefused : refuses s.accounts name user = true
                · rw [if_pos hrefused]
                  exact h.stop name
                · rw [if_neg hrefused]
                  have hhas := ((hlogin user rfl).resolve_left hrefused).2 session client hsession hclient
                  refine h.put (grown_save h.aliases (by simpa using hrefused)) ?_ ?_
                  · intro _
                    exact h.owner name session hsession (by rw [hclient]; rfl)
                  · intro c user' hc _ _ _
                    cases hc
                    exact hhas

/-- `get` leaves a running session as it is. -/
theorem loggedIn_get {answer : Start} {user : Nat} (h : LoggedIn s name user) :
    LoggedIn (s.get name answer) name user := by
  rcases h with hrefused | ⟨hrunning, hhas⟩
  · left
    have haccounts : (s.get name answer).accounts = s.accounts := by
      unfold State.get
      split
      · rfl
      · split <;> rfl
    rw [haccounts]
    exact hrefused
  · right
    have hsame : s.get name answer = s := if_pos hrunning
    rw [hsame]
    exact ⟨hrunning, hhas⟩

theorem inv_disconnect (h : Inv s) : Inv (s.disconnect name) := by
  unfold State.disconnect
  cases hsession : s.pool name with
  | none => exact h
  | some session =>
      refine h.put (Grown.refl _) ?_ ?_
      · intro hclient
        refine h.owner name session hsession ?_
        rw [Option.isSome_map] at hclient
        exact hclient
      · intro c user hc hconnected
        obtain ⟨old, -, rfl⟩ := Option.map_eq_some_iff.mp hc
        cases hconnected

theorem inv_setEnabled (h : Inv s) (accountId : Nat) (enabled : Bool) : Inv (s.setEnabled accountId enabled) :=
  have hgrown : Grown s.accounts (s.setEnabled accountId enabled).accounts := grown_setEnabled accountId enabled
  { h.toKeys.grown hgrown with
    once := fun name session hsession => (h.once name session hsession).grown rfl hgrown }

theorem inv_startStep {finished : Option (List (String × Start))} (hmeets : meets s (.startAll finished)) (h : Inv s)
    (hstep : startStep s finished = some t) : Inv t := by
  cases finished with
  | none =>
      cases hstep
      exact h
  | some finished =>
      obtain ⟨-, heq⟩ := Option.ite_none_right_eq_some.mp hstep
      cases heq
      exact inv_startAll h hmeets

theorem fresh_startStep {finished : Option (List (String × Start))} (h : Keys s) (hfresh : Fresh s)
    (hstep : startStep s finished = some t) : Keys t ∧ Fresh t := by
  cases finished with
  | none =>
      cases hstep
      exact ⟨h, hfresh⟩
  | some finished =>
      obtain ⟨-, heq⟩ := Option.ite_none_right_eq_some.mp hstep
      cases heq
      exact fresh_startAll h hfresh

/-- **Step.** -/
theorem inv_step {op : Op} (h : Inv s) (hmeets : meets s op) (hstep : step s op = some t) : Inv t := by
  cases op with
  | startAll finished => exact inv_startStep hmeets h hstep
  | attachAll fails =>
      cases hstep
      exact inv_attachAll h.toKeys hmeets
  | startUp finished fails =>
      obtain ⟨u, hu, rfl⟩ := Option.map_eq_some_iff.mp hstep
      have hfresh : Fresh s := by
        intro name session c hsession
        rw [hmeets.1 name] at hsession
        cases hsession
      obtain ⟨hkeys, hfresh⟩ := fresh_startStep h.toKeys hfresh hu
      exact inv_startUp hkeys hfresh hmeets.2
  | get name answer =>
      cases hstep
      exact inv_get h hmeets
  | stopAlias name =>
      cases hstep
      exact h.stop name
  | stopAll =>
      cases hstep
      exact {
        ids := h.ids
        aliases := h.aliases
        names := List.nodup_nil
        listed := nofun
        owner := nofun
        once := nofun }
  | reloadAccount name answer fails =>
      cases hstep
      exact inv_restart h hmeets
  | restart name answer fails =>
      cases hstep
      exact inv_restart h hmeets
  | authCode name answer signIn =>
      cases hstep
      exact inv_login (inv_get h hmeets.1) fun user hanswer => loggedIn_get (hmeets.2 user hanswer)
  | requireClient name answer =>
      cases hstep
      exact inv_requireClient (inv_get h hmeets)
  | disconnect name =>
      cases hstep
      exact inv_disconnect h
  | setEnabled accountId enabled =>
      cases hstep
      exact inv_setEnabled h accountId enabled

/-! ## Every run -/

/-- Every session that is connected and authorized, of an enabled account, whose user passes the identity
    check, has the handlers once on its client: for its own account, or for none in the legacy mode. -/
def HandlersOnce (s : State) : Prop :=
  ∀ a ∈ s.accounts, a.isEnabled = true → ∀ session c user, s.pool a.accountAlias = some session →
    session.client = some c → c.connected = true → c.user = some user → s.passes session user = true →
      c.handlers = [if s.newMode then some a.id else none]

theorem inv_start {newMode : Bool} (hids : (accounts.map Account.id).Nodup)
    (haliases : (accounts.map Account.accountAlias).Nodup) : Inv (start newMode accounts) where
  ids := hids
  aliases := haliases
  names := List.nodup_nil
  listed := nofun
  owner := nofun
  once := nofun

/-- **Every live session has its handlers once**, in every run whose steps meet the condition. -/
theorem handlers_once (newMode : Bool) (accounts : List Account) (hids : (accounts.map Account.id).Nodup)
    (haliases : (accounts.map Account.accountAlias).Nodup) (s : State)
    (hrun : Run step meets (start newMode accounts) s) : HandlersOnce s := by
  have h : Inv s := hrun.invariant (fun _ _ _ hinv hok hstep => inv_step hinv hok hstep) (inv_start hids haliases)
  intro a ha _ session c user hsession hc hconnected huser hpasses
  rw [h.once _ session hsession c user hc hconnected huser hpasses]
  obtain ⟨b, hb, halias, hid⟩ := h.owner _ session hsession (by rw [hc]; rfl)
  have heq := eq_of_key h.aliases hb ha halias
  unfold State.registration
  rw [hid, heq]

/-- Anna's account. -/
def annas : List Account := [⟨1, "anna", true, none, none⟩]

/-- The service starts with Anna logged in; her session is restarted. -/
theorem handlers_once_restarted :
    ∃ s, exec step (start true annas)
        [.startUp (some [("anna", .connected (some 7))]) fun _ => false,
          .restart "anna" (.connected (some 7)) false] = some s ∧
      HandlersOnce s := by
  have hpossible : (exec step (start true annas)
      [.startUp (some [("anna", .connected (some 7))]) fun _ => false,
        .restart "anna" (.connected (some 7)) false]).isSome = true := by decide
  obtain ⟨s, hs⟩ := Option.isSome_iff_exists.mp hpossible
  obtain ⟨t, ht, hrest⟩ := Option.bind_eq_some_iff.mp hs
  obtain ⟨u, hu, hlast⟩ := Option.bind_eq_some_iff.mp hrest
  cases hlast
  have hrun : Run step meets (start true annas) s :=
    .tail (.restart "anna" (.connected (some 7)) false)
      (Run.single (.startUp (some [("anna", .connected (some 7))]) fun _ => false) ⟨fun _ => rfl, fun _ => rfl⟩ ht)
      rfl hu
  exact ⟨s, hs, handlers_once true annas (by decide) (by decide) s hrun⟩

/-- The service starts with Anna logged in, her connection is lost, and the next request starts a new session. -/
def annaComesBack : List Op :=
  [.startUp (some [("anna", .connected (some 7))]) fun _ => false, .disconnect "anna", .get "anna" (.connected (some 7))]

/-- **The new session is live, and has no handlers.** -/
theorem handlers_once_fails :
    ¬ ∀ (newMode : Bool) (accounts : List Account), (accounts.map Account.id).Nodup →
      (accounts.map Account.accountAlias).Nodup → ∀ s, Run step Always (start newMode accounts) s → HandlersOnce s := by
  intro hall
  have hpossible : (exec step (start true annas) annaComesBack).isSome = true := by decide
  obtain ⟨s, hs⟩ := Option.isSome_iff_exists.mp hpossible
  have honce := hall true annas (by decide) (by decide) s (Run.of_exec hs)
  -- what is left of the run
  have haccounts : (exec step (start true annas) annaComesBack).map State.accounts
      = some [⟨1, "anna", true, some 7, none⟩] := by decide
  have hsession : ((exec step (start true annas) annaComesBack).bind fun s => s.pool "anna")
      = some ⟨some 1, some 7, none, some ⟨true, some 7, []⟩⟩ := by decide
  have hpasses : ((exec step (start true annas) annaComesBack).map fun s =>
      s.passes ⟨some 1, some 7, none, some ⟨true, some 7, []⟩⟩ 7) = some true := by decide
  rw [hs] at haccounts hsession hpasses
  have hmem : (⟨1, "anna", true, some 7, none⟩ : Account) ∈ s.accounts := by
    rw [Option.some.inj haccounts]
    exact List.mem_singleton_self _
  have hhandlers := honce _ hmem rfl _ _ 7 hsession rfl rfl rfl (Option.some.inj hpasses)
  cases hhandlers

end MyPerson.Telegram
