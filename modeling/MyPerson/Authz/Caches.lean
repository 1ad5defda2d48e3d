import MyPerson.Lib.Cache
import MyPerson.Lib.Rows
import MyPerson.WriteLimits.Basic

/-!
# `Authz.Caches` — keys and aliases, and the caches in front of them

A request is authenticated by `keys.lookup`, or its account is found by alias; both look into a cache of
the process first and otherwise read the database and store the answer. `create_key`, `revoke_key` and
`patch_account` change the database and then clear what they think derives from it. Every `await` is a
point where others may run, so each of these is cut there.

## Contents
- the tables, `load` and `resolveAliasFromDb`;
- the tasks and the state;
- `step`; `accepts` and `resolvesTo`, what a step answers to a request.
-/

namespace MyPerson.Authz

open Lib
open WriteLimits (Platform)

/-! ## The tables -/

inductive Scope
  | account | owner
deriving DecidableEq, Repr

structure ApiKey where
  id        : Nat
  scope     : Scope
  accountId : Option Nat
  keyHash   : String
  revoked   : Bool
deriving DecidableEq, Repr

structure Account where
  id           : Nat
  accountAlias : String
  platform     : Platform
  isEnabled    : Bool
deriving DecidableEq, Repr

structure KeyInfo where
  id           : Nat
  scope        : Scope
  accountId    : Option Nat
  accountAlias : Option String
  platform     : Option Platform
deriving DecidableEq, Repr

/-- The account that a request with the key gets: none with an owner key. -/
def KeyInfo.account (info : KeyInfo) : Option Nat := if info.scope = .account then info.accountId else none

/-- `CACHE_TTL` of the keys and `_CACHE_TTL` of the aliases, in seconds. -/
def keyTtl : Int := 60
def aliasTtl : Int := 10

structure Db where
  keys     : List ApiKey
  accounts : List Account

/-- `_load`: the key of a hash, unless it is revoked or its account is disabled. -/
def Db.load (db : Db) (keyHash : String) : Option KeyInfo :=
  (db.keys.find? fun k => k.keyHash == keyHash && !k.revoked).bind fun key =>
    let account := key.accountId.bind (byKey Account.id db.accounts)
    if key.scope = .account ∧ (account.any Account.isEnabled) = false then none
    else some ⟨key.id, key.scope, key.accountId, account.map Account.accountAlias, account.map Account.platform⟩

/-- `_resolve_alias_from_db`. -/
def Db.resolveAliasFromDb (db : Db) (name : String) : Option (Nat × Platform) :=
  (db.accounts.find? fun a => a.accountAlias == name && a.isEnabled).map fun a => (a.id, a.platform)

/-! ## Tasks -/

/-- A request that waits for its key or its alias: what it asked for, the clock and the moment when it
    started, and the answer of the database once it is there. -/
structure Query (ν : Type) where
  name    : String
  started : Int
  born    : Nat
  answer  : Option (Option ν)

structure Revoke where
  keyId : Nat
  /-- After the commit: whether there is such a key. -/
  found : Option Bool

inductive PatchPhase
  | called
  /-- The row is read. -/
  | loaded (accountAlias : String) (wasEnabled : Bool)
  /-- Committed; the account may have been enabled again since. -/
  | committed (accountAlias : String) (enabledAgain : Bool)
  /-- The alias cache is cleared. -/
  | invalidated (enabledAgain : Bool)
deriving DecidableEq

structure Patch where
  accountId : Nat
  isEnabled : Option Bool
  phase     : PatchPhase
deriving DecidableEq

structure State where
  db         : Db
  now        : Int
  keyCache   : Cache String (Option KeyInfo)
  aliasCache : Cache String (Nat × Platform)
  lookups    : Nat → Option (Query KeyInfo)
  resolves   : Nat → Option (Query (Nat × Platform))
  /-- Calls of `create_key` that have committed and not cleared the cache. -/
  creates    : Nat
  revokes    : Nat → Option Revoke
  patches    : Nat → Option Patch
  /-- How many steps there have been. -/
  moment     : Nat
  /-- When `revoke_key` of a key returned. -/
  revokedAt  : Table Nat Nat
  /-- When `patch_account` returned that disabled an account that was not enabled since. -/
  disabledAt : Table Nat Nat

/-- No request yet. -/
def start (db : Db) (now : Int) : State :=
  ⟨db, now, .empty, .empty, fun _ => none, fun _ => none, 0, fun _ => none, fun _ => none, 0, fun _ => none,
    fun _ => none⟩

/-! ## Steps -/

inductive Action
  | tick (seconds : Nat)
  /-- `keys.lookup` starts. -/
  | lookup (i : Nat) (keyHash : String)
  | loadKey (i : Nat)
  | storeKey (i : Nat)
  /-- `resolve_alias_middleware` starts. -/
  | resolve (i : Nat) (name : String)
  | loadAlias (i : Nat)
  | storeAlias (i : Nat)
  /-- A request is cancelled, or its query fails. -/
  | dropLookup (i : Nat)
  | dropResolve (i : Nat)
  /-- `create_key` commits; then it clears the cache. -/
  | createKey (key : ApiKey)
  | createdKey
  | revoke (i keyId : Nat)
  | revokeCommit (i : Nat)
  | revokeDone (i : Nat)
  | patch (i accountId : Nat) (isEnabled : Option Bool)
  | patchLoad (i : Nat)
  | patchCommit (i : Nat)
  | patchInvalidate (i : Nat)
  | patchDone (i : Nat)

/-- The rows of an account after `account.is_enabled = …`: no `UPDATE` if the loaded value is the same. -/
def Db.setEnabled (db : Db) (accountId : Nat) (wasEnabled : Bool) : Option Bool → Db
  | some enabled =>
      if enabled = wasEnabled then db
      else
        { db with
          accounts := updateWhere db.accounts (fun a => a.id == accountId) fun a => { a with isEnabled := enabled } }
  | none => db

/-- An `UPDATE` that enables an account is seen by the calls that wanted it disabled. -/
def Patch.seeEnabled (accountId : Nat) (p : Patch) : Patch :=
  if p.accountId = accountId then
    match p.phase with
    | .committed name _ => { p with phase := .committed name true }
    | .invalidated _ => { p with phase := .invalidated true }
    | _ => p
  else p

/-- Whether the commit of a patch enables the account. -/
def enables (wasEnabled : Bool) (isEnabled : Option Bool) : Bool := isEnabled == some true && !wasEnabled

/-- Requests. -/
def requestStep (s : State) : Action → Option State
  | .lookup i keyHash =>
      if (s.lookups i).isSome then none
      else match s.keyCache.get s.now keyHash with
        | some _ => some s
        | none => some { s with lookups := Function.update s.lookups i (some ⟨keyHash, s.now, s.moment, none⟩) }
  | .loadKey i =>
      (s.lookups i).bind fun q =>
        if q.answer.isSome then none
        else some { s with lookups := Function.update s.lookups i (some { q with answer := some (s.db.load q.name) }) }
  | .storeKey i =>
      (s.lookups i).bind fun q => q.answer.map fun info =>
        { s with
          keyCache := s.keyCache.put q.name info (q.started + keyTtl)
          lookups := Function.update s.lookups i none }
  | .resolve i name =>
      if (s.resolves i).isSome then none
      else match s.aliasCache.get s.now name with
        | some _ => some s
        | none => some { s with resolves := Function.update s.resolves i (some ⟨name, s.now, s.moment, none⟩) }
  | .loadAlias i =>
      (s.resolves i).bind fun q =>
        if q.answer.isSome then none
        else some { s with
          resolves := Function.update s.resolves i (some { q with answer := some (s.db.resolveAliasFromDb q.name) }) }
  | .storeAlias i =>
      (s.resolves i).bind fun q => q.answer.map fun found =>
        { s with
          -- an unknown alias is not cached
          aliasCache := match found with
            | some account => s.aliasCache.put q.name account (q.started + aliasTtl)
            | none => s.aliasCache
          resolves := Function.update s.resolves i none }
  | .dropLookup i => some { s with lookups := Function.update s.lookups i none }
  | .dropResolve i => some { s with resolves := Function.update s.resolves i none }
  | _ => none

/-- `create_key` and `revoke_key`. -/
def keyStep (s : State) : Action → Option State
  | .createKey key =>
      if key.revoked = true ∨ ∃ k ∈ s.db.keys, k.id = key.id ∨ k.keyHash = key.keyHash then none
      else some { s with db := { s.db with keys := s.db.keys ++ [key] }, creates := s.creates + 1 }
  | .createdKey =>
      if s.creates = 0 then none else some { s with keyCache := .empty, creates := s.creates - 1 }
  | .revoke i keyId =>
      if (s.revokes i).isSome then none
      else some { s with revokes := Function.update s.revokes i (some ⟨keyId, none⟩) }
  | .revokeCommit i =>
      (s.revokes i).bind fun r =>
        if r.found.isSome then none
        else some { s with
          db := { s.db with
            keys := updateWhere s.db.keys (fun k => k.id == r.keyId) fun k => { k with revoked := true } }
          revokes := Function.update s.revokes i
            (some { r with found := some (s.db.keys.any fun k => k.id == r.keyId) }) }
  | .revokeDone i =>
      (s.revokes i).bind fun r => r.found.map fun found =>
        { s with
          keyCache := .empty
          revokes := Function.update s.revokes i none
          revokedAt := if found then Function.update s.revokedAt r.keyId (some (s.moment + 1)) else s.revokedAt }
  | _ => none

/-- `patch_account`. -/
def patchStep (s : State) : Action → Option State
  | .patch i accountId isEnabled =>
      if (s.patches i).isSome then none
      else some { s with patches := Function.update s.patches i (some ⟨accountId, isEnabled, .called⟩) }
  | .patchLoad i =>
      (s.patches i).bind fun p =>
        match p.phase, byKey Account.id s.db.accounts p.accountId with
        | .called, some account =>
            some { s with
              patches := Function.update s.patches i
                (some { p with phase := .loaded account.accountAlias account.isEnabled }) }
        -- 404
        | .called, none => some { s with patches := Function.update s.patches i none }
        | _, _ => none
  | .patchCommit i =>
      (s.patches i).bind fun p =>
        match p.phase with
        | .loaded name wasEnabled =>
            let patches :=
              if enables wasEnabled p.isEnabled then fun j => (s.patches j).map (Patch.seeEnabled p.accountId)
              else s.patches
            some { s with
              db := s.db.setEnabled p.accountId wasEnabled p.isEnabled
              patches := Function.update patches i (some { p with phase := .committed name false })
              disabledAt :=
                if enables wasEnabled p.isEnabled then Function.update s.disabledAt p.accountId none
                else s.disabledAt }
        | _ => none
  | .patchInvalidate i =>
      (s.patches i).bind fun p =>
        match p.phase with
        | .committed name enabledAgain =>
            some { s with
              aliasCache := s.aliasCache.drop name
              patches := Function.update s.patches i (some { p with phase := .invalidated enabledAgain }) }
        | _ => none
  | .patchDone i =>
      (s.patches i).bind fun p =>
        match p.phase with
        | .invalidated enabledAgain =>
            some { s with
              patches := Function.update s.patches i none
              disabledAt :=
                if p.isEnabled = some false ∧ enabledAgain = false then
                  Function.update s.disabledAt p.accountId (some (s.moment + 1))
                else s.disabledAt }
        | _ => none
  | _ => none

/-- One step of the process, without the count of steps. -/
def act (s : State) (a : Action) : Option State :=
  match a with
  | .tick seconds => some { s with now := s.now + seconds }
  | .lookup .. | .loadKey _ | .storeKey _ | .resolve .. | .loadAlias _ | .storeAlias _ | .dropLookup _
  | .dropResolve _ => requestStep s a
  | .createKey _ | .createdKey | .revoke .. | .revokeCommit _ | .revokeDone _ => keyStep s a
  | .patch .. | .patchLoad _ | .patchCommit _ | .patchInvalidate _ | .patchDone _ => patchStep s a

def step (s : State) (a : Action) : Option State := (act s a).map fun t => { t with moment := s.moment + 1 }

/-! ## Answers -/

/-- The step accepts a key: when the request started, and the key. -/
def accepts (s : State) : Action → Option (Nat × KeyInfo)
  | .lookup _ keyHash => (s.keyCache.get s.now keyHash).bind fun info => info.map fun info => (s.moment, info)
  | .storeKey i =>
      (s.lookups i).bind fun q => q.answer.bind fun info => info.map fun info => (q.born, info)
  | _ => none

/-- The step resolves an alias: when the request started, and the account. -/
def resolvesTo (s : State) : Action → Option (Nat × Nat)
  | .resolve _ name => (s.aliasCache.get s.now name).map fun account => (s.moment, account.1)
  | .storeAlias i =>
      (s.resolves i).bind fun q => q.answer.bind fun found => found.map fun account => (q.born, account.1)
  | _ => none

end MyPerson.Authz
