import MyPerson.Lib.Run
import MyPerson.Authz.Caches

/-!
# `Authz.Revocation` — revoking and disabling take effect at once

After `revoke_key` has returned no request that starts later may be accepted with the key, after
`patch_account` has disabled an account none may reach it. The database says so at once; what stands in the
way are answers that were read before and are stored after the caches were cleared, and the key cache, which
`patch_account` does not clear at all. In a run whose steps meet `meets` neither happens.

## Contents
- `meets`: the condition on the steps;
- `Inv`, kept by the requests, by the key calls and by `patch_account`;
- `revocation_at_once`, and a key that outlives its account (`revocation_at_once_fails`).
-/

namespace MyPerson.Authz

open Lib
open WriteLimits (Platform)

variable {s t : State} {i : Nat} {info : KeyInfo}

/-! ## The condition -/

/-- A key that nobody revoked, of an account that nobody disabled. -/
def Valid (s : State) (info : KeyInfo) : Prop :=
  s.revokedAt info.id = none ∧ ∀ accountId, info.account = some accountId → s.disabledAt accountId = none

/-- No answer is stored that was overtaken by a revocation; when a call that disables an account returns,
    no cached answer leads to the account; and the row had not changed since the call had read it. -/
def meets (s : State) : Action → Prop
  | .storeKey i => ∀ q info, s.lookups i = some q → q.answer = some (some info) → Valid s info
  | .storeAlias i => ∀ q account, s.resolves i = some q → q.answer = some (some account) →
      s.disabledAt account.1 = none
  | .patchCommit i => ∀ p name wasEnabled, s.patches i = some p → p.phase = .loaded name wasEnabled →
      p.isEnabled = some false → wasEnabled = true ∨ ∀ a ∈ s.db.accounts, a.id = p.accountId → a.isEnabled = false
  | .patchDone i => ∀ p, s.patches i = some p → p.isEnabled = some false →
      s.keyCache.Holds (fun found => ∀ info, found = some info → info.account ≠ some p.accountId) s.now ∧
        s.aliasCache.Holds (fun account => account.1 ≠ p.accountId) s.now
  | _ => True

/-! ## The invariant -/

/-- A request that started at `born` may still get this key: whatever revoked it has returned since. -/
def MayGet (s : State) (born : Nat) (info : KeyInfo) : Prop :=
  (∀ r, s.revokedAt info.id = some r → born < r) ∧
    ∀ accountId d, info.account = some accountId → s.disabledAt accountId = some d → born < d

theorem Valid.mayGet (h : Valid s info) (born : Nat) : MayGet s born info := by
  constructor
  · intro r hr
    rw [h.1] at hr
    cases hr
  · intro accountId d hacc hd
    rw [h.2 accountId hacc] at hd
    cases hd

/-- The key is in the table, and revoked. -/
def Db.Revoked (db : Db) (keyId : Nat) : Prop :=
  (∃ key ∈ db.keys, key.id = keyId) ∧ ∀ key ∈ db.keys, key.id = keyId → key.revoked = true

def Db.Disabled (db : Db) (accountId : Nat) : Prop := ∀ a ∈ db.accounts, a.id = accountId → a.isEnabled = false

/-- The call has disabled the account, and nobody enabled it since. -/
def Patch.Holds (p : Patch) : Prop :=
  p.isEnabled = some false ∧ ((∃ name, p.phase = .committed name false) ∨ p.phase = .invalidated false)

structure Inv (s : State) : Prop where
  revoked   : ∀ k r, s.revokedAt k = some r → s.db.Revoked k
  disabled  : ∀ k d, s.disabledAt k = some d → s.db.Disabled k
  revokes   : ∀ i r, s.revokes i = some r → r.found = some true → s.db.Revoked r.keyId
  patches   : ∀ i p, s.patches i = some p → p.Holds → s.db.Disabled p.accountId
  keyCache  : s.keyCache.Holds (fun found => ∀ info, found = some info → Valid s info) s.now
  aliases   : s.aliasCache.Holds (fun account => s.disabledAt account.1 = none) s.now
  lookups   : ∀ i q, s.lookups i = some q → q.born ≤ s.moment ∧
    ∀ info, q.answer = some (some info) → MayGet s q.born info
  resolves  : ∀ i q, s.resolves i = some q → q.born ≤ s.moment ∧
    ∀ account, q.answer = some (some account) → ∀ d, s.disabledAt account.1 = some d → q.born < d

theorem inv_start (db : Db) (now : Int) : Inv (start db now) where
  revoked := nofun
  disabled := nofun
  revokes := nofun
  patches := nofun
  keyCache := Cache.holds_empty
  aliases := Cache.holds_empty
  lookups := nofun
  resolves := nofun

/-- The count of steps goes on. -/
theorem Inv.next (h : Inv s) : Inv { s with moment := s.moment + 1 } where
  revoked := h.revoked
  disabled := h.disabled
  revokes := h.revokes
  patches := h.patches
  keyCache := h.keyCache
  aliases := h.aliases
  lookups := fun i q hq => ⟨Nat.le_succ_of_le (h.lookups i q hq).1, (h.lookups i q hq).2⟩
  resolves := fun i q hq => ⟨Nat.le_succ_of_le (h.resolves i q hq).1, (h.resolves i q hq).2⟩

/-! ## What the database answers -/

/-- The database gives no key that was revoked, and none of a disabled account. -/
theorem valid_of_load (h : Inv s) {keyHash : String} (hload : s.db.load keyHash = some info) : Valid s info := by
  unfold Db.load at hload
  obtain ⟨key, hfound, hload⟩ := Option.bind_eq_some_iff.mp hload
  have hmem := List.mem_of_find?_eq_some hfound
  have hkey := List.find?_some hfound
  rw [Bool.and_eq_true] at hkey
  by_cases hdisabled : key.scope = .account ∧
      ((key.accountId.bind (byKey Account.id s.db.accounts)).any Account.isEnabled) = false
  · rw [if_pos hdisabled] at hload
    cases hload
  · rw [if_neg hdisabled] at hload
    cases hload
    constructor
    · show s.revokedAt key.id = none
      cases hrevoked : s.revokedAt key.id with
      | none => rfl
      | some r =>
          have hyes := (h.revoked key.id r hrevoked).2 key hmem rfl
          rw [hyes] at hkey
          cases hkey.2
    · intro accountId hacc
      unfold KeyInfo.account at hacc
      by_cases hscope : key.scope = .account
      · rw [if_pos hscope] at hacc
        have hid : key.accountId = some accountId := hacc
        cases hgone : s.disabledAt accountId with
        | none => rfl
        | some d =>
            exfalso
            apply hdisabled
            refine ⟨hscope, ?_⟩
            rw [hid]
            show ((byKey Account.id s.db.accounts accountId).any Account.isEnabled) = false
            cases hrow : byKey Account.id s.db.accounts accountId with
            | none => rfl
            | some account =>
                obtain ⟨hmem', hid'⟩ := byKey_some hrow
                exact h.disabled accountId d hgone account hmem' hid'
      · rw [if_neg hscope] at hacc
        cases hacc

theorem enabled_of_resolve (h : Inv s) {name : String} {account : Nat × Platform}
    (hfound : s.db.resolveAliasFromDb name = some account) : s.disabledAt account.1 = none := by
  unfold Db.resolveAliasFromDb at hfound
  obtain ⟨row, hrow, rfl⟩ := Option.map_eq_some_iff.mp hfound
  have hmem := List.mem_of_find?_eq_some hrow
  have henabled := List.find?_some hrow
  rw [Bool.and_eq_true] at henabled
  show s.disabledAt row.id = none
  cases hgone : s.disabledAt row.id with
  | none => rfl
  | some d =>
      rw [h.disabled row.id d hgone row hmem rfl] at henabled
      cases henabled.2

/-! ## Requests -/

theorem inv_request {a : Action} (h : Inv s) (hmeets : meets s a) (hstep : requestStep s a = some t) : Inv t := by
  cases a with
  | lookup i keyHash =>
      simp only [requestStep] at hstep
      split at hstep
      · cases hstep
      · split at hstep
        · cases hstep
          exact h
        · cases hstep
          refine { h with lookups := Table.forall_update (fun q hq => ?_) h.lookups }
          cases hq
          exact ⟨Nat.le_refl _, nofun⟩
  | loadKey i =>
      simp only [requestStep] at hstep
      obtain ⟨q, hq, hstep⟩ := Option.bind_eq_some_iff.mp hstep
      split at hstep
      · cases hstep
      · cases hstep
        refine { h with lookups := Table.forall_update (fun q' hq' => ?_) h.lookups }
        cases hq'
        refine ⟨(h.lookups i q hq).1, fun info hinfo => ?_⟩
        exact (valid_of_load h (Option.some.inj hinfo)).mayGet q.born
  | storeKey i =>
      simp only [requestStep] at hstep
      obtain ⟨q, hq, hstep⟩ := Option.bind_eq_some_iff.mp hstep
      obtain ⟨found, hfound, rfl⟩ := Option.map_eq_some_iff.mp hstep
      refine { h with keyCache := h.keyCache.put ?_, lookups := Table.forall_erase h.lookups }
      intro info hinfo
      rw [hinfo] at hfound
      exact hmeets q info hq hfound
  | resolve i name =>
      simp only [requestStep] at hstep
      split at hstep
      · cases hstep
      · split at hstep
        · cases hstep
          exact h
        · cases hstep
          refine { h with resolves := Table.forall_update (fun q hq => ?_) h.resolves }
          cases hq
          exact ⟨Nat.le_refl _, nofun⟩
  | loadAlias i =>
      simp only [requestStep] at hstep
      obtain ⟨q, hq, hstep⟩ := Option.bind_eq_some_iff.mp hstep
      split at hstep
      · cases hstep
      · cases hstep
        refine { h with resolves := Table.forall_update (fun q' hq' => ?_) h.resolves }
        cases hq'
        refine ⟨(h.resolves i q hq).1, fun account hfound d hd => ?_⟩
        rw [enabled_of_resolve h (Option.some.inj hfound)] at hd
        cases hd
  | storeAlias i =>
      simp only [requestStep] at hstep
      obtain ⟨q, hq, hstep⟩ := Option.bind_eq_some_iff.mp hstep
      obtain ⟨found, hfound, rfl⟩ := Option.map_eq_some_iff.mp hstep
      refine { h with aliases := ?_, resolves := Table.forall_erase h.resolves }
      cases found with
      | none => exact h.aliases
      | some account => exact h.aliases.put (hmeets q account hq hfound)
  | dropLookup i =>
      cases hstep
      exact { h with lookups := Table.forall_erase h.lookups }
  | dropResolve i =>
      cases hstep
      exact { h with resolves := Table.forall_erase h.resolves }
  | tick seconds | createKey key | createdKey | revoke i keyId | revokeCommit i | revokeDone i
  | patch i accountId isEnabled | patchLoad i | patchCommit i | patchInvalidate i | patchDone i => cases hstep

/-! ## `create_key` and `revoke_key` -/

theorem Db.Revoked.append {db : Db} {k : Nat} {key : ApiKey} (h : db.Revoked k)
    (hnew : ∀ old ∈ db.keys, old.id ≠ key.id) : Db.Revoked { db with keys := db.keys ++ [key] } k := by
  obtain ⟨⟨old, hold, hid⟩, hall⟩ := h
  refine ⟨⟨old, List.mem_append_left _ hold, hid⟩, fun key' hkey' hid' => ?_⟩
  rcases List.mem_append.mp hkey' with hkey' | hkey'
  · exact hall key' hkey' hid'
  · rw [List.mem_singleton.mp hkey'] at hid'
    exact absurd (hid.trans hid'.symm) (hnew old hold)

/-- The keys after the `UPDATE` of `revoke_key`. -/
def Db.revoke (db : Db) (keyId : Nat) : Db :=
  { db with keys := updateWhere db.keys (fun k => k.id == keyId) fun k => { k with revoked := true } }

theorem Db.Revoked.revoke {db : Db} {k : Nat} (h : db.Revoked k) (keyId : Nat) : (db.revoke keyId).Revoked k := by
  obtain ⟨⟨old, hold, hid⟩, hall⟩ := h
  constructor
  · obtain ⟨new, hnew, rfl | rfl⟩ := updated_of_mem (fun k => k.id == keyId) (fun k => { k with revoked := true }) hold
    · exact ⟨new, hnew, hid⟩
    · exact ⟨_, hnew, hid⟩
  · intro key hkey hid'
    rcases of_mem_updateWhere hkey with ⟨hkey, -⟩ | ⟨old', -, -, rfl⟩
    · exact hall key hkey hid'
    · rfl

/-- The key is revoked, if there is one. -/
theorem revoked_revoke {db : Db} {keyId : Nat} (hexists : (db.keys.any fun k => k.id == keyId) = true) :
    (db.revoke keyId).Revoked keyId := by
  obtain ⟨old, hold, hid⟩ := List.any_eq_true.mp hexists
  constructor
  · exact ⟨_, mem_updateWhere_of_pos hold hid, by simpa using hid⟩
  · intro key hkey hid'
    rcases of_mem_updateWhere hkey with ⟨-, hnot⟩ | ⟨old', -, -, rfl⟩
    · rw [hid'] at hnot
      simp at hnot
    · rfl

theorem inv_key {a : Action} (h : Inv s) (hstep : keyStep s a = some t) : Inv { t with moment := s.moment + 1 } := by
  cases a with
  | createKey key =>
      simp only [keyStep] at hstep
      split at hstep
      · cases hstep
      · rename_i hfresh
        cases hstep
        have hnew : ∀ old ∈ s.db.keys, old.id ≠ key.id := fun old hold heq =>
          hfresh (Or.inr ⟨old, hold, Or.inl heq⟩)
        exact { h.next with
          revoked := fun k r hr => (h.revoked k r hr).append hnew
          revokes := fun j r hr hfound => (h.revokes j r hr hfound).append hnew }
  | createdKey =>
      simp only [keyStep] at hstep
      split at hstep
      · cases hstep
      · cases hstep
        exact { h.next with keyCache := Cache.holds_empty }
  | revoke i keyId =>
      simp only [keyStep] at hstep
      split at hstep
      · cases hstep
      · cases hstep
        refine { h.next with revokes := Table.forall_update (fun r hr hfound => ?_) h.revokes }
        cases hr
        cases hfound
  | revokeCommit i =>
      simp only [keyStep] at hstep
      obtain ⟨r, hr, hstep⟩ := Option.bind_eq_some_iff.mp hstep
      split at hstep
      · cases hstep
      · cases hstep
        refine { h.next with
          revoked := fun k m hm => (h.revoked k m hm).revoke r.keyId
          revokes := Table.forall_update (fun r' hr' hfound => ?_) fun j r' hr' hfound =>
            (h.revokes j r' hr' hfound).revoke r.keyId }
        cases hr'
        exact revoked_revoke (Option.some.inj hfound)
  | revokeDone i =>
      simp only [keyStep] at hstep
      obtain ⟨r, hr, hstep⟩ := Option.bind_eq_some_iff.mp hstep
      obtain ⟨found, hfound, rfl⟩ := Option.map_eq_some_iff.mp hstep
      have hrevokes : ∀ j r', Function.update s.revokes i none j = some r' → r'.found = some true →
          s.db.Revoked r'.keyId := Table.forall_erase h.revokes
      cases found with
      | false => exact { h.next with keyCache := Cache.holds_empty, revokes := hrevokes }
      | true =>
          have hwhen : ∀ k m, Function.update s.revokedAt r.keyId (some (s.moment + 1)) k = some m →
              (k = r.keyId ∧ m = s.moment + 1) ∨ s.revokedAt k = some m := by
            intro k m hm
            rcases Table.of_update hm with ⟨hk, heq⟩ | ⟨-, hm⟩
            · cases heq
              exact Or.inl ⟨hk, rfl⟩
            · exact Or.inr hm
          refine { h.next with
            keyCache := Cache.holds_empty
            revokes := hrevokes
            revoked := fun k m hm => ?_
            lookups := fun j q hq => ⟨Nat.le_succ_of_le (h.lookups j q hq).1, fun info hinfo => ⟨fun m hm => ?_, ?_⟩⟩ }
          · rcases hwhen k m hm with ⟨rfl, -⟩ | hm
            · exact h.revokes i r hr hfound
            · exact h.revoked k m hm
          · rcases hwhen info.id m hm with ⟨-, rfl⟩ | hm
            · exact Nat.lt_succ_of_le (h.lookups j q hq).1
            · exact ((h.lookups j q hq).2 info hinfo).1 m hm
          · exact ((h.lookups j q hq).2 info hinfo).2
  | tick seconds | lookup i keyHash | loadKey i | storeKey i | resolve i name | loadAlias i | storeAlias i
  | dropLookup i | dropResolve i | patch i accountId isEnabled | patchLoad i | patchCommit i
  | patchInvalidate i | patchDone i => cases hstep

/-! ## `patch_account` -/

/-- An `UPDATE` of another account, or one that disables. -/
theorem Db.Disabled.setEnabled {db : Db} {k accountId : Nat} {wasEnabled : Bool} {isEnabled : Option Bool}
    (h : db.Disabled k) (hother : k = accountId → enables wasEnabled isEnabled = false) :
    (db.setEnabled accountId wasEnabled isEnabled).Disabled k := by
  unfold Db.setEnabled
  cases isEnabled with
  | none => exact h
  | some enabled =>
      show (if enabled = wasEnabled then db else _).Disabled k
      by_cases hsame : enabled = wasEnabled
      · rw [if_pos hsame]
        exact h
      · rw [if_neg hsame]
        intro a ha hid
        rcases of_mem_updateWhere ha with ⟨ha, -⟩ | ⟨old, hold, hsel, rfl⟩
        · exact h a ha hid
        · have hk : k = accountId := hid.symm.trans (by simpa using hsel)
          have hnot := hother hk
          unfold enables at hnot
          show enabled = false
          cases enabled with
          | false => rfl
          | true =>
              cases wasEnabled with
              | true => exact absurd rfl hsame
              | false => cases hnot

theorem setEnabled_keys (db : Db) (accountId : Nat) (wasEnabled : Bool) (isEnabled : Option Bool) :
    (db.setEnabled accountId wasEnabled isEnabled).keys = db.keys := by
  unfold Db.setEnabled
  cases isEnabled with
  | none => rfl
  | some enabled =>
      show (if enabled = wasEnabled then db else _).keys = db.keys
      by_cases hsame : enabled = wasEnabled
      · rw [if_pos hsame]
      · rw [if_neg hsame]

/-- A call that no longer holds its account disabled. -/
theorem not_holds_seeEnabled {p : Patch} {accountId : Nat} (h : (p.seeEnabled accountId).Holds) :
    p.accountId ≠ accountId ∧ p.Holds := by
  unfold Patch.seeEnabled at h
  by_cases hsame : p.accountId = accountId
  · rw [if_pos hsame] at h
    exfalso
    obtain ⟨-, hphase⟩ := h
    cases hp : p.phase with
    | called =>
        rw [hp] at hphase
        simp [hp] at hphase
    | loaded name was =>
        rw [hp] at hphase
        simp [hp] at hphase
    | committed name again =>
        rw [hp] at hphase
        simp at hphase
    | invalidated again =>
        rw [hp] at hphase
        simp at hphase
  · rw [if_neg hsame] at h
    exact ⟨hsame, h⟩

/-- The call that disables has its way, if the row is as it was read. -/
theorem disabled_setEnabled {db : Db} {accountId : Nat} {wasEnabled : Bool}
    (h : wasEnabled = true ∨ db.Disabled accountId) :
    (db.setEnabled accountId wasEnabled (some false)).Disabled accountId := by
  rcases h with rfl | h
  · intro a ha hid
    rcases of_mem_updateWhere ha with ⟨-, hnot⟩ | ⟨old, -, -, rfl⟩
    · rw [hid] at hnot
      simp at hnot
    · rfl
  · exact h.setEnabled fun _ => rfl

/-- An account that is enabled again is no longer on the list. -/
theorem Valid.erase {disabledAt : Table Nat Nat} (h : Valid s info)
    (hless : ∀ k d, disabledAt k = some d → s.disabledAt k = some d) :
    ∀ accountId, info.account = some accountId → disabledAt accountId = none := by
  intro accountId hacc
  cases hd : disabledAt accountId with
  | none => rfl
  | some d =>
      have hnone := h.2 accountId hacc
      rw [hless accountId d hd] at hnone
      cases hnone

theorem inv_patchCommit (h : Inv s) (hmeets : meets s (.patchCommit i)) (hstep : patchStep s (.patchCommit i) = some t) :
    Inv { t with moment := s.moment + 1 } := by
  simp only [patchStep] at hstep
  obtain ⟨p, hp, hstep⟩ := Option.bind_eq_some_iff.mp hstep
  split at hstep
  · rename_i name wasEnabled hphase
    cases hstep
    have hkeys := setEnabled_keys s.db p.accountId wasEnabled p.isEnabled
    have hrevoked : ∀ {k}, s.db.Revoked k → (s.db.setEnabled p.accountId wasEnabled p.isEnabled).Revoked k := by
      intro k hk
      unfold Db.Revoked
      rw [hkeys]
      exact hk
    by_cases hen : enables wasEnabled p.isEnabled = true
    · -- the account is enabled: whoever disabled it has no say any more
      have hless : ∀ k d, Function.update s.disabledAt p.accountId none k = some d →
          k ≠ p.accountId ∧ s.disabledAt k = some d := by
        intro k d hd
        rcases Table.of_update hd with ⟨-, heq⟩ | hold
        · cases heq
        · exact hold
      have hset : p.isEnabled = some true := by
        unfold enables at hen
        rw [Bool.and_eq_true] at hen
        simpa using hen.1
      simp only [if_pos hen]
      exact {
        revoked := fun k r hr => hrevoked (h.revoked k r hr)
        disabled := fun k d hd => (h.disabled k d (hless k d hd).2).setEnabled fun hk => absurd hk (hless k d hd).1
        revokes := fun j r hr hfound => hrevoked (h.revokes j r hr hfound)
        patches := fun j p' hp' hholds => by
          have hnew : Function.update (fun j => (s.patches j).map (Patch.seeEnabled p.accountId)) i
              (some { p with phase := .committed name false }) j = some p' := hp'
          rcases Table.of_update hnew with ⟨-, heq⟩ | ⟨-, hold⟩
          · cases heq
            have hfalse := hholds.1
            rw [hset] at hfalse
            cases hfalse
          · obtain ⟨q, hq, rfl⟩ := Option.map_eq_some_iff.mp hold
            obtain ⟨hne, hqholds⟩ := not_holds_seeEnabled hholds
            have hsame : (q.seeEnabled p.accountId).accountId = q.accountId := by
              unfold Patch.seeEnabled
              rw [if_neg hne]
            rw [hsame]
            exact (h.patches j q hq hqholds).setEnabled fun hk => absurd hk hne
        keyCache := h.keyCache.mono fun _ _ _ hvalid info hinfo =>
          ⟨(hvalid info hinfo).1, (hvalid info hinfo).erase fun k d hd => (hless k d hd).2⟩
        aliases := h.aliases.mono fun _ account _ hnone => by
          show Function.update s.disabledAt p.accountId none account.1 = none
          cases hd : Function.update s.disabledAt p.accountId none account.1 with
          | none => rfl
          | some d =>
              rw [(hless account.1 d hd).2] at hnone
              cases hnone
        lookups := fun j q hq => ⟨Nat.le_succ_of_le (h.lookups j q hq).1, fun info hinfo =>
          ⟨((h.lookups j q hq).2 info hinfo).1, fun accountId d hacc hd =>
            ((h.lookups j q hq).2 info hinfo).2 accountId d hacc (hless accountId d hd).2⟩⟩
        resolves := fun j q hq => ⟨Nat.le_succ_of_le (h.resolves j q hq).1, fun account hfound d hd =>
          (h.resolves j q hq).2 account hfound d (hless account.1 d hd).2⟩ }
    · have hnot : enables wasEnabled p.isEnabled = false := by simpa using hen
      simp only [if_neg hen]
      exact { h.next with
        revoked := fun k r hr => hrevoked (h.revoked k r hr)
        disabled := fun k d hd => (h.disabled k d hd).setEnabled fun _ => hnot
        revokes := fun j r hr hfound => hrevoked (h.revokes j r hr hfound)
        patches := fun j p' hp' hholds => by
          rcases Table.of_update hp' with ⟨-, heq⟩ | ⟨-, hold⟩
          · cases heq
            have hfalse : p.isEnabled = some false := hholds.1
            have hcurrent := hmeets p name wasEnabled hp hphase hfalse
            show (s.db.setEnabled p.accountId wasEnabled p.isEnabled).Disabled p.accountId
            rw [hfalse]
            exact disabled_setEnabled hcurrent
          · exact (h.patches j p' hold hholds).setEnabled fun _ => hnot }
  · cases hstep

theorem inv_patch {a : Action} (h : Inv s) (hmeets : meets s a) (hstep : patchStep s a = some t) :
    Inv { t with moment := s.moment + 1 } := by
  cases a with
  | patch i accountId isEnabled =>
      simp only [patchStep] at hstep
      split at hstep
      · cases hstep
      · cases hstep
        refine { h.next with patches := Table.forall_update (fun p hp hholds => ?_) h.patches }
        cases hp
        rcases hholds.2 with ⟨name, hphase⟩ | hphase <;> cases hphase
  | patchLoad i =>
      simp only [patchStep] at hstep
      obtain ⟨p, hp, hstep⟩ := Option.bind_eq_some_iff.mp hstep
      split at hstep
      · cases hstep
        refine { h.next with patches := Table.forall_update (fun p' hp' hholds => ?_) h.patches }
        cases hp'
        rcases hholds.2 with ⟨name, hphase⟩ | hphase <;> cases hphase
      · cases hstep
        exact { h.next with patches := Table.forall_erase h.patches }
      · cases hstep
  | patchCommit i => exact inv_patchCommit h hmeets hstep
  | patchInvalidate i =>
      simp only [patchStep] at hstep
      obtain ⟨p, hp, hstep⟩ := Option.bind_eq_some_iff.mp hstep
      split at hstep
      · rename_i name enabledAgain hphase
        cases hstep
        refine { h.next with
          aliases := h.aliases.drop
          patches := Table.forall_update (fun p' hp' hholds => ?_) h.patches }
        cases hp'
        refine h.patches i p hp ⟨hholds.1, Or.inl ⟨name, ?_⟩⟩
        rcases hholds.2 with ⟨name', hcommitted⟩ | hinvalidated
        · cases hcommitted
        · cases hinvalidated
          exact hphase
      · cases hstep
  | patchDone i =>
      simp only [patchStep] at hstep
      obtain ⟨p, hp, hstep⟩ := Option.bind_eq_some_iff.mp hstep
      split at hstep
      · rename_i enabledAgain hphase
        cases hstep
        have hpatches : ∀ j p', Function.update s.patches i none j = some p' → p'.Holds →
            s.db.Disabled p'.accountId := Table.forall_erase h.patches
        by_cases hdone : p.isEnabled = some false ∧ enabledAgain = false
        · obtain ⟨hfalse, rfl⟩ := hdone
          obtain ⟨hnoKey, hnoAlias⟩ := hmeets p hp hfalse
          have hwhen : ∀ k d, Function.update s.disabledAt p.accountId (some (s.moment + 1)) k = some d →
              (k = p.accountId ∧ d = s.moment + 1) ∨ s.disabledAt k = some d := by
            intro k d hd
            rcases Table.of_update hd with ⟨hk, heq⟩ | ⟨-, hd⟩
            · cases heq
              exact Or.inl ⟨hk, rfl⟩
            · exact Or.inr hd
          simp only [hfalse, and_self, if_true]
          exact { h.next with
            patches := hpatches
            disabled := fun k d hd => by
              rcases hwhen k d hd with ⟨rfl, -⟩ | hd
              · exact h.patches i p hp ⟨hfalse, Or.inr hphase⟩
              · exact h.disabled k d hd
            keyCache := fun key found hget info hinfo => by
              refine ⟨(h.keyCache key found hget info hinfo).1, fun accountId hacc => ?_⟩
              have hne : accountId ≠ p.accountId := by
                rintro rfl
                exact hnoKey key found hget info hinfo hacc
              show Function.update s.disabledAt p.accountId _ accountId = none
              rw [Function.update_of_ne hne]
              exact (h.keyCache key found hget info hinfo).2 accountId hacc
            aliases := fun key account hget => by
              show Function.update s.disabledAt p.accountId _ account.1 = none
              rw [Function.update_of_ne (hnoAlias key account hget)]
              exact h.aliases key account hget
            lookups := fun j q hq => ⟨Nat.le_succ_of_le (h.lookups j q hq).1, fun info hinfo =>
              ⟨((h.lookups j q hq).2 info hinfo).1, fun accountId d hacc hd => by
                rcases hwhen accountId d hd with ⟨-, rfl⟩ | hd
                · exact Nat.lt_succ_of_le (h.lookups j q hq).1
                · exact ((h.lookups j q hq).2 info hinfo).2 accountId d hacc hd⟩⟩
            resolves := fun j q hq => ⟨Nat.le_succ_of_le (h.resolves j q hq).1, fun account hfound d hd => by
              rcases hwhen account.1 d hd with ⟨-, rfl⟩ | hd
              · exact Nat.lt_succ_of_le (h.resolves j q hq).1
              · exact (h.resolves j q hq).2 account hfound d hd⟩ }
        · simp only [if_neg hdone]
          exact { h.next with patches := hpatches }
      · cases hstep
  | tick seconds | lookup i keyHash | loadKey i | storeKey i | resolve i name | loadAlias i | storeAlias i
  | dropLookup i | dropResolve i | createKey key | createdKey | revoke i keyId | revokeCommit i
  | revokeDone i => cases hstep

/-! ## Every run -/

theorem moment_of_requestStep {a : Action} (hstep : requestStep s a = some t) : t.moment = s.moment := by
  cases a with
  | lookup i keyHash | resolve i name =>
      simp only [requestStep] at hstep
      split at hstep
      · cases hstep
      · split at hstep <;> cases hstep <;> rfl
  | loadKey i | loadAlias i =>
      obtain ⟨q, -, hstep⟩ := Option.bind_eq_some_iff.mp hstep
      split at hstep
      · cases hstep
      · cases hstep
        rfl
  | storeKey i | storeAlias i =>
      obtain ⟨q, -, hstep⟩ := Option.bind_eq_some_iff.mp hstep
      obtain ⟨found, -, rfl⟩ := Option.map_eq_some_iff.mp hstep
      rfl
  | dropLookup i | dropResolve i =>
      cases hstep
      rfl
  | tick seconds | createKey key | createdKey | revoke i keyId | revokeCommit i | revokeDone i
  | patch i accountId isEnabled | patchLoad i | patchCommit i | patchInvalidate i | patchDone i => cases hstep

/-- A request leaves the count of steps to `step`. -/
theorem inv_request_next {a : Action} (h : Inv s) (hmeets : meets s a) (hstep : requestStep s a = some t) :
    Inv { t with moment := s.moment + 1 } := by
  have hnext := (inv_request h hmeets hstep).next
  rw [moment_of_requestStep hstep] at hnext
  exact hnext

/-- **Step.** -/
theorem inv_step {a : Action} (h : Inv s) (hmeets : meets s a) (hstep : step s a = some t) : Inv t := by
  obtain ⟨u, hact, rfl⟩ := Option.map_eq_some_iff.mp hstep
  cases a with
  | tick seconds =>
      cases hact
      have hlater : s.now ≤ s.now + seconds := by omega
      exact { h.next with
        keyCache := h.keyCache.tick hlater
        aliases := h.aliases.tick hlater }
  | lookup | loadKey | storeKey | resolve | loadAlias | storeAlias | dropLookup | dropResolve =>
      simp only [act] at hact
      exact inv_request_next h hmeets hact
  | createKey | createdKey | revoke | revokeCommit | revokeDone =>
      simp only [act] at hact
      exact inv_key h hact
  | patch | patchLoad | patchCommit | patchInvalidate | patchDone =>
      simp only [act] at hact
      exact inv_patch h hmeets hact

/-- **Run.** -/
theorem inv_of_run {db : Db} {now : Int} (h : Run step meets (start db now) s) : Inv s :=
  h.invariant (fun _ _ _ hinv hok hstep => inv_step hinv hok hstep) (inv_start db now)

/-- What the step accepts may still be accepted. -/
theorem mayGet_of_accepts {a : Action} {born : Nat} (h : Inv s) (hacc : accepts s a = some (born, info)) :
    MayGet s born info := by
  unfold accepts at hacc
  split at hacc
  · obtain ⟨found, hget, hacc⟩ := Option.bind_eq_some_iff.mp hacc
    obtain ⟨info', rfl, heq⟩ := Option.map_eq_some_iff.mp hacc
    cases heq
    exact (h.keyCache _ _ hget info rfl).mayGet _
  · obtain ⟨q, hq, hacc⟩ := Option.bind_eq_some_iff.mp hacc
    obtain ⟨found, hanswer, hacc⟩ := Option.bind_eq_some_iff.mp hacc
    obtain ⟨info', rfl, heq⟩ := Option.map_eq_some_iff.mp hacc
    cases heq
    exact (h.lookups _ q hq).2 info hanswer
  · cases hacc

theorem before_of_resolvesTo {a : Action} {born accountId d : Nat} (h : Inv s)
    (hres : resolvesTo s a = some (born, accountId)) (hd : s.disabledAt accountId = some d) : born < d := by
  unfold resolvesTo at hres
  split at hres
  · obtain ⟨account, hget, heq⟩ := Option.map_eq_some_iff.mp hres
    cases heq
    rw [h.aliases _ account hget] at hd
    cases hd
  · obtain ⟨q, hq, hres⟩ := Option.bind_eq_some_iff.mp hres
    obtain ⟨found, hanswer, hres⟩ := Option.bind_eq_some_iff.mp hres
    obtain ⟨account, rfl, heq⟩ := Option.map_eq_some_iff.mp hres
    cases heq
    exact (h.resolves _ q hq).2 account hanswer d hd
  · cases hres

/-- A key is accepted, and an alias resolved, only for a request that had started before the call returned
    that revoked the key or disabled the account. -/
def AtOnce (s : State) (a : Action) : Prop :=
  (∀ born info, accepts s a = some (born, info) → MayGet s born info) ∧
    ∀ born accountId d, resolvesTo s a = some (born, accountId) → s.disabledAt accountId = some d → born < d

/-- **Revoking and disabling take effect at once**, in every run whose steps meet the condition. -/
theorem revocation_at_once (db : Db) (now : Int) (s : State) (hrun : Run step meets (start db now) s) (a : Action) :
    AtOnce s a := by
  have h := inv_of_run hrun
  constructor
  · intro born info hacc
    exact mayGet_of_accepts h hacc
  · intro born accountId d hres hd
    exact before_of_resolvesTo h hres hd

/-- Anna's account, and its key. -/
def annasAccount : Account := ⟨1, "anna", .telegram, true⟩
def annasKey : ApiKey := ⟨10, .account, some 1, "5f2c", false⟩
def annasDb : Db := ⟨[annasKey], [annasAccount]⟩

/-- Anna's key is used and revoked; a lookup that starts now reads the database. -/
def keyRevoked : List Action :=
  [.lookup 0 "5f2c", .loadKey 0, .storeKey 0, .revoke 0 10, .revokeCommit 0, .revokeDone 0, .lookup 1 "5f2c", .loadKey 1]

/-- A test that is enough for `meets`, without calls of `patch_account` and without aliases. -/
def keysMeet (s : State) : Action → Bool
  | .storeKey i =>
      ((s.lookups i).bind Query.answer).all fun found => found.all fun info =>
        (s.revokedAt info.id).isNone && info.account.all fun accountId => (s.disabledAt accountId).isNone
  | .storeAlias _ | .patchCommit _ | .patchDone _ => false
  | _ => true

theorem meets_of_keysMeet (s : State) (a : Action) (h : keysMeet s a = true) : meets s a := by
  cases a with
  | storeKey i =>
      intro q info hq hanswer
      simp only [keysMeet] at h
      rw [hq] at h
      have hvalid : ((s.revokedAt info.id).isNone &&
          info.account.all fun accountId => (s.disabledAt accountId).isNone) = true := by
        simpa [hanswer] using h
      rw [Bool.and_eq_true] at hvalid
      constructor
      · exact Option.isNone_iff_eq_none.mp hvalid.1
      · intro accountId hacc
        have hnone := hvalid.2
        rw [hacc] at hnone
        exact Option.isNone_iff_eq_none.mp hnone
  | storeAlias i | patchCommit i | patchDone i => cases h
  | tick | lookup | loadKey | resolve | loadAlias | dropLookup | dropResolve | createKey | createdKey | revoke
  | revokeCommit | revokeDone | patch | patchLoad | patchInvalidate => trivial

/-- What is accepted after `revoke_key` of Anna's key was asked before. -/
theorem revocation_at_once_keyRevoked :
    ∃ s, execOk step keysMeet (start annasDb 0) keyRevoked = some s ∧ s.revokedAt 10 = some 6 ∧
      ∀ a born info, accepts s a = some (born, info) → info.id = 10 → born < 6 := by
  have hpossible : (execOk step keysMeet (start annasDb 0) keyRevoked).isSome = true := by decide +kernel
  obtain ⟨s, hs⟩ := Option.isSome_iff_exists.mp hpossible
  have hrun : Run step meets (start annasDb 0) s := Run.of_execOk meets_of_keysMeet hs
  have hwhen : ((execOk step keysMeet (start annasDb 0) keyRevoked).bind fun s => s.revokedAt 10) = some 6 := by
    decide +kernel
  rw [hs] at hwhen
  refine ⟨s, hs, hwhen, fun a born info hacc hid => ?_⟩
  have hbefore := ((revocation_at_once annasDb 0 s hrun a).1 born info hacc).1 6
  rw [hid] at hbefore
  exact hbefore hwhen

/-- Anna's key is used, then her account is disabled. -/
def accountDisabled : List Action :=
  [.lookup 0 "5f2c", .loadKey 0, .storeKey 0, .patch 0 1 (some false), .patchLoad 0, .patchCommit 0,
    .patchInvalidate 0, .patchDone 0]

/-- **The key outlives the account**: `patch_account` has returned, and the key is still in the cache. -/
theorem revocation_at_once_fails :
    ¬ ∀ (db : Db) (now : Int) (s : State), Run step Always (start db now) s → ∀ a, AtOnce s a := by
  intro hall
  have hpossible : (exec step (start annasDb 0) accountDisabled).isSome = true := by decide +kernel
  obtain ⟨s, hs⟩ := Option.isSome_iff_exists.mp hpossible
  have hgets : ((exec step (start annasDb 0) accountDisabled).bind fun s => accepts s (.lookup 1 "5f2c"))
      = some (8, ⟨10, .account, some 1, some "anna", some .telegram⟩) := by decide +kernel
  have hgone : ((exec step (start annasDb 0) accountDisabled).bind fun s => s.disabledAt 1) = some 8 := by
    decide +kernel
  rw [hs] at hgets hgone
  have honce := hall annasDb 0 s (Run.of_exec hs) (.lookup 1 "5f2c")
  have hbefore := (honce.1 8 _ hgets).2 1 8 rfl hgone
  exact absurd hbefore (by decide)

end MyPerson.Authz
