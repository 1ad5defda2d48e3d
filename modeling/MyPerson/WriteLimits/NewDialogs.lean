import MyPerson.WriteLimits.Windows

/-!
# `WriteLimits.NewDialogs` — every cold chat is counted once

A send opens a new dialog when its chat has no stored message and no stored send. The decision rests
on the sends stored at that moment, and one of them may be given back later: then the chat has been
written to and no stored event says that a dialog was opened (`released_first_send`). `releaseOk` is
the condition under which no decision loses its ground, and `cold_chats_counted` what holds in every
run that meets it.

## Contents
- `Cold`, the sends of a chat that are kept, the condition `releaseOk`;
- `DialogInv`, what a commit and a release do to it;
- the run in which a cold chat is not counted, and the result for all other runs.
-/

namespace MyPerson.WriteLimits

open Lib Lib.SlidingWindow

/-! ## Kept sends, cold chats -/

/-- The task's write went through, as far as is known. -/
def Phase.isKept : Phase → Bool
  | .kept _ => true
  | _ => false

/-- No reservation is in flight. -/
def State.Quiet (s : State) : Prop := ∀ t, (s.phase t).quiet = true

/-- The stored sends to a chat whose outcome is "kept". -/
def keptSends (s : State) (a : Nat) (chat : Int) : List WriteEvent :=
  s.rows.filter fun e => isSendTo a chat e && (s.phase (s.origin e.id).task).isKept

/-- `f` is the first kept send to the chat, and when it was reserved the chat had no stored message
    and every send to it that was stored then has been given back. -/
structure Cold (s : State) (a : Nat) (chat : Int) (f : WriteEvent) : Prop where
  mem : f ∈ keptSends s a chat
  first : ∀ e ∈ keptSends s a chat, f.id ≤ e.id
  noMessage : (s.origin f.id).hadMessage = false
  alone : ∀ i ∈ (s.origin f.id).existing, i ∈ s.released

/-- The section of a task that has decided whether it opens a dialog. -/
def Phase.decided? : Phase → Option (Section × Bool)
  | .windows c newDialog _ _ => some (c, newDialog)
  | .retry c newDialog _ _ _ _ _ _ => some (c, newDialog)
  | .pace c newDialog => some (c, newDialog)
  | .store c newDialog _ => some (c, newDialog)
  | _ => none

/-- The chat of the section still counts as written to, or answered, over these rows. -/
def Section.known (c : Section) (cfg : Config) (messages : List Message) (rows : List WriteEvent) :
    Bool :=
  match c.job.sendChat with
  | none => true
  | some chat => hasHistory cfg.newMode messages c.eff chat || sentTo (c.view rows) c.account chat

/-- The row was reserved while an event of the slot was stored in its chat, and nothing else said then
    that the chat is not cold: no message, no send that is not given back. -/
def restsOn (s : State) (slot : Slot) (e : WriteEvent) : Bool :=
  let o := s.origin e.id
  o.existing.any (slot.eventIds.contains ·) && !o.hadMessage &&
    o.existing.all fun i => slot.eventIds.contains i || s.released.contains i

/-- No row that stays rests on the slot, and neither does the decision of the section under way. -/
def givesBackFreely (cfg : Config) (s : State) (slot : Slot) : Bool :=
  (slot.rowsLeft s.rows).all (fun e => !restsOn s slot e) &&
    match (s.lock slot.accountId).bind fun t => (s.phase t).decided? with
    | some (c, false) => c.known cfg s.messages (slot.rowsLeft s.rows)
    | _ => true

/-- The condition on a step: a slot that is given back carries no other send's decision. -/
def releaseOk (cfg : Config) (s : State) : Action → Bool
  | .release t =>
      match s.phase t with
      | .granted slot => givesBackFreely cfg s slot
      | _ => true
  | _ => true

/-! ## The invariant -/

/-- The history a task carries is still there. -/
def HistoryOk (cfg : Config) (messages : List Message) (eff : Effective) (job : Job)
    (history : Bool) : Prop :=
  history = true → ∀ chat, job.sendChat = some chat → hasHistory cfg.newMode messages eff chat = true

/-- The decision of a section agrees with what is stored. -/
def Decided (cfg : Config) (s : State) (c : Section) (newDialog : Bool) : Prop :=
  (newDialog = false → c.known cfg s.messages s.rows = true) ∧
  (newDialog = true → ∀ chat, c.job.sendChat = some chat → sentTo (c.view s.rows) c.account chat = false)

/-- What holds of a phase, besides `PhaseOk`. -/
def DialogOk (cfg : Config) (s : State) : Phase → Prop
  | .called _ job => job.allowed = true
  | .history _ _ job => job.allowed = true
  | .atLock eff _ job history => job.allowed = true ∧ HistoryOk cfg s.messages eff job history
  | .dialog c => c.job.allowed = true ∧ HistoryOk cfg s.messages c.eff c.job c.history
  | .windows c newDialog _ _ => c.job.allowed = true ∧ Decided cfg s c newDialog
  | .retry c newDialog _ _ _ _ _ _ => c.job.allowed = true ∧ Decided cfg s c newDialog
  | .pace c newDialog => c.job.allowed = true ∧ Decided cfg s c newDialog
  | .store c newDialog _ => c.job.allowed = true ∧ Decided cfg s c newDialog
  | .granted slot => ∀ i ∈ slot.eventIds, i < s.nextId ∧ ∀ e ∈ s.rows, e.id = i → e.accountId = slot.accountId
  | _ => True

/-- What holds of a stored send to a chat. -/
structure SendOk (s : State) (e : WriteEvent) : Prop where
  /-- Not the first one: a message was there, or a send that has not been given back. -/
  backed : (s.origin e.id).existing ≠ [] → (s.origin e.id).hadMessage = true ∨
    ∃ i ∈ (s.origin e.id).existing, i ∉ s.released
  /-- The first one, without a message: it is counted. -/
  opens : (s.origin e.id).existing = [] → (s.origin e.id).hadMessage = false → e.newDialog = true
  follows : (s.origin e.id).existing ≠ [] → e.newDialog = false

structure DialogInv (cfg : Config) (s : State) : Prop where
  /-- Newest first. -/
  ordered : s.rows.Pairwise fun e e' => e'.id < e.id
  /-- A send saw the earlier ones to its chat. -/
  seen : ∀ e ∈ s.rows, ∀ e' ∈ s.rows, ∀ a chat, isSendTo a chat e = true → isSendTo a chat e' = true →
    e.id < e'.id → e.id ∈ (s.origin e'.id).existing
  stored : ∀ e ∈ s.rows, e.id ∉ s.released
  past : ∀ i ∈ s.released, i < s.nextId
  sends : ∀ e ∈ s.rows, ∀ a chat, isSendTo a chat e = true → SendOk s e
  phases : ∀ t, DialogOk cfg s (s.phase t)

theorem init_dialogInv (cfg : Config) (start : Time) : DialogInv cfg (State.init start) where
  ordered := List.Pairwise.nil
  seen _ h := by cases h
  stored _ h := by cases h
  past _ h := by cases h
  sends _ h := by cases h
  phases _ := trivial

/-! ## Queries over one account -/

theorem isSendTo_iff {a : Nat} {chat : Int} {e : WriteEvent} :
    isSendTo a chat e = true ↔ e.accountId = a ∧ e.kind = .send ∧ e.chatId = some chat := by
  simp [isSendTo, isSend, and_assoc]

theorem sentTo_iff {rows : List WriteEvent} {a : Nat} {chat : Int} :
    sentTo rows a chat = true ↔ ∃ e ∈ rows, isSendTo a chat e = true := by
  simp [sentTo]

theorem sentTo_mono {rows rows' : List WriteEvent} {a : Nat} {chat : Int} (hsub : rows' ⊆ rows)
    (h : sentTo rows' a chat = true) : sentTo rows a chat = true := by
  obtain ⟨e, he, hsend⟩ := sentTo_iff.mp h
  exact sentTo_iff.mpr ⟨e, hsub he, hsend⟩

theorem view_mono {c : Section} {rows rows' : List WriteEvent} (hsub : rows' ⊆ rows) :
    c.view rows' ⊆ c.view rows :=
  List.filter_subset _ hsub

theorem hasHistory_cons {newMode : Bool} {messages : List Message} {eff : Effective} {chat : Int}
    (m : Message) (h : hasHistory newMode messages eff chat = true) :
    hasHistory newMode (m :: messages) eff chat = true := by
  unfold hasHistory at h ⊢
  rw [List.any_cons, h, Bool.or_true]

/-- The section's queries depend on the rows of its account only. -/
theorem sentTo_view_congr {c : Section} {rows rows' : List WriteEvent}
    (h : ∀ e, e.accountId = c.account → (e ∈ rows' ↔ e ∈ rows)) (chat : Int) :
    sentTo (c.view rows') c.account chat = sentTo (c.view rows) c.account chat := by
  rw [Bool.eq_iff_iff, sentTo_iff, sentTo_iff]
  simp only [Section.view, purge, List.mem_filter]
  constructor
  · rintro ⟨e, ⟨he, hnew⟩, hsend⟩
    exact ⟨e, ⟨(h e (isSendTo_iff.mp hsend).1).mp he, hnew⟩, hsend⟩
  · rintro ⟨e, ⟨he, hnew⟩, hsend⟩
    exact ⟨e, ⟨(h e (isSendTo_iff.mp hsend).1).mpr he, hnew⟩, hsend⟩

theorem Decided.congr {cfg : Config} {s s' : State} {c : Section} {newDialog : Bool}
    (hmsg : s'.messages = s.messages) (h : ∀ e, e.accountId = c.account → (e ∈ s'.rows ↔ e ∈ s.rows))
    (hd : Decided cfg s c newDialog) : Decided cfg s' c newDialog := by
  unfold Decided Section.known at hd ⊢
  rw [hmsg]
  simp only [sentTo_view_congr h]
  exact hd

/-- A phase keeps its facts when no row of its account changes. -/
theorem DialogOk.congr {cfg : Config} {s s' : State} {p : Phase} (hmsg : s'.messages = s.messages)
    (hnext : s.nextId ≤ s'.nextId)
    (hsec : ∀ c, p.section? = some c → ∀ e, e.accountId = c.account → (e ∈ s'.rows ↔ e ∈ s.rows))
    (hrows : ∀ e ∈ s'.rows, e ∈ s.rows ∨ s.nextId ≤ e.id) (hd : DialogOk cfg s p) :
    DialogOk cfg s' p := by
  cases p with
  | atLock eff limits job history => exact ⟨hd.1, by rw [hmsg]; exact hd.2⟩
  | dialog c => exact ⟨hd.1, by rw [hmsg]; exact hd.2⟩
  | windows c newDialog rest full => exact ⟨hd.1, hd.2.congr hmsg (hsec c rfl)⟩
  | retry c newDialog w limit used n rest full => exact ⟨hd.1, hd.2.congr hmsg (hsec c rfl)⟩
  | pace c newDialog => exact ⟨hd.1, hd.2.congr hmsg (hsec c rfl)⟩
  | store c newDialog atTime => exact ⟨hd.1, hd.2.congr hmsg (hsec c rfl)⟩
  | granted slot =>
      intro i hi
      obtain ⟨hlt, hacc⟩ := hd i hi
      refine ⟨by omega, fun e he heq => ?_⟩
      rcases hrows e he with he | he
      · exact hacc e he heq
      · omega
  | _ => exact hd

/-! ## What a release does -/

/-- Fewer rows: the decisions that opened a dialog stand, the others need their ground. -/
theorem DialogOk.left {cfg : Config} {s : State} {t : Nat} {slot : Slot} {p : Phase}
    (hd : DialogOk cfg s p)
    (hknown : ∀ c, p.decided? = some (c, false) → c.known cfg s.messages (slot.rowsLeft s.rows) = true) :
    DialogOk cfg (release s t slot) p := by
  have hsub : slot.rowsLeft s.rows ⊆ s.rows := List.filter_subset_self _
  have hdec : ∀ {c newDialog}, p.decided? = some (c, newDialog) → Decided cfg s c newDialog →
      Decided cfg (release s t slot) c newDialog := by
    intro c newDialog hp hc
    refine ⟨fun hnew => hknown c (by rw [hp, hnew]), fun hnew chat hchat => ?_⟩
    have hbefore := hc.2 hnew chat hchat
    refine Bool.eq_false_iff.mpr fun hafter => ?_
    rw [sentTo_mono (view_mono hsub) hafter] at hbefore
    cases hbefore
  cases p with
  | windows c newDialog rest full => exact ⟨hd.1, hdec rfl hd.2⟩
  | retry c newDialog w limit used n rest full => exact ⟨hd.1, hdec rfl hd.2⟩
  | pace c newDialog => exact ⟨hd.1, hdec rfl hd.2⟩
  | store c newDialog atTime => exact ⟨hd.1, hdec rfl hd.2⟩
  | granted slot' =>
      intro i hi
      exact ⟨(hd i hi).1, fun e he => (hd i hi).2 e (hsub he)⟩
  | _ => exact hd

theorem section_of_decided {p : Phase} {c : Section} {newDialog : Bool}
    (h : p.decided? = some (c, newDialog)) : p.section? = some c := by
  cases p <;> cases h <;> rfl

/-- A row that stays does not rest on the slot, so it keeps what backs it. -/
theorem SendOk.left {s : State} {t : Nat} {slot : Slot} {e : WriteEvent} (h : SendOk s e)
    (hrest : restsOn s slot e = false) : SendOk (release s t slot) e where
  backed hne := by
    show (s.origin e.id).hadMessage = true ∨
      ∃ i ∈ (s.origin e.id).existing, i ∉ slot.eventIds ++ s.released
    by_cases hmsg : (s.origin e.id).hadMessage = true
    · exact Or.inl hmsg
    · right
      by_cases hany : ∃ i ∈ (s.origin e.id).existing, i ∈ slot.eventIds
      · -- it saw an event of the slot: the condition names another send
        simp only [restsOn, Bool.and_eq_false_iff, Bool.not_eq_false', hmsg, List.all_eq_false,
          List.any_eq_false, List.contains_eq_mem, decide_eq_true_eq, Bool.or_eq_true] at hrest
        rcases hrest with (hnone | hfalse) | ⟨i, hi, hnot⟩
        · obtain ⟨i, hi, hslot⟩ := hany
          exact absurd hslot (hnone i hi)
        · cases hfalse
        · refine ⟨i, hi, fun hmem => hnot ?_⟩
          exact List.mem_append.mp hmem
      · obtain hmsg' | ⟨i, hi, hrel⟩ := h.backed hne
        · exact absurd hmsg' hmsg
        · refine ⟨i, hi, fun hmem => ?_⟩
          rcases List.mem_append.mp hmem with hslot | hreleased
          · exact hany ⟨i, hi, hslot⟩
          · exact hrel hreleased
  opens := h.opens
  follows := h.follows

theorem DialogInv.release {cfg : Config} {s : State} {t : Nat} {slot : Slot} (h : DialogInv cfg s)
    (hinv : Inv cfg s) (hph : s.phase t = .granted slot) (hok : givesBackFreely cfg s slot = true) :
    DialogInv cfg (release s t slot) := by
  obtain ⟨hrows, hsec⟩ := Bool.and_eq_true_iff.mp hok
  have hsub : slot.rowsLeft s.rows ⊆ s.rows := List.filter_subset_self _
  have hslot : DialogOk cfg s (.granted slot) := hph ▸ h.phases t
  refine ⟨h.ordered.filter _, ?_, ?_, ?_, ?_, ?_⟩
  · intro e he e' he' a chat hsend hsend' hlt
    exact h.seen e (hsub he) e' (hsub he') a chat hsend hsend' hlt
  · intro e he hrel
    rcases List.mem_append.mp hrel with hrel | hrel
    · have hkeep := (List.mem_filter.mp he).2
      simp [hrel] at hkeep
    · exact h.stored e (hsub he) hrel
  · intro i hi
    rcases List.mem_append.mp hi with hi | hi
    · exact (hslot i hi).1
    · exact h.past i hi
  · intro e he a chat hsend
    refine (h.sends e (hsub he) a chat hsend).left ?_
    simpa using List.all_eq_true.mp hrows e he
  · intro t'
    rcases eq_or_ne t' t with rfl | hne
    · simp [MyPerson.WriteLimits.release, DialogOk]
    · have hphase : (MyPerson.WriteLimits.release s t slot).phase t' = s.phase t' :=
        Function.update_of_ne hne _ _
      rw [hphase]
      refine (h.phases t').left fun c hc => ?_
      rcases eq_or_ne c.account slot.accountId with hacc | hacc
      · -- the task under the account's own lock: the condition speaks of it
        have hlock := hinv.locked t' c (section_of_decided hc)
        rw [hacc] at hlock
        simpa [hlock, hc] using hsec
      · -- another account: none of its rows is in the slot
        have hsame : ∀ e, e.accountId = c.account → (e ∈ slot.rowsLeft s.rows ↔ e ∈ s.rows) := by
          intro e heacc
          refine ⟨fun he => hsub he, fun he => List.mem_filter.mpr ⟨he, ?_⟩⟩
          have hnot : e.id ∉ slot.eventIds := fun hid =>
            hacc (heacc.symm.trans ((hslot e.id hid).2 e he rfl))
          simpa using hnot
        have hbefore : Decided cfg s c false := by
          have hdp := h.phases t'
          cases hp : s.phase t' <;> rw [hp] at hc hdp <;> cases hc <;> exact hdp.2
        have hafter : Decided cfg { s with rows := slot.rowsLeft s.rows } c false :=
          Decided.congr (s := s) rfl hsame hbefore
        exact hafter.1 rfl

/-! ## What a commit does -/

theorem newRows_ordered (c : Section) (newDialog : Bool) (atTime : Time) (nextId : Nat) :
    (newRows c newDialog atTime nextId).Pairwise fun e e' => e'.id < e.id := by
  have hids : ((newRows c newDialog atTime nextId).map (·.id)).Pairwise (· > ·) := by
    unfold newRows
    rw [List.map_reverse, List.map_map]
    have hsnd : ((fun e : WriteEvent => e.id) ∘ fun p : Kind × Nat =>
        (⟨p.2, c.account, p.1, c.job.tool, c.job.chatId, newDialog, atTime⟩ : WriteEvent)) = Prod.snd := rfl
    rw [hsnd, List.zipIdx_map_snd, List.pairwise_reverse]
    exact List.pairwise_lt_range'
  exact List.pairwise_map.mp hids

/-- A new row that is a send to a chat is the only one of its call. -/
theorem send_of_newRows {c : Section} {newDialog : Bool} {atTime : Time} {nextId a : Nat} {chat : Int}
    {e : WriteEvent} (hallowed : c.job.allowed = true) (he : e ∈ newRows c newDialog atTime nextId)
    (hsend : isSendTo a chat e = true) :
    a = c.account ∧ c.job.sendChat = some chat ∧ c.job.needs.kinds.length = 1 := by
  obtain ⟨hacc, hkind, hchat⟩ := isSendTo_iff.mp hsend
  obtain ⟨-, -, hacc', hchat', -⟩ := mem_newRows he
  have hmem : Kind.send ∈ c.job.needs.kinds := by
    rw [← hkind, ← List.mem_reverse, ← newRows_kinds c newDialog atTime nextId]
    exact List.mem_map_of_mem he
  refine ⟨hacc.symm.trans hacc', ?_⟩
  cases hjob : c.job with
  | reserve kind tool chatId =>
      rw [hjob] at hmem hchat'
      have hk : Kind.send = kind := by simpa [Job.needs] using hmem
      subst hk
      exact ⟨hchat'.symm.trans hchat, rfl⟩
  | bundle needs tool chatId =>
      rw [hjob] at hmem hallowed
      obtain ⟨p, hp, hrep⟩ := List.mem_flatMap.mp hmem
      have hpk := List.eq_of_mem_replicate hrep
      have hin := List.all_eq_true.mp hallowed p hp
      rw [← hpk] at hin
      simp [bundleKinds] at hin

section Commit

variable {cfg : Config} {s : State} {t : Nat} {c : Section} {newDialog : Bool} {atTime : Time}

theorem mem_commit_rows {e : WriteEvent} : e ∈ (commit cfg s t c newDialog atTime).rows ↔
    e ∈ newRows c newDialog atTime s.nextId ∨ e ∈ c.view s.rows :=
  List.mem_append

theorem commit_origin_old {e : WriteEvent} (he : e.id < s.nextId) :
    (commit cfg s t c newDialog atTime).origin e.id = s.origin e.id :=
  if_neg (Nat.not_le.mpr he)

theorem commit_origin_new {e : WriteEvent} (he : e ∈ newRows c newDialog atTime s.nextId) :
    (commit cfg s t c newDialog atTime).origin e.id = originOf cfg s t c :=
  if_pos (mem_newRows he).1

/-- What a new send to a chat saw. -/
theorem originOf_existing {chat : Int} (hchat : c.job.sendChat = some chat) :
    (originOf cfg s t c).existing
      = ((c.view s.rows).filter (isSendTo c.account chat)).map (·.id) := by
  simp only [originOf, hchat]

/-- Rows of other accounts stay as they are. -/
theorem mem_commit_other {e : WriteEvent} (hacc : e.accountId ≠ c.account) :
    e ∈ (commit cfg s t c newDialog atTime).rows ↔ e ∈ s.rows := by
  rw [mem_commit_rows]
  constructor
  · rintro (he | he)
    · exact absurd (mem_newRows he).2.2.1 hacc
    · exact (view_sublist c s.rows).subset he
  · intro he
    exact Or.inr (List.mem_filter.mpr ⟨he, by simp [hacc]⟩)

/-- The new send to a chat is counted exactly when it saw nothing. -/
theorem new_sendOk (h : DialogInv cfg s) (hd : Decided cfg s c newDialog) {e : WriteEvent}
    (he : e ∈ newRows c newDialog atTime s.nextId) {chat : Int} (hchat : c.job.sendChat = some chat) :
    SendOk (commit cfg s t c newDialog atTime) e := by
  have hnew : e.newDialog = newDialog := (mem_newRows he).2.2.2.2.1
  have hexists : (originOf cfg s t c).existing ≠ [] ↔ sentTo (c.view s.rows) c.account chat = true := by
    rw [originOf_existing hchat, ne_eq, List.map_eq_nil_iff, sentTo_iff, List.filter_eq_nil_iff]
    simp
  refine ⟨fun hne => ?_, fun hnil hmsg => ?_, fun hne => ?_⟩
  · rw [commit_origin_new he] at hne ⊢
    right
    obtain ⟨i, hi⟩ := List.exists_mem_of_ne_nil _ hne
    refine ⟨i, hi, ?_⟩
    rw [originOf_existing hchat] at hi
    obtain ⟨e', he', rfl⟩ := List.mem_map.mp hi
    exact h.stored e' ((view_sublist c s.rows).subset (List.mem_of_mem_filter he'))
  · rw [commit_origin_new he] at hnil hmsg
    rw [hnew]
    refine Bool.not_eq_false _ |>.mp fun hfalse => ?_
    have hknown := hd.1 hfalse
    have hmsg' : hasHistory cfg.newMode s.messages c.eff chat = false := by
      simpa [originOf, hchat] using hmsg
    simp only [Section.known, hchat, hmsg', Bool.false_or] at hknown
    exact hexists.mpr hknown hnil
  · rw [commit_origin_new he] at hne
    rw [hnew]
    refine Bool.not_eq_true _ |>.mp fun htrue => ?_
    have hnone := hd.2 htrue chat hchat
    rw [hexists.mp hne] at hnone
    cases hnone

theorem DialogInv.commit (h : DialogInv cfg s) (hinv : Inv cfg s)
    (hph : s.phase t = .store c newDialog atTime) :
    DialogInv cfg (commit cfg s t c newDialog atTime) := by
  obtain ⟨hallowed, hd⟩ : DialogOk cfg s (.store c newDialog atTime) := hph ▸ h.phases t
  have hsec : (s.phase t).section? = some c := by
    rw [hph]
    rfl
  have hsub := (view_sublist c s.rows).subset
  have hold : ∀ e ∈ c.view s.rows, e.id < s.nextId := fun e he => hinv.fresh e (hsub he)
  refine ⟨?_, ?_, ?_, ?_, ?_, ?_⟩
  · refine List.pairwise_append.mpr ⟨newRows_ordered .., h.ordered.filter _, fun e he e' he' => ?_⟩
    exact Nat.lt_of_lt_of_le (hold e' he') (mem_newRows he).1
  · intro e he e' he' a chat hsend hsend' hlt
    rcases mem_commit_rows.mp he' with hnew' | hview'
    · obtain ⟨rfl, hchat, hone⟩ := send_of_newRows hallowed hnew' hsend'
      rw [commit_origin_new hnew', originOf_existing hchat]
      rcases mem_commit_rows.mp he with hnew | hview
      · -- a send stores one row
        have hlo := (mem_newRows hnew).1
        have hhi := (mem_newRows hnew').2.1
        omega
      · exact List.mem_map_of_mem (List.mem_filter.mpr ⟨hview, hsend⟩)
    · rw [commit_origin_old (hold e' hview')]
      rcases mem_commit_rows.mp he with hnew | hview
      · have hlo := (mem_newRows hnew).1
        have hhi := hold e' hview'
        omega
      · exact h.seen e (hsub hview) e' (hsub hview') a chat hsend hsend' hlt
  · intro e he hrel
    rcases mem_commit_rows.mp he with hnew | hview
    · have hlo := (mem_newRows hnew).1
      have hlt := h.past e.id hrel
      omega
    · exact h.stored e (hsub hview) hrel
  · intro i hi
    have hlt := h.past i hi
    show i < s.nextId + c.job.needs.kinds.length
    omega
  · intro e he a chat hsend
    rcases mem_commit_rows.mp he with hnew | hview
    · obtain ⟨-, hchat, -⟩ := send_of_newRows hallowed hnew hsend
      exact new_sendOk h hd hnew hchat
    · have hsame : (MyPerson.WriteLimits.commit cfg s t c newDialog atTime).origin e.id
          = s.origin e.id := commit_origin_old (hold e hview)
      obtain ⟨hbacked, hopens, hfollows⟩ := h.sends e (hsub hview) a chat hsend
      exact ⟨hsame ▸ hbacked, hsame ▸ hopens, hsame ▸ hfollows⟩
  · intro t'
    rcases eq_or_ne t' t with rfl | hne
    · simp only [MyPerson.WriteLimits.commit, Function.update_self, DialogOk, List.map_reverse,
        List.mem_reverse, List.mem_map]
      rintro i ⟨e, he, rfl⟩
      obtain ⟨hlo, hhi, hacc, -⟩ := mem_newRows he
      refine ⟨hhi, fun e' he' heq => ?_⟩
      rcases List.mem_append.mp he' with hnew | hview
      · exact (mem_newRows hnew).2.2.1
      · have := hold e' hview
        omega
    · have hphase : (MyPerson.WriteLimits.commit cfg s t c newDialog atTime).phase t' = s.phase t' :=
        Function.update_of_ne hne _ _
      rw [hphase]
      refine DialogOk.congr (s := s) rfl (Nat.le_add_right ..) (fun c' hc' e hacc => ?_) (fun e he => ?_)
        (h.phases t')
      · exact mem_commit_other fun heq => hne (hinv.alone hsec hc' (hacc.symm.trans heq))
      · rcases mem_commit_rows.mp he with hnew | hview
        · exact Or.inr (mem_newRows hnew).1
        · exact Or.inl (hsub hview)

end Commit

/-! ## The step lemma -/

section Steps

variable {cfg : Config} {s : State} {t : Nat} {p : Phase}

/-- Only the phase of one task and the lock change. -/
theorem DialogInv.move (h : DialogInv cfg s) (hok : DialogOk cfg s p) {lock : Nat → Option Nat}
    {clock : Nat → Time} : DialogInv cfg
      { s with phase := Function.update s.phase t p, lock := lock, clock := clock } where
  ordered := h.ordered
  seen := h.seen
  stored := h.stored
  past := h.past
  sends e he a chat hsend :=
    ⟨(h.sends e he a chat hsend).backed, (h.sends e he a chat hsend).opens,
      (h.sends e he a chat hsend).follows⟩
  phases t' := by
    have hcongr : ∀ {p' : Phase}, DialogOk cfg s p' → DialogOk cfg
        { s with phase := Function.update s.phase t p, lock := lock, clock := clock } p' :=
      fun hp => DialogOk.congr (s := s) rfl (Nat.le_refl _) (fun _ _ _ _ => Iff.rfl)
        (fun _ he => Or.inl he) hp
    show DialogOk cfg _ (Function.update s.phase t p t')
    rcases eq_or_ne t' t with rfl | hne
    · rw [Function.update_self]
      exact hcongr hok
    · rw [Function.update_of_ne hne]
      exact hcongr (h.phases t')

theorem DialogInv.setPhase (h : DialogInv cfg s) (hok : DialogOk cfg s p) :
    DialogInv cfg (s.setPhase t p) :=
  h.move hok

theorem DialogInv.inSection (h : DialogInv cfg s) (a : Nat) (hok : DialogOk cfg s p) :
    DialogInv cfg (s.inSection t a p) := by
  unfold State.inSection
  split
  · exact h.setPhase hok
  · exact h.move hok

/-- A message arrives: what was known stays known. -/
theorem DialogInv.message (h : DialogInv cfg s) (m : Message) :
    DialogInv cfg { s with messages := m :: s.messages } where
  ordered := h.ordered
  seen := h.seen
  stored := h.stored
  past := h.past
  sends e he a chat hsend :=
    ⟨(h.sends e he a chat hsend).backed, (h.sends e he a chat hsend).opens,
      (h.sends e he a chat hsend).follows⟩
  phases t := by
    have hhist : ∀ {eff job history}, HistoryOk cfg s.messages eff job history →
        HistoryOk cfg (m :: s.messages) eff job history :=
      fun hh hyes chat hchat => hasHistory_cons m (hh hyes chat hchat)
    have hdec : ∀ {c newDialog}, Decided cfg s c newDialog →
        Decided cfg { s with messages := m :: s.messages } c newDialog := by
      rintro c newDialog ⟨hknown, hnew⟩
      refine ⟨fun hfalse => ?_, hnew⟩
      have hbefore := hknown hfalse
      unfold Section.known at hbefore ⊢
      split at hbefore
      · rfl
      · rcases Bool.or_eq_true_iff.mp hbefore with hmsg | hsent
        · rw [hasHistory_cons m hmsg, Bool.true_or]
        · rw [hsent, Bool.or_true]
    have hp := h.phases t
    show DialogOk cfg _ (s.phase t)
    cases hph : s.phase t with
    | atLock eff limits job history => rw [hph] at hp; exact ⟨hp.1, hhist hp.2⟩
    | dialog c => rw [hph] at hp; exact ⟨hp.1, hhist hp.2⟩
    | windows c newDialog rest full => rw [hph] at hp; exact ⟨hp.1, hdec hp.2⟩
    | retry c newDialog w limit used n rest full => rw [hph] at hp; exact ⟨hp.1, hdec hp.2⟩
    | pace c newDialog => rw [hph] at hp; exact ⟨hp.1, hdec hp.2⟩
    | store c newDialog atTime => rw [hph] at hp; exact ⟨hp.1, hdec hp.2⟩
    | _ => rw [hph] at hp; exact hp

/-- `new_dialog` as decided under the lock agrees with what is stored. -/
theorem decideDialog_ok {c : Section} (h : HistoryOk cfg s.messages c.eff c.job c.history) :
    Decided cfg s c (decideDialog c s.rows) := by
  unfold Decided decideDialog Section.known
  cases hchat : c.job.sendChat with
  | none => simp
  | some chat =>
      simp only [Bool.and_eq_false_iff, Bool.not_eq_false', Bool.or_eq_true, Bool.and_eq_true,
        Bool.not_eq_true', Option.some.injEq]
      constructor
      · rintro (hyes | hsent)
        · exact Or.inl (h hyes chat hchat)
        · exact Or.inr hsent
      · rintro ⟨-, hnone⟩ chat' rfl
        exact hnone

theorem readSettings_dialogOk {a : Nat} {job : Job} (hjob : job.allowed = true) :
    DialogOk cfg s (readSettings cfg s a job) := by
  have hno : ∀ {eff}, HistoryOk cfg s.messages eff job false := fun h => by cases h
  unfold readSettings
  split
  · trivial
  · split
    · trivial
    · split
      · trivial
      · split
        · exact ⟨hjob, hno⟩
        · split
          · exact ⟨hjob, hno⟩
          · exact hjob

theorem readHistory_ok {eff : Effective} {job : Job} :
    HistoryOk cfg s.messages eff job (readHistory cfg s eff job) := by
  intro hyes chat hchat
  simpa only [readHistory, hchat] using hyes

theorem checkStep_dialogOk {c : Section} {newDialog : Bool} {full : List Full} {rest : List Window}
    (h : c.job.allowed = true ∧ Decided cfg s c newDialog) :
    DialogOk cfg s (checkStep c s.rows newDialog full rest) := by
  cases rest with
  | nil =>
      simp only [checkStep]
      split
      · trivial
      · exact h
  | cons w rest =>
      simp only [checkStep]
      split
      · exact h
      · split
        · split
          · exact h
          · exact h
        · exact h

theorem paceStep_dialogOk {c : Section} {newDialog : Bool} {jitter : Time}
    (h : c.job.allowed = true ∧ Decided cfg s c newDialog) :
    DialogOk cfg s (paceStep c s.rows newDialog jitter) := by
  unfold paceStep
  dsimp only
  split
  · trivial
  · exact h

/-- **Step lemma.** An action that meets `releaseOk` keeps the invariant. -/
theorem step_dialogInv {a : Action} {s' : State} (hstep : step cfg s a = some s')
    (hrelease : releaseOk cfg s a = true) (hinv : Inv cfg s) (h : DialogInv cfg s) : DialogInv cfg s' := by
  have hphase : ∀ {t p}, s.phase t = p → DialogOk cfg s p := fun hp => hp ▸ h.phases _
  cases stepped hstep with
  | call hph hallowed => exact h.setPhase hallowed
  | readSettings hph => exact h.setPhase (readSettings_dialogOk (hphase hph))
  | readHistory hph => exact h.setPhase ⟨hphase hph, readHistory_ok⟩
  | @lock t eff limits job history now hph hfree =>
      have hok : DialogOk cfg s (.atLock eff limits job history) := hphase hph
      exact h.move (p := .dialog ⟨eff, limits, job, history, now⟩) hok
  | decideDialog hph =>
      obtain ⟨hjob, hhist⟩ := hphase hph
      exact h.setPhase ⟨hjob, decideDialog_ok hhist⟩
  | checkWindow hph => exact h.inSection _ (checkStep_dialogOk (hphase hph))
  | @readRetryAfter t c newDialog w limit used n rest full hph =>
      have hok : DialogOk cfg s (.retry c newDialog w limit used n rest full) := hphase hph
      exact h.setPhase hok
  | pace hph hjitter => exact h.inSection _ (paceStep_dialogOk (hphase hph))
  | commit hph => exact h.commit hinv hph
  | abort hph => exact h.setPhase trivial
  | abortSection hph => exact h.move (p := .aborted) trivial
  | keep hph => exact h.setPhase trivial
  | release hph =>
      refine h.release hinv hph ?_
      simpa only [releaseOk, hph] using hrelease
  | message => exact h.message _

end Steps

/-- **Run lemma.** -/
theorem run_dialogInv {cfg : Config} {s s' : State}
    (hrun : Run (step cfg) (fun x a => releaseOk cfg x a = true) s s') (hinv : Inv cfg s)
    (h : DialogInv cfg s) : Inv cfg s' ∧ DialogInv cfg s' :=
  hrun.invariant (P := fun x => Inv cfg x ∧ DialogInv cfg x)
    (fun _ _ _ hx hok hstep => ⟨step_inv hstep hx.1, step_dialogInv hstep hok hx.1 hx.2⟩) ⟨hinv, h⟩

/-! ## The main result -/

/-- The window of new dialogs. -/
def newDialogsWindow : Window :=
  { name := .newDialogsPerDay, kind := .send, seconds := 86400, newDialogsOnly := true,
    noun := "new dialogs" }

/-- In one state: every cold chat is counted once, and so no more than
    `new_dialogs_per_day` cold chats are first written to in any 24 hours. -/
def ColdChatsCounted (cfg : Config) (s : State) : Prop :=
  ∀ a, (∀ chat f, Cold s a chat f → ((keptSends s a chat).filter (·.newDialog)).length = 1) ∧
    ∀ limits, limitsInForce cfg a = some limits → ∀ limit, limits.newDialogsPerDay = some limit →
      ∀ (T : Time) (chats : List Int), chats.Nodup →
        (∀ chat ∈ chats, ∃ f, Cold s a chat f ∧ T - seconds 86400 < f.atTime ∧ f.atTime ≤ T) →
        chats.length ≤ limit

section Counted

variable {cfg : Config} {s : State} {a : Nat} {chat : Int} {f : WriteEvent}

theorem mem_keptSends {e : WriteEvent} : e ∈ keptSends s a chat ↔
    e ∈ s.rows ∧ isSendTo a chat e = true ∧ (s.phase (s.origin e.id).task).isKept = true := by
  simp [keptSends]

/-- A cold chat's first send saw nothing. -/
theorem Cold.existing_nil (h : DialogInv cfg s) (hcold : Cold s a chat f) :
    (s.origin f.id).existing = [] := by
  obtain ⟨hf, hsend, -⟩ := mem_keptSends.mp hcold.mem
  by_contra hne
  rcases (h.sends f hf a chat hsend).backed hne with hmsg | ⟨i, hi, hrel⟩
  · rw [hcold.noMessage] at hmsg
    cases hmsg
  · exact hrel (hcold.alone i hi)

theorem Cold.newDialog (h : DialogInv cfg s) (hcold : Cold s a chat f) : f.newDialog = true := by
  obtain ⟨hf, hsend, -⟩ := mem_keptSends.mp hcold.mem
  exact (h.sends f hf a chat hsend).opens (hcold.existing_nil h) hcold.noMessage

/-- A later send to a chat that has one stored opens no dialog. -/
theorem newDialog_later (h : DialogInv cfg s) {e : WriteEvent} (hf : f ∈ s.rows) (he : e ∈ s.rows)
    (hsendf : isSendTo a chat f = true) (hsend : isSendTo a chat e = true) (hlt : f.id < e.id) :
    e.newDialog = false := by
  have hseen := h.seen f hf e he a chat hsendf hsend hlt
  exact (h.sends e he a chat hsend).follows (List.ne_nil_of_mem hseen)

theorem ids_nodup (h : DialogInv cfg s) : (s.rows.map (·.id)).Nodup :=
  List.pairwise_map.mpr (h.ordered.imp fun hlt => Nat.ne_of_gt hlt)

/-- Exactly the first kept send of a cold chat is counted. -/
theorem Cold.counted (h : DialogInv cfg s) (hcold : Cold s a chat f) :
    (keptSends s a chat).filter (·.newDialog) = [f] := by
  obtain ⟨hf, hsendf, -⟩ := mem_keptSends.mp hcold.mem
  have honly : ∀ e ∈ keptSends s a chat, e.newDialog = decide (e = f) := by
    intro e he
    obtain ⟨hrow, hsend, -⟩ := mem_keptSends.mp he
    rcases Nat.lt_or_eq_of_le (hcold.first e he) with hlt | heq
    · have hne : e ≠ f := fun h => Nat.lt_irrefl _ (h ▸ hlt)
      rw [newDialog_later h hf hrow hsendf hsend hlt, decide_eq_false hne]
    · have hsame : e = f := List.inj_on_of_nodup_map (ids_nodup h) hrow hf heq.symm
      rw [hsame, hcold.newDialog h, decide_eq_true rfl]
  have hnodup : (keptSends s a chat).Nodup := ((ids_nodup h).of_map _).filter _
  rw [List.filter_congr honly, List.filter_eq, List.count_eq_one_of_mem hnodup hcold.mem]
  rfl

/-- Cold chats first written to in a window are chats of events stored in it. -/
theorem cold_chats_le (h : DialogInv cfg s) {T : Time} {chats : List Int} (hnodup : chats.Nodup)
    (hcold : ∀ chat ∈ chats, ∃ f, Cold s a chat f ∧ T - seconds 86400 < f.atTime ∧ f.atTime ≤ T) :
    chats.length ≤ (storedIn s.rows a newDialogsWindow T).length := by
  have hsub : chats ⊆ (storedIn s.rows a newDialogsWindow T).filterMap (·.chatId) := by
    intro chat hchat
    obtain ⟨f, hf, hlo, hhi⟩ := hcold chat hchat
    obtain ⟨hrow, hsend, -⟩ := mem_keptSends.mp hf.mem
    obtain ⟨hacc, hkind, hchatId⟩ := isSendTo_iff.mp hsend
    refine List.mem_filterMap.mpr ⟨f, List.mem_filter.mpr ⟨hrow, ?_⟩, hchatId⟩
    have hwindow : matchesWindow a newDialogsWindow f = true := by
      simp [matchesWindow, newDialogsWindow, hacc, hkind, hf.newDialog h]
    rw [hwindow, Bool.true_and, Bool.and_eq_true, decide_eq_true_eq, decide_eq_true_eq]
    exact ⟨hlo, hhi⟩
  exact (List.subperm_of_subset hnodup hsub).length_le.trans (List.length_filterMap_le _ _)

end Counted

/-- **Every cold chat is counted once**, in every run in which no slot is given back that carries the
    decision of another send; with no reservation in flight or with some. -/
theorem cold_chats_counted (cfg : Config) (start : Time) (s : State)
    (hrun : Run (step cfg) (fun x a => releaseOk cfg x a = true) (State.init start) s) :
    ColdChatsCounted cfg s := by
  obtain ⟨hinv, h⟩ := run_dialogInv hrun (init_inv cfg start) (init_dialogInv cfg start)
  intro a
  constructor
  · intro chat f hcold
    rw [hcold.counted h, List.length_singleton]
  · intro limits hlim limit hl T chats hnodup hcold
    refine (cold_chats_le h hnodup hcold).trans ?_
    rw [storedIn_length]
    exact (hinv.admitted a limits hlim newDialogsWindow (by decide) limit hl).window T

/-! ## A first send given back, and one that carries nothing -/

/-- A MAX account with the default limits. -/
def dialogsConfig : Config where
  newMode := true
  accounts a := if a = 7 then some ⟨"main", .max, none⟩ else none

def dialogsSend : Job := .reserve .send "send_message" (some 5)

/-- The first send opens the dialog, the second one to the same chat does not; then the first one
    fails and the second is kept. -/
def lostRun : List Action :=
  writeActions 0 7 dialogsSend true 0 0 ++ writeActions 1 7 dialogsSend false 0 1000000 ++
    [.release 0, .keep 1]

theorem lostRun_possible : (exec (step dialogsConfig) (State.init 0) lostRun).isSome = true := by decide

def lostState : State := (exec (step dialogsConfig) (State.init 0) lostRun).get lostRun_possible

/-- The one send that reached the chat. -/
def lostSend : WriteEvent := ⟨1, 7, .send, "send_message", some 5, false, 4000000⟩

theorem lostState_quiet : lostState.Quiet
  | 0 => rfl
  | 1 => rfl
  | _ + 2 => rfl

theorem lostState_cold : Cold lostState 7 5 lostSend := by
  refine ⟨by decide, by decide, by decide, by decide⟩

/-- The chat is cold, and no kept send to it is counted as a new dialog. -/
theorem cold_chats_counted_fails :
    ¬ ∀ (cfg : Config) (start : Time) (s : State), Run (step cfg) Always (State.init start) s →
      s.Quiet → ColdChatsCounted cfg s := by
  intro hclaim
  have hcounted := hclaim dialogsConfig 0 lostState (Run.get_exec lostRun_possible) lostState_quiet
  have hone := (hcounted 7).1 5 lostSend lostState_cold
  revert hone
  decide

/-- A send that fails before another one is made carries no decision. -/
def retriedRun : List Action :=
  writeActions 0 7 dialogsSend true 0 0 ++ [.release 0] ++ writeActions 1 7 dialogsSend true 0 0 ++
    [.keep 1]

theorem retriedRun_possible :
    (execOk (step dialogsConfig) (releaseOk dialogsConfig) (State.init 0) retriedRun).isSome = true := by
  decide

def retriedState : State :=
  (execOk (step dialogsConfig) (releaseOk dialogsConfig) (State.init 0) retriedRun).get retriedRun_possible

theorem cold_chats_counted_retried : ColdChatsCounted dialogsConfig retriedState :=
  cold_chats_counted dialogsConfig 0 retriedState (Run.get_execOk retriedRun_possible)

end MyPerson.WriteLimits
