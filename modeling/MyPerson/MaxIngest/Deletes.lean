import MyPerson.MaxIngest.System
import MyPerson.Repo.Merge

/-!
# `MaxIngest.Deletes` — processed deletes and the order of frames

The lock of a chat is fair and a frame takes its place before its first `await`, so the frames of a chat
act in the order in which they arrived (`framesInOrder_run`). A delete that finds its message marks it
for good (`Marked`): no copy clears the mark. A delete that does not find it leaves nothing behind, by
design; then the message stays away only if no copy of it is still waiting to be stored (`Outstanding`).
The server sends no new copy of what it has removed (`Settled`).

## Contents
- `FramesInOrder`, `framesInOrder_run`: frames of a chat act in the order of arrival;
- `Marked` and `Settled`, each kept by every step;
- `delete_stays`, and the page that brings a deleted message back (`delete_stays_fails`).
-/

namespace MyPerson.MaxIngest

open Lib Repo

variable {pm : PyMax} {ids : ChatIds} {newMode : Bool} {s t u : Session} {chat : Int} {id : Int}

/-! ## The order of frames -/

/-- The frames of a chat among pieces of work. -/
def framesAt (chat : Int) (ws : List Work) : List Frame :=
  ws.filterMap fun
    | .frame f => if frameChatId f.opcode f.payload = some chat then some f else none
    | _ => none

/-- The frames of a chat that have acted, then those that wait, are those that arrived; and a frame
    acts on the chat it belongs to. -/
structure FramesInOrder (chat : Int) (s : Session) : Prop where
  order : framesAt chat (s.done.map Prod.fst) ++ framesAt chat (s.turns.waiting (some chat))
    = s.arrived.filter fun f => frameChatId f.opcode f.payload = some chat
  own : ∀ f e, (Work.frame f, e) ∈ s.done → e.chat = some chat → frameChatId f.opcode f.payload = some chat

theorem framesAt_append (chat : Int) (ws ws' : List Work) :
    framesAt chat (ws ++ ws') = framesAt chat ws ++ framesAt chat ws' := List.filterMap_append

/-- The frames of a chat come from its lock. -/
theorem framesAt_filter (chat : Int) (ws : List Work) :
    framesAt chat (ws.filter fun w => w.lock = some chat) = framesAt chat ws := by
  induction ws with
  | nil => rfl
  | cons w ws ih =>
      have hsplit : framesAt chat (w :: ws) = framesAt chat [w] ++ framesAt chat ws :=
        framesAt_append chat [w] ws
      by_cases hlock : w.lock = some chat
      · have hkeep : (w :: ws).filter (fun w => w.lock = some chat)
            = w :: ws.filter fun w => w.lock = some chat := by simp [hlock]
        rw [hkeep, hsplit, ← ih]
        exact framesAt_append chat [w] _
      · have hnone : framesAt chat [w] = [] := by
          cases w with
          | frame f =>
              have hne : frameChatId f.opcode f.payload ≠ some chat := hlock
              simp [framesAt, hne]
          | storeSent c msg isEdit => rfl
          | applyDelete c msgs => rfl
        have hdrop : (w :: ws).filter (fun w => w.lock = some chat)
            = ws.filter fun w => w.lock = some chat := by simp [hlock]
        rw [hdrop, ih, hsplit, hnone, List.nil_append]

/-- The logs of the session and of its locks agree. -/
structure Logged (pm : PyMax) (s : Session) : Prop where
  done : s.done.map Prod.fst = s.turns.served
  arrived : ∀ chat, framesAt chat s.turns.joined
    = s.arrived.filter fun f => frameChatId f.opcode f.payload = some chat
  effect : ∀ w e, (w, e) ∈ s.done → ∃ receivedAt, e = w.effect pm receivedAt
  /-- The calls in hand are no frames. -/
  calls : ∀ w ∈ s.calls, ∀ f, w ≠ .frame f

theorem framesAt_other {w : Work} (h : ∀ f, w ≠ .frame f) (chat : Int) : framesAt chat [w] = [] := by
  cases w with
  | frame f => exact absurd rfl (h f)
  | storeSent c msg isEdit => rfl
  | applyDelete c msgs => rfl

/-- **Step.** -/
theorem logged_step (a : Action) (h : Logged pm s) (hstep : step pm ids newMode s a = some t) :
    Logged pm t := by
  cases a with
  | push f =>
      obtain ⟨-, ht⟩ := Option.ite_none_right_eq_some.mp hstep
      cases ht
      exact ⟨h.done, h.arrived, h.effect, h.calls⟩
  | send c msg isEdit =>
      obtain ⟨-, ht⟩ := Option.ite_none_left_eq_some.mp hstep
      cases ht
      refine ⟨h.done, h.arrived, h.effect, fun w hw f => ?_⟩
      rcases List.mem_append.mp hw with hw | hw
      · exact h.calls w hw f
      · rw [List.mem_singleton.mp hw]
        simp
  | erase c msgs =>
      cases hstep
      refine ⟨h.done, h.arrived, h.effect, fun w hw f => ?_⟩
      rcases List.mem_append.mp hw with hw | hw
      · exact h.calls w hw f
      · rw [List.mem_singleton.mp hw]
        simp
  | lose =>
      cases hstep
      exact ⟨h.done, h.arrived, h.effect, h.calls⟩
  | identify ok =>
      cases hstep
      exact ⟨h.done, h.arrived, h.effect, h.calls⟩
  | arrive =>
      simp only [step] at hstep
      split at hstep
      · cases hstep
      · rename_i f rest hstream
        split at hstep
        · cases hstep
          refine ⟨h.done, fun c => ?_, h.effect, h.calls⟩
          rw [Turns.join_joined, framesAt_append, h.arrived c, List.filter_append]
          congr 1
          by_cases hf : frameChatId f.opcode f.payload = some c <;> simp [framesAt, hf]
        · cases hstep
          exact ⟨h.done, h.arrived, h.effect, h.calls⟩
  | join i =>
      simp only [step] at hstep
      split at hstep
      · rename_i w hw
        cases hstep
        refine ⟨h.done, fun c => ?_, h.effect, fun w' hw' => h.calls w' (List.mem_of_mem_eraseIdx hw')⟩
        rw [Turns.join_joined, framesAt_append, framesAt_other (h.calls w (List.mem_of_getElem? hw)),
          List.append_nil]
        exact h.arrived c
      · cases hstep
  | finish lock receivedAt newUser =>
      simp only [step] at hstep
      split at hstep
      · rename_i w turns hserve
        cases hstep
        obtain ⟨-, -, hserved, hjoined⟩ := Turns.serve_spec hserve
        refine ⟨?_, fun c => ?_, fun w' e' hmem => ?_, h.calls⟩
        · rw [List.map_append, h.done]
          exact hserved.symm
        · rw [← h.arrived c]
          exact congrArg (framesAt c) hjoined
        · rcases List.mem_append.mp hmem with hold | hnew
          · exact h.effect w' e' hold
          · cases List.mem_singleton.mp hnew
            exact ⟨receivedAt, rfl⟩
      · cases hstep
  | fetch task c page =>
      obtain ⟨-, ht⟩ := Option.ite_none_right_eq_some.mp hstep
      cases ht
      exact ⟨h.done, h.arrived, h.effect, h.calls⟩
  | storeNext task receivedAt newUser =>
      simp only [step] at hstep
      split at hstep
      · cases hstep
        exact ⟨h.done, h.arrived, h.effect, h.calls⟩
      · cases hstep
  | abandon task =>
      cases hstep
      exact ⟨h.done, h.arrived, h.effect, h.calls⟩
  | others account users chats =>
      cases hstep
      exact ⟨h.done, h.arrived, h.effect, h.calls⟩

theorem logged_start (pm : PyMax) (store : Store) : Logged pm (start store) :=
  ⟨rfl, fun _ => rfl, fun _ _ h => absurd h List.not_mem_nil, fun _ h => absurd h List.not_mem_nil⟩

/-- **Run.** The frames of a chat act in the order in which they arrived. -/
theorem framesInOrder_run {store : Store} (h : Run (step pm ids newMode) Always (start store) s)
    (chat : Int) : FramesInOrder chat s := by
  have hlog : Logged pm s := h.invariant (fun x a y hx _ hstep => logged_step a hx hstep) (logged_start pm store)
  constructor
  · rw [hlog.done, ← hlog.arrived chat, ← framesAt_filter chat s.turns.joined, ← s.turns.inTurn,
      framesAt_append, framesAt_filter]
  · intro f e hmem hchat
    obtain ⟨receivedAt, rfl⟩ := hlog.effect _ _ hmem
    exact processFrame_chat hchat

/-! ## Work on its way -/

/-- A property of all work that is on its way to a lock or waits there. -/
structure AllWork (P : Work → Prop) (s : Session) : Prop where
  stream : ∀ f ∈ s.stream, P (.frame f)
  waiting : ∀ lock, ∀ w ∈ s.turns.waiting lock, P w
  calls : ∀ w ∈ s.calls, P w

/-- The work that an action brings. -/
def Action.brings : Action → List Work
  | .push f => [.frame f]
  | .send chat msg isEdit => [.storeSent chat msg isEdit]
  | .erase chat msgs => [.applyDelete chat msgs]
  | _ => []

/-- **Step.** Work comes only with the server and our own writes. -/
theorem allWork_step {P : Work → Prop} (a : Action) (h : AllWork P s) (hnew : ∀ w ∈ a.brings, P w)
    (hstep : step pm ids newMode s a = some t) : AllWork P t := by
  have hcall : ∀ w, P w → ∀ w' ∈ s.calls ++ [w], P w' := by
    intro w hw w' hmem
    rcases List.mem_append.mp hmem with hmem | hmem
    · exact h.calls w' hmem
    · rwa [List.mem_singleton.mp hmem]
  have hjoin : ∀ w, P w → ∀ lock, ∀ w' ∈ (s.turns.join w).waiting lock, P w' := by
    intro w hw lock w' hmem
    rcases Turns.mem_join_waiting hmem with rfl | hold
    · exact hw
    · exact h.waiting lock w' hold
  cases a with
  | push f =>
      obtain ⟨-, ht⟩ := Option.ite_none_right_eq_some.mp hstep
      cases ht
      refine ⟨fun f' hf' => ?_, h.waiting, h.calls⟩
      rcases List.mem_append.mp hf' with hf' | hf'
      · exact h.stream f' hf'
      · rw [List.mem_singleton.mp hf']
        exact hnew _ List.mem_cons_self
  | send c msg isEdit =>
      obtain ⟨-, ht⟩ := Option.ite_none_left_eq_some.mp hstep
      cases ht
      exact ⟨h.stream, h.waiting, hcall _ (hnew _ List.mem_cons_self)⟩
  | erase c msgs =>
      cases hstep
      exact ⟨h.stream, h.waiting, hcall _ (hnew _ List.mem_cons_self)⟩
  | lose =>
      cases hstep
      exact ⟨fun f hf => absurd hf List.not_mem_nil, h.waiting, h.calls⟩
  | identify ok =>
      cases hstep
      exact ⟨h.stream, h.waiting, h.calls⟩
  | arrive =>
      simp only [step] at hstep
      split at hstep
      · cases hstep
      · rename_i f rest hstream
        have hrest : ∀ f' ∈ rest, P (.frame f') := fun f' hf' =>
          h.stream f' (hstream ▸ List.mem_cons_of_mem f hf')
        split at hstep
        · cases hstep
          exact ⟨hrest, hjoin _ (h.stream f (hstream ▸ List.mem_cons_self)), h.calls⟩
        · cases hstep
          exact ⟨hrest, h.waiting, h.calls⟩
  | join i =>
      simp only [step] at hstep
      split at hstep
      · rename_i w hw
        cases hstep
        exact ⟨h.stream, hjoin w (h.calls w (List.mem_of_getElem? hw)),
          fun w' hw' => h.calls w' (List.mem_of_mem_eraseIdx hw')⟩
      · cases hstep
  | finish lock receivedAt newUser =>
      simp only [step] at hstep
      split at hstep
      · rename_i w turns hserve
        cases hstep
        exact ⟨h.stream, fun lock' w' hw' => h.waiting lock' w' (Turns.mem_serve_waiting hserve hw'), h.calls⟩
      · cases hstep
  | fetch task c page =>
      obtain ⟨-, ht⟩ := Option.ite_none_right_eq_some.mp hstep
      cases ht
      exact ⟨h.stream, h.waiting, h.calls⟩
  | storeNext task receivedAt newUser =>
      simp only [step] at hstep
      split at hstep
      · cases hstep
        exact ⟨h.stream, h.waiting, h.calls⟩
      · cases hstep
  | abandon task =>
      cases hstep
      exact ⟨h.stream, h.waiting, h.calls⟩
  | others account users chats =>
      cases hstep
      exact ⟨h.stream, h.waiting, h.calls⟩

/-- What the server removed stays removed. -/
theorem gone_step {key : Int × Int} (a : Action) (h : key ∈ s.gone)
    (hstep : step pm ids newMode s a = some t) : key ∈ t.gone := by
  cases a with
  | push f =>
      obtain ⟨-, ht⟩ := Option.ite_none_right_eq_some.mp hstep
      cases ht
      exact List.mem_append_right _ h
  | erase c msgs =>
      cases hstep
      exact List.mem_append_right _ h
  | send c msg isEdit =>
      obtain ⟨-, ht⟩ := Option.ite_none_left_eq_some.mp hstep
      cases ht
      exact h
  | fetch task c page =>
      obtain ⟨-, ht⟩ := Option.ite_none_right_eq_some.mp hstep
      cases ht
      exact h
  | lose | identify ok | abandon task | others account users chats =>
      cases hstep
      exact h
  | arrive | join i | finish lock receivedAt newUser | storeNext task receivedAt newUser =>
      simp only [step] at hstep
      repeat' split at hstep
      all_goals first | cases hstep; exact h | cases hstep

/-! ## Deletes on their way are about removed messages -/

/-- The work deletes the message. -/
def Work.Deletes (pm : PyMax) (chat : Int) (id : Int) (w : Work) : Prop :=
  ∃ receivedAt msgs atTime, w.effect pm receivedAt = .delete chat msgs atTime ∧ id ∈ msgs

/-- The work stores a copy of the message. -/
def Work.Carries (pm : PyMax) (chat : Int) (id : Int) (w : Work) : Prop :=
  ∃ receivedAt chatType row, w.effect pm receivedAt = .store chat chatType row ∧ row.externalId = id

theorem storeMessage_store {msg : Msg} {chat? : Option Int} {receivedAt : Time} {isEdit : Bool}
    {chatType : ChatType} {row : MessageRow}
    (h : storeMessage msg chat? receivedAt isEdit = .store chat chatType row) :
    msg.chatId.or chat? = some chat ∧ row.externalId = msg.id := by
  unfold storeMessage at h
  split at h
  · rename_i cid hcid
    cases h
    exact ⟨hcid, rfl⟩
  · cases h

/-- What `_on_message` can do, by the parsed message. -/
theorem onMessage_cases (pm : PyMax) (payload : Payload) (receivedAt : Time) (isEdit : Bool) :
    onMessage pm payload receivedAt isEdit = .nothing ∨
      ∃ msg, pm.message payload = some msg ∧
        ((∃ chat, msg.status = .removed ∧ msg.chatId = some chat ∧
            onMessage pm payload receivedAt isEdit = .delete chat [msg.id] receivedAt) ∨
          ((msg.status = .removed → msg.chatId = none) ∧
            onMessage pm payload receivedAt isEdit
              = storeMessage msg none receivedAt (isEdit || msg.status == .edited))) := by
  unfold onMessage
  split
  · exact Or.inl rfl
  · split
    · exact Or.inl rfl
    · rename_i msg hmsg
      refine Or.inr ⟨msg, hmsg, ?_⟩
      split
      · rename_i chat hstatus hchat
        exact Or.inl ⟨chat, hstatus, hchat, rfl⟩
      · rename_i hnot
        refine Or.inr ⟨fun hremoved => ?_, rfl⟩
        cases hchat : msg.chatId with
        | none => rfl
        | some chat => exact absurd hchat (hnot chat hremoved)

theorem removes_of_deletes {f : Frame} (h : (Work.frame f).Deletes pm chat id) :
    (chat, id) ∈ f.removes pm := by
  obtain ⟨receivedAt, msgs, atTime, he, hid⟩ := h
  have hmessage : ∀ isEdit, onMessage pm f.payload receivedAt isEdit = .delete chat msgs atTime →
      ∃ msg, pm.message f.payload = some msg ∧ msg.status = .removed ∧ msg.chatId = some chat ∧ id = msg.id := by
    intro isEdit hon
    rcases onMessage_cases pm f.payload receivedAt isEdit with hnothing | ⟨msg, hmsg, hcase⟩
    · rw [hnothing] at hon
      cases hon
    · rcases hcase with ⟨c, hremoved, hchat, hdelete⟩ | ⟨-, hstore⟩
      · rw [hdelete] at hon
        cases hon
        exact ⟨msg, hmsg, hremoved, hchat, List.mem_singleton.mp hid⟩
      · rw [hstore] at hon
        unfold storeMessage at hon
        split at hon <;> cases hon
  have hprocess : processFrame pm f receivedAt = .delete chat msgs atTime := he
  unfold processFrame at hprocess
  split at hprocess
  · rename_i hop
    obtain ⟨msg, hmsg, hremoved, hchat, rfl⟩ := hmessage _ hprocess
    simp [Frame.removes, hop, hmsg, hremoved, hchat]
  · rename_i hop
    obtain ⟨msg, hmsg, hremoved, hchat, rfl⟩ := hmessage _ hprocess
    simp [Frame.removes, hop, hmsg, hremoved, hchat]
  · rename_i hop
    split at hprocess
    · rename_i c msgs' hevent
      cases hprocess
      simpa [Frame.removes, hop, hevent] using hid
    · cases hprocess
  · cases hprocess

theorem shows_of_carries {f : Frame} (h : (Work.frame f).Carries pm chat id) :
    f.shows pm = some (chat, id) := by
  obtain ⟨receivedAt, chatType, row, he, hid⟩ := h
  have hmessage : ∀ isEdit, onMessage pm f.payload receivedAt isEdit = .store chat chatType row →
      ∃ msg, pm.message f.payload = some msg ∧ msg.status ≠ .removed ∧ msg.chatId = some chat ∧ id = msg.id := by
    intro isEdit hon
    rcases onMessage_cases pm f.payload receivedAt isEdit with hnothing | ⟨msg, hmsg, hcase⟩
    · rw [hnothing] at hon
      cases hon
    · rcases hcase with ⟨c, -, -, hdelete⟩ | ⟨hnone, hstore⟩
      · rw [hdelete] at hon
        cases hon
      · rw [hstore] at hon
        obtain ⟨hchat, hrow⟩ := storeMessage_store hon
        rw [Option.or_none] at hchat
        refine ⟨msg, hmsg, fun hremoved => ?_, hchat, hid.symm.trans hrow⟩
        rw [hnone hremoved] at hchat
        cases hchat
  have hprocess : processFrame pm f receivedAt = .store chat chatType row := he
  unfold processFrame at hprocess
  split at hprocess
  · rename_i hop
    obtain ⟨msg, hmsg, hremoved, hchat, rfl⟩ := hmessage _ hprocess
    simp [Frame.shows, hop, hmsg, hremoved, hchat]
  · rename_i hop
    obtain ⟨msg, hmsg, hremoved, hchat, rfl⟩ := hmessage _ hprocess
    simp [Frame.shows, hop, hmsg, hremoved, hchat]
  · split at hprocess <;> cases hprocess
  · cases hprocess

/-- The server has removed what the work deletes. -/
def Known (pm : PyMax) (s : Session) (w : Work) : Prop :=
  ∀ chat id, w.Deletes pm chat id → (chat, id) ∈ s.gone

theorem known_start (pm : PyMax) (store : Store) : AllWork (Known pm (start store)) (start store) :=
  ⟨fun _ h => absurd h List.not_mem_nil, fun _ _ h => absurd h List.not_mem_nil,
    fun _ h => absurd h List.not_mem_nil⟩

/-- **Step.** -/
theorem known_step (a : Action) (h : AllWork (Known pm s) s) (hstep : step pm ids newMode s a = some t) :
    AllWork (Known pm t) t := by
  refine allWork_step a ⟨?_, ?_, ?_⟩ ?_ hstep
  · exact fun f hf chat id hdel => gone_step a (h.stream f hf chat id hdel) hstep
  · exact fun lock w hw chat id hdel => gone_step a (h.waiting lock w hw chat id hdel) hstep
  · exact fun w hw chat id hdel => gone_step a (h.calls w hw chat id hdel) hstep
  · intro w hw chat id hdel
    cases a with
    | push f =>
        obtain ⟨-, ht⟩ := Option.ite_none_right_eq_some.mp hstep
        cases ht
        cases List.mem_singleton.mp hw
        exact List.mem_append_left _ (removes_of_deletes hdel)
    | send c msg isEdit =>
        cases List.mem_singleton.mp hw
        obtain ⟨receivedAt, msgs, atTime, he, -⟩ := hdel
        have hstore : storeMessage msg (some c) receivedAt isEdit = .delete chat msgs atTime := he
        unfold storeMessage at hstore
        split at hstore <;> cases hstore
    | erase c msgs =>
        cases hstep
        cases List.mem_singleton.mp hw
        obtain ⟨receivedAt, msgs', atTime, he, hid⟩ := hdel
        cases he
        exact List.mem_append_left _ (List.mem_map.mpr ⟨id, hid, rfl⟩)
    | lose | identify ok | arrive | join i | finish lock receivedAt newUser | fetch task c page
    | storeNext task receivedAt newUser | abandon task | others account users chats =>
        cases hw

/-! ## The mark of a deleted message -/

/-- The message is stored and marked as deleted. -/
def Marked (store : Store) (k : MessageKey) : Prop :=
  ∃ m v, store.messages k = some m ∧ m.deletedAt = some v

/-- The message is stored with `deleted_at` null. -/
def Undeleted (store : Store) (k : MessageKey) : Prop :=
  ∃ m, store.messages k = some m ∧ m.deletedAt = none

theorem Marked.not_undeleted {store : Store} {k : MessageKey} (h : Marked store k) : ¬Undeleted store k := by
  rintro ⟨m, hm, hnone⟩
  obtain ⟨m', v, hm', hv⟩ := h
  rw [hm] at hm'
  cases hm'
  rw [hnone] at hv
  cases hv

theorem Marked.deliver {store : Store} {k : MessageKey} (h : Marked store k) (d : Delivery) :
    Marked (deliver store d) k := by
  obtain ⟨m, v, hm, hv⟩ := h
  obtain ⟨m', hm', hkept, -⟩ := deliver_keeps store d hm
  exact ⟨m', v, hm', hkept v hv⟩

/-- No effect clears a mark. -/
theorem Marked.run {store : Store} {k : MessageKey} (h : Marked store k) (newUser : Nat) (e : Effect) :
    Marked (e.run ids store newUser) k := by
  cases e with
  | store c chatType row =>
      have hrows : Marked (ensureRows store (ids.pk c) chatType row.senderExternalId newUser) k := h
      exact hrows.deliver (.copy (ids.pk c) row)
  | delete c msgs atTime => exact h.deliver (.deleted (some (ids.pk c)) msgs atTime)
  | nothing => exact h

/-- **Step.** A mark stays. -/
theorem marked_step {k : MessageKey} (a : Action) (h : Marked s.store k)
    (hstep : step pm ids newMode s a = some t) : Marked t.store k := by
  cases a with
  | push f =>
      obtain ⟨-, ht⟩ := Option.ite_none_right_eq_some.mp hstep
      cases ht
      exact h
  | send c msg isEdit =>
      obtain ⟨-, ht⟩ := Option.ite_none_left_eq_some.mp hstep
      cases ht
      exact h
  | fetch task c page =>
      obtain ⟨-, ht⟩ := Option.ite_none_right_eq_some.mp hstep
      cases ht
      exact h
  | erase c msgs | lose | identify ok | abandon task | others account users chats =>
      cases hstep
      exact h
  | arrive | join i =>
      simp only [step] at hstep
      repeat' split at hstep
      all_goals first | cases hstep; exact h | cases hstep
  | finish lock receivedAt newUser =>
      simp only [step] at hstep
      split at hstep
      · cases hstep
        exact h.run newUser _
      · cases hstep
  | storeNext task receivedAt newUser =>
      simp only [step] at hstep
      split at hstep
      · cases hstep
        exact h.run newUser _
      · cases hstep

/-- **Deletion.** A delete marks the stored messages it names. -/
theorem marked_of_delete {store : Store} {msgs : List Int} {atTime : Time} (newUser : Nat) (hid : id ∈ msgs)
    (h : ∃ m, store.messages (ids.pk chat, id) = some m) :
    Marked ((Effect.delete chat msgs atTime).run ids store newUser) (ids.pk chat, id) := by
  obtain ⟨m, hm⟩ := h
  have hrow : ((Effect.delete chat msgs atTime).run ids store newUser).messages (ids.pk chat, id)
      = some { m with deletedAt := m.deletedAt.or (some atTime) } := by
    show (store.messages (ids.pk chat, id)).map _ = _
    rw [hm]
    simp [deletesIn, hid]
  cases hv : m.deletedAt with
  | none => exact ⟨_, atTime, hrow, by simp [hv]⟩
  | some v => exact ⟨_, v, hrow, by simp [hv]⟩

/-! ## Messages of which nothing is left -/

/-- No copy of the message is still to be stored. -/
structure Clear (pm : PyMax) (chat id : Int) (s : Session) : Prop where
  work : AllWork (fun w => ¬w.Carries pm chat id) s
  pages : ∀ task page, s.pages task = some page → ∀ msg ∈ page.left, msg.key page.chat ≠ (chat, id)

/-- The server has removed the message, no copy of it is under way, and it is not stored undeleted. -/
structure Settled (pm : PyMax) (ids : ChatIds) (chat id : Int) (s : Session) : Prop where
  gone : (chat, id) ∈ s.gone
  clear : Clear pm chat id s
  undeleted : ¬Undeleted s.store (ids.pk chat, id)

/-- An effect that does not store the message does not bring it back. -/
theorem not_undeleted_run {store : Store} {e : Effect} (newUser : Nat)
    (h : ¬Undeleted store (ids.pk chat, id))
    (hother : ∀ c chatType row, e = .store c chatType row → (c, row.externalId) ≠ (chat, id)) :
    ¬Undeleted (e.run ids store newUser) (ids.pk chat, id) := by
  rintro ⟨m, hm, hnone⟩
  cases e with
  | store c chatType row =>
      have hne : (ids.pk c, row.externalId) ≠ (ids.pk chat, id) := by
        intro heq
        obtain ⟨hpk, hrow⟩ := Prod.mk.inj heq
        exact hother c chatType row rfl (by rw [ids.injective hpk, hrow])
      have hkept := copy_row_ne (ensureRows store (ids.pk c) chatType row.senderExternalId newUser) hne
      exact h ⟨m, hkept.symm.trans hm, hnone⟩
  | delete c msgs atTime =>
      have hmap : (store.messages (ids.pk chat, id)).map _ = some m := hm
      obtain ⟨old, hold, hmark⟩ := Option.map_eq_some_iff.mp hmap
      refine h ⟨old, hold, ?_⟩
      split at hmark
      · subst hmark
        cases hv : old.deletedAt <;> simp [hv] at hnone ⊢
      · rw [hmark]
        exact hnone
  | nothing => exact h ⟨m, hm, hnone⟩

theorem key_of_storeMessage {msg : Msg} {c c' : Int} {receivedAt : Time} {isEdit : Bool}
    {chatType : ChatType} {row : MessageRow}
    (h : storeMessage msg (some c) receivedAt isEdit = .store c' chatType row) :
    msg.key c = (c', row.externalId) := by
  obtain ⟨hchat, hrow⟩ := storeMessage_store h
  unfold Msg.key
  rw [hrow]
  cases hc : msg.chatId with
  | none =>
      rw [hc] at hchat
      cases hchat
      rfl
  | some c'' =>
      rw [hc] at hchat
      cases hchat
      rfl

/-- **Step.** No new copy of a removed message comes up. -/
theorem clear_step (a : Action) (hgone : (chat, id) ∈ s.gone) (h : Clear pm chat id s)
    (hstep : step pm ids newMode s a = some t) : Clear pm chat id t := by
  refine ⟨allWork_step a h.work ?_ hstep, ?_⟩
  · intro w hw hcarries
    cases a with
    | push f =>
        obtain ⟨hguard, -⟩ := Option.ite_none_right_eq_some.mp hstep
        cases List.mem_singleton.mp hw
        rw [shows_of_carries hcarries] at hguard
        simp [hgone] at hguard
    | send c msg isEdit =>
        obtain ⟨hguard, -⟩ := Option.ite_none_left_eq_some.mp hstep
        cases List.mem_singleton.mp hw
        obtain ⟨receivedAt, chatType, row, he, rfl⟩ := hcarries
        rw [key_of_storeMessage he] at hguard
        simp [hgone] at hguard
    | erase c msgs =>
        cases List.mem_singleton.mp hw
        obtain ⟨receivedAt, chatType, row, he, -⟩ := hcarries
        cases he
    | lose | identify ok | arrive | join i | finish lock receivedAt newUser | fetch task c page
    | storeNext task receivedAt newUser | abandon task | others account users chats =>
        cases hw
  · cases a with
    | push f =>
        obtain ⟨-, ht⟩ := Option.ite_none_right_eq_some.mp hstep
        cases ht
        exact h.pages
    | send c msg isEdit =>
        obtain ⟨-, ht⟩ := Option.ite_none_left_eq_some.mp hstep
        cases ht
        exact h.pages
    | erase c msgs | lose | identify ok | others account users chats =>
        cases hstep
        exact h.pages
    | arrive | join i | finish lock receivedAt newUser =>
        simp only [step] at hstep
        repeat' split at hstep
        all_goals first | cases hstep; exact h.pages | cases hstep
    | fetch task c page =>
        obtain ⟨hguard, ht⟩ := Option.ite_none_right_eq_some.mp hstep
        cases ht
        intro task' page' hpage msg hmsg hkey
        have hupd : Function.update s.pages task (some ⟨c, page⟩) task' = some page' := hpage
        by_cases htask : task' = task
        · subst htask
          rw [Function.update_self] at hupd
          cases hupd
          have hshown := List.all_eq_true.mp hguard msg hmsg
          rw [hkey] at hshown
          simp [hgone] at hshown
        · rw [Function.update_of_ne htask] at hupd
          exact h.pages task' page' hupd msg hmsg hkey
    | storeNext task receivedAt newUser =>
        simp only [step] at hstep
        split at hstep
        · rename_i c msg left hpage
          cases hstep
          intro task' page' hpage' msg' hmsg' hkey
          have hupd : Function.update s.pages task (some ⟨c, left⟩) task' = some page' := hpage'
          by_cases htask : task' = task
          · subst htask
            rw [Function.update_self] at hupd
            cases hupd
            exact h.pages task' _ hpage msg' (List.mem_cons_of_mem msg hmsg') hkey
          · rw [Function.update_of_ne htask] at hupd
            exact h.pages task' page' hupd msg' hmsg' hkey
        · cases hstep
    | abandon task =>
        cases hstep
        intro task' page' hpage' msg' hmsg' hkey
        have hupd : Function.update s.pages task none task' = some page' := hpage'
        by_cases htask : task' = task
        · subst htask
          rw [Function.update_self] at hupd
          cases hupd
        · rw [Function.update_of_ne htask] at hupd
          exact h.pages task' page' hupd msg' hmsg' hkey

/-- **Step.** What is settled stays settled. -/
theorem settled_step (a : Action) (h : Settled pm ids chat id s)
    (hstep : step pm ids newMode s a = some t) : Settled pm ids chat id t := by
  refine ⟨gone_step a h.gone hstep, clear_step a h.gone h.clear hstep, ?_⟩
  cases a with
  | push f =>
      obtain ⟨-, ht⟩ := Option.ite_none_right_eq_some.mp hstep
      cases ht
      exact h.undeleted
  | send c msg isEdit =>
      obtain ⟨-, ht⟩ := Option.ite_none_left_eq_some.mp hstep
      cases ht
      exact h.undeleted
  | fetch task c page =>
      obtain ⟨-, ht⟩ := Option.ite_none_right_eq_some.mp hstep
      cases ht
      exact h.undeleted
  | erase c msgs | lose | identify ok | abandon task | others account users chats =>
      cases hstep
      exact h.undeleted
  | arrive | join i =>
      simp only [step] at hstep
      repeat' split at hstep
      all_goals first | cases hstep; exact h.undeleted | cases hstep
  | finish lock receivedAt newUser =>
      simp only [step] at hstep
      split at hstep
      · rename_i w turns hserve
        cases hstep
        obtain ⟨-, ⟨rest, hwait, -⟩, -⟩ := Turns.serve_spec hserve
        have hcarries := h.clear.work.waiting lock w (hwait ▸ List.mem_cons_self)
        refine not_undeleted_run newUser h.undeleted fun c chatType row he hkey => ?_
        cases hkey
        exact hcarries ⟨receivedAt, chatType, row, he, rfl⟩
      · cases hstep
  | storeNext task receivedAt newUser =>
      simp only [step] at hstep
      split at hstep
      · rename_i c msg left hpage
        cases hstep
        refine not_undeleted_run newUser h.undeleted fun c' chatType row he hkey => ?_
        exact h.clear.pages task _ hpage msg List.mem_cons_self ((key_of_storeMessage he).trans hkey)
      · cases hstep

/-! ## Processed deletes -/

/-- The action ends the processing of a delete frame, of a frame with a removed message, or of
    `apply_delete`, for the message. -/
def Processes (pm : PyMax) (s : Session) (a : Action) (chat id : Int) : Prop :=
  ∃ lock receivedAt newUser w turns msgs atTime, a = .finish lock receivedAt newUser ∧
    s.turns.serve lock = some (w, turns) ∧ w.effect pm receivedAt = .delete chat msgs atTime ∧ id ∈ msgs

theorem known_run {store : Store} (h : Run (step pm ids newMode) Always (start store) s) :
    AllWork (Known pm s) s :=
  Run.invariant (P := fun x => AllWork (Known pm x) x) (fun _ a _ hx _ hstep => known_step a hx hstep) h
    (known_start pm store)

/-- **Deletes.** Frames of a chat act in the order of arrival. Once a delete is processed, the message is
    not stored undeleted again, if it was stored then or no copy of it was left to be stored. -/
theorem delete_stays (pm : PyMax) (ids : ChatIds) (newMode : Bool) (store : Store) (s : Session)
    (h : Run (step pm ids newMode) Always (start store) s) :
    (∀ chat, FramesInOrder chat s) ∧
      ∀ chat id a t, step pm ids newMode s a = some t → Processes pm s a chat id →
        ((∃ m, s.store.messages (ids.pk chat, id) = some m) ∨ Clear pm chat id t) →
        ∀ u, Run (step pm ids newMode) Always t u → ¬Undeleted u.store (ids.pk chat, id) := by
  refine ⟨framesInOrder_run h, ?_⟩
  intro chat id a t hstep hproc hcase u hrun
  obtain ⟨lock, receivedAt, newUser, w, turns, msgs, atTime, rfl, hserve, heffect, hid⟩ := hproc
  have hknown : (chat, id) ∈ s.gone := by
    obtain ⟨-, ⟨rest, hwait, -⟩, -⟩ := Turns.serve_spec hserve
    exact (known_run h).waiting lock w (hwait ▸ List.mem_cons_self) chat id ⟨receivedAt, msgs, atTime, heffect, hid⟩
  have hstore : t.store = (Effect.delete chat msgs atTime).run ids s.store newUser := by
    simp only [step, hserve, heffect] at hstep
    cases hstep
    rfl
  by_cases hstored : ∃ m, s.store.messages (ids.pk chat, id) = some m
  · have hmarked : Marked t.store (ids.pk chat, id) := by
      rw [hstore]
      exact marked_of_delete newUser hid hstored
    have hkept : Marked u.store (ids.pk chat, id) :=
      Run.invariant (P := fun x : Session => Marked x.store (ids.pk chat, id))
        (fun _ a _ hx _ hs => marked_step a hx hs) hrun hmarked
    exact hkept.not_undeleted
  · have hclear : Clear pm chat id t := hcase.resolve_left hstored
    have hgone : (chat, id) ∈ t.gone := gone_step _ hknown hstep
    have habsent : ¬Undeleted t.store (ids.pk chat, id) := by
      rw [hstore]
      refine not_undeleted_run newUser (fun ⟨m, hm, _⟩ => hstored ⟨m, hm⟩) ?_
      intro c chatType row he
      cases he
    have hsettled : Settled pm ids chat id u :=
      Run.invariant (fun _ a _ hx _ hs => settled_step a hx hs) hrun ⟨hgone, hclear, habsent⟩
    exact hsettled.undeleted

/-! ## A page fetched before the delete -/

/-- Messages and deletes as plain as they come. -/
def plainMax : PyMax where
  message payload := ((payload.get "id").bind pyInt).map fun id =>
    { chatId := frameChatId .message payload
      id
      time := id
      status := .other
      channel := false
      body := recaptioned }
  deleteEvent payload := (frameChatId .delete payload).bind fun chat =>
    match payload.get "messageIds" with
    | some (.arr items) => some (chat, items.filterMap pyInt)
    | _ => none
  message_chat opcode payload msg hop h := by
    obtain ⟨id, -, rfl⟩ := Option.map_eq_some_iff.mp h
    simp [frameChatId, hop]
  delete_chat payload chat msgs h := by
    obtain ⟨c, hc, hmatch⟩ := Option.bind_eq_some_iff.mp h
    split at hmatch
    · cases hmatch
      exact hc
    · cases hmatch

/-- Even numbers for private chats, odd ones for groups. -/
def evenOdd : ChatIds where
  pk chat := if 0 ≤ chat then 2 * chat.toNat else 2 * (-chat).toNat + 1
  injective a b h := by
    simp only at h
    split at h <;> split at h <;> omega

/-- Message 7 of chat 5. -/
def seven : Msg := ⟨some 5, 7, 7, .other, false, withPhoto⟩

def messageSeven : Frame := ⟨.message, true, [("chatId", .num 5), ("id", .num 7)]⟩
def deleteSeven : Frame := ⟨.delete, true, [("chatId", .num 5), ("messageIds", .arr [.num 7])]⟩

/-- The page is fetched, then the delete arrives. -/
def lateDelete : List Action := [.identify true, .fetch 0 5 [seven], .push deleteSeven, .arrive]

/-- The message, the page, and the delete arrive. -/
def orderlyDelete : List Action :=
  [.identify true, .push messageSeven, .arrive, .finish (some 5) 10 1, .fetch 0 5 [seven], .push deleteSeven,
    .arrive]

theorem undeleted_of_map {store : Store} {k : MessageKey}
    (h : (store.messages k).map Message.deletedAt = some none) : Undeleted store k := by
  obtain ⟨m, hm, hnone⟩ := Option.map_eq_some_iff.mp h
  exact ⟨m, hm, hnone⟩

theorem lateDelete_possible : (exec (step plainMax evenOdd true) (start oneChat) lateDelete).isSome = true := by
  decide

def lateState : Session := (exec (step plainMax evenOdd true) (start oneChat) lateDelete).get lateDelete_possible

theorem late_processed : (step plainMax evenOdd true lateState (.finish (some 5) 20 1)).isSome = true := by
  decide

theorem late_stored : (exec (step plainMax evenOdd true)
    ((step plainMax evenOdd true lateState (.finish (some 5) 20 1)).get late_processed)
    [.storeNext 0 30 1]).isSome = true := by
  decide

/-- The page was fetched before the delete and is stored after it: the message is there again. -/
theorem delete_stays_fails :
    ∃ s a t u, Run (step plainMax evenOdd true) Always (start oneChat) s ∧
      step plainMax evenOdd true s a = some t ∧ Processes plainMax s a 5 7 ∧
      Run (step plainMax evenOdd true) Always t u ∧ Undeleted u.store (evenOdd.pk 5, 7) := by
  refine ⟨lateState, .finish (some 5) 20 1, _, _, Run.get_exec lateDelete_possible,
    (Option.some_get late_processed).symm, ?_, Run.get_exec late_stored, undeleted_of_map ?_⟩
  · exact ⟨some 5, 20, 1, .frame deleteSeven, _, [7], 20, rfl, rfl, rfl, List.mem_cons_self⟩
  · decide

theorem orderlyDelete_possible :
    (exec (step plainMax evenOdd true) (start oneChat) orderlyDelete).isSome = true := by
  decide

def orderlyState : Session :=
  (exec (step plainMax evenOdd true) (start oneChat) orderlyDelete).get orderlyDelete_possible

theorem orderly_processed : (step plainMax evenOdd true orderlyState (.finish (some 5) 20 1)).isSome = true := by
  decide

theorem orderly_stored : (exec (step plainMax evenOdd true)
    ((step plainMax evenOdd true orderlyState (.finish (some 5) 20 1)).get orderly_processed)
    [.storeNext 0 30 1]).isSome = true := by
  decide

/-- The message was stored when the delete was processed: the page does not bring it back. -/
theorem delete_stays_stored :
    ¬Undeleted ((exec (step plainMax evenOdd true)
      ((step plainMax evenOdd true orderlyState (.finish (some 5) 20 1)).get orderly_processed)
      [.storeNext 0 30 1]).get orderly_stored).store (evenOdd.pk 5, 7) := by
  have hproc : Processes plainMax orderlyState (.finish (some 5) 20 1) 5 7 :=
    ⟨some 5, 20, 1, .frame deleteSeven, _, [7], 20, rfl, rfl, rfl, List.mem_cons_self⟩
  have hstored : ∃ m, orderlyState.store.messages (evenOdd.pk 5, 7) = some m :=
    Option.isSome_iff_exists.mp (by decide)
  exact (delete_stays plainMax evenOdd true oneChat orderlyState (Run.get_exec orderlyDelete_possible)).2
    5 7 _ _ (Option.some_get orderly_processed).symm hproc (Or.inl hstored) _ (Run.get_exec orderly_stored)

end MyPerson.MaxIngest
