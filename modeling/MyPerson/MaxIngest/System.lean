import MyPerson.Lib.Run
import MyPerson.Lib.Turns
import MyPerson.MaxIngest.Frames

/-!
# `MaxIngest.System` — frames, own writes and history pages side by side

One MAX session with its server. The server sends frames in its order; each starts a task as it
arrives, and the task takes its place at the lock of its chat before its first `await`. Our own writes
come to the same lock when their answer has been handled. History tasks hold the page they fetched and
store it message by message, without the lock. A piece of work under the lock and a history store act
on the tables in one transaction, so each is one step.

## Contents
- `Session` and the steps of the server, the connection and the tasks (`step`);
- `Effect.run`: the effects on the tables of the account.
-/

namespace MyPerson.MaxIngest

open Lib Repo

/-! ## The tables -/

/-- The internal ids of the chats. -/
structure ChatIds where
  pk : Int → Nat
  injective : Function.Injective pk

/-- The stub rows of `store_message`: the chat and the sender, where they are missing. -/
def ensureRows (s : Store) (chat : Nat) (chatType : ChatType) (sender : Option Int) (newUser : Nat) : Store :=
  { s with
    chats := if (s.chats chat).isNone then Function.update s.chats chat (some ⟨chatType, none, none⟩) else s.chats
    users := match sender with
      | some user => if (s.users user).isNone then Function.update s.users user (some newUser) else s.users
      | none => s.users }

/-- The transaction of an effect. A chat without a row has no messages a delete could mark. -/
def Effect.run (ids : ChatIds) (s : Store) (newUser : Nat) : Effect → Store
  | .store chat chatType row =>
      upsertMessage (ensureRows s (ids.pk chat) chatType row.senderExternalId newUser) (ids.pk chat) row
  | .delete chat msgs atTime => markDeleted s (some (ids.pk chat)) msgs atTime
  | .nothing => s

/-! ## States -/

/-- A page that a history task has fetched, and what is left of it to store. -/
structure Page where
  chat : Int
  left : List Msg

structure Session where
  identityOk : Bool
  /-- Messages (chat and id) that the server has removed. -/
  gone : List (Int × Int)
  /-- Frames under way, in the order of the server. -/
  stream : List Frame
  /-- The frames that arrived and were accepted. -/
  arrived : List Frame
  /-- The locks of the chats. -/
  turns : Turns Work.lock
  /-- Own writes that the server has answered, not yet at the lock. -/
  calls : List Work
  /-- The pages in the hands of the history tasks. -/
  pages : Nat → Option Page
  store : Store
  /-- The work done under the locks, with its effects. -/
  done : List (Work × Effect)

/-- What happens next. -/
inductive Action
  /-- The server sends a frame. -/
  | push (f : Frame)
  /-- The server has sent, or edited, a message for us. -/
  | send (chat : Int) (msg : Msg) (isEdit : Bool)
  /-- The server has deleted messages for us. -/
  | erase (chat : Int) (msgs : List Int)
  /-- The connection is lost, with the frames under way. -/
  | lose
  /-- `identity_ok` is set or reset. -/
  | identify (ok : Bool)
  /-- The task of the next frame starts. -/
  | arrive
  /-- An own write comes to the lock. -/
  | join (i : Nat)
  /-- The task that holds the lock ends its work. -/
  | finish (lock : Option Int) (receivedAt : Time) (newUser : Nat)
  /-- A history task gets its page. -/
  | fetch (task : Nat) (chat : Int) (page : List Msg)
  /-- `MaxSync._store` of the next message of a page. -/
  | storeNext (task : Nat) (receivedAt : Time) (newUser : Nat)
  /-- A history task ends or is cancelled. -/
  | abandon (task : Nat)
  /-- Any other writer of the account's tables; it leaves messages and media alone. -/
  | others (accountUser : Option Int) (users : Table Int Nat) (chats : Table Nat Chat)

/-! ## The server -/

/-- The messages a frame says are gone. -/
def Frame.removes (pm : PyMax) (f : Frame) : List (Int × Int) :=
  match f.opcode with
  | .message | .edit =>
      match pm.message f.payload with
      | some msg =>
          match msg.status, msg.chatId with
          | .removed, some chat => [(chat, msg.id)]
          | _, _ => []
      | none => []
  | .delete =>
      match pm.deleteEvent f.payload with
      | some (chat, msgs) => msgs.map fun id => (chat, id)
      | none => []
  | _ => []

/-- The message a frame shows. -/
def Frame.shows (pm : PyMax) (f : Frame) : Option (Int × Int) :=
  match f.opcode with
  | .message | .edit =>
      match pm.message f.payload with
      | some msg => if msg.status = .removed then none else msg.chatId.map fun chat => (chat, msg.id)
      | none => none
  | _ => none

/-- The message that storing a copy is about. -/
def Msg.key (msg : Msg) (chat : Int) : Int × Int := (msg.chatId.getD chat, msg.id)

/-! ## Steps -/

/-- `none` when the action is not possible. A removed message is not sent, answered or listed again. -/
def step (pm : PyMax) (ids : ChatIds) (newMode : Bool) (s : Session) : Action → Option Session
  | .push f =>
      if (f.shows pm).all fun key => !s.gone.contains key then
        some { s with stream := s.stream ++ [f], gone := f.removes pm ++ s.gone }
      else none
  | .send chat msg isEdit =>
      if s.gone.contains (msg.key chat) then none
      else some { s with calls := s.calls ++ [.storeSent chat msg isEdit] }
  | .erase chat msgs =>
      some { s with
        calls := s.calls ++ [.applyDelete chat msgs]
        gone := msgs.map (fun id => (chat, id)) ++ s.gone }
  | .lose => some { s with stream := [] }
  | .identify ok => some { s with identityOk := ok }
  | .arrive =>
      match s.stream with
      | [] => none
      | f :: rest =>
          if f.accepted newMode s.identityOk then
            some { s with stream := rest, arrived := s.arrived ++ [f], turns := s.turns.join (.frame f) }
          else some { s with stream := rest }
  | .join i =>
      match s.calls[i]? with
      | some w => some { s with calls := s.calls.eraseIdx i, turns := s.turns.join w }
      | none => none
  | .finish lock receivedAt newUser =>
      match s.turns.serve lock with
      | some (w, turns) =>
          let e := w.effect pm receivedAt
          some { s with turns, store := e.run ids s.store newUser, done := s.done ++ [(w, e)] }
      | none => none
  | .fetch task chat page =>
      if page.all fun msg => !s.gone.contains (msg.key chat) then
        some { s with pages := Function.update s.pages task (some ⟨chat, page⟩) }
      else none
  | .storeNext task receivedAt newUser =>
      match s.pages task with
      | some ⟨chat, msg :: left⟩ =>
          some { s with
            pages := Function.update s.pages task (some ⟨chat, left⟩)
            store := (storeMessage msg (some chat) receivedAt false).run ids s.store newUser }
      | _ => none
  | .abandon task => some { s with pages := Function.update s.pages task none }
  | .others accountUser users chats => some { s with store := { s.store with accountUser, users, chats } }

/-- A session starts with an empty queue at every lock. -/
def start (store : Store) : Session :=
  ⟨false, [], [], [], Turns.empty Work.lock, [], fun _ => none, store, []⟩

end MyPerson.MaxIngest
