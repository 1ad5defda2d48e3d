import MyPerson.WriteLimits.Basic
import MyPerson.WriteSlot.Messenger

/-!
# `WriteSlot.Forward` — a batch of forwards and its report

`forward_message` of `app/max/api/messages.py`: one write slot and one MAX call for each message, and an answer that
says which went out when one of them stops the batch. Each forward meets an `Attempt`: what the limits say, what
MAX replies and what becomes of storing the copy.

## Contents
- `Attempt`, `forwardOne`, `forwardFrom`, `forwardMessages`;
- `Reported`, `Unclear`;
- `reported_iff`: the report of one call;
- `partial_forward`: the report, and calling again.
-/

namespace MyPerson.WriteSlot

open Lib WriteLimits

variable {A : Type}

/-! ## The route -/

/-- What one forward of the batch meets. -/
structure Attempt (A : Type) where
  /-- `reserve` refuses the slot. -/
  limited : Option WriteLimited
  reply   : Reply A
  /-- What `ingest.store_sent` raises, if it does. -/
  store   : Option Exc

/-- `stopped_by`. -/
inductive StoppedBy
  | limit (body : Body)
  | error (detail : String)

inductive Answer
  | forwarded (messageIds : List Int)
  | partly (messageIds notForwarded : List Int) (stoppedBy : StoppedBy)
  | limited (exc : WriteLimited)
  | failed (exc : Exc)

/-- `forward_message` inside its slot, with the handlers of `call_max`. -/
def forwardCall (c : Client A) (reply : Reply A) : Except Exc A :=
  ((callMax (forwardMessage c) callMaxUncertain).run (fun _ => reply) []).1

/-- `store_sent` logs every `Exception`. -/
def storeSent (store : Option Exc) : Except Exc Unit :=
  match store with
  | some .cancelledError => .error .cancelledError
  | _ => .ok ()

/-- The end of one round of the loop. -/
inductive Round (A : Type)
  | sent (msg : A)
  /-- The `except` clause. -/
  | stopped (raised : Answer) (stoppedBy : StoppedBy)
  /-- Any other exception leaves the loop. -/
  | raised (exc : Exc)

/-- One round of the loop. -/
def forwardOne (c : Client A) (a : Attempt A) : Round A :=
  match a.limited with
  | some exc => .stopped (.limited exc) (.limit exc.body)
  | none =>
      match forwardCall c a.reply with
      | .error (.http e) => .stopped (.failed (.http e)) (.error e.detail)
      | .error exc => .raised exc
      | .ok msg =>
          match storeSent a.store with
          | .error exc => .raised exc
          | .ok () => .sent msg

/-- MAX has the message of this round in the target chat. -/
def Attempt.reached (a : Attempt A) : Bool := a.limited.isNone && a.reply.applied

/-- The loop, and the ids whose messages reached MAX; `copyId` reads `msg.id`. -/
def forwardFrom (c : Client A) (copyId : A → Int) (ids : List Int) (attempt : Nat → Attempt A) :
    List Int → List Int → Answer × List Int
  | forwarded, [] => (.forwarded forwarded, [])
  | forwarded, id :: rest =>
      let a := attempt forwarded.length
      let reached := if a.reached then [id] else []
      match forwardOne c a with
      | .sent msg =>
          let out := forwardFrom c copyId ids attempt (forwarded ++ [copyId msg]) rest
          (out.1, reached ++ out.2)
      | .stopped raised stoppedBy =>
          if forwarded = [] then (raised, reached)
          else (.partly forwarded (ids.drop forwarded.length) stoppedBy, reached)
      | .raised exc => (.failed exc, reached)

structure ForwardMessageRequest where
  messageId  : Option Int
  messageIds : Option (List Int)

def ForwardMessageRequest.ids (req : ForwardMessageRequest) : List Int :=
  match req.messageIds with
  | some (id :: ids) => id :: ids
  | _ => (req.messageId.filter (· ≠ 0)).toList

/-- The route `forward_message`. -/
def forwardMessages (c : Client A) (copyId : A → Int) (attempt : Nat → Attempt A) (req : ForwardMessageRequest) :
    Answer × List Int :=
  if req.ids = [] then (.failed (.http { statusCode := 400, detail := "Provide message_id or message_ids" }), [])
  else forwardFrom c copyId req.ids attempt [] req.ids

/-- A request with a list of ids. -/
def ForwardMessageRequest.ofIds (ids : List Int) : ForwardMessageRequest := ⟨none, some ids⟩

theorem ForwardMessageRequest.ids_ofIds (ids : List Int) : (ofIds ids).ids = ids := by
  cases ids <;> rfl

/-! ## One round -/

/-- MAX has the message, but the route did not read MAX's answer: it was lost, or PyMax could not read it. -/
def Attempt.Unclear (c : Client A) (a : Attempt A) : Prop :=
  a.limited = none ∧ ((∃ t text, a.reply = .lost t text true) ∨
    ∃ msg, a.reply = .answer msg ∧ c.reads .message msg = false)

/-- The message was sent and its answer read. -/
def Attempt.Sent (c : Client A) (a : Attempt A) : Prop :=
  a.limited = none ∧ (∃ msg, a.reply = .answer msg ∧ c.reads .message msg = true) ∧ a.store ≠ some .cancelledError

theorem forwardCall_answer (c : Client A) (msg : A) : forwardCall c (.answer msg)
    = if c.reads .message msg then .ok msg
      else .error (callMaxError callMaxUncertain (.other "ValidationError" "")) := by
  show ((Prog.tryCatch (if c.reads .message msg = true then Prog.pure msg else
    Prog.throw (.other "ValidationError" "")) fun exc => Prog.throw (callMaxError callMaxUncertain exc)).run
      (fun _ => Reply.answer msg) _).1 = _
  split <;> rfl

theorem storeSent_eq (store : Option Exc) :
    storeSent store = if store = some .cancelledError then .error .cancelledError else .ok () := by
  unfold storeSent
  split
  · rw [if_pos rfl]
  · rename_i hother
    rw [if_neg fun heq => hother heq]

/-- A round without a refusal of the limits, by the reply. -/
theorem forwardOne_answer {c : Client A} {msg : A} {store : Option Exc} :
    forwardOne c ⟨none, .answer msg, store⟩ =
      if c.reads .message msg then if store = some .cancelledError then .raised .cancelledError else .sent msg
      else .stopped (.failed (callMaxError callMaxUncertain (.other "ValidationError" "")))
        (.error "ValidationError: ") := by
  unfold forwardOne
  dsimp only
  rw [forwardCall_answer]
  by_cases hread : c.reads .message msg = true
  · rw [if_pos hread, if_pos hread]
    dsimp only
    rw [storeSent_eq]
    by_cases hcancelled : store = some .cancelledError
    · rw [if_pos hcancelled, if_pos hcancelled]
    · rw [if_neg hcancelled, if_neg hcancelled]
  · rw [if_neg hread, if_neg hread]
    rfl

/-- A round goes on exactly when the message was sent and its answer read. -/
theorem forwardOne_sent {c : Client A} {a : Attempt A} {msg : A} : forwardOne c a = .sent msg ↔
    a.Sent c ∧ a.reply = .answer msg := by
  obtain ⟨limited, reply, store⟩ := a
  unfold Attempt.Sent
  cases limited with
  | some exc => exact iff_of_false nofun nofun
  | none =>
      cases reply with
      | answer msg' =>
          rw [forwardOne_answer]
          constructor
          · intro h
            split_ifs at h with hread hcancelled
            obtain rfl := Round.sent.inj h
            exact ⟨⟨rfl, ⟨_, rfl, hread⟩, hcancelled⟩, rfl⟩
          · rintro ⟨⟨-, ⟨_, heq, hread⟩, hcancelled⟩, heq'⟩
            obtain rfl := Reply.answer.inj heq
            obtain rfl := Reply.answer.inj heq'
            rw [if_pos hread, if_neg hcancelled]
      | error code text => exact iff_of_false nofun fun h => nomatch h.2
      | lost t text applied => exact iff_of_false nofun fun h => nomatch h.2
      | cancelled applied => exact iff_of_false nofun fun h => nomatch h.2

/-- A round that stops the batch has its message in the target chat exactly when its answer was not read. -/
theorem forwardOne_stopped {c : Client A} {a : Attempt A} {raised : Answer} {stoppedBy : StoppedBy}
    (h : forwardOne c a = .stopped raised stoppedBy) : a.reached = true ↔ a.Unclear c := by
  obtain ⟨limited, reply, store⟩ := a
  unfold Attempt.reached Attempt.Unclear
  cases limited with
  | some exc => exact iff_of_false nofun nofun
  | none =>
      cases reply with
      | answer msg =>
          rw [forwardOne_answer] at h
          split_ifs at h with hread
          exact iff_of_true rfl ⟨rfl, Or.inr ⟨msg, rfl, Bool.eq_false_iff.mpr hread⟩⟩
      | error code text => exact iff_of_false nofun (by rintro ⟨-, ⟨_, _, ⟨⟩⟩ | ⟨_, ⟨⟩, _⟩⟩)
      | lost t text applied =>
          cases applied with
          | true => exact iff_of_true rfl ⟨rfl, Or.inl ⟨t, text, rfl⟩⟩
          | false => exact iff_of_false nofun (by rintro ⟨-, ⟨_, _, ⟨⟩⟩ | ⟨_, ⟨⟩, _⟩⟩)
      | cancelled applied => cases h

/-- What stops the batch is raised when nothing was forwarded yet. -/
theorem raised_of_stopped {c : Client A} {a : Attempt A} {raised : Answer} {stoppedBy : StoppedBy}
    (h : forwardOne c a = .stopped raised stoppedBy) :
    (∃ exc, raised = .limited exc) ∨ ∃ exc, raised = .failed exc := by
  unfold forwardOne at h
  split at h
  · obtain ⟨rfl, -⟩ := Round.stopped.inj h
    exact Or.inl ⟨_, rfl⟩
  · split at h
    · obtain ⟨rfl, -⟩ := Round.stopped.inj h
      exact Or.inr ⟨_, rfl⟩
    · cases h
    · split at h <;> cases h

/-- A round that leaves the loop was cancelled. -/
theorem forwardOne_raised {c : Client A} {a : Attempt A} {exc : Exc} (h : forwardOne c a = .raised exc) :
    ¬ a.Unclear c ∧ ¬ a.Sent c := by
  obtain ⟨limited, reply, store⟩ := a
  unfold Attempt.Unclear Attempt.Sent
  cases limited with
  | some exc => cases h
  | none =>
      cases reply with
      | answer msg =>
          rw [forwardOne_answer] at h
          split_ifs at h with hread hcancelled
          refine ⟨?_, fun hsent => hsent.2.2 hcancelled⟩
          rintro ⟨-, ⟨_, _, ⟨⟩⟩ | ⟨_, heq, hnot⟩⟩
          obtain rfl := Reply.answer.inj heq
          rw [hread] at hnot
          cases hnot
      | error code text => cases h
      | lost t text applied => cases h
      | cancelled applied =>
          refine ⟨?_, fun hsent => ?_⟩
          · rintro ⟨-, ⟨_, _, ⟨⟩⟩ | ⟨_, ⟨⟩, _⟩⟩
          · obtain ⟨-, ⟨_, ⟨⟩, _⟩, _⟩ := hsent

theorem reached_of_sent {c : Client A} {a : Attempt A} (h : a.Sent c) : a.reached = true := by
  obtain ⟨hlimited, ⟨msg, hreply, -⟩, -⟩ := h
  unfold Attempt.reached
  rw [hlimited, hreply]
  rfl

/-! ## The report -/

/-- The ids of the copies that an answer reports. -/
def Answer.messageIds : Answer → List Int
  | .forwarded messageIds => messageIds
  | .partly messageIds _ _ => messageIds
  | _ => []

/-- The report is right: what it calls forwarded are the copies of a prefix of the ids, these reached MAX, and the
    rest of the ids, which it calls not forwarded, did not. -/
structure Reported (copyId : A → Int) (attempt : Nat → Attempt A) (ids : List Int) (out : Answer × List Int) :
    Prop where
  copies : ∀ i m, out.1.messageIds[i]? = some m → ∃ msg, (attempt i).reply = .answer msg ∧ m = copyId msg
  whole  : ∀ messageIds, out.1 = .forwarded messageIds → messageIds.length = ids.length ∧ out.2 = ids
  part   : ∀ messageIds notForwarded stoppedBy, out.1 = .partly messageIds notForwarded stoppedBy →
    out.2 = ids.take messageIds.length ∧ notForwarded = ids.drop messageIds.length

/-- No forward from the `n`-th on that would stop the batch is unclear; the first one of a batch may be. -/
def ClearFrom (c : Client A) (attempt : Nat → Attempt A) (ids : List Int) (n : Nat) : Prop :=
  ∀ i, 0 < i → n ≤ i → i < ids.length → (∀ j, n ≤ j → j < i → (attempt j).Sent c) → ¬ (attempt i).Unclear c

variable {c : Client A} {copyId : A → Int} {attempt : Nat → Attempt A} {ids done forwarded rest : List Int}

theorem clearFrom_step {n : Nat} (hsent : (attempt n).Sent c) (hclear : ¬ (attempt n).Unclear c) :
    ClearFrom c attempt ids (n + 1) ↔ ClearFrom c attempt ids n := by
  constructor
  · intro h i hpos hle hlt hbefore
    rcases Nat.eq_or_lt_of_le hle with rfl | hlt'
    · exact hclear
    · exact h i hpos hlt' hlt fun j hj hji => hbefore j (Nat.le_of_succ_le hj) hji
  · intro h i hpos hle hlt hbefore
    refine h i hpos (Nat.le_of_succ_le hle) hlt fun j hj hji => ?_
    rcases Nat.eq_or_lt_of_le hj with rfl | hj'
    · exact hsent
    · exact hbefore j hj' hji

theorem clearFrom_stop {n : Nat} (hn : n < ids.length) (hstop : ¬ (attempt n).Sent c) :
    ClearFrom c attempt ids n ↔ (0 < n → ¬ (attempt n).Unclear c) := by
  constructor
  · exact fun h hpos => h n hpos (Nat.le_refl n) hn fun j hj hjn => absurd hj (Nat.not_le_of_lt hjn)
  · intro h i hpos hle _ hbefore
    rcases Nat.eq_or_lt_of_le hle with rfl | hlt
    · exact h hpos
    · exact absurd (hbefore n (Nat.le_refl n) hlt) hstop

theorem sent_not_unclear {a : Attempt A} (h : a.Sent c) : ¬ a.Unclear c := by
  obtain ⟨-, ⟨msg, hreply, hread⟩, -⟩ := h
  rintro ⟨-, ⟨t, text, hlost⟩ | ⟨msg', hreply', hnot⟩⟩
  · rw [hreply] at hlost
    cases hlost
  · rw [hreply] at hreply'
    obtain rfl := Reply.answer.inj hreply'
    rw [hread] at hnot
    cases hnot

/-- **The loop.** From what was forwarded so far, the report comes out right exactly when no forward that stops the
    batch is unclear. -/
theorem forwardFrom_reported (hids : ids = done ++ rest) (hlen : done.length = forwarded.length)
    (hcopies : ∀ i m, forwarded[i]? = some m → ∃ msg, (attempt i).reply = .answer msg ∧ m = copyId msg) :
    Reported copyId attempt ids ((forwardFrom c copyId ids attempt forwarded rest).1,
        done ++ (forwardFrom c copyId ids attempt forwarded rest).2) ↔
      ClearFrom c attempt ids forwarded.length := by
  induction rest generalizing done forwarded with
  | nil =>
      rw [List.append_nil] at hids
      subst hids
      refine iff_of_true ⟨hcopies, ?_, nofun⟩ ?_
      · rintro _ ⟨⟩
        exact ⟨hlen.symm, List.append_nil _⟩
      · intro i _ hle hlt
        exact absurd hle (Nat.not_le_of_lt (hlen ▸ hlt))
  | cons id rest ih =>
      have hn : forwarded.length < ids.length := by
        rw [hids, List.length_append, ← hlen, List.length_cons]
        omega
      unfold forwardFrom
      dsimp only
      cases hround : forwardOne c (attempt forwarded.length) with
      | sent msg =>
          obtain ⟨hsent, hreply⟩ := forwardOne_sent.mp hround
          have hlen' : (done ++ [id]).length = (forwarded ++ [copyId msg]).length := by
            rw [List.length_append, List.length_append, hlen]
            rfl
          have hcopies' : ∀ i m, (forwarded ++ [copyId msg])[i]? = some m →
              ∃ msg, (attempt i).reply = .answer msg ∧ m = copyId msg := by
            intro i m him
            rcases Nat.lt_or_ge i forwarded.length with hlt | hge
            · rw [List.getElem?_append_left hlt] at him
              exact hcopies i m him
            · rw [List.getElem?_append_right hge, List.getElem?_singleton] at him
              obtain ⟨hzero, hm⟩ := Option.ite_none_right_eq_some.mp him
              obtain rfl : i = forwarded.length := by omega
              exact ⟨msg, hreply, (Option.some.inj hm).symm⟩
          have hnext := ih (by rw [hids, List.append_assoc]; rfl) hlen' hcopies'
          dsimp only
          rw [if_pos (reached_of_sent hsent), ← List.append_assoc]
          rw [List.length_append, List.length_singleton, clearFrom_step hsent (sent_not_unclear hsent)] at hnext
          exact hnext
      | raised exc =>
          obtain ⟨hclear, hstop⟩ := forwardOne_raised hround
          rw [clearFrom_stop hn hstop]
          exact iff_of_true ⟨nofun, nofun, nofun⟩ fun _ => hclear
      | stopped raised stoppedBy =>
          have hstop : ¬ (attempt forwarded.length).Sent c := by
            intro hsent
            obtain ⟨msg, hreply, -⟩ := hsent.2.1
            rw [forwardOne_sent.mpr ⟨hsent, hreply⟩] at hround
            cases hround
          rw [clearFrom_stop hn hstop, ← forwardOne_stopped hround]
          dsimp only
          by_cases hnone : forwarded = []
          · subst hnone
            rw [if_pos rfl]
            refine iff_of_true ?_ fun hpos => absurd hpos (Nat.lt_irrefl 0)
            rcases raised_of_stopped hround with ⟨exc, rfl⟩ | ⟨exc, rfl⟩
            · exact ⟨nofun, nofun, nofun⟩
            · exact ⟨nofun, nofun, nofun⟩
          · rw [if_neg hnone]
            have hpos : 0 < forwarded.length := List.length_pos_iff.mpr hnone
            have htake : ids.take forwarded.length = done := by
              rw [hids, ← hlen, List.take_left]
            constructor
            · intro hreported _ hreached
              obtain ⟨htaken, -⟩ := hreported.part _ _ _ rfl
              rw [if_pos hreached, htake] at htaken
              exact absurd (List.append_right_eq_self.mp htaken) (List.cons_ne_nil id [])
            · intro hclear
              refine ⟨hcopies, nofun, ?_⟩
              rintro _ _ _ ⟨⟩
              rw [if_neg (hclear hpos), htake, List.append_nil]
              exact ⟨rfl, rfl⟩

/-- **Report.** The report of a call is right exactly when no forward that stops the batch is unclear. -/
theorem reported_iff {req : ForwardMessageRequest} :
    Reported copyId attempt req.ids (forwardMessages c copyId attempt req) ↔ ClearFrom c attempt req.ids 0 := by
  unfold forwardMessages
  by_cases hnone : req.ids = []
  · rw [if_pos hnone]
    refine iff_of_true ⟨nofun, nofun, nofun⟩ fun i _ _ hlt => ?_
    rw [hnone] at hlt
    exact absurd hlt (Nat.not_lt_zero i)
  · rw [if_neg hnone]
    have hcopies : ∀ i m, ([] : List Int)[i]? = some m → ∃ msg, (attempt i).reply = .answer msg ∧ m = copyId msg := by
      intro i m him
      rw [List.getElem?_nil] at him
      cases him
    exact forwardFrom_reported (List.nil_append req.ids).symm rfl hcopies

/-! ## Calling again -/

/-- Call again with what is reported as not forwarded, until everything is or a call reports nothing; the first
    component says whether everything is, the second what reached MAX. -/
def forwardAgain (c : Client A) (copyId : A → Int) : List (Nat → Attempt A) → List Int → Bool × List Int
  | [], _ => (false, [])
  | attempt :: calls, ids =>
      let out := forwardMessages c copyId attempt (.ofIds ids)
      match out.1 with
      | .forwarded _ => (true, out.2)
      | .partly _ notForwarded _ =>
          let later := forwardAgain c copyId calls notForwarded
          (later.1, out.2 ++ later.2)
      | _ => (false, out.2)

/-- **Exactly once.** Calls whose reports are right forward every id once, in the order of the list. -/
theorem forwardAgain_once (calls : List (Nat → Attempt A)) (ids : List Int)
    (hclear : ∀ attempt ∈ calls, ∀ i, 0 < i → ¬ (attempt i).Unclear c)
    (hdone : (forwardAgain c copyId calls ids).1 = true) : (forwardAgain c copyId calls ids).2 = ids := by
  induction calls generalizing ids with
  | nil => cases hdone
  | cons attempt calls ih =>
      obtain ⟨hfirst, hclear⟩ := List.forall_mem_cons.mp hclear
      have hreported : Reported copyId attempt ids (forwardMessages c copyId attempt (.ofIds ids)) := by
        have hroute : Reported copyId attempt (ForwardMessageRequest.ofIds ids).ids
            (forwardMessages c copyId attempt (.ofIds ids)) :=
          reported_iff.mpr fun i hpos _ _ _ => hfirst i hpos
        rwa [ForwardMessageRequest.ids_ofIds] at hroute
      unfold forwardAgain at hdone ⊢
      dsimp only at hdone ⊢
      cases hanswer : (forwardMessages c copyId attempt (.ofIds ids)).1 with
      | forwarded messageIds => exact (hreported.whole messageIds hanswer).2
      | partly messageIds notForwarded stoppedBy =>
          rw [hanswer] at hdone
          obtain ⟨htaken, hrest⟩ := hreported.part messageIds notForwarded stoppedBy hanswer
          dsimp only
          rw [ih notForwarded hclear hdone, htaken, hrest, List.take_append_drop]
      | limited exc =>
          rw [hanswer] at hdone
          cases hdone
      | failed exc =>
          rw [hanswer] at hdone
          cases hdone

/-- **Partial forward.** The report of a call is right exactly when no forward that stops the batch after the first
    reached MAX without a readable answer; and calling again with what is reported as not forwarded, until
    everything is, forwards every id exactly once when no forward of these calls but their first is unclear. -/
theorem partial_forward (c : Client A) (copyId : A → Int) :
    (∀ (attempt : Nat → Attempt A) (req : ForwardMessageRequest),
      Reported copyId attempt req.ids (forwardMessages c copyId attempt req) ↔ ClearFrom c attempt req.ids 0) ∧
    ∀ (calls : List (Nat → Attempt A)) (ids : List Int),
      (∀ attempt ∈ calls, ∀ i, 0 < i → ¬ (attempt i).Unclear c) →
      (forwardAgain c copyId calls ids).1 = true → (forwardAgain c copyId calls ids).2 = ids :=
  ⟨fun _ _ => reported_iff, forwardAgain_once⟩

/-- A forward that is answered. -/
def answered (msg : Int) : Attempt Int := ⟨none, .answer msg, none⟩

/-- A forward that reaches MAX and whose answer does not come. -/
def unanswered : Attempt Int := ⟨none, .lost .timeoutError "" true, none⟩

def messageClient : Client Int := ⟨fun _ _ => true, fun _ => true, fun _ => true, fun _ => true⟩

/-- The second message reached MAX and is reported as not forwarded: the next call forwards it again. -/
theorem unanswered_forward_repeated :
    (∃ messageIds stoppedBy, forwardMessages messageClient id (fun i => if i = 0 then answered 10 else unanswered)
      (.ofIds [1, 2]) = (.partly messageIds [2] stoppedBy, [1, 2])) ∧
    (forwardAgain messageClient id [fun i => if i = 0 then answered 10 else unanswered, fun _ => answered 11]
      [1, 2]) = (true, [1, 2, 2]) ∧
    ¬ ∀ (attempt : Nat → Attempt Int) (req : ForwardMessageRequest),
      Reported id attempt req.ids (forwardMessages messageClient id attempt req) := by
  obtain ⟨stoppedBy, hcall⟩ : ∃ stoppedBy, forwardMessages messageClient id
      (fun i => if i = 0 then answered 10 else unanswered) (.ofIds [1, 2]) = (.partly [10] [2] stoppedBy, [1, 2]) :=
    ⟨_, rfl⟩
  refine ⟨⟨_, _, hcall⟩, rfl, fun h => ?_⟩
  obtain ⟨htaken, -⟩ := (h _ (.ofIds [1, 2])).part _ _ _ (congrArg Prod.fst hcall)
  rw [hcall] at htaken
  cases htaken

theorem partial_forward_twoCalls :
    (forwardAgain messageClient id [fun i => if i = 0 then answered 10 else ⟨none, .error "chat.denied" "", none⟩,
      fun _ => answered 11] [1, 2]).2 = [1, 2] := by
  refine (partial_forward messageClient id).2 _ [1, 2] (fun attempt hattempt i hpos => ?_) rfl
  rcases List.mem_cons.mp hattempt with rfl | hattempt
  · show ¬ Attempt.Unclear messageClient (if i = 0 then _ else _)
    rw [if_neg (Nat.pos_iff_ne_zero.mp hpos)]
    rintro ⟨-, ⟨_, _, ⟨⟩⟩ | ⟨_, ⟨⟩, _⟩⟩
  · rw [List.mem_singleton.mp hattempt]
    rintro ⟨-, ⟨_, _, ⟨⟩⟩ | ⟨_, _, ⟨⟩⟩⟩

end MyPerson.WriteSlot
