import MyPerson.WriteLimits.System
import MyPerson.WriteSlot.Requests

/-!
# `WriteSlot.Outcome` — when a slot is given back

The exit of `write_slot` and `bundle_slot` and what it is worth: an applied write keeps its events, a
refused one loses them, exactly when the answer of an applied write was read inside the slot, or the
request was cancelled, or (on MAX only) the answer was lost.

## Contents
- `slotExit` and how it fits the transitions of `WriteLimits.System`;
- `SlotCorrect`, `Settled`;
- one lemma for each shape of a body, and `slot_correct_iff`.
-/

namespace MyPerson.WriteSlot

open Lib WriteLimits

/-! ## The exit of a slot -/

/-- `uncertain`: the write may have been applied. -/
def Exc.uncertain : Exc → Bool
  | .cancelledError => true
  | .http e => e.keepWriteSlot
  | _ => false

/-- The body's end keeps the slot. -/
def keeps {α : Type} : Except Exc α → Bool
  | .ok _ => true
  | .error exc => exc.uncertain

/-- The end of `write_slot` and of `bundle_slot`; `none`: the account has no limits. -/
def slotExit {α : Type} (slot : Option Slot) (rows : List WriteEvent) (result : Except Exc α) :
    List WriteEvent :=
  match slot with
  | none => rows
  | some slot => if keeps result then rows else slot.rowsLeft rows

/-- The exit is the transition `keep` or `release` of the task that holds the slot. -/
theorem slotExit_step {α : Type} {cfg : Config} {s : State} {t : Nat} {slot : Slot}
    (hph : s.phase t = .granted slot) (result : Except Exc α) :
    ∃ s', step cfg s (if keeps result then .keep t else .release t) = some s' ∧
      s'.rows = slotExit (some slot) s.rows result := by
  cases hk : keeps result with
  | true => exact ⟨s.setPhase t (.kept slot), by simp [step, hph], by simp [slotExit, hk, State.setPhase]⟩
  | false => exact ⟨release s t slot, by simp [step, hph], by simp [slotExit, hk, release]⟩

/-! ## One run of a body -/

section Bodies

variable {A : Type}

abbrev Exchanged (A : Type) := Prog.Log Frame (Reply A)

/-- The messenger applied the write. -/
def Applied (log : Exchanged A) : Prop := ∃ x ∈ log, x.1.isWrite = true ∧ x.2.applied = true

/-- The messenger's last word is an error answer, and it applied nothing. -/
def Refused (log : Exchanged A) : Prop :=
  (∃ frame code text, log.head? = some (frame, .error code text)) ∧ ¬Applied log

/-- An applied write keeps its events; a refused one loses them. -/
def SlotCorrect (result : Except Exc Unit) (log : Exchanged A) : Prop :=
  ∀ (rows : List WriteEvent) (slot : Slot),
    (Applied log → ∀ e ∈ rows, e.id ∈ slot.eventIds → e ∈ slotExit (some slot) rows result) ∧
    (Refused log → ∀ e ∈ slotExit (some slot) rows result, e.id ∉ slot.eventIds)

/-- How an applied write may end for the slot to stay: with an answer that is read, cancelled, or (where
    `lostKeeps`) with no answer. -/
def Reply.settled (c : Client A) (lostKeeps : Bool) (frame : Frame) : Reply A → Bool
  | .error _ _ => true
  | .answer a => frame.readable c a
  | .lost _ _ _ => lostKeeps
  | .cancelled _ => true

def Settled (c : Client A) (lostKeeps : Bool) (log : Exchanged A) : Prop :=
  ∀ x ∈ log, x.1.isWrite = true → x.2.applied = true → x.2.settled c lostKeeps x.1 = true

/-- Only the MAX routes mark an answer that was lost. -/
def Request.lostKeeps : Request → Bool
  | .max _ => true
  | .telegram _ => false

/-- What `SlotCorrect` asks of the body's end. -/
theorem slotCorrect_iff_keeps {result : Except Exc Unit} {log : Exchanged A} :
    SlotCorrect result log ↔
      (Applied log → keeps result = true) ∧ (Refused log → keeps result = false) := by
  constructor
  · intro h
    -- one stored event, and the slot that holds it
    let e : WriteEvent := ⟨0, 0, .send, "", none, false, 0⟩
    obtain ⟨hkeep, hlose⟩ := h [e] ⟨[0], 0⟩
    refine ⟨fun happ => ?_, fun href => ?_⟩
    · by_contra hk
      have hmem := hkeep happ e (by simp) (by simp [e])
      simp [slotExit, hk, Slot.rowsLeft, e] at hmem
    · by_contra hk
      have hk' : keeps result = true := by simpa using hk
      exact hlose href e (by simp [slotExit, hk']) (by simp [e])
  · rintro ⟨hkeep, hlose⟩ rows slot
    refine ⟨fun happ e he _ => ?_, fun href e he => ?_⟩
    · simpa [slotExit, hkeep happ] using he
    · simp only [slotExit, hlose href, Slot.rowsLeft] at he
      simpa using (List.mem_filter.mp he).2

/-! ## Logs -/

@[simp] theorem applied_nil : ¬Applied ([] : Exchanged A) := by
  simp [Applied]

@[simp] theorem applied_cons {x : Frame × Reply A} {log : Exchanged A} :
    Applied (x :: log) ↔ (x.1.isWrite = true ∧ x.2.applied = true) ∨ Applied log := by
  simp [Applied]

@[simp] theorem settled_nil {c : Client A} {lostKeeps : Bool} : Settled c lostKeeps [] := by
  simp [Settled]

@[simp] theorem settled_cons {c : Client A} {lostKeeps : Bool} {x : Frame × Reply A}
    {log : Exchanged A} : Settled c lostKeeps (x :: log) ↔
      (x.1.isWrite = true → x.2.applied = true → x.2.settled c lostKeeps x.1 = true) ∧
        Settled c lostKeeps log := by
  simp [Settled]

@[simp] theorem refused_nil : ¬Refused ([] : Exchanged A) := by
  simp [Refused]

@[simp] theorem refused_error {frame : Frame} {code text : String} {log : Exchanged A} :
    Refused ((frame, .error code text) :: log) ↔ ¬Applied log := by
  simp [Refused, Reply.applied]

@[simp] theorem refused_answer {frame : Frame} {a : A} {log : Exchanged A} :
    ¬Refused ((frame, .answer a) :: log) := by
  simp [Refused]

@[simp] theorem refused_lost {frame : Frame} {t : Transport} {text : String} {applied : Bool}
    {log : Exchanged A} : ¬Refused ((frame, .lost t text applied) :: log) := by
  simp [Refused]

@[simp] theorem refused_cancelled {frame : Frame} {applied : Bool} {log : Exchanged A} :
    ¬Refused ((frame, .cancelled applied) :: log) := by
  simp [Refused]

attribute [simp] Reply.applied Reply.settled keeps

/-! ## One lemma for each shape of a body -/

/-- The property of a run of a body, and the condition it holds under. -/
def Good (c : Client A) (lostKeeps : Bool) (result : Except Exc Unit) (log : Exchanged A) : Prop :=
  ((Applied log → keeps result = true) ∧ (Refused log → keeps result = false)) ↔
    Settled c lostKeeps log

variable {c : Client A} {frame : Frame} {lostKeeps : Bool}

/-- A frame ends in one of four ways. -/
theorem always_invoke {Q : Except Exc A → Exchanged A → Prop} {log : Exchanged A} :
    (invoke c frame).Always Q log ↔
      (∀ code text, Q (.error (.apiError code text)) ((frame, .error code text) :: log)) ∧
      (∀ a, Q (if frame.readable c a then .ok a else .error (.other "ValidationError" ""))
        ((frame, .answer a) :: log)) ∧
      (∀ t text applied, Q (.error (.transport t text)) ((frame, .lost t text applied) :: log)) ∧
      ∀ applied, Q (.error .cancelledError) ((frame, .cancelled applied) :: log) := by
  unfold invoke
  simp only [Prog.always_bind, Prog.always_request, Prog.seq_ok]
  constructor
  · intro h
    refine ⟨fun code text => h (.error code text), fun a => ?_, fun t text applied =>
      h (.lost t text applied), fun applied => h (.cancelled applied)⟩
    have ha := h (.answer a)
    dsimp only at ha
    split at ha
    · rename_i hr
      simpa [hr] using ha
    · rename_i hr
      simpa [hr] using ha
  · rintro ⟨herror, hanswer, hlost, hcancelled⟩ reply
    cases reply with
    | error code text => exact herror code text
    | answer a =>
        have ha := hanswer a
        dsimp only
        split
        · rename_i hr
          simpa [hr] using ha
        · rename_i hr
          simpa [hr] using ha
    | lost t text applied => exact hlost t text applied
    | cancelled applied => exact hcancelled applied

/-! ## One frame, seen through the wrappers around it -/

/-- What the `except` clauses around a frame do to the four ways it can fail. -/
structure Marks (lostKeeps : Bool) (g : Exc → Exc) : Prop where
  cancelled : (g .cancelledError).uncertain = true
  refused : ∀ error text, (g (.apiError error text)).uncertain = false
  unread : ∀ name text, (g (.other name text)).uncertain = false
  lost : ∀ t text, (g (.transport t text)).uncertain = lostKeeps

theorem callMaxError_marks (text : String) : Marks true (callMaxError text) :=
  ⟨rfl, fun _ _ => rfl, fun _ _ => rfl, fun _ _ => rfl⟩

theorem blockError_marks (text : String) : Marks true fun exc => blockError (callMaxError text exc) :=
  ⟨rfl, fun _ _ => rfl, fun _ _ => rfl, fun _ _ => rfl⟩

theorem tgError_marks (statusCode : Nat) : Marks false (tgError statusCode) :=
  ⟨rfl, fun _ _ => rfl, fun _ _ => rfl, fun _ _ => rfl⟩

theorem tgAlbumError_marks : Marks false tgAlbumError :=
  ⟨rfl, fun _ _ => rfl, fun _ _ => rfl, fun _ _ => rfl⟩

/-- No wrapper at all. -/
theorem id_marks : Marks false id := ⟨rfl, fun _ _ => rfl, fun _ _ => rfl, fun _ _ => rfl⟩

/-- The end of a body whose value is dropped and whose exceptions go through `g`. -/
def ends {α : Type} (g : Exc → Exc) : Except Exc α → Except Exc Unit
  | .ok _ => .ok ()
  | .error exc => .error (g exc)

theorem settled_of_not_applied {log : Exchanged A} (h : ¬Applied log) :
    Settled c lostKeeps log := fun x hx hw ha => absurd ⟨x, hx, hw, ha⟩ h

/-- Nothing applied and no error answer: any end is right. -/
theorem good_nil (result : Except Exc Unit) :
    Good (A := A) c lostKeeps result [] := by
  simp [Good]

/-- **One frame.** With nothing applied before it, the wrappers' marks make the end right exactly when
    the frame is settled. -/
theorem invoke_good (frame : Frame) {g : Exc → Exc} (hg : Marks lostKeeps g) {log : Exchanged A}
    (happ : ¬Applied log) :
    (invoke c frame).Always (fun r l => Good c lostKeeps (ends g r) l) log := by
  have hset : Settled c lostKeeps log := settled_of_not_applied happ
  rw [always_invoke]
  refine ⟨fun code text => ?_, fun a => ?_, fun t text applied => ?_, fun applied => ?_⟩
  · simp [Good, ends, happ, hset, hg.refused]
  · cases hr : frame.readable c a <;> simp [Good, ends, happ, hset, hr, hg.unread]
  · cases lostKeeps <;> simp [Good, ends, happ, hset, hg.lost]
  · simp [Good, ends, happ, hset, hg.cancelled]

/-- A body that drops the value of a call under `call_max`. -/
theorem always_one {Q : Except Exc Unit → Exchanged A → Prop} {log : Exchanged A} {call : Call A A}
    {text : String} :
    (one call text).Always Q log ↔ call.Always (fun r l => Q (ends (callMaxError text) r) l) log := by
  unfold one callMax
  simp only [Prog.always_bind, Prog.always_tryCatch]
  refine iff_of_eq (congrArg (fun P => call.Always P log) (funext fun r => funext fun l => ?_))
  cases r <;> rfl

/-! ## The bodies of the MAX slots -/

/-- A slot that covers one frame. -/
theorem one_good (text : String) : (one (invoke c frame) text).Always (Good c true) [] :=
  always_one.mpr (invoke_good frame (callMaxError_marks text) applied_nil)

/-- A refused frame leaves nothing applied. -/
theorem not_applied_error {code text : String} : ¬Applied [(frame, (.error code text : Reply A))] := by
  simp

/-- An exception of our own, nothing applied: the slot is free again. -/
theorem good_other {name text error message uncertainText : String} :
    Good c true (ends (callMaxError uncertainText) (.error (.other name text) : Except Exc A))
      [(frame, .error error message)] := by
  simp [Good, ends, callMaxError, Exc.uncertain]

theorem sendTwice_good (reader : Reader) (u : Upload) (text : String) :
    (one (sendTwice c reader u) text).Always (Good c true) [] := by
  have hfirst := invoke_good (c := c) ⟨true, some reader⟩ (callMaxError_marks text) applied_nil
  rw [always_one, sendTwice, Prog.always_tryCatch]
  rw [always_invoke] at hfirst ⊢
  obtain ⟨herror, hanswer, hlost, hcancelled⟩ := hfirst
  refine ⟨fun code error => ?_, fun a => ?_, hlost, hcancelled⟩
  · -- refused: once more only for an attachment that became ready
    simp only [Prog.handle_error]
    split
    · exact herror code error
    · split
      · exact invoke_good _ (callMaxError_marks text) not_applied_error
      · exact good_other
  · have ha := hanswer a
    cases hr : Frame.readable ⟨true, some reader⟩ c a <;> simp only [hr] at ha ⊢ <;> exact ha

theorem sendWithAttachments_good (reader : Reader) (hasContent : Bool) (u : Upload) (text : String) :
    (one (sendWithAttachments c reader hasContent u) text).Always (Good c true) [] := by
  cases hasContent with
  | false =>
      rw [always_one]
      exact good_nil _
  | true =>
      cases hu : u.failed with
      | some exc =>
          have hthrow : sendWithAttachments c reader true u = throw exc := by
            simp [sendWithAttachments, hu]
          rw [always_one, hthrow, Prog.always_throw]
          exact good_nil _
      | none =>
          have hsend : sendWithAttachments c reader true u = sendTwice c reader u := by
            simp [sendWithAttachments, hu]
          rw [hsend]
          exact sendTwice_good reader u text

theorem startBot_good (text : String) : (one (startBot c) text).Always (Good c true) [] := by
  have hfirst := invoke_good (c := c) ⟨true, none⟩ (callMaxError_marks text) applied_nil
  rw [always_one, startBot, Prog.always_tryCatch, rawWrite]
  rw [always_invoke] at hfirst ⊢
  obtain ⟨herror, hanswer, hlost, hcancelled⟩ := hfirst
  refine ⟨fun code error => ?_, fun a => hanswer a, hlost, hcancelled⟩
  simp only [Prog.handle_error]
  split
  · exact invoke_good _ (callMaxError_marks text) not_applied_error
  · exact herror code error

theorem createGroup_good (channel : Bool) : (createGroup c channel).Always (Good c true) [] := by
  cases channel with
  | true => exact one_good uncertainGroups
  | false =>
      have hcall := invoke_good (c := c) ⟨true, some (.pymax .createGroup)⟩
        (callMaxError_marks uncertainGroups) applied_nil
      have hbody : createGroup c false = (callMax (pymaxWrite c .createGroup) uncertainGroups >>= fun answer =>
        if c.newGroup answer = false then throw (.http maybeCreated) else pure ()) := by
        simp [createGroup]
      rw [hbody, Prog.always_bind, callMax, Prog.always_tryCatch, pymaxWrite]
      refine Prog.Always.mono (fun r log hgood => ?_) hcall
      cases r with
      | error exc => exact hgood
      | ok a =>
          simp only [Prog.handle_ok, Prog.seq_ok]
          split
          · exact hgood
          · exact hgood

/-- A read before the write, through a wrapper: what fails there leaves nothing applied. -/
theorem read_then {reader : Reader} {g : Exc → Exc} (hg : ∀ error text, (g (.apiError error text)).uncertain = false)
    {next : A → Call A Unit}
    (hnext : ∀ a, (next a).Always (Good c lostKeeps) [(⟨false, some reader⟩, .answer a)]) :
    ((tryCatch (invoke c ⟨false, some reader⟩) fun exc => throw (g exc)) >>= next).Always
      (Good c lostKeeps) [] := by
  rw [Prog.always_bind, Prog.always_tryCatch, always_invoke]
  refine ⟨fun code text => ?_, fun a => ?_, fun t text applied => ?_, fun applied => ?_⟩
  · simp [Good, hg]
  · cases hr : Frame.readable ⟨false, some reader⟩ c a
    · simp [Good]
    · simpa [hr] using hnext a
  · simp [Good]
  · simp [Good]

theorem not_applied_read (reader : Reader) (a : A) :
    ¬Applied [((⟨false, some reader⟩ : Frame), (.answer a : Reply A))] := by
  simp

theorem markRead_good : (markRead c).Always (Good c true) [] := by
  refine read_then (fun _ _ => rfl) fun history => ?_
  cases hm : c.hasMessages history with
  | false => simp [Good]
  | true =>
      have hcall := always_one.mpr
        (invoke_good (c := c) ⟨true, some (.pymax .readMessage)⟩ (callMaxError_marks callMaxUncertain)
          (not_applied_read (.pymax .fetchHistory) history))
      simpa [hm, one, pymaxWrite] using hcall

theorem blockUser_good : (blockUser c).Always (Good c true) [] := by
  have hcall := invoke_good (c := c) ⟨true, none⟩ (blockError_marks "the block may have been applied")
    applied_nil
  unfold blockUser callMax rawWrite
  rw [Prog.always_tryCatch, Prog.always_bind, Prog.always_tryCatch]
  refine Prog.Always.mono (fun r log hgood => ?_) hcall
  cases r with
  | error exc => exact hgood
  | ok a => exact hgood

/-- **Every MAX slot.** -/
theorem max_good (r : MaxRequest) : (r.body c).Always (Good c true) [] := by
  cases r with
  | sendMessage hasText => exact sendWithAttachments_good ..
  | sendToPerson hasText => exact sendWithAttachments_good ..
  | sendAttachments tool upload => exact sendWithAttachments_good ..
  | editMessage hasText => exact sendWithAttachments_good ..
  | createGroup channel => exact createGroup_good channel
  | addGroupMembers startPayload channel => cases startPayload <;> exact one_good _
  | removeGroupMembers deleteMessages => cases deleteMessages <;> exact one_good _
  | updateGroupSettings pymaxSettings => cases pymaxSettings <;> exact one_good _
  | markRead => exact markRead_good
  | startBot => exact startBot_good _
  | blockUser => exact blockUser_good
  | unblockUser => exact blockUser_good
  | _ => exact one_good _

/-! ## The bodies of the Telegram slots -/

/-- A frame whose value is dropped, with nothing applied before it. -/
theorem tgWrite_good {g : Exc → Exc} (hg : Marks lostKeeps g) (m : TelethonMethod) {log : Exchanged A}
    (happ : ¬Applied log) : (telethonWrite c m >>= fun _ => (pure () : Call A Unit)).Always
      (fun r l => Good c lostKeeps (ends g r) l) log := by
  rw [Prog.always_bind]
  refine Prog.Always.mono (fun r log hgood => ?_) (invoke_good _ hg happ)
  cases r with
  | error exc => exact hgood
  | ok a => exact hgood

/-- A frame whose value is dropped, after its preparation, through a wrapper. -/
theorem tgSend_good {g : Exc → Exc} (hg : Marks lostKeeps g) (m : TelethonMethod) (prepare : Option Exc) :
    (tryCatch (tgSend c m prepare) fun exc => throw (g exc)).Always (Good c lostKeeps) [] := by
  cases prepare with
  | some exc => exact good_nil _
  | none =>
      rw [Prog.always_tryCatch]
      show (telethonWrite c m >>= fun _ => pure ()).Always _ _
      refine Prog.Always.mono (fun r log hgood => ?_) (tgWrite_good hg m applied_nil)
      cases r <;> exact hgood

theorem tgToEntity_good (statusCode : Nat) (m : TelethonMethod) :
    (tgWrapped statusCode (tgToEntity c m)).Always (Good c false) [] := by
  have hwrite := fun a => tgWrite_good (c := c) (tgError_marks statusCode) m
    (not_applied_read (.telethon .getInputEntity) a)
  unfold tgWrapped
  rw [Prog.always_tryCatch]
  show (telethonRead c .getInputEntity >>= fun _ => telethonWrite c m >>= fun _ => pure ()).Always _ _
  rw [Prog.always_bind, telethonRead, always_invoke]
  refine ⟨fun code text => ?_, fun a => ?_, fun t text applied => ?_, fun applied => ?_⟩
  · simp [Good, tgError, Exc.uncertain]
  · cases hr : Frame.readable ⟨false, some (.telethon .getInputEntity)⟩ c a
    · simp [Good]
    · rw [if_pos rfl, Prog.seq_ok]
      refine Prog.Always.mono (fun r log hgood => ?_) (hwrite a)
      cases r <;> exact hgood
  · simp [Good]
  · simp [Good]

theorem tgSendAlbum_good (files : Nat) (prepare : Option Exc) :
    (tgSendAlbum c files prepare).Always (Good c false) [] := by
  unfold tgSendAlbum
  by_cases hfew : files < 2
  · simp only [if_pos hfew]
    exact good_nil _
  · by_cases hmany : files > 10
    · simp only [if_neg hfew, if_pos hmany]
      exact good_nil _
    · simp only [if_neg hfew, if_neg hmany]
      exact tgSend_good tgAlbumError_marks .sendAlbum prepare

/-- No wrapper: whatever the frame raises leaves the slot as it is. -/
theorem tgSendToPerson_good (method : ReachMethod) :
    (tgSendToPerson c method).Always (Good c false) [] := by
  have hwrite : ∀ {log : Exchanged A}, ¬Applied log →
      (telethonWrite c .sendMessage >>= fun _ => (pure () : Call A Unit)).Always (Good c false) log := by
    intro log happ
    refine Prog.Always.mono (fun r log hgood => ?_) (tgWrite_good id_marks .sendMessage happ)
    cases r <;> exact hgood
  by_cases hphone : method = .phone
  · have hbody : tgSendToPerson c method
        = (tgImport c >>= fun _ => telethonWrite c .sendMessage >>= fun _ => pure ()) := by
      simp [tgSendToPerson, hphone]
    rw [hbody, Prog.always_bind, tgImport, Prog.always_bind, telethonRead, always_invoke]
    refine ⟨fun code text => ?_, fun a => ?_, fun t text applied => ?_, fun applied => ?_⟩
    · simp [Good, Exc.uncertain]
    · cases hr : Frame.readable ⟨false, some (.telethon .importContacts)⟩ c a
      · simp [Good]
      · rw [if_pos rfl, Prog.seq_ok]
        cases hu : c.hasUsers a with
        | false => simp [Good]
        | true => exact hwrite (not_applied_read _ a)
    · simp [Good]
    · simp [Good]
  · have hbody : tgSendToPerson c method = (telethonWrite c .sendMessage >>= fun _ => pure ()) := by
      simp [tgSendToPerson, hphone]
    rw [hbody]
    exact hwrite applied_nil

/-- **Every Telegram slot.** -/
theorem tg_good (r : TgRequest) : (r.body c).Always (Good c false) [] := by
  cases r with
  | sendMessage => exact tgSend_good (tgError_marks 500) ..
  | forwardMessage hasIds =>
      cases hasIds with
      | true => exact tgSend_good (tgError_marks 500) ..
      | false => exact good_nil _
  | editMessage => exact tgSend_good (tgError_marks 400) ..
  | sendFile prepare => exact tgSend_good (tgError_marks 500) ..
  | sendVoice prepare => exact tgSend_good (tgError_marks 500) ..
  | sendAlbum files prepare => exact tgSendAlbum_good files prepare
  | sendPoll => exact tgToEntity_good 500 .sendMedia
  | deleteMessage => exact tgSend_good (tgError_marks 500) ..
  | reactToMessage => exact tgToEntity_good 400 .sendReaction
  | markRead => exact tgSend_good (tgError_marks 400) ..
  | sendToPerson method => exact tgSendToPerson_good method

theorem request_good (req : Request) : (req.body c).Always (Good c req.lostKeeps) [] := by
  cases req with
  | max r => exact max_good r
  | telegram r => exact tg_good r

end Bodies

/-! ## The main result -/

/-- The end of a request's slot, and what went over the wire, against a sequence of replies. -/
def Request.exchange {A : Type} (req : Request) (c : Client A) (reply : Nat → Reply A) :
    Except Exc Unit × Exchanged A :=
  (req.body c).run reply []

/-- **When a slot is right.** For every write, client and behaviour of the messenger: the slot of an
    applied write keeps its events and that of a refused one loses them if and only if every applied
    frame was answered readably, or cancelled, or (on MAX) left without an answer. -/
theorem slot_correct_iff {A : Type} (c : Client A) (req : Request) (reply : Nat → Reply A) :
    SlotCorrect (req.exchange c reply).1 (req.exchange c reply).2 ↔
      Settled c req.lostKeeps (req.exchange c reply).2 :=
  slotCorrect_iff_keeps.trans ((request_good req).run reply)

/-- A client that finds nothing it needs in any answer. -/
def blindClient : Client Unit := ⟨fun _ _ => false, fun _ => false, fun _ => false, fun _ => false⟩

/-- MAX takes a text message and answers with a message PyMax cannot read: the slot is free again. A
    Telegram message goes out and its answer is lost: the slot is free again, too. -/
theorem slot_correct_fails :
    ¬SlotCorrect ((Request.max (.sendMessage true)).exchange blindClient fun _ => .answer ()).1
      ((Request.max (.sendMessage true)).exchange blindClient fun _ => .answer ()).2 ∧
    ¬SlotCorrect ((Request.telegram .sendMessage).exchange blindClient
        fun _ => .lost .timeoutError "" true).1
      ((Request.telegram .sendMessage).exchange blindClient fun _ => .lost .timeoutError "" true).2 := by
  constructor
  · intro h
    have hkeeps := (slotCorrect_iff_keeps.mp h).1
      ⟨(⟨true, some .message⟩, .answer ()), List.mem_cons_self .., rfl, rfl⟩
    cases hkeeps
  · intro h
    have hkeeps := (slotCorrect_iff_keeps.mp h).1
      ⟨(⟨true, some (.telethon .sendMessage)⟩, .lost .timeoutError "" true), List.mem_cons_self .., rfl, rfl⟩
    cases hkeeps

end MyPerson.WriteSlot
