import MyPerson.MaxRepair.Repair

/-!
# `MaxRepair.Undo` — a repair is done once, and undone whole

A run reads its candidates once and then writes, so what it does is a list of pairs: the row as it was read, and the
columns that its raw gives. The edits of the messages and the journal both come from that list.

## Contents
- `rewrites`, `rewritten`: the messages that a run changes;
- `Wrote`, `repairMessages_spec`: what a run does;
- `Settled`, `repairMessages_settled`: the messages that a run leaves alone;
- `untitle`, `unwrite`, `unadd`: a journal takes titles, messages and media back;
- `repair_again`, `undo_of_repair`, `repair_undo`.
-/

namespace MyPerson.MaxRepair

open Lib
open MaxDialogs (Account Chat User fillDialogTitles Retitled selected)

variable {validate : List (String × Json) → Option Msg}

/-! ## What a run rewrites -/

/-- A candidate that the run updates, with the columns that its raw gives. -/
def rewrites (validate : List (String × Json) → Option Msg) (c : Message) : Option (Message × Repaired) :=
  match repaired validate c.raw with
  | .ok (some r) => if r.changes c then some (c, r) else none
  | _ => none

def rewritten (validate : List (String × Json) → Option Msg) (cs : List Message) : List (Message × Repaired) :=
  cs.flatMap fun c => (rewrites validate c).toList

/-- The `UPDATE` of a message. -/
def editOf (accountId : Int) (p : Message × Repaired) : (Int × Int) × (Message → Message) :=
  ((accountId, p.1.id), p.2.update p.1)

/-- Its entry in the journal. -/
def entryOf (p : Message × Repaired) : MessageEntry := ⟨p.1.id, p.1.messageType, p.1.text⟩

variable {accountId : Int} {c m : Message} {r : Repaired} {cs : List Message} {p : Message × Repaired}

theorem rewrites_some : rewrites validate c = some p ↔
    p.1 = c ∧ repaired validate c.raw = .ok (some p.2) ∧ p.2.changes c = true := by
  obtain ⟨c', r'⟩ := p
  unfold rewrites
  split
  · rename_i r hr
    rw [hr]
    by_cases hchanges : r.changes c = true
    · rw [if_pos hchanges]
      constructor
      · rintro ⟨⟩
        exact ⟨rfl, rfl, hchanges⟩
      · rintro ⟨rfl, ⟨⟩, -⟩
        rfl
    · rw [if_neg hchanges]
      refine iff_of_false (by rintro ⟨⟩) ?_
      rintro ⟨-, ⟨⟩, h⟩
      exact hchanges h
  · rename_i hnot
    exact iff_of_false (by rintro ⟨⟩) fun h => hnot _ h.2.1

theorem mem_rewritten : p ∈ rewritten validate cs ↔
    p.1 ∈ cs ∧ repaired validate p.1.raw = .ok (some p.2) ∧ p.2.changes p.1 = true := by
  unfold rewritten
  simp only [List.mem_flatMap, Option.mem_toList, rewrites_some]
  constructor
  · rintro ⟨c, hc, rfl, hr, hchanges⟩
    exact ⟨hc, hr, hchanges⟩
  · rintro ⟨hc, hr, hchanges⟩
    exact ⟨p.1, hc, rfl, hr, hchanges⟩

theorem ids_rewritten_sublist : ((rewritten validate cs).map fun p => p.1.id).Sublist (cs.map Message.id) := by
  induction cs with
  | nil => exact List.Sublist.slnil
  | cons c cs ih =>
      show (((rewrites validate c).toList ++ rewritten validate cs).map fun p => p.1.id).Sublist _
      rw [List.map_append]
      cases hc : rewrites validate c with
      | none => exact ih.cons c.id
      | some p =>
          obtain ⟨rfl, -⟩ := rewrites_some.mp hc
          exact ih.cons_cons p.1.id

/-- A row that was updated needs no update. -/
theorem changes_update (r : Repaired) (c : Message) : r.changes (r.update c c) = false := by
  have htype : r.messageType = (r.update c c).messageType := by
    show r.messageType = if r.messageType ≠ c.messageType then r.messageType else c.messageType
    split
    · rfl
    · rename_i heq
      exact not_not.mp heq
  have htext : r.fillsText (r.update c c) = false := by
    show ((orNone (if r.fillsText c then r.text else c.text)).isNone && (orNone r.text).isSome) = false
    by_cases hfills : r.fillsText c = true
    · rw [if_pos hfills]
      cases orNone r.text <;> rfl
    · rw [if_neg hfills]
      simpa [Repaired.fillsText] using hfills
  simp [Repaired.changes, htype, htext]

/-! ## The candidates -/

theorem mem_candidates {db : Db} :
    c ∈ db.candidates accountId ↔ c ∈ db.messages ∧ c.accountId = accountId ∧ isCandidate c.raw = true := by
  simp [Db.candidates]

theorem nodup_candidates (db : Db) (accountId : Int) : ((db.candidates accountId).map Message.id).Nodup := by
  have hperm : (db.candidates accountId).Perm
      (db.messages.filter fun m => m.accountId = accountId && isCandidate m.raw) := List.mergeSort_perm _ _
  rw [(hperm.map Message.id).nodup_iff]
  refine nodup_of_key db.hmessages (a := accountId) ?_
  intro m hm
  simp only [Bool.and_eq_true, decide_eq_true_eq] at hm
  exact hm.1

/-! ## What a run does -/

/-- A media row for that place of the message is there. -/
def Placed (accountId messageId : Int) (media : List Medium) (v : MediaValues) : Prop :=
  ∃ m ∈ media, m.accountId = accountId ∧ m.messageId = messageId ∧ m.attachIndex = v.attachIndex

/-- Nothing stops a run at the message, and its media rows are there. -/
def Complete (validate : List (String × Json) → Option Msg) (accountId : Int) (media : List Medium) (c : Message) :
    Prop :=
  ∃ o, repaired validate c.raw = .ok o ∧ ∀ r ∈ o, ∀ v ∈ r.media, Placed accountId c.id media v

/-- From `s` the run came to `s'`: it rewrote the messages `ps`, and added media rows with new ids. -/
structure Wrote (accountId : Int) (ps : List (Message × Repaired)) (s s' : Progress) : Prop where
  accounts : s'.db.accounts = s.db.accounts
  chats    : s'.db.chats = s.db.chats
  users    : s'.db.users = s.db.users
  messages : s'.db.messages = edits Message.key s.db.messages (ps.map (editOf accountId))
  changed  : s'.changed = s.changed ++ ps.map entryOf
  ids      : s.db.nextMediaId ≤ s'.db.nextMediaId
  media    : ∃ added : List Medium, s'.db.media = s.db.media ++ added ∧
    s'.inserted = s.inserted ++ added.map Medium.id ∧ ∀ m ∈ added, m.accountId = accountId ∧ s.db.nextMediaId ≤ m.id

variable {s s' s'' : Progress} {ps ps' : List (Message × Repaired)}

theorem Wrote.refl (accountId : Int) (s : Progress) : Wrote accountId [] s s where
  accounts := rfl
  chats := rfl
  users := rfl
  messages := rfl
  changed := (List.append_nil _).symm
  ids := le_rfl
  media := ⟨[], (List.append_nil _).symm, (List.append_nil _).symm, fun m hm => by cases hm⟩

theorem Wrote.trans (h : Wrote accountId ps s s') (h' : Wrote accountId ps' s' s'') :
    Wrote accountId (ps ++ ps') s s'' where
  accounts := h'.accounts.trans h.accounts
  chats := h'.chats.trans h.chats
  users := h'.users.trans h.users
  messages := by rw [h'.messages, h.messages, List.map_append, edits_append]
  changed := by rw [h'.changed, h.changed, List.map_append, List.append_assoc]
  ids := h.ids.trans h'.ids
  media := by
    obtain ⟨added, hmedia, hids, hnew⟩ := h.media
    obtain ⟨added', hmedia', hids', hnew'⟩ := h'.media
    refine ⟨added ++ added', ?_, ?_, ?_⟩
    · rw [hmedia', hmedia, List.append_assoc]
    · rw [hids', hids, List.map_append, List.append_assoc]
    · intro m hm
      rcases List.mem_append.mp hm with hm | hm
      · exact hnew m hm
      · exact ⟨(hnew' m hm).1, h.ids.trans (hnew' m hm).2⟩

/-- Rows are added only. -/
theorem Wrote.placed {messageId : Int} {v : MediaValues} (h : Wrote accountId ps s s')
    (hplaced : Placed accountId messageId s.db.media v) : Placed accountId messageId s'.db.media v := by
  obtain ⟨m, hm, hplace⟩ := hplaced
  obtain ⟨added, hmedia, -⟩ := h.media
  exact ⟨m, hmedia ▸ List.mem_append_left added hm, hplace⟩

theorem Wrote.complete (h : Wrote accountId ps s s') (hc : Complete validate accountId s.db.media c) :
    Complete validate accountId s'.db.media c := by
  obtain ⟨o, ho, hplaced⟩ := hc
  exact ⟨o, ho, fun r hr v hv => h.placed (hplaced r hr v hv)⟩

theorem any_taken {messageId : Int} {media : List Medium} {v : MediaValues} :
    (media.any fun m => m.accountId = accountId && m.messageId = messageId && m.attachIndex = v.attachIndex) = true ↔
      Placed accountId messageId media v := by
  simp [Placed, and_assoc]

theorem insertMedium_wrote (accountId messageId : Int) (s : Progress) (v : MediaValues) :
    Wrote accountId [] s (insertMedium accountId messageId s v) ∧
      Placed accountId messageId (insertMedium accountId messageId s v).db.media v := by
  unfold insertMedium
  by_cases htaken : Placed accountId messageId s.db.media v
  · -- `DO NOTHING`
    rw [if_pos (any_taken.mpr htaken)]
    exact ⟨{ Wrote.refl accountId s with ids := (Int.lt_succ _).le }, htaken⟩
  · rw [if_neg (mt any_taken.mp htaken)]
    constructor
    · exact { Wrote.refl accountId s with
        ids := (Int.lt_succ _).le
        media := ⟨[_], rfl, rfl, fun m hm => by
          rw [List.mem_singleton.mp hm]
          exact ⟨rfl, le_rfl⟩⟩ }
    · exact ⟨_, List.mem_append_right _ List.mem_cons_self, rfl, rfl, rfl⟩

theorem insertMedia_wrote (accountId messageId : Int) (vs : List MediaValues) (s : Progress) :
    Wrote accountId [] s (vs.foldl (insertMedium accountId messageId) s) ∧
      ∀ v ∈ vs, Placed accountId messageId (vs.foldl (insertMedium accountId messageId) s).db.media v := by
  induction vs generalizing s with
  | nil => exact ⟨Wrote.refl accountId s, fun v hv => by cases hv⟩
  | cons v vs ih =>
      obtain ⟨hfirst, hplaced⟩ := insertMedium_wrote accountId messageId s v
      obtain ⟨hrest, hall⟩ := ih (insertMedium accountId messageId s v)
      refine ⟨hfirst.trans hrest, ?_⟩
      intro v' hv'
      rcases List.mem_cons.mp hv' with rfl | hv'
      · exact hrest.placed hplaced
      · exact hall v' hv'

theorem changeMessage_wrote (h : r.changes c = true) (s : Progress) :
    Wrote accountId [(c, r)] s (changeMessage accountId r c s) := by
  unfold changeMessage
  rw [if_pos h]
  exact { Wrote.refl accountId s with messages := rfl, changed := rfl }

/-- One round. -/
theorem repairMessage_spec (h : repairMessage validate accountId s c = .ok s') :
    Wrote accountId (rewrites validate c).toList s s' ∧ Complete validate accountId s'.db.media c := by
  unfold repairMessage at h
  cases ho : repaired validate c.raw with
  | error e =>
      rw [ho] at h
      cases h
  | ok o =>
      rw [ho] at h
      obtain rfl := Except.ok.inj h
      cases o with
      | none =>
          -- raw does not parse: skipped
          have hkept : rewrites validate c = none := by simp [rewrites, ho]
          rw [hkept]
          exact ⟨Wrote.refl accountId s, none, ho, fun r hr => by cases hr⟩
      | some r =>
          obtain ⟨hmedia, hplaced⟩ := insertMedia_wrote accountId c.id r.media (changeMessage accountId r c s)
          have hcomplete : Complete validate accountId
              (r.media.foldl (insertMedium accountId c.id) (changeMessage accountId r c s)).db.media c := by
            refine ⟨some r, ho, ?_⟩
            rintro r' ⟨⟩
            exact hplaced
          refine ⟨?_, hcomplete⟩
          by_cases hchanges : r.changes c = true
          · have hrewritten : rewrites validate c = some (c, r) := rewrites_some.mpr ⟨rfl, ho, hchanges⟩
            rw [hrewritten]
            exact (changeMessage_wrote hchanges s).trans hmedia
          · have hkept : rewrites validate c = none := by simp [rewrites, ho, hchanges]
            have hsame : changeMessage accountId r c s = s := if_neg hchanges
            rw [hsame] at hmedia
            rw [hkept]
            show Wrote accountId [] s (r.media.foldl (insertMedium accountId c.id) (changeMessage accountId r c s))
            rw [hsame]
            exact hmedia

/-- The whole pass over the candidates. -/
theorem repairMessages_spec (h : cs.foldlM (repairMessage validate accountId) s = .ok s') :
    Wrote accountId (rewritten validate cs) s s' ∧ ∀ c ∈ cs, Complete validate accountId s'.db.media c := by
  induction cs generalizing s with
  | nil =>
      obtain rfl := Except.ok.inj h
      exact ⟨Wrote.refl accountId s, fun c hc => by cases hc⟩
  | cons c cs ih =>
      rw [List.foldlM_cons] at h
      cases hstep : repairMessage validate accountId s c with
      | error e =>
          rw [hstep] at h
          cases h
      | ok s₁ =>
          rw [hstep] at h
          obtain ⟨hfirst, hcomplete⟩ := repairMessage_spec hstep
          obtain ⟨hrest, hall⟩ := ih h
          refine ⟨hfirst.trans hrest, ?_⟩
          intro c' hc'
          rcases List.mem_cons.mp hc' with rfl | hc'
          · exact hrest.complete hcomplete
          · exact hall c' hc'

/-! ## Messages, written and taken back -/

variable {db : Db}

theorem keep_editOf (accountId : Int) (ps : List (Message × Repaired)) :
    ∀ e ∈ ps.map (editOf accountId), ∀ m, (e.2 m).key = m.key := by
  intro e he m
  obtain ⟨p, -, rfl⟩ := List.mem_map.mp he
  rfl

theorem nodup_editOf (db : Db) (accountId : Int) :
    (((rewritten validate (db.candidates accountId)).map (editOf accountId)).map Prod.fst).Nodup := by
  have hids : ((rewritten validate (db.candidates accountId)).map fun p => p.1.id).Nodup :=
    (nodup_candidates db accountId).sublist ids_rewritten_sublist
  have hkeys := hids.map (f := fun id => (accountId, id)) fun id id' heq => (Prod.mk.inj heq).2
  rw [List.map_map] at hkeys ⊢
  exact hkeys

/-- The row of an edit is the candidate that was read. -/
theorem eq_of_rewritten (hp : p ∈ rewritten validate (db.candidates accountId)) (hm : m ∈ db.messages)
    (hkey : m.key = (accountId, p.1.id)) : p.1 = m := by
  obtain ⟨hread, haccount, -⟩ := mem_candidates.mp (mem_rewritten.mp hp).1
  refine eq_of_key db.hmessages hread hm ?_
  rw [hkey, ← haccount]
  rfl

/-- The journal takes the messages back. -/
theorem unwrite (db : Db) (accountId : Int) :
    let ps := rewritten validate (db.candidates accountId)
    edits Message.key (edits Message.key db.messages (ps.map (editOf accountId)))
      ((ps.map entryOf).map (MessageEntry.restore accountId)) = db.messages := by
  intro ps
  have hkeys : ((ps.map entryOf).map (MessageEntry.restore accountId)).map Prod.fst =
      (ps.map (editOf accountId)).map Prod.fst := by
    simp only [List.map_map]
    rfl
  refine edits_undo (nodup_editOf db accountId) hkeys (keep_editOf accountId ps)
    (MessageEntry.keep_restore accountId _) ?_
  intro m hm f g hf hg
  obtain ⟨p, hp, hpf⟩ := List.mem_map.mp hf
  obtain ⟨e, he, heg⟩ := List.mem_map.mp hg
  obtain ⟨q, hq, rfl⟩ := List.mem_map.mp he
  obtain ⟨hkeyf, rfl⟩ := Prod.mk.inj hpf
  obtain ⟨hkeyg, rfl⟩ := Prod.mk.inj heg
  -- both come from the row as it was read
  have hread : q.1 = m := eq_of_rewritten hq hm hkeyg.symm
  show { p.2.update p.1 m with messageType := q.1.messageType, text := q.1.text } = m
  rw [hread]
  rfl

/-! ## What a run leaves alone -/

/-- Nothing is left to do for the message. -/
def Settled (validate : List (String × Json) → Option Msg) (accountId : Int) (media : List Medium) (c : Message) :
    Prop :=
  ∃ o, repaired validate c.raw = .ok o ∧
    ∀ r ∈ o, r.changes c = false ∧ ∀ v ∈ r.media, Placed accountId c.id media v

/-- After a run every candidate is settled. -/
theorem settled_of_repairMessages (h : repairMessages validate db accountId = .ok s) :
    ∀ c ∈ s.db.candidates accountId, Settled validate accountId s.db.media c := by
  obtain ⟨hwrote, hcomplete⟩ := repairMessages_spec h
  intro c hc
  obtain ⟨hrow, haccount, hcandidate⟩ := mem_candidates.mp hc
  rw [hwrote.messages, edits_eq_map (nodup_editOf db accountId) (keep_editOf accountId _)] at hrow
  obtain ⟨m, hm, rfl⟩ := List.mem_map.mp hrow
  by_cases hedited : m.key ∈ ((rewritten validate (db.candidates accountId)).map (editOf accountId)).map Prod.fst
  · -- the row now has what its raw gives
    obtain ⟨e, he, hkey⟩ := List.mem_map.mp hedited
    obtain ⟨p, hp, rfl⟩ := List.mem_map.mp he
    obtain rfl : p.1 = m := eq_of_rewritten hp hm hkey.symm
    have happlied : applied ((rewritten validate (db.candidates accountId)).map (editOf accountId)) p.1.key =
        p.2.update p.1 := applied_of_mem (nodup_editOf db accountId) (hkey ▸ List.mem_map_of_mem hp)
    obtain ⟨hread, hr, -⟩ := mem_rewritten.mp hp
    obtain ⟨o, ho, hplaced⟩ := hcomplete p.1 hread
    obtain rfl : o = some p.2 := Except.ok.inj (ho.symm.trans hr)
    rw [happlied]
    refine ⟨some p.2, hr, ?_⟩
    rintro r ⟨⟩
    exact ⟨changes_update p.2 p.1, hplaced p.2 rfl⟩
  · rw [applied_of_not_mem hedited] at haccount hcandidate ⊢
    have hread : m ∈ db.candidates accountId := mem_candidates.mpr ⟨hm, haccount, hcandidate⟩
    obtain ⟨o, ho, hplaced⟩ := hcomplete m hread
    refine ⟨o, ho, fun r hr => ⟨?_, hplaced r hr⟩⟩
    -- a row to change has an edit
    rw [Bool.eq_false_iff]
    intro hchanges
    obtain rfl : o = some r := hr
    have hp : (m, r) ∈ rewritten validate (db.candidates accountId) := mem_rewritten.mpr ⟨hread, ho, hchanges⟩
    have hkey : (editOf accountId (m, r)).1 = m.key := congrArg (·, m.id) haccount.symm
    exact hedited (hkey ▸ List.mem_map_of_mem (List.mem_map_of_mem hp))

/-- The run wrote no row; it may have drawn ids. -/
structure Idle (s s' : Progress) : Prop where
  rows     : SameRows s.db s'.db
  changed  : s'.changed = s.changed
  inserted : s'.inserted = s.inserted

theorem SameRows.refl (db : Db) : SameRows db db := ⟨rfl, rfl, rfl, rfl, rfl⟩

theorem SameRows.trans {db db' db'' : Db} (h : SameRows db db') (h' : SameRows db' db'') : SameRows db db'' where
  accounts := h'.accounts.trans h.accounts
  chats := h'.chats.trans h.chats
  users := h'.users.trans h.users
  messages := h'.messages.trans h.messages
  media := h'.media.trans h.media

theorem Idle.refl (s : Progress) : Idle s s := ⟨SameRows.refl s.db, rfl, rfl⟩

theorem Idle.trans (h : Idle s s') (h' : Idle s' s'') : Idle s s'' where
  rows := h.rows.trans h'.rows
  changed := h'.changed.trans h.changed
  inserted := h'.inserted.trans h.inserted

theorem insertMedium_idle {messageId : Int} {v : MediaValues} (h : Placed accountId messageId s.db.media v) :
    Idle s (insertMedium accountId messageId s v) := by
  unfold insertMedium
  rw [if_pos (any_taken.mpr h)]
  exact ⟨⟨rfl, rfl, rfl, rfl, rfl⟩, rfl, rfl⟩

theorem insertMedia_idle {messageId : Int} {vs : List MediaValues}
    (h : ∀ v ∈ vs, Placed accountId messageId s.db.media v) :
    Idle s (vs.foldl (insertMedium accountId messageId) s) := by
  induction vs generalizing s with
  | nil => exact Idle.refl s
  | cons v vs ih =>
      have hfirst : Idle s (insertMedium accountId messageId s v) := insertMedium_idle (h v List.mem_cons_self)
      refine hfirst.trans (ih fun v' hv' => ?_)
      rw [hfirst.rows.media]
      exact h v' (List.mem_cons_of_mem v hv')

theorem repairMessage_settled (h : Settled validate accountId s.db.media c) :
    ∃ s', repairMessage validate accountId s c = .ok s' ∧ Idle s s' := by
  obtain ⟨o, ho, hsettled⟩ := h
  unfold repairMessage
  rw [ho]
  cases o with
  | none => exact ⟨s, rfl, Idle.refl s⟩
  | some r =>
      obtain ⟨hchanges, hplaced⟩ := hsettled r rfl
      have hsame : changeMessage accountId r c s = s := if_neg (Bool.eq_false_iff.mp hchanges)
      refine ⟨_, rfl, ?_⟩
      show Idle s (r.media.foldl (insertMedium accountId c.id) (changeMessage accountId r c s))
      rw [hsame]
      exact insertMedia_idle hplaced

theorem repairMessages_settled (h : ∀ c ∈ cs, Settled validate accountId s.db.media c) :
    ∃ s', cs.foldlM (repairMessage validate accountId) s = .ok s' ∧ Idle s s' := by
  induction cs generalizing s with
  | nil => exact ⟨s, rfl, Idle.refl s⟩
  | cons c cs ih =>
      obtain ⟨s₁, hstep, hfirst⟩ := repairMessage_settled (h c List.mem_cons_self)
      obtain ⟨s₂, hrun, hrest⟩ := ih (s := s₁) fun c' hc' => by
        rw [hfirst.rows.media]
        exact h c' (List.mem_cons_of_mem c hc')
      refine ⟨s₂, ?_, hfirst.trans hrest⟩
      rw [List.foldlM_cons, hstep]
      exact hrun

/-! ## Titles, set and taken back -/

variable {titled : Db} {titles : List TitleEntry} {chat chat' : Chat}

/-- The statement keeps everything but the chats. -/
theorem fillTitles_spec (h : db.fillTitles accountId = .ok titled) :
    fillDialogTitles db.accounts db.users db.chats accountId none = .ok titled.chats ∧
      SameRows { db with chats := titled.chats, hchats := titled.hchats } titled := by
  unfold Db.fillTitles at h
  split at h
  · cases h
  · rename_i chats hchats
    obtain rfl := Except.ok.inj h
    exact ⟨hchats, rfl, rfl, rfl, rfl, rfl⟩

/-- Where the titles are right, nothing is set. -/
theorem fillTitles_settled (h : fillDialogTitles db.accounts db.users db.chats accountId none = .ok db.chats) :
    ∃ titled, db.fillTitles accountId = .ok titled ∧ SameRows db titled := by
  unfold Db.fillTitles
  split
  · rename_i e he
    cases he.symm.trans h
  · rename_i chats hchats
    obtain rfl : chats = db.chats := Except.ok.inj (hchats.symm.trans h)
    exact ⟨_, rfl, rfl, rfl, rfl, rfl, rfl⟩

theorem selected_iff :
    selected accountId none chat = true ↔ chat.accountId = accountId ∧ chat.chatType = "private" := by
  simp [selected]

theorem mem_privateTitles {pk : Int} {title : Option String} : (pk, title) ∈ db.privateTitles accountId ↔
    ∃ chat ∈ db.chats, selected accountId none chat = true ∧ chat.id = pk ∧ chat.title = title := by
  simp [Db.privateTitles, selected_iff, and_assoc]

theorem nodup_privateTitles (db : Db) (accountId : Int) : ((db.privateTitles accountId).map Prod.fst).Nodup := by
  unfold Db.privateTitles
  rw [List.map_map]
  refine nodup_of_key db.hchats (a := accountId) ?_
  intro chat hchat
  simp only [Bool.and_eq_true, decide_eq_true_eq] at hchat
  exact hchat.1

theorem get_privateTitles (hrow : chat ∈ db.chats) (hsel : selected accountId none chat = true) :
    Dict.get chat.id (db.privateTitles accountId) = some chat.title :=
  Dict.get_of_mem (nodup_privateTitles db accountId) (mem_privateTitles.mpr ⟨chat, hrow, hsel, rfl, rfl⟩)

/-- The statement, and the entries of the private chats whose title is another after it. -/
theorem repairTitles_spec (h : repairTitles db accountId = .ok (titled, titles)) :
    db.fillTitles accountId = .ok titled ∧
      titles = ((((db.privateTitles accountId).map Prod.fst).mergeSort fun a b => a ≤ b).filter fun pk =>
        (Dict.get pk (titled.privateTitles accountId)).join ≠ (Dict.get pk (db.privateTitles accountId)).join).map
        fun pk => ⟨pk, (Dict.get pk (db.privateTitles accountId)).join⟩ := by
  unfold repairTitles at h
  cases hfill : db.fillTitles accountId with
  | error e =>
      rw [hfill] at h
      cases h
  | ok db' =>
      rw [hfill] at h
      obtain ⟨rfl, rfl⟩ := Prod.mk.inj (Except.ok.inj h)
      exact ⟨rfl, rfl⟩

theorem mem_titles (h : repairTitles db accountId = .ok (titled, titles)) {t : TitleEntry} :
    t ∈ titles ↔ ∃ chat ∈ db.chats, selected accountId none chat = true ∧ t = ⟨chat.id, chat.title⟩ ∧
      (Dict.get chat.id (titled.privateTitles accountId)).join ≠ chat.title := by
  rw [(repairTitles_spec h).2]
  simp only [List.mem_map, List.mem_filter, List.mem_mergeSort, decide_eq_true_eq]
  constructor
  · rintro ⟨pk, ⟨⟨⟨pk', title⟩, hmem, rfl⟩, hne⟩, rfl⟩
    obtain ⟨chat, hrow, hsel, rfl, rfl⟩ := mem_privateTitles.mp hmem
    rw [get_privateTitles hrow hsel] at hne ⊢
    exact ⟨chat, hrow, hsel, rfl, hne⟩
  · rintro ⟨chat, hrow, hsel, rfl, hne⟩
    refine ⟨chat.id, ⟨⟨_, mem_privateTitles.mpr ⟨chat, hrow, hsel, rfl, rfl⟩, rfl⟩, ?_⟩, ?_⟩
    · rw [get_privateTitles hrow hsel]
      exact hne
    · rw [get_privateTitles hrow hsel]
      rfl

theorem nodup_titles (h : repairTitles db accountId = .ok (titled, titles)) :
    ((titles.map (TitleEntry.restore accountId)).map Prod.fst).Nodup := by
  have hsorted : (((db.privateTitles accountId).map Prod.fst).mergeSort fun a b => a ≤ b).Nodup :=
    (List.mergeSort_perm _ _).nodup_iff.mpr (nodup_privateTitles db accountId)
  rw [(repairTitles_spec h).2, List.map_map, List.map_map]
  exact (hsorted.filter _).map fun pk pk' heq => (Prod.mk.inj heq).2

/-- The journal takes the titles back. -/
theorem untitle (h : repairTitles db accountId = .ok (titled, titles)) :
    edits Chat.key titled.chats (titles.map (TitleEntry.restore accountId)) = db.chats := by
  have hpass := (MaxDialogs.fillDialogTitles_spec (fillTitles_spec (repairTitles_spec h).1).1).1
  rw [edits_eq_map (nodup_titles h) (TitleEntry.keep_restore accountId titles)]
  refine map_eq_of_forall₂ hpass ?_
  intro chat hrow chat' hrow' hretitled
  have hkey : chat'.key = chat.key := by
    rcases hretitled with rfl | ⟨-, title, rfl⟩ <;> rfl
  by_cases hentry : chat.key ∈ (titles.map (TitleEntry.restore accountId)).map Prod.fst
  · obtain ⟨e, he, hk⟩ := List.mem_map.mp hentry
    obtain ⟨t, ht, rfl⟩ := List.mem_map.mp he
    obtain ⟨read, hread, hsel, rfl, -⟩ := (mem_titles h).mp ht
    -- the entry is that of this chat
    have hsame : read = chat := by
      refine eq_of_key db.hchats hread hrow ?_
      rw [← hk, ← (selected_iff.mp hsel).1]
      rfl
    have happlied : applied (titles.map (TitleEntry.restore accountId)) chat.key =
        fun c : Chat => { c with title := read.title } := applied_of_mem (nodup_titles h) (hk ▸ he)
    rw [hkey, happlied]
    show { chat' with title := read.title } = chat
    rw [hsame]
    rcases hretitled with rfl | ⟨-, title, rfl⟩ <;> rfl
  · rw [hkey, applied_of_not_mem hentry]
    show chat' = chat
    rcases hretitled with rfl | ⟨hsel, title, rfl⟩
    · rfl
    · by_contra hne
      have hnew : Dict.get chat.id (titled.privateTitles accountId) = some title := get_privateTitles hrow' hsel
      have hlisted : (⟨chat.id, chat.title⟩ : TitleEntry) ∈ titles := by
        refine (mem_titles h).mpr ⟨chat, hrow, hsel, rfl, ?_⟩
        rw [hnew]
        rintro rfl
        exact hne rfl
      have hk : chat.key = (accountId, chat.id) := congrArg (·, chat.id) (selected_iff.mp hsel).1
      exact hentry (hk ▸ List.mem_map_of_mem (List.mem_map_of_mem hlisted))

/-- A second time, no title is set. -/
theorem repairTitles_again {db' : Db} (h : repairTitles db accountId = .ok (titled, titles))
    (haccounts : db'.accounts = titled.accounts) (husers : db'.users = titled.users)
    (hchats : db'.chats = titled.chats) :
    ∃ again, repairTitles db' accountId = .ok (again, []) ∧ SameRows db' again := by
  obtain ⟨hfill, hsame⟩ := fillTitles_spec (repairTitles_spec h).1
  have hfixed := (MaxDialogs.fillDialogTitles_spec hfill).2
  have hsettled : fillDialogTitles db'.accounts db'.users db'.chats accountId none = .ok db'.chats := by
    rw [haccounts, husers, hchats, hsame.accounts, hsame.users]
    exact hfixed
  obtain ⟨again, hagain, hrows⟩ := fillTitles_settled hsettled
  refine ⟨again, ?_, hrows⟩
  have htitles : again.privateTitles accountId = db'.privateTitles accountId := by
    unfold Db.privateTitles
    rw [hrows.chats]
  unfold repairTitles
  rw [hagain]
  simp [Except.map, htitles]

/-! ## Media, added and taken back -/

/-- The journal takes the media rows back: no row that was there has an id that was drawn. -/
theorem unadd (accountId : Int) {media added : List Medium} {next : Int} (hold : ∀ m ∈ media, m.id < next)
    (hnew : ∀ m ∈ added, m.accountId = accountId ∧ next ≤ m.id) :
    let listed := fun m : Medium => m.accountId = accountId && (added.map Medium.id).contains m.id
    deleteWhere (media ++ added) listed = media ∧ (media ++ added).filter listed = added := by
  intro listed
  have hlisted : ∀ m, listed m = true ↔ m.accountId = accountId ∧ ∃ m' ∈ added, m'.id = m.id := by
    simp [listed]
  have hkept : ∀ m ∈ media, listed m = false := by
    intro m hm
    rw [Bool.eq_false_iff]
    intro h
    obtain ⟨-, m', hm', heq⟩ := (hlisted m).mp h
    have hlt := hold m hm
    have hle := (hnew m' hm').2
    omega
  have hgone : ∀ m ∈ added, listed m = true := fun m hm => (hlisted m).mpr ⟨(hnew m hm).1, m, hm, rfl⟩
  constructor
  · have hnone : added.filter (fun m => !listed m) = [] := by
      rw [List.filter_eq_nil_iff]
      intro m hm
      simp [hgone m hm]
    have hall : media.filter (fun m => !listed m) = media := by
      rw [List.filter_eq_self]
      intro m hm
      simp [hkept m hm]
    rw [deleteWhere, List.filter_append, hall, hnone, List.append_nil]
  · have hnone : media.filter listed = [] := by
      rw [List.filter_eq_nil_iff]
      intro m hm
      simp [hkept m hm]
    rw [List.filter_append, hnone, List.filter_eq_self.mpr hgone, List.nil_append]

/-! ## Runs -/

variable {db' : Db} {name : String} {journal : Journal} {account : Account}

theorem maxAccount_iff {f : Account → Bool} :
    db.maxAccount f = .ok account ↔ db.accounts.find? f = some account ∧ account.platform = "max" := by
  unfold Db.maxAccount
  cases db.accounts.find? f with
  | none => exact iff_of_false (by rintro ⟨⟩) (by rintro ⟨⟨⟩, -⟩)
  | some a =>
      show (if a.platform = "max" then Except.ok a else Except.error Failure.refused) = .ok account ↔ _
      by_cases hmax : a.platform = "max"
      · rw [if_pos hmax]
        constructor
        · rintro ⟨⟩
          exact ⟨rfl, hmax⟩
        · rintro ⟨⟨⟩, -⟩
          rfl
      · rw [if_neg hmax]
        refine iff_of_false (by rintro ⟨⟩) ?_
        rintro ⟨⟨⟩, h⟩
        exact hmax h

/-- The account of a name is found by its id, too. -/
theorem maxAccount_id (h : db.maxAccount (fun a => a.«alias» = name) = .ok account) :
    db.maxAccount (fun a => a.id = account.id) = .ok account := by
  obtain ⟨hfound, hmax⟩ := maxAccount_iff.mp h
  refine maxAccount_iff.mpr ⟨?_, hmax⟩
  exact (byKey_eq_some db.haccounts).mpr ⟨List.mem_of_find?_eq_some hfound, rfl⟩

/-- The parts of a run. -/
theorem repair_iff : repair validate db name true = .ok (db', journal) ↔
    ∃ account titled titles s, db.maxAccount (fun a => a.«alias» = name) = .ok account ∧
      repairTitles db account.id = .ok (titled, titles) ∧ repairMessages validate titled account.id = .ok s ∧
      s.db = db' ∧ (⟨account.«alias», account.id, true, titles, s.changed, s.inserted⟩ : Journal) = journal := by
  unfold repair
  constructor
  · intro h
    cases haccount : db.maxAccount (fun a => a.«alias» = name) with
    | error e =>
        rw [haccount] at h
        cases h
    | ok account =>
        rw [haccount] at h
        cases htitles : repairTitles db account.id with
        | error e =>
            simp [bind, Except.bind, htitles] at h
        | ok t =>
            cases hrun : repairMessages validate t.1 account.id with
            | error e => simp [bind, Except.bind, htitles, hrun] at h
            | ok s =>
                simp only [bind, Except.bind, htitles, hrun, if_pos, Except.ok.injEq, Prod.mk.injEq] at h
                exact ⟨account, t.1, t.2, s, rfl, htitles, hrun, h.1, h.2⟩
  · rintro ⟨account, titled, titles, s, haccount, htitles, hrun, rfl, rfl⟩
    rw [haccount]
    simp [bind, Except.bind, htitles, hrun]

/-- The statements of an undo. -/
theorem undo_spec (journal : Journal) (haccount : db.maxAccount (fun a => a.id = journal.accountId) = .ok account)
    (hname : account.«alias» = journal.account) :
    let listed := fun m : Medium => m.accountId = account.id && journal.media.contains m.id
    ∃ undone, undo db journal true = .ok (undone, (db.media.filter listed).length) ∧
      undone.accounts = db.accounts ∧ undone.users = db.users ∧
      undone.chats = edits Chat.key db.chats (journal.titles.map (TitleEntry.restore account.id)) ∧
      undone.messages = edits Message.key db.messages (journal.messages.map (MessageEntry.restore account.id)) ∧
      undone.media = deleteWhere db.media listed := by
  intro listed
  unfold undo
  rw [haccount]
  simp only [bind, Except.bind, hname, ne_eq, not_true_eq_false, if_false, if_true]
  by_cases hmedia : journal.media = []
  · have hnone : ∀ m, listed m = false := by simp [listed, hmedia]
    have hremoved : (db.media.filter listed).length = 0 := by simp [hnone]
    have hkept : deleteWhere db.media listed = db.media := by simp [deleteWhere, hnone]
    rw [if_pos hmedia, if_pos hmedia, hremoved, hkept]
    exact ⟨db.restore account.id journal, rfl, rfl, rfl, rfl, rfl, rfl⟩
  · rw [if_neg hmedia, if_neg hmedia]
    exact ⟨(db.deleteMedia listed).restore account.id journal, rfl, rfl, rfl, rfl, rfl, rfl⟩

/-- A second repair finds nothing to do. -/
theorem repair_again (h : repair validate db name true = .ok (db', journal)) :
    ∃ again, repair validate db' name true =
      .ok (again, { journal with titles := [], messages := [], media := [] }) ∧ SameRows db' again := by
  obtain ⟨account, titled, titles, s, haccount, htitles, hrun, rfl, rfl⟩ := repair_iff.mp h
  obtain ⟨-, hsame⟩ := fillTitles_spec (repairTitles_spec htitles).1
  have hwrote := (repairMessages_spec hrun).1
  -- the titles are a fixed point, and every candidate is settled
  obtain ⟨again, hagain, hrows⟩ := repairTitles_again htitles hwrote.accounts hwrote.users hwrote.chats
  have hcandidates : again.candidates account.id = s.db.candidates account.id := by
    unfold Db.candidates
    rw [hrows.messages]
  have hsettled : ∀ c ∈ again.candidates account.id, Settled validate account.id again.media c := by
    rw [hcandidates, hrows.media]
    exact settled_of_repairMessages hrun
  obtain ⟨s', hrun', hidle⟩ := repairMessages_settled (s := ⟨again, [], []⟩) hsettled
  have haccount' : s.db.maxAccount (fun a => a.«alias» = name) = .ok account := by
    unfold Db.maxAccount at haccount ⊢
    rw [hwrote.accounts, hsame.accounts]
    exact haccount
  refine ⟨s'.db, repair_iff.mpr ⟨account, again, [], s', haccount', hagain, hrun', rfl, ?_⟩, ?_⟩
  · rw [hidle.changed, hidle.inserted]
  · exact hrows.trans hidle.rows

/-- The undo of a repair brings the rows back, and deletes as many media rows as the journal lists. -/
theorem undo_of_repair (h : repair validate db name true = .ok (db', journal)) {now : Db} (hnow : SameRows db' now) :
    ∃ undone, undo now journal true = .ok (undone, journal.media.length) ∧ SameRows db undone := by
  obtain ⟨account, titled, titles, s, haccount, htitles, hrun, rfl, rfl⟩ := repair_iff.mp h
  obtain ⟨-, hsame⟩ := fillTitles_spec (repairTitles_spec htitles).1
  have hwrote := (repairMessages_spec hrun).1
  obtain ⟨added, hmedia, hinserted, hnew⟩ := hwrote.media
  have haccounts : now.accounts = db.accounts := by rw [hnow.accounts, hwrote.accounts, hsame.accounts]
  have haccount' : now.maxAccount (fun a => a.id = account.id) = .ok account := by
    have hid := maxAccount_id haccount
    unfold Db.maxAccount at hid ⊢
    rw [haccounts]
    exact hid
  obtain ⟨undone, hundo, hacc, husers, hchats, hmessages, hmedia'⟩ :=
    undo_spec ⟨account.«alias», account.id, true, titles, s.changed, s.inserted⟩ haccount' rfl
  -- the journal lists the media rows that were added, and no other
  have hlisted : s.inserted = added.map Medium.id := hinserted
  have hmediaNow : now.media = titled.media ++ added := hnow.media.trans hmedia
  simp only [hlisted, hmediaNow] at hundo hmedia'
  obtain ⟨hback, hremoved⟩ := unadd account.id titled.hmedia hnew
  refine ⟨undone, ?_, ?_⟩
  · simp only [hlisted, List.length_map]
    rw [hundo, hremoved]
  · exact {
      accounts := hacc.trans haccounts
      users := by rw [husers, hnow.users, hwrote.users, hsame.users]
      chats := by
        rw [hchats, hnow.chats, hwrote.chats]
        exact untitle htitles
      messages := by
        rw [hmessages, hnow.messages, hwrote.messages, hwrote.changed]
        exact (unwrite titled account.id).trans hsame.messages
      media := by
        rw [hmedia', hback]
        exact hsame.media }

/-- **Done once, undone whole.** After a repair a second one finds nothing to do and leaves the rows as they are, and
    the undo of the first, with or without that second run between, brings the rows back that were there before it. -/
theorem repair_undo (h : repair validate db name true = .ok (db', journal)) :
    (∃ again, repair validate db' name true =
      .ok (again, { journal with titles := [], messages := [], media := [] }) ∧ SameRows db' again) ∧
    ∀ now, SameRows db' now →
      ∃ undone, undo now journal true = .ok (undone, journal.media.length) ∧ SameRows db undone := by
  constructor
  · exact repair_again h
  · intro now hnow
    exact undo_of_repair h hnow

/-- The raw of a photo that was forwarded. -/
def forwardRaw : Json :=
  let photo := Json.obj [("_type", .str "PHOTO"), ("photoId", .int 9101)]
  let message := Json.obj [("text", .str "hi"), ("attaches", .arr [photo])]
  .obj [("id", .str "14"), ("text", .str ""), ("attaches", .arr []),
    ("link", .obj [("type", .str "FORWARD"), ("message", message)])]

/-- That raw, as the client reads it. -/
def forwardMsg : Msg :=
  let photo : Attachment :=
    ⟨.photo, some 9101, none, none, none, none, none, none, none, none, none, none⟩
  ⟨none, none, [], some ⟨.forward, some ⟨some "hi", [photo]⟩⟩⟩

/-- The saved messages without a title, and the forward without its photo. -/
def stale : Db where
  accounts := [⟨1, "max", "max", some 7⟩]
  chats := [⟨1, 10, 0, "private", none, .null⟩]
  users := []
  messages := [⟨1, 5, "text", none, forwardRaw⟩]
  media := []
  nextMediaId := 1
  haccounts := by decide
  hchats := by decide
  hmessages := by decide
  hmedia := by decide

/-- The saved messages get their title, the forward its type, text and photo; and all that is taken back. -/
theorem repair_undo_stale : ∃ db' journal, repair (fun _ => some forwardMsg) stale "max" true = .ok (db', journal) ∧
    journal = ⟨"max", 1, true, [⟨10, none⟩], [⟨5, "text", none⟩], [1]⟩ ∧
    db'.media = [⟨1, 1, 5, 0, "photo", some "9101", none, none, none, none⟩] ∧
    (∃ again, repair (fun _ => some forwardMsg) db' "max" true = .ok (again, ⟨"max", 1, true, [], [], []⟩) ∧
      SameRows db' again) ∧
    ∃ undone, undo db' journal true = .ok (undone, 1) ∧ SameRows stale undone := by
  let titled : Db := stale.setChats [⟨1, 10, 0, "private", some MaxDialogs.savedMessagesTitle, .null⟩] rfl
  have hfill : stale.fillTitles 1 = .ok titled := rfl
  have htitles : repairTitles stale 1 = .ok (titled, [⟨10, none⟩]) := by
    unfold repairTitles
    rw [hfill]
    simp [Except.map, Db.privateTitles, stale, titled, Db.setChats, Dict.get_cons]
  have hcandidates : titled.candidates 1 = stale.messages := by
    simp [Db.candidates, stale, titled, Db.setChats, isCandidate, forwardRaw, Json.get?, Json.field]
  obtain ⟨s, hrun, hmedia, hchanged, hinserted⟩ : ∃ s, repairMessages (fun _ => some forwardMsg) titled 1 = .ok s ∧
      s.db.media = [⟨1, 1, 5, 0, "photo", some "9101", none, none, none, none⟩] ∧
      s.changed = [⟨5, "text", none⟩] ∧ s.inserted = [1] := by
    unfold repairMessages
    rw [hcandidates]
    exact ⟨_, rfl, rfl, rfl, rfl⟩
  have haccount : stale.maxAccount (fun a => a.«alias» = "max") = .ok ⟨1, "max", "max", some 7⟩ := rfl
  have hrepair := repair_iff.mpr ⟨_, titled, _, s, haccount, htitles, hrun, rfl, rfl⟩
  rw [hchanged, hinserted] at hrepair
  obtain ⟨hagain, hundo⟩ := repair_undo hrepair
  exact ⟨_, _, hrepair, rfl, hmedia, hagain, hundo s.db (SameRows.refl s.db)⟩

end MyPerson.MaxRepair
