import MyPerson.Isolation.Rows
import MyPerson.Isolation.System

/-!
# `Isolation.Facts` — what the new tables know of the legacy tables

A run does not carry everything: what changes while it goes on is left to the next delta. So each fact about the
tables holds up to an `Excuse`, a test on legacy rows that says which may be missed. The excuse of a watermark is
the filter of the delta that starts from it; `Excuse.nothing` excuses nothing, and the facts of a run that nothing
interrupts hold up to it.

## Contents
- `Excuse`, `Mark.excuse`, `Late`, `Young`;
- `Kept` and `Current`, of all tables; `Whole`, of the tables after a copy;
- `PlaceKnown`, `SendersKnown`, `PostsKnown`, `RowsKnown`, `MediaKnown`, of a part of a run;
- `Facts`, what holds at each stage;
- `Exact`: the tables are what the legacy tables ask for.
-/

namespace MyPerson.Isolation

open Lib
open WriteLimits (Platform)

/-! ## Excuses -/

/-- Which legacy rows the tables may have missed. -/
structure Excuse where
  pending : Platform → LegacyMessage → Prop
  young : LegacyChat → Prop
  late : Platform → LegacyMedia → Prop

/-- What the delta since `w` selects. -/
def Mark.excuse (w : Mark) : Excuse where
  pending p m := pending w p m = true
  young c := young w c = true
  late p d := lateMedia w p d = true

def Excuse.nothing : Excuse := ⟨fun _ _ => False, fun _ => False, fun _ _ => False⟩

/-- The message and all its media may have been missed. -/
def Late (E : Excuse) (L : Legacy) (p : Platform) (m : LegacyMessage) : Prop :=
  E.pending p m ∧ ∀ d ∈ L.media p, d.messagePk = m.id → E.late p d

/-- The chat may have been missed. -/
def Young (E : Excuse) (L : Legacy) (p : Platform) (chat : Int) : Prop :=
  ∃ c, L.chatOf p chat = some c ∧ E.young c

/-! ## The tables -/

section

variable (ctx : Ctx) (E : Excuse) (L : Legacy)

/-- Nothing in the tables is foreign to the legacy tables: owners are candidates, a message row is of a message
    that its account wants and fits it, a media row is that of a legacy row. -/
structure Kept (T : Tables) : Prop where
  nodup : T.owners.Nodup
  owners : ∀ o ∈ T.owners, o ∈ candidates ctx L allRules
  rows : ∀ k row, T.messages k = some row → ∃ p m a, Wants ctx L p m a ∧ k = keyOf a m ∧
    (⟨p, m.chatId, a⟩ : Owner) ∈ T.owners ∧ Fits ctx L p m a row
  media : ∀ k row, T.media k = some row → ∃ p d m a, Wants ctx L p m a ∧ d ∈ L.media p ∧ d.messagePk = m.id ∧
    k = ⟨keyOf a m, d.attach p⟩ ∧ row = mediaRow d ∧ (T.messages (keyOf a m)).isSome

/-- A message row is final, or its message is excused. -/
def Current (T : Tables) : Prop :=
  ∀ p m a row, Wants ctx L p m a → T.messages (keyOf a m) = some row → row = finalRow ctx L p m a ∨ E.pending p m

/-- What is missing is excused. -/
structure Whole (T : Tables) : Prop where
  chats : ∀ p m a, Wants ctx L p m a → (a, m.chatId) ∈ T.chats ∨ Young E L p m.chatId
  rows : ∀ p m a, Wants ctx L p m a → (T.messages (keyOf a m)).isSome ∨ E.pending p m
  media : ∀ p m a d, Wants ctx L p m a → d ∈ L.media p → d.messagePk = m.id →
    (T.media ⟨keyOf a m, d.attach p⟩).isSome ∨ E.late p d

/-! ## Parts of a run -/

/-- The accounts of the platform have a place for the chats they want messages of. -/
def PlaceKnown (p : Platform) (known : Int → Int → Prop) : Prop :=
  ∀ m a, Wants ctx L p m a → known m.chatId a ∨ (Late E L p m ∧ Young E L p m.chatId)

def OwnersKnown (owners : List Owner) : Prop :=
  ∀ p, PlaceKnown ctx E L p fun chat a => ⟨p, chat, a⟩ ∈ owners

/-- `known` is the table of identities, or of users. -/
def SendersKnown (known : Platform → Int → Int → Prop) : Prop :=
  ∀ p m a x, Wants ctx L p m a → m.fromUserId = some x → known p a x ∨ E.pending p m

/-- The number of owners of a post's chat is settled. -/
def PostsKnown (owners : List Owner) : Prop :=
  ∀ m ∈ L.messages .telegram, m.isPost → L.privateChat m.chatId = false →
    (Sole owners m.chatId ↔ Sole (candidates ctx L allRules) m.chatId)

def ChatsKnown (p : Platform) (chats : List (Int × Int)) : Prop :=
  PlaceKnown ctx E L p fun chat a => (a, chat) ∈ chats

/-- Of the messages whose id is `done`. -/
def RowsKnown (T : Tables) (p : Platform) (done : Int → Prop) : Prop :=
  ∀ m a, Wants ctx L p m a → done m.id →
    (∃ row, T.messages (keyOf a m) = some row ∧ (row = finalRow ctx L p m a ∨ E.pending p m)) ∨
      (T.messages (keyOf a m) = none ∧ Late E L p m)

/-- Of the media whose id is `done`. -/
def MediaKnown (T : Tables) (p : Platform) (done : Int → Prop) : Prop :=
  ∀ m a d, Wants ctx L p m a → d ∈ L.media p → d.messagePk = m.id → done d.id →
    (T.media ⟨keyOf a m, d.attach p⟩).isSome ∨ E.late p d

/-- Not in what the next statements take. -/
def outside (lo hi : Int) (id : Int) : Prop := ¬ (lo < id ∧ id ≤ hi)

def always (_ : Int) : Prop := True

def identityKnown (T : Tables) (p : Platform) (_ x : Int) : Prop := (p, x) ∈ T.identities

def userKnown (T : Tables) (_ : Platform) (a x : Int) : Prop := (a, x) ∈ T.users

/-- Where the owners are, seen from a stage: in the table, selected, or still to be selected. -/
def ownersAhead (T : Tables) : Stage → List Owner
  | .owners rest got => T.owners ++ (got ++ candidates ctx L rest)
  | _ => T.owners

/-- After step C. -/
structure Named (T : Tables) (ahead : List Owner) : Prop where
  senders : SendersKnown ctx E L (identityKnown T)
  owners : OwnersKnown ctx E L ahead
  posts : PostsKnown ctx L ahead

/-- After step F. -/
structure Placed (T : Tables) : Prop where
  owners : OwnersKnown ctx E L T.owners
  chats : ∀ p, ChatsKnown ctx E L p T.chats
  senders : SendersKnown ctx E L (userKnown T)

/-- What a run has established when it comes to a stage. -/
def Facts (T : Tables) : Stage → Prop
  | .reading _ | .identities => True
  | .owners rest got =>
      Named ctx E L T (ownersAhead ctx L T (.owners rest got)) ∧ ∀ o ∈ got, o ∈ candidates ctx L allRules
  | .preconditions | .chats none => Named ctx E L T T.owners
  | .chats (some got) => Named ctx E L T T.owners ∧ ChatsKnown ctx E L .telegram (T.chats ++ got)
  | .users => Named ctx E L T T.owners ∧ ∀ p, ChatsKnown ctx E L p T.chats
  | .messages p range =>
      Placed ctx E L T ∧ (p = .telegram → PostsKnown ctx L T.owners) ∧
        (p = .max → RowsKnown ctx E L T .telegram always) ∧
        ∀ lo hi, range = some (lo, hi) → RowsKnown ctx E L T p (outside lo hi)
  | .media p range =>
      Placed ctx E L T ∧ (∀ q, RowsKnown ctx E L T q always) ∧
        (p = .max → MediaKnown ctx E L T .telegram always) ∧
        ∀ lo hi, range = some (lo, hi) → MediaKnown ctx E L T p (outside lo hi)
  | .rest =>
      (∀ p, ChatsKnown ctx E L p T.chats) ∧ (∀ p, RowsKnown ctx E L T p always) ∧
        ∀ p, MediaKnown ctx E L T p always

end

variable {ctx : Ctx} {E : Excuse} {L : Legacy} {T T' : Tables} {p : Platform} {m : LegacyMessage} {a : Int}

/-! ## Tables that grow -/

theorem PlaceKnown.mono {known known' : Int → Int → Prop} (h : PlaceKnown ctx E L p known)
    (hsub : ∀ chat a, known chat a → known' chat a) : PlaceKnown ctx E L p known' :=
  fun m a hw => (h m a hw).imp_left (hsub _ a)

theorem OwnersKnown.mono {owners owners' : List Owner} (h : OwnersKnown ctx E L owners) (hsub : owners ⊆ owners') :
    OwnersKnown ctx E L owners' :=
  fun p => (h p).mono fun _ _ ho => hsub ho

theorem SendersKnown.mono {known known' : Platform → Int → Int → Prop} (h : SendersKnown ctx E L known)
    (hsub : ∀ p a x, known p a x → known' p a x) : SendersKnown ctx E L known' :=
  fun p m a x hw hx => (h p m a x hw hx).imp_left (hsub p a x)

theorem ChatsKnown.mono {chats chats' : List (Int × Int)} (h : ChatsKnown ctx E L p chats) (hsub : chats ⊆ chats') :
    ChatsKnown ctx E L p chats' :=
  PlaceKnown.mono h fun _ _ hc => hsub hc

theorem MediaKnown.mono {done done' : Int → Prop} (h : MediaKnown ctx E L T p done)
    (hrows : ∀ k, (T.media k).isSome → (T'.media k).isSome) (hdone : ∀ id, done' id → done id) :
    MediaKnown ctx E L T' p done' :=
  fun m a d hw hd hof hid => (h m a d hw hd hof (hdone _ hid)).imp_left (hrows _)

theorem Whole.mono (h : Whole ctx E L T) (hchats : T.chats ⊆ T'.chats)
    (hrows : ∀ k, (T.messages k).isSome → (T'.messages k).isSome)
    (hmedia : ∀ k, (T.media k).isSome → (T'.media k).isSome) : Whole ctx E L T' :=
  ⟨fun p m a hw => (h.chats p m a hw).imp_left (hchats ·), fun p m a hw => (h.rows p m a hw).imp_left (hrows _),
    fun p m a d hw hd hof => (h.media p m a d hw hd hof).imp_left (hmedia _)⟩

/-- The tables are whole at the end of a run. -/
theorem Whole.of_rest (h : Facts ctx E L T .rest) : Whole ctx E L T := by
  obtain ⟨hchats, hrows, hmedia⟩ := h
  refine ⟨fun p m a hw => ?_, fun p m a hw => ?_, fun p m a d hw hd hof => hmedia p m a d hw hd hof trivial⟩
  · exact (hchats p m a hw).imp_right And.right
  · rcases hrows p m a hw trivial with ⟨row, hrow, -⟩ | ⟨-, hlate⟩
    · exact Or.inl (by rw [hrow]; rfl)
    · exact Or.inr hlate.1

theorem Current.of_rest (h : Facts ctx E L T .rest) : Current ctx E L T := by
  intro p m a row hw hrow
  rcases h.2.1 p m a hw trivial with ⟨row', hrow', hfinal⟩ | ⟨hnone, -⟩
  · rw [hrow] at hrow'
    cases hrow'
    exact hfinal
  · rw [hrow] at hnone
    cases hnone

/-! ## What the legacy tables ask for -/

/-- The rows are exactly those that the legacy tables ask for. -/
structure Exact (ctx : Ctx) (L : Legacy) (T : Tables) : Prop where
  rows : ∀ k row, T.messages k = some row ↔
    ∃ p m a, Wants ctx L p m a ∧ k = keyOf a m ∧ row = finalRow ctx L p m a
  media : ∀ k row, T.media k = some row ↔
    ∃ p d m a, Wants ctx L p m a ∧ d ∈ L.media p ∧ d.messagePk = m.id ∧ k = ⟨keyOf a m, d.attach p⟩ ∧ row = mediaRow d

/-- Facts up to nothing. -/
theorem Exact.of_facts (hL : L.Valid ctx) (hkept : Kept ctx L T) (hfacts : Facts ctx .nothing L T .rest) :
    Exact ctx L T := by
  have hcurrent := Current.of_rest hfacts
  have hwhole := Whole.of_rest hfacts
  refine ⟨fun k row => ⟨fun h => ?_, ?_⟩, fun k row => ⟨fun h => ?_, ?_⟩⟩
  · obtain ⟨p, m, a, hw, rfl, -, -⟩ := hkept.rows k row h
    exact ⟨p, m, a, hw, rfl, (hcurrent p m a row hw h).resolve_right id⟩
  · rintro ⟨p, m, a, hw, rfl, rfl⟩
    obtain ⟨row, hrow⟩ := Option.isSome_iff_exists.mp ((hwhole.rows p m a hw).resolve_right id)
    rw [hrow, (hcurrent p m a row hw hrow).resolve_right id]
  · obtain ⟨p, d, m, a, hw, hd, hof, hk, hrow, -⟩ := hkept.media k row h
    exact ⟨p, d, m, a, hw, hd, hof, hk, hrow⟩
  · rintro ⟨p, d, m, a, hw, hd, hof, rfl, rfl⟩
    obtain ⟨row, hrow⟩ := Option.isSome_iff_exists.mp ((hwhole.media p m a d hw hd hof).resolve_right id)
    obtain ⟨q, d', m', a', hw', hd', hof', hk, rfl, -⟩ := hkept.media _ _ hrow
    obtain ⟨hkey, hattach⟩ := MediaKey.mk.injEq .. ▸ hk
    obtain ⟨rfl, rfl, rfl⟩ := hw.eq_of_key hL hw' hkey
    rw [hrow, hL.mediaKeys p d hd d' hd' (hof.trans hof'.symm) hattach]

/-- Two exact tables have the same rows. -/
theorem Exact.unique (h : Exact ctx L T) (h' : Exact ctx L T') : T.messages = T'.messages ∧ T.media = T'.media := by
  constructor
  · funext k
    exact Option.ext fun row => (h.rows k row).trans (h'.rows k row).symm
  · funext k
    exact Option.ext fun row => (h.media k row).trans (h'.media k row).symm

end MyPerson.Isolation
