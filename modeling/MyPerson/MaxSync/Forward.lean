import Mathlib.Data.List.Infix
import MyPerson.MaxSync.Coverage
import MyPerson.Repo.Merge

/-!
# `MaxSync.Forward` — one call of `_forward` from end to end

`MaxSync._forward` on a history that does not change, with stores that succeed. Several messages may have
one time, so a page can end between two of them. The ids of `seen_at_cursor` are those of the last page
only: a page that stays in the millisecond of the cursor forgets what the pages before it showed there.

## Contents
- `Server`, `forwardRounds`, `forward`: the loop with its requests and its stores;
- `EndsAndWastesNothing`, and the histories where it holds: `pagesClean`, `forwardClean`;
- `Settled`: what a round keeps when its page reaches past the cursor;
- the rounds that do not, and the main result;
- `run_forward`: the call is a job of the session.
-/

namespace MyPerson.MaxSync

open Lib Repo MaxIngest

/-! ## The call -/

/-- The server's history of one chat. Times may repeat, ids do not; a page is listed in any order. -/
structure Server where
  history     : List Msg
  sorted      : history.Pairwise fun a b => a.time ≤ b.time
  ids         : history.Pairwise fun a b => a.id ≠ b.id
  /-- The order in which the answer to a request lists a page. -/
  listed      : Nat → List Msg → List Msg
  listed_perm : ∀ request page, (listed request page).Perm page

/-- What `_forward` has done: its requests, and the messages it stored. -/
structure Call where
  requests : Nat
  stores   : List Msg

/-- The loop of `_forward`. A round that does not end it stores a message. -/
def forwardRounds (srv : Server) (limit : Nat) : Nat → Call → Int → List Int → Call
  | 0, call, _, _ => call
  | fuel + 1, call, cursor, seenAtCursor =>
      if call.stores.length < limit then
        let remaining := limit - call.stores.length
        let page := srv.listed call.requests (oldestFrom Msg.time srv.history cursor (pageOf remaining true))
        let newer := newerThan cursor seenAtCursor page
        let sorted := sortByTime Msg.time newer
        match sorted.getLast? with
        | none => ⟨call.requests + 1, call.stores⟩
        | some newest =>
            forwardRounds srv limit fuel ⟨call.requests + 1, call.stores ++ sorted.take remaining⟩ newest.time
              ((newer.filter fun m => m.time == newest.time).map Msg.id)
      else call

/-- `_forward` from the cursor at the message `start`. -/
def forward (srv : Server) (limit : Nat) (start : Msg) : Call :=
  forwardRounds srv limit limit ⟨0, []⟩ start.time [start.id]

/-- The messages from a time on. -/
def Server.from (srv : Server) (t : Int) : List Msg := srv.history.filter fun m => t ≤ m.time

/-- One request more than there are messages at most, no message stored twice, and below the limit nothing
    from the cursor on is missing; `had` are the ids stored before. -/
structure EndsAndWastesNothing (srv : Server) (had : List Int) (limit : Nat) (start : Msg) (call : Call) :
    Prop where
  requests : call.requests ≤ (srv.from start.time).length + 1
  once : call.stores.Nodup
  complete : call.stores.length < limit →
    ∀ m ∈ srv.history, start.time ≤ m.time → m.id ∈ had ∨ m ∈ call.stores

/-! ## Where it holds -/

/-- The pages from the millisecond `cursor` on, of whose messages the first `seen` were on the page before.
    A page that shows nothing new has to leave nothing out, and one that shows more of this millisecond
    only has to use up the limit. -/
def pagesClean (srv : Server) (had : List Int) : Nat → Nat → Int → Nat → Bool
  | 0, _, _, _ => true
  | fuel + 1, remaining, cursor, seen =>
      remaining == 0 ||
        let page := (srv.from cursor).take (pageOf remaining true)
        let new := page.drop seen
        match new.getLast? with
        | none => ((srv.from cursor).drop seen).all fun m => had.contains m.id
        | some newest =>
            if cursor < newest.time then
              pagesClean srv had fuel (remaining - new.length) newest.time
                (page.filter fun m => m.time == newest.time).length
            else new.length == remaining

/-- A first page that stays in the millisecond of the cursor. Without the cursor's message on it, it has to
    use up the limit or leave nothing out. With it, the page after it must not list that message again,
    unless that uses up the limit. -/
def firstPageClean (srv : Server) (had : List Int) (limit : Nat) (start : Msg) (page : List Msg) : Bool :=
  let left := ((srv.from start.time).drop page.length).all fun m => had.contains m.id
  if page.contains start then
    page.length == 1 || page.length == limit + 1 ||
      if ((srv.from start.time).take (pageOf (limit - (page.length - 1)) true)).contains start then
        page.length == limit
      else left
  else limit ≤ page.length || left

def forwardClean (srv : Server) (had : List Int) (limit : Nat) (start : Msg) : Bool :=
  let page := (srv.from start.time).take (pageOf limit true)
  limit == 0 ||
    match page.getLast? with
    | none => true
    | some newest =>
        if start.time < newest.time then
          pagesClean srv had (limit - 1) (limit - (page.length - 1)) newest.time
            (page.filter fun m => m.time == newest.time).length
        else firstPageClean srv had limit start page

/-! ## A round -/

variable {srv : Server} {had seen seen' : List Int} {limit fuel n g : Nat} {start m newest : Msg}
  {stores new sorted page : List Msg} {cursor t : Int}

theorem Server.eq_of_id {a b : Msg} (ha : a ∈ srv.history) (hb : b ∈ srv.history) (h : a.id = b.id) : a = b :=
  List.inj_on_of_nodup_map (List.pairwise_map.mpr srv.ids) ha hb h

theorem Server.nodup (srv : Server) : srv.history.Nodup := srv.ids.imp fun hne heq => hne (congrArg Msg.id heq)

@[simp] theorem Server.mem_from : m ∈ srv.from t ↔ m ∈ srv.history ∧ t ≤ m.time := by
  simp [Server.from]

theorem Server.from_sorted (srv : Server) (t : Int) : (srv.from t).Pairwise fun a b => a.time ≤ b.time :=
  srv.sorted.sublist List.filter_sublist

theorem Server.from_nodup (srv : Server) (t : Int) : (srv.from t).Nodup := srv.nodup.filter _

theorem Server.from_from (h : cursor ≤ t) : srv.from t = (srv.from cursor).filter fun m => t ≤ m.time := by
  unfold Server.from
  rw [List.filter_filter]
  apply List.filter_congr
  intro m _
  by_cases hle : t ≤ m.time
  · simp [hle, show cursor ≤ m.time by omega]
  · simp [hle]

/-- What a round that goes on stores, and where it leaves the cursor. -/
structure Round (srv : Server) (new sorted : List Msg) (newest : Msg) (seen' : List Int) : Prop where
  perm : sorted.Perm new
  mem : newest ∈ new
  latest : ∀ m ∈ new, m.time ≤ newest.time
  seen : ∀ m ∈ srv.history, m.id ∈ seen' ↔ m ∈ new ∧ m.time = newest.time

theorem forwardRounds_done (h : limit ≤ stores.length) (fuel r : Nat) (cursor : Int) (seen : List Int) :
    forwardRounds srv limit fuel ⟨r, stores⟩ cursor seen = ⟨r, stores⟩ := by
  cases fuel with
  | zero => rfl
  | succ fuel =>
      unfold forwardRounds
      rw [if_neg (by simpa using h)]

/-- **Round.** The loop ends when the page shows nothing new, and goes on from the newest of it otherwise. -/
theorem forwardRounds_succ (h : stores.length < limit) (r : Nat) (cursor : Int) (seen : List Int)
    (hpage : page = (srv.from cursor).take (pageOf (limit - stores.length) true))
    (hnew : new = newerThan cursor seen page) :
    (new = [] ∧ ∀ fuel, forwardRounds srv limit (fuel + 1) ⟨r, stores⟩ cursor seen = ⟨r + 1, stores⟩) ∨
      ∃ sorted newest seen', Round srv new sorted newest seen' ∧
        ∀ fuel, forwardRounds srv limit (fuel + 1) ⟨r, stores⟩ cursor seen =
          forwardRounds srv limit fuel ⟨r + 1, stores ++ sorted.take (limit - stores.length)⟩ newest.time seen' := by
  have hperm : (newerThan cursor seen (srv.listed r page)).Perm new := by
    rw [hnew]
    exact (srv.listed_perm r page).filter _
  have hsorted : (sortByTime Msg.time (newerThan cursor seen (srv.listed r page))).Perm new :=
    (sortByTime_perm _).trans hperm
  let newer := newerThan cursor seen (srv.listed r page)
  have hround : ∀ fuel, forwardRounds srv limit (fuel + 1) ⟨r, stores⟩ cursor seen =
      match (sortByTime Msg.time newer).getLast? with
      | none => ⟨r + 1, stores⟩
      | some newest =>
          forwardRounds srv limit fuel ⟨r + 1, stores ++ (sortByTime Msg.time newer).take (limit - stores.length)⟩
            newest.time ((newer.filter fun m => m.time == newest.time).map Msg.id) := by
    intro fuel
    rw [show newer = newerThan cursor seen (srv.listed r page) from rfl, hpage]
    exact if_pos h
  cases hlast : (sortByTime Msg.time newer).getLast? with
  | none =>
      have hnil := List.getLast?_eq_none_iff.mp hlast
      rw [hnil] at hsorted
      refine Or.inl ⟨hsorted.symm.eq_nil, fun fuel => ?_⟩
      rw [hround, hlast]
  | some newest =>
      refine Or.inr ⟨sortByTime Msg.time newer, newest,
        (newer.filter fun m => m.time == newest.time).map Msg.id, ⟨hsorted, ?mem, ?latest, ?seen⟩,
        fun fuel => by rw [hround, hlast]⟩
      case mem => exact hsorted.mem_iff.mp (List.mem_of_getLast? hlast)
      case latest =>
        intro m hm
        exact le_of_getLast? (sortByTime_sorted _) hlast (hsorted.mem_iff.mpr hm)
      case seen =>
        have hsub : ∀ y ∈ new, y ∈ srv.history := by
          intro y hy
          rw [hnew, hpage] at hy
          exact (Server.mem_from.mp (List.mem_of_mem_take (List.mem_filter.mp hy).1)).1
        intro m hm
        simp only [List.mem_map, List.mem_filter, beq_iff_eq]
        constructor
        · rintro ⟨y, ⟨hy, htime⟩, hid⟩
          have hy := hperm.mem_iff.mp hy
          obtain rfl := srv.eq_of_id (hsub y hy) hm hid
          exact ⟨hy, htime⟩
        · rintro ⟨hy, htime⟩
          exact ⟨m, ⟨hperm.mem_iff.mpr hy, htime⟩, rfl⟩

theorem newerThan_subset (hpage : page = (srv.from cursor).take n) (hm : m ∈ newerThan cursor seen page) :
    m ∈ page ∧ m ∈ srv.history ∧ cursor ≤ m.time := by
  have hin := (List.mem_filter.mp hm).1
  have hfrom : m ∈ srv.from cursor := List.mem_of_mem_take (hpage ▸ hin)
  exact ⟨hin, Server.mem_from.mp hfrom⟩

/-! ## What every call does -/

/-- What is stored stays stored. -/
theorem prefix_stores (fuel : Nat) : ∀ (r : Nat) (stores : List Msg) (cursor : Int) (seen : List Int),
    stores <+: (forwardRounds srv limit fuel ⟨r, stores⟩ cursor seen).stores := by
  induction fuel with
  | zero => exact fun _ _ _ _ => List.prefix_rfl
  | succ fuel ih =>
      intro r stores cursor seen
      by_cases hlt : stores.length < limit
      · rcases forwardRounds_succ hlt r cursor seen rfl rfl with ⟨-, heq⟩ | ⟨sorted, newest, seen', -, heq⟩
        · rw [heq]
        · rw [heq]
          exact (List.prefix_append _ _).trans (ih _ _ _ _)
      · rw [forwardRounds_done (by omega)]

/-- Each request but the last one brings a message to store. -/
theorem requests_le (fuel : Nat) : ∀ (r : Nat) (stores : List Msg) (cursor : Int) (seen : List Int),
    r ≤ stores.length → (forwardRounds srv limit fuel ⟨r, stores⟩ cursor seen).requests
      ≤ (forwardRounds srv limit fuel ⟨r, stores⟩ cursor seen).stores.length + 1 := by
  induction fuel with
  | zero =>
      intro r stores _ _ hr
      exact Nat.le_succ_of_le hr
  | succ fuel ih =>
      intro r stores cursor seen hr
      by_cases hlt : stores.length < limit
      · rcases forwardRounds_succ hlt r cursor seen rfl rfl with
          ⟨-, heq⟩ | ⟨sorted, newest, seen', hround, heq⟩
        · rw [heq]
          exact Nat.succ_le_succ hr
        · rw [heq]
          apply ih
          have hpos : 0 < sorted.length := List.length_pos_of_mem (hround.perm.mem_iff.mpr hround.mem)
          rw [List.length_append, List.length_take]
          omega
      · rw [forwardRounds_done (by omega)]
        exact Nat.le_succ_of_le hr

/-- Only messages from the cursor on are stored. -/
theorem stores_subset (fuel : Nat) : ∀ (r : Nat) (stores : List Msg) (cursor : Int) (seen : List Int),
    start.time ≤ cursor → stores ⊆ srv.from start.time →
      (forwardRounds srv limit fuel ⟨r, stores⟩ cursor seen).stores ⊆ srv.from start.time := by
  induction fuel with
  | zero => exact fun _ _ _ _ _ hsub => hsub
  | succ fuel ih =>
      intro r stores cursor seen hcursor hsub
      by_cases hlt : stores.length < limit
      · rcases forwardRounds_succ hlt r cursor seen rfl rfl with
          ⟨-, heq⟩ | ⟨sorted, newest, seen', hround, heq⟩
        · rw [heq]
          exact hsub
        · rw [heq]
          obtain ⟨-, -, hnewest⟩ := newerThan_subset rfl hround.mem
          refine ih _ _ _ _ (by omega) (List.append_subset.mpr ⟨hsub, fun m hm => ?_⟩)
          obtain ⟨-, hm, hle⟩ := newerThan_subset rfl (hround.perm.mem_iff.mp (List.mem_of_mem_take hm))
          exact Server.mem_from.mpr ⟨hm, by omega⟩
      · rw [forwardRounds_done (by omega)]
        exact hsub

/-- The loop has ended when the fuel is what the limit leaves: more of it changes nothing. -/
theorem forwardRounds_fuel (fuel : Nat) : ∀ (more r : Nat) (stores : List Msg) (cursor : Int) (seen : List Int),
    limit - stores.length ≤ fuel →
      forwardRounds srv limit (fuel + more) ⟨r, stores⟩ cursor seen
        = forwardRounds srv limit fuel ⟨r, stores⟩ cursor seen := by
  induction fuel with
  | zero =>
      intro more r stores cursor seen hfuel
      rw [forwardRounds_done (by omega), forwardRounds_done (by omega)]
  | succ fuel ih =>
      intro more r stores cursor seen hfuel
      rw [Nat.add_right_comm]
      by_cases hlt : stores.length < limit
      · rcases forwardRounds_succ hlt r cursor seen rfl rfl with ⟨-, heq⟩ | ⟨sorted, newest, seen', hround, heq⟩
        · rw [heq, heq]
        · rw [heq, heq]
          apply ih
          have hpos : 0 < sorted.length := List.length_pos_of_mem (hround.perm.mem_iff.mpr hround.mem)
          rw [List.length_append, List.length_take]
          omega
      · rw [forwardRounds_done (by omega), forwardRounds_done (by omega)]

/-- Nothing twice and nothing missing; the bound on the requests follows. -/
def Clean (srv : Server) (had : List Int) (limit : Nat) (start : Msg) (call : Call) : Prop :=
  call.stores.Nodup ∧
    (call.stores.length < limit → ∀ m ∈ srv.history, start.time ≤ m.time → m.id ∈ had ∨ m ∈ call.stores)

theorem endsAndWastesNothing_iff :
    EndsAndWastesNothing srv had limit start (forward srv limit start) ↔
      Clean srv had limit start (forward srv limit start) := by
  constructor
  · exact fun h => ⟨h.once, h.complete⟩
  · rintro ⟨honce, hcomplete⟩
    refine ⟨?_, honce, hcomplete⟩
    have hreq : (forward srv limit start).requests ≤ (forward srv limit start).stores.length + 1 :=
      requests_le limit 0 [] start.time [start.id] (Nat.le_refl 0)
    have hsub : (forward srv limit start).stores ⊆ srv.from start.time :=
      stores_subset limit 0 [] start.time [start.id] (Int.le_refl _) (List.nil_subset _)
    have hlen := (List.subperm_of_subset honce hsub).length_le
    omega

/-! ## Rounds that reach past the cursor -/

/-- The message is neither the cursor's nor stored in this call. -/
def unstored (start : Msg) (stores : List Msg) (m : Msg) : Bool := decide (m ≠ start ∧ m ∉ stores)

/-- All before the cursor is stored, and `seen_at_cursor` knows what is stored of its millisecond. -/
structure Settled (srv : Server) (start : Msg) (stores : List Msg) (cursor : Int) (seen : List Int) : Prop where
  from_start : start.time ≤ cursor
  subset : ∀ m ∈ stores, m ∈ srv.history ∧ start.time ≤ m.time ∧ m.time ≤ cursor
  nodup : stores.Nodup
  fresh : start ∉ stores
  before : ∀ m ∈ srv.history, start.time ≤ m.time → m.time < cursor → m = start ∨ m ∈ stores
  seen : ∀ m ∈ srv.history, m.time = cursor → (m.id ∈ seen ↔ m = start ∨ m ∈ stores)
  here : ∃ m ∈ srv.history, m.time = cursor ∧ (m = start ∨ m ∈ stores)

theorem settled_start (hstart : start ∈ srv.history) : Settled srv start [] start.time [start.id] := by
  refine ⟨Int.le_refl _, ?_, List.nodup_nil, List.not_mem_nil, ?_, ?_, ⟨start, hstart, rfl, Or.inl rfl⟩⟩
  · intro m hm
    cases hm
  · intro m _ hle hlt
    omega
  · intro m hm _
    rw [List.mem_singleton]
    constructor
    · exact fun hid => Or.inl (srv.eq_of_id hm hstart hid)
    · rintro (rfl | hnil)
      · rfl
      · cases hnil

/-- A page shows what is not stored. -/
theorem Settled.newer (h : Settled srv start stores cursor seen) (hpage : page = (srv.from cursor).take n) :
    newerThan cursor seen page = page.filter (unstored start stores) := by
  unfold newerThan
  apply List.filter_congr
  intro m hm
  rw [hpage] at hm
  obtain ⟨hmem, hle⟩ := Server.mem_from.mp (List.mem_of_mem_take hm)
  by_cases hlt : cursor < m.time
  · have hne : m ≠ start := by
      rintro rfl
      have := h.from_start
      omega
    have hout : m ∉ stores := by
      intro hin
      have := (h.subset m hin).2.2
      omega
    simp [unstored, hlt, hne, hout]
  · have heq : m.time = cursor := by omega
    have hseen := h.seen m hmem heq
    rw [Bool.eq_iff_iff]
    simp [unstored, heq, hseen]

theorem mem_unstored_page (hm : m ∈ page.filter (unstored start stores)) : m ∈ page ∧ m ≠ start ∧ m ∉ stores := by
  obtain ⟨hpage, hun⟩ := List.mem_filter.mp hm
  exact ⟨hpage, of_decide_eq_true hun⟩

/-- Nothing on a page is later than the newest message it adds. -/
theorem Settled.latest (h : Settled srv start stores cursor seen) (hpage : page = (srv.from cursor).take n)
    (hround : Round srv (page.filter (unstored start stores)) sorted newest seen') :
    ∀ m ∈ page, m.time ≤ newest.time := by
  have hnewest := (mem_unstored_page hround.mem).1
  rw [hpage] at hnewest
  have hge := (Server.mem_from.mp (List.mem_of_mem_take hnewest)).2
  intro m hm
  by_cases hun : unstored start stores m = true
  · exact hround.latest m (List.mem_filter.mpr ⟨hm, hun⟩)
  · rw [unstored, decide_eq_true_eq, not_and_or, not_not, not_not] at hun
    rcases hun with rfl | hin
    · have := h.from_start
      omega
    · have := (h.subset m hin).2.2
      omega

theorem Settled.nodup_append (h : Settled srv start stores cursor seen) (hpage : page = (srv.from cursor).take n)
    (hperm : sorted.Perm (page.filter (unstored start stores))) : (stores ++ sorted).Nodup := by
  refine List.nodup_append'.mpr ⟨h.nodup, hperm.nodup_iff.mpr ?_, ?_⟩
  · rw [hpage]
    exact ((srv.from_nodup cursor).sublist (List.take_sublist ..)).filter _
  · intro m hold hnew
    exact (mem_unstored_page (hperm.mem_iff.mp hnew)).2.2 hold

/-- With a message of the page seen before, the limit cuts nothing off. -/
theorem Settled.length_le (hpage : page = (srv.from cursor).take (pageOf n true)) {y : Msg} (hy : y ∈ page)
    (hseen : y = start ∨ y ∈ stores) : (page.filter (unstored start stores)).length ≤ n := by
  have hshort : (page.filter (unstored start stores)).length < page.length := by
    rw [List.length_filter_lt_length_iff_exists]
    refine ⟨y, hy, ?_⟩
    rw [unstored, decide_eq_true_eq]
    rcases hseen with rfl | hin
    · exact fun hc => hc.1 rfl
    · exact fun hc => hc.2 hin
  have hle : page.length ≤ n + 1 := by
    rw [hpage, List.length_take]
    unfold pageOf
    simp only [if_true]
    omega
  omega

/-- **Progress.** A page that reaches past the cursor leaves all up to its end settled. -/
theorem Settled.step (h : Settled srv start stores cursor seen)
    (hpage : page = (srv.from cursor).take (pageOf n true))
    (hround : Round srv (page.filter (unstored start stores)) sorted newest seen') (hpast : cursor < newest.time) :
    sorted.length ≤ n ∧ Settled srv start (stores ++ sorted) newest.time seen' := by
  have hnewest := mem_unstored_page hround.mem
  have hfrom : ∀ m, m ∈ page → m ∈ srv.history ∧ cursor ≤ m.time := by
    intro m hm
    rw [hpage] at hm
    exact Server.mem_from.mp (List.mem_of_mem_take hm)
  -- what comes before the newest message is on its page
  have hon : ∀ m ∈ srv.history, cursor ≤ m.time → m.time < newest.time → m ∈ page := by
    intro m hm hle hlt
    have hin := hnewest.1
    rw [hpage] at hin ⊢
    exact mem_take_of_lt (srv.from_sorted cursor) hin (Server.mem_from.mpr ⟨hm, hle⟩) hlt
  have hmem : ∀ m, m ∈ sorted ↔ m ∈ page ∧ m ≠ start ∧ m ∉ stores := by
    intro m
    rw [hround.perm.mem_iff, List.mem_filter, unstored, decide_eq_true_eq]
  have hstart := h.from_start
  constructor
  · obtain ⟨y, hy, htime, hseen⟩ := h.here
    rw [hround.perm.length_eq]
    exact Settled.length_le hpage (hon y hy (by omega) (by omega)) hseen
  · refine ⟨by omega, ?subset, ?nodup, ?fresh, ?before, ?seen, ?here⟩
    case subset =>
      intro m hm
      rcases List.mem_append.mp hm with hold | hnew
      · obtain ⟨hhist, hge, hle⟩ := h.subset m hold
        exact ⟨hhist, hge, by omega⟩
      · obtain ⟨hhist, hge⟩ := hfrom m ((hmem m).mp hnew).1
        exact ⟨hhist, by omega, hround.latest m (hround.perm.mem_iff.mp hnew)⟩
    case nodup => exact h.nodup_append hpage hround.perm
    case fresh =>
      intro hin
      rcases List.mem_append.mp hin with hold | hnew
      · exact h.fresh hold
      · exact ((hmem start).mp hnew).2.1 rfl
    case before =>
      intro m hm hge hlt
      by_cases hold : m.time < cursor
      · exact (h.before m hm hge hold).imp_right (List.mem_append_left _)
      · by_cases hun : m = start ∨ m ∈ stores
        · exact hun.imp_right (List.mem_append_left _)
        · rw [not_or] at hun
          exact Or.inr (List.mem_append_right _ ((hmem m).mpr ⟨hon m hm (by omega) hlt, hun⟩))
    case seen =>
      intro m hm htime
      rw [hround.seen m hm, List.mem_append, hround.perm.mem_iff]
      have hne : m ≠ start := by
        rintro rfl
        omega
      have hout : m ∉ stores := by
        intro hin
        have := (h.subset m hin).2.2
        omega
      simp [htime, hne, hout]
    case here =>
      exact ⟨newest, (hfrom newest hnewest.1).1, rfl,
        Or.inr (List.mem_append_right _ (hround.perm.mem_iff.mpr hround.mem))⟩

/-- The cursor has left the first millisecond: of what comes from it on, the first `g` messages are stored. -/
structure Under (srv : Server) (start : Msg) (stores : List Msg) (cursor : Int) (seen : List Int) (g : Nat) : Prop
    extends Settled srv start stores cursor seen where
  past : start.time < cursor
  split : ∃ group rest, srv.from cursor = group ++ rest ∧ group.length = g ∧ 0 < g ∧
    (∀ m ∈ group, m ∈ stores) ∧ ∀ m ∈ rest, m ∉ stores

theorem Settled.under (h : Settled srv start stores cursor seen)
    (hpage : page = (srv.from cursor).take (pageOf n true))
    (hround : Round srv (page.filter (unstored start stores)) sorted newest seen') (hpast : cursor < newest.time) :
    Under srv start (stores ++ sorted) newest.time seen' (page.filter fun m => m.time == newest.time).length := by
  have hnext := (h.step hpage hround hpast).2
  have hstart := h.from_start
  have hlatest := h.latest hpage hround
  refine ⟨hnext, by omega, page.filter (fun m => m.time == newest.time),
    ((srv.from cursor).drop (pageOf n true)).filter (fun m => newest.time ≤ m.time), ?_, rfl, ?_, ?_, ?_⟩
  · rw [Server.from_from (show cursor ≤ newest.time by omega)]
    conv_lhs => rw [← List.take_append_drop (pageOf n true) (srv.from cursor), ← hpage]
    rw [List.filter_append]
    congr 1
    apply List.filter_congr
    intro m hm
    have hle := hlatest m hm
    rw [Bool.eq_iff_iff, decide_eq_true_eq, beq_iff_eq]
    omega
  · exact List.length_pos_of_mem (List.mem_filter.mpr ⟨(mem_unstored_page hround.mem).1, beq_self_eq_true _⟩)
  · intro m hm
    obtain ⟨hin, htime⟩ := List.mem_filter.mp hm
    rw [beq_iff_eq] at htime
    refine List.mem_append_right _ (hround.perm.mem_iff.mpr (List.mem_filter.mpr ⟨hin, ?_⟩))
    rw [unstored, decide_eq_true_eq]
    constructor
    · rintro rfl
      omega
    · intro hold
      have := (h.subset m hold).2.2
      omega
  · intro m hm hstored
    obtain ⟨hout, hle⟩ := List.mem_filter.mp hm
    rw [decide_eq_true_eq] at hle
    rcases List.mem_append.mp hstored with hold | hnew
    · have := (h.subset m hold).2.2
      omega
    · have hin := (mem_unstored_page (hround.perm.mem_iff.mp hnew)).1
      rw [hpage] at hin
      have hnodup := srv.from_nodup cursor
      rw [← List.take_append_drop (pageOf n true) (srv.from cursor)] at hnodup
      exact (List.nodup_append'.mp hnodup).2.2 hin hout

/-! ## Rounds that stay in the millisecond of the cursor -/

theorem take_pageOf_subset {l : List Msg} {k : Nat} (h : k ≤ n) : l.take (pageOf k true) ⊆ l.take (pageOf n true) := by
  have hle : pageOf k true ≤ pageOf n true := by
    unfold pageOf
    simp only [if_true]
    omega
  exact List.take_subset_take_left l hle

theorem pageOf_pos (n : Nat) : 0 < pageOf n true := by
  unfold pageOf pageSize
  simp only [if_true]
  omega

/-- A page whose unseen messages are all stored stores one of them again. -/
theorem not_nodup_of_known (hlt : stores.length < limit) (fuel r : Nat)
    (hpage : page = (srv.from cursor).take (pageOf (limit - stores.length) true))
    (hne : newerThan cursor seen page ≠ []) (hknown : ∀ m ∈ newerThan cursor seen page, m ∈ stores) :
    ¬ (forwardRounds srv limit (fuel + 1) ⟨r, stores⟩ cursor seen).stores.Nodup := by
  intro hnodup
  rcases forwardRounds_succ hlt r cursor seen hpage rfl with ⟨hnil, -⟩ | ⟨sorted, newest, seen', hround, heq⟩
  · exact hne hnil
  · rw [heq] at hnodup
    have hthis := hnodup.sublist (prefix_stores fuel (r + 1) _ newest.time seen').sublist
    cases hsorted : sorted with
    | nil =>
        have hmem := hround.perm.mem_iff.mpr hround.mem
        rw [hsorted] at hmem
        cases hmem
    | cons first rest =>
        have hfirst : first ∈ sorted := hsorted ▸ List.mem_cons_self ..
        have hagain : first ∈ sorted.take (limit - stores.length) := by
          rw [hsorted, show limit - stores.length = limit - stores.length - 1 + 1 by omega]
          exact List.mem_cons_self ..
        exact (List.nodup_append'.mp hthis).2.2 (hknown first (hround.perm.mem_iff.mp hfirst)) hagain

theorem Under.new_eq (h : Under srv start stores cursor seen g) (hpage : page = (srv.from cursor).take n) :
    page.filter (unstored start stores) = page.drop g := by
  obtain ⟨group, rest, hsplit, hlen, -, hgroup, hrest⟩ := h.split
  have hkeep : ∀ m ∈ rest.take (n - group.length), unstored start stores m = true := by
    intro m hm
    have hm := List.mem_of_mem_take hm
    have hfrom : m ∈ srv.from cursor := hsplit ▸ List.mem_append_right _ hm
    rw [unstored, decide_eq_true_eq]
    refine ⟨?_, hrest m hm⟩
    rintro rfl
    have := (Server.mem_from.mp hfrom).2
    have := h.past
    omega
  have hdrop : (group.take n).filter (unstored start stores) = [] := by
    rw [List.filter_eq_nil_iff]
    intro m hm
    rw [unstored, decide_eq_true_eq]
    exact fun hc => hc.2 (hgroup m (List.mem_of_mem_take hm))
  rw [hpage, hsplit, List.take_append, List.filter_append, hdrop, List.nil_append, List.filter_eq_self.mpr hkeep]
  by_cases hle : n ≤ g
  · rw [show n - group.length = 0 by omega, List.take_zero, List.append_nil, List.drop_of_length_le]
    rw [List.length_take]
    omega
  · rw [List.take_of_length_le (show group.length ≤ n by omega), ← hlen, List.drop_left]

theorem Under.head (h : Under srv start stores cursor seen g) (hn : 0 < n) :
    ∃ y ∈ (srv.from cursor).take n, y ∈ stores := by
  obtain ⟨group, rest, hsplit, hlen, hpos, hgroup, -⟩ := h.split
  cases hg : group with
  | nil =>
      rw [hg] at hlen
      rw [← hlen] at hpos
      cases hpos
  | cons y left =>
      obtain ⟨k, rfl⟩ : ∃ k, n = k + 1 := ⟨n - 1, by omega⟩
      rw [hsplit, hg]
      exact ⟨y, List.mem_cons_self .., hgroup y (hg ▸ List.mem_cons_self ..)⟩

/-- **Repeat.** A page that adds messages of the cursor's millisecond only: the next page stores one of the
    messages before them again, unless there is none. -/
theorem Under.stays (h : Under srv start stores cursor seen g) (hlt : stores.length < limit)
    (hfuel : limit - stores.length ≤ fuel + 1)
    (hpage : page = (srv.from cursor).take (pageOf (limit - stores.length) true))
    (hround : Round srv (page.filter (unstored start stores)) sorted newest seen') (hstay : newest.time ≤ cursor)
    (r : Nat) :
    Clean srv had limit start
        (forwardRounds srv limit fuel ⟨r, stores ++ sorted.take (limit - stores.length)⟩ newest.time seen') ↔
      (page.drop g).length = limit - stores.length := by
  obtain ⟨y, hy, hystored⟩ := h.head (pageOf_pos (limit - stores.length))
  have hlen := Settled.length_le hpage (hpage ▸ hy) (Or.inr hystored : y = start ∨ y ∈ stores)
  have hnewest := (mem_unstored_page hround.mem).1
  have hcursor : newest.time = cursor := by
    rw [hpage] at hnewest
    have := (Server.mem_from.mp (List.mem_of_mem_take hnewest)).2
    omega
  have hsorted := hround.perm.length_eq
  have hpos : 0 < sorted.length := List.length_pos_of_mem (hround.perm.mem_iff.mpr hround.mem)
  have hlatest := h.latest hpage hround
  rw [← h.new_eq hpage, ← hsorted, List.take_of_length_le (by omega)]
  by_cases hfull : sorted.length = limit - stores.length
  · rw [forwardRounds_done (by rw [List.length_append]; omega)]
    refine iff_of_true ⟨h.nodup_append hpage hround.perm, fun hshort => ?_⟩ hfull
    rw [List.length_append] at hshort
    omega
  · refine iff_of_false (fun hclean => ?_) hfull
    obtain ⟨fuel, rfl⟩ : ∃ k, fuel = k + 1 := ⟨fuel - 1, by omega⟩
    have hshort : (stores ++ sorted).length < limit := by
      rw [List.length_append]
      omega
    -- the next page is part of this one, and what it does not know was stored before
    have hsub : (srv.from newest.time).take (pageOf (limit - (stores ++ sorted).length) true) ⊆ page := by
      rw [hpage, hcursor]
      exact take_pageOf_subset (by rw [List.length_append]; omega)
    refine not_nodup_of_known hshort fuel r rfl ?_ ?_ hclean.1
    · obtain ⟨x, hx, hxstored⟩ := h.head (pageOf_pos (limit - (stores ++ sorted).length))
      rw [← hcursor] at hx
      refine List.ne_nil_of_mem (List.mem_filter.mpr ⟨hx, ?_⟩)
      have hxhist := Server.mem_from.mp (List.mem_of_mem_take hx)
      have hxnew : ¬ x.id ∈ seen' := by
        rw [hround.seen x hxhist.1]
        exact fun hc => (mem_unstored_page hc.1).2.2 hxstored
      have hxtime : x.time = newest.time := le_antisymm (hlatest x (hsub hx)) hxhist.2
      simp [hxtime, hxnew]
    · intro m hm
      obtain ⟨hin, htest⟩ := List.mem_filter.mp hm
      have hmhist := Server.mem_from.mp (List.mem_of_mem_take hin)
      have hmtime : m.time = newest.time := le_antisymm (hlatest m (hsub hin)) hmhist.2
      have hmnew : ¬ m.id ∈ seen' := by simpa [hmtime] using htest
      rw [hround.seen m hmhist.1] at hmnew
      apply List.mem_append_left
      by_contra hout
      refine hmnew ⟨List.mem_filter.mpr ⟨hsub hin, ?_⟩, hmtime⟩
      rw [unstored, decide_eq_true_eq]
      refine ⟨?_, hout⟩
      rintro rfl
      have := h.past
      omega

/-- A call that ends here leaves out what is not stored from the cursor on. -/
theorem Under.ended (h : Under srv start stores cursor seen g) (hhad : start.id ∈ had)
    (hlt : stores.length < limit) (r : Nat) :
    Clean srv had limit start ⟨r, stores⟩ ↔ ∀ m ∈ (srv.from cursor).drop g, m.id ∈ had := by
  obtain ⟨group, rest, hsplit, hlen, -, hgroup, hrest⟩ := h.split
  have hdrop : (srv.from cursor).drop g = rest := by
    rw [hsplit, ← hlen, List.drop_left]
  rw [hdrop]
  constructor
  · rintro ⟨-, hcomplete⟩ m hm
    obtain ⟨hhist, hge⟩ := Server.mem_from.mp (show m ∈ srv.from cursor from hsplit ▸ List.mem_append_right _ hm)
    have hstart := h.from_start
    exact (hcomplete hlt m hhist (by omega)).resolve_right (hrest m hm)
  · intro hall
    refine ⟨h.nodup, fun _ m hm hge => ?_⟩
    by_cases hbefore : m.time < cursor
    · rcases h.before m hm hge hbefore with rfl | hin
      · exact Or.inl hhad
      · exact Or.inr hin
    · have hfrom : m ∈ group ++ rest := hsplit ▸ Server.mem_from.mpr ⟨hm, by omega⟩
      rcases List.mem_append.mp hfrom with hin | hout
      · exact Or.inr (hgroup m hin)
      · exact Or.inl (hall m hout)

/-- **Walk.** From a settled cursor past the first millisecond, the call wastes nothing just when the pages
    from there on are clean. -/
theorem Under.clean_iff (hhad : start.id ∈ had) (fuel : Nat) :
    ∀ (r : Nat) (stores : List Msg) (cursor : Int) (seen : List Int) (g : Nat),
      Under srv start stores cursor seen g → limit - stores.length ≤ fuel →
        (Clean srv had limit start (forwardRounds srv limit fuel ⟨r, stores⟩ cursor seen) ↔
          pagesClean srv had fuel (limit - stores.length) cursor g = true) := by
  induction fuel with
  | zero =>
      intro r stores cursor seen g h hfuel
      exact iff_of_true ⟨h.nodup, fun hlt => absurd (show stores.length < limit from hlt) (by omega)⟩ rfl
  | succ fuel ih =>
      intro r stores cursor seen g h hfuel
      by_cases hlt : stores.length < limit
      · obtain ⟨page, hpage⟩ : ∃ page, page = (srv.from cursor).take (pageOf (limit - stores.length) true) := ⟨_, rfl⟩
        have hnew := h.new_eq hpage
        have hclean : pagesClean srv had (fuel + 1) (limit - stores.length) cursor g =
            match (page.drop g).getLast? with
            | none => ((srv.from cursor).drop g).all fun m => had.contains m.id
            | some newest =>
                if cursor < newest.time then
                  pagesClean srv had fuel (limit - stores.length - (page.drop g).length) newest.time
                    (page.filter fun m => m.time == newest.time).length
                else (page.drop g).length == limit - stores.length := by
          have hpos : (limit - stores.length == 0) = false := by simpa using by omega
          rw [hpage]
          exact (congrArg (· || _) hpos).trans (Bool.false_or _)
        rcases forwardRounds_succ hlt r cursor seen hpage (h.newer hpage).symm with
          ⟨hnil, heq⟩ | ⟨sorted, newest, seen', hround, heq⟩
        · rw [heq, hclean, ← hnew, hnil]
          simp only [List.getLast?_nil, List.all_eq_true, List.contains_eq_mem, decide_eq_true_eq]
          exact h.ended hhad hlt (r + 1)
        · rw [heq, hclean]
          cases hlast : (page.drop g).getLast? with
          | none =>
              have hmem := hround.mem
              rw [hnew, List.getLast?_eq_none_iff.mp hlast] at hmem
              cases hmem
          | some last =>
              -- the last message of the page is as late as the newest
              have htime : last.time = newest.time := by
                have hlastNew : last ∈ page.filter (unstored start stores) := hnew ▸ List.mem_of_getLast? hlast
                have hsorted : (page.drop g).Pairwise fun a b => a.time ≤ b.time := by
                  rw [hpage]
                  exact (srv.from_sorted cursor).sublist ((List.drop_sublist ..).trans (List.take_sublist ..))
                exact le_antisymm (hround.latest last hlastNew) (le_of_getLast? hsorted hlast (hnew ▸ hround.mem))
              simp only [htime]
              by_cases hpast : cursor < newest.time
              · obtain ⟨hle, -⟩ := h.step hpage hround hpast
                have hpos : 0 < sorted.length := List.length_pos_of_mem (hround.perm.mem_iff.mpr hround.mem)
                rw [if_pos hpast, List.take_of_length_le hle, ← hnew, ← hround.perm.length_eq,
                  ih (r + 1) (stores ++ sorted) newest.time seen' _ (h.under hpage hround hpast)
                    (by rw [List.length_append]; omega)]
                rw [List.length_append, Nat.sub_add_eq]
              · rw [if_neg hpast, beq_iff_eq]
                exact h.stays hlt (by omega) hpage hround (by omega) (r + 1)
      · rw [forwardRounds_done (by omega)]
        refine iff_of_true ⟨h.nodup, fun hshort => absurd hshort hlt⟩ ?_
        unfold pagesClean
        rw [show limit - stores.length = 0 by omega]
        rfl

/-! ## First pages that stay in the millisecond of the cursor -/

/-- On a page of the cursor's millisecond a round shows what the ids seen there do not name. -/
theorem mem_newerThan_stays (hpage : page ⊆ srv.history) (htime : ∀ m ∈ page, m.time = cursor)
    (hseen : ∀ m ∈ srv.history, m.id ∈ seen ↔ m ∈ new ∧ m.time = cursor) :
    m ∈ newerThan cursor seen page ↔ m ∈ page ∧ m ∉ new := by
  unfold newerThan
  rw [List.mem_filter]
  refine and_congr_right fun hm => ?_
  have hmtime := htime m hm
  have hid := hseen m (hpage hm)
  simp [hmtime, hid]

/-- Stored is the page without the cursor's message: a call that ends here leaves out what follows the page. -/
theorem clean_firstPage (hhad : start.id ∈ had) (hpage : page = (srv.from start.time).take n)
    (hperm : stores.Perm (page.filter (unstored start []))) (hlt : stores.length < limit) (r : Nat) :
    Clean srv had limit start ⟨r, stores⟩ ↔
      ∀ m ∈ (srv.from start.time).drop page.length, m.id ∈ had := by
  have hsplit : page ++ (srv.from start.time).drop page.length = srv.from start.time :=
    List.prefix_iff_eq_append.mp (hpage ▸ List.take_prefix ..)
  have hnodup := srv.from_nodup start.time
  rw [← hsplit] at hnodup
  constructor
  · rintro ⟨-, hcomplete⟩ m hm
    obtain ⟨hhist, hge⟩ := Server.mem_from.mp (List.mem_of_mem_drop hm)
    refine (hcomplete hlt m hhist hge).resolve_right fun hin => ?_
    have hon := (mem_unstored_page (hperm.mem_iff.mp hin)).1
    exact (List.nodup_append'.mp hnodup).2.2 hon hm
  · intro hall
    refine ⟨hperm.nodup_iff.mpr ((List.nodup_append'.mp hnodup).1.filter _), fun _ m hm hge => ?_⟩
    have hfrom : m ∈ page ++ (srv.from start.time).drop page.length := by
      rw [hsplit]
      exact Server.mem_from.mpr ⟨hm, hge⟩
    rcases List.mem_append.mp hfrom with hon | hout
    · by_cases heq : m = start
      · exact Or.inl (heq ▸ hhad)
      · refine Or.inr (hperm.mem_iff.mpr (List.mem_filter.mpr ⟨hon, ?_⟩))
        rw [unstored, decide_eq_true_eq]
        exact ⟨heq, List.not_mem_nil⟩
    · exact Or.inl (hall m hout)

/-- **First page without the cursor's message.** -/
theorem clean_without (hhad : start.id ∈ had) (hlt : 0 < limit) (hfuel : fuel + 1 = limit)
    (hpage : page = (srv.from start.time).take (pageOf limit true)) (htime : ∀ m ∈ page, m.time = start.time)
    (hout : start ∉ page)
    (hround : Round srv (page.filter (unstored start [])) sorted newest seen') (r : Nat) :
    Clean srv had limit start (forwardRounds srv limit fuel ⟨r, sorted.take limit⟩ newest.time seen') ↔
      limit ≤ page.length ∨ ∀ m ∈ (srv.from start.time).drop page.length, m.id ∈ had := by
  have hnew : page.filter (unstored start []) = page := by
    rw [List.filter_eq_self]
    intro m hm
    rw [unstored, decide_eq_true_eq]
    exact ⟨fun heq => hout (heq ▸ hm), List.not_mem_nil⟩
  have hlen : sorted.length = page.length := by rw [hround.perm.length_eq, hnew]
  have hnodup : sorted.Nodup := by
    rw [hround.perm.nodup_iff, hnew, hpage]
    exact (srv.from_nodup _).sublist (List.take_sublist ..)
  by_cases hfull : limit ≤ page.length
  · have htake : (sorted.take limit).length = limit := by
      rw [List.length_take]
      omega
    rw [forwardRounds_done (by omega)]
    refine iff_of_true ⟨hnodup.sublist (List.take_sublist ..), fun hshort => ?_⟩ (Or.inl hfull)
    exact absurd (show (sorted.take limit).length < limit from hshort) (by omega)
  · rw [List.take_of_length_le (by omega)]
    have hshort : sorted.length < limit := by omega
    have hnewest : newest.time = start.time := htime newest (hnew ▸ hround.mem)
    have hpos : 0 < sorted.length := List.length_pos_of_mem (hround.perm.mem_iff.mpr hround.mem)
    obtain ⟨fuel, rfl⟩ : ∃ k, fuel = k + 1 := ⟨fuel - 1, by omega⟩
    have hsub : (srv.from newest.time).take (pageOf (limit - sorted.length) true) ⊆ page := by
      rw [hpage, hnewest]
      exact take_pageOf_subset (by omega)
    rcases forwardRounds_succ hshort r newest.time seen' rfl rfl with ⟨-, heq⟩ | ⟨_, again, _, hagain, -⟩
    · rw [heq, clean_firstPage hhad hpage hround.perm hshort]
      exact (or_iff_right hfull).symm
    · -- the next page shows nothing new
      have hmem := (mem_newerThan_stays (fun m hm => (Server.mem_from.mp (List.mem_of_mem_take hm)).1)
        (fun m hm => (htime m (hsub hm)).trans hnewest.symm) hround.seen).mp hagain.mem
      rw [hnew] at hmem
      exact absurd (hsub hmem.1) hmem.2

theorem exists_ne_of_two_le (hnodup : page.Nodup) (hlen : 2 ≤ page.length) (x : Msg) : ∃ m ∈ page, m ≠ x := by
  match page, hnodup, hlen with
  | a :: b :: rest, hnodup, _ =>
      have hab : a ≠ b := fun heq => (List.nodup_cons.mp hnodup).1 (heq ▸ List.mem_cons_self ..)
      by_cases hax : a = x
      · exact ⟨b, by simp, fun hbx => hab (hax.trans hbx.symm)⟩
      · exact ⟨a, by simp, hax⟩

theorem length_without_start (hnodup : page.Nodup) (hstart : start ∈ page) :
    (page.filter (unstored start [])).length + 1 = page.length := by
  have hfilter : page.filter (unstored start []) = page.erase start := by
    rw [hnodup.erase_eq_filter]
    apply List.filter_congr
    intro m _
    rw [Bool.eq_iff_iff]
    simp [unstored]
  have hpos := List.length_pos_of_mem hstart
  rw [hfilter, List.length_erase_of_mem hstart]
  omega

/-- **First page with the cursor's message.** The page after it lists that message again, or nothing new; and
    once it is stored, the page after that one repeats another. -/
theorem clean_with (hhad : start.id ∈ had) (hfuel : fuel + 1 = limit)
    (hpage : page = (srv.from start.time).take (pageOf limit true)) (htime : ∀ m ∈ page, m.time = start.time)
    (hin : start ∈ page)
    (hround : Round srv (page.filter (unstored start [])) sorted newest seen') (r : Nat) :
    Clean srv had limit start (forwardRounds srv limit fuel ⟨r, sorted.take limit⟩ newest.time seen') ↔
      page.length = limit + 1 ∨
        if start ∈ (srv.from start.time).take (pageOf (limit - (page.length - 1)) true) then page.length = limit
        else ∀ m ∈ (srv.from start.time).drop page.length, m.id ∈ had := by
  have hpageNodup : page.Nodup := hpage ▸ (srv.from_nodup _).sublist (List.take_sublist ..)
  have hlen : sorted.length + 1 = page.length := by
    rw [hround.perm.length_eq, length_without_start hpageNodup hin]
  have hle : sorted.length ≤ limit := by
    rw [hround.perm.length_eq]
    exact Settled.length_le hpage hin (Or.inl rfl)
  have hnodup : sorted.Nodup := hround.perm.nodup_iff.mpr (hpageNodup.filter _)
  have hmem : ∀ m, m ∈ sorted ↔ m ∈ page ∧ m ≠ start := by
    intro m
    rw [hround.perm.mem_iff, List.mem_filter, unstored, decide_eq_true_eq]
    simp
  have hnewest : newest.time = start.time := htime newest (mem_unstored_page hround.mem).1
  have hpos : 0 < sorted.length := List.length_pos_of_mem (hround.perm.mem_iff.mpr hround.mem)
  rw [List.take_of_length_le hle]
  by_cases hfull : sorted.length = limit
  · rw [forwardRounds_done (by omega)]
    refine iff_of_true ⟨hnodup, fun hshort => ?_⟩ (Or.inl (by omega))
    exact absurd (show sorted.length < limit from hshort) (by omega)
  have hshort : sorted.length < limit := by omega
  obtain ⟨fuel, rfl⟩ : ∃ k, fuel = k + 1 := ⟨fuel - 1, by omega⟩
  rw [or_iff_right (by omega), show page.length - 1 = sorted.length by omega, ← hnewest]
  have hsub : (srv.from newest.time).take (pageOf (limit - sorted.length) true) ⊆ page := by
    rw [hpage, hnewest]
    exact take_pageOf_subset (by omega)
  -- the second page knows all but the cursor's message
  have hsecond : ∀ m, m ∈ newerThan newest.time seen'
      ((srv.from newest.time).take (pageOf (limit - sorted.length) true)) ↔
        m = start ∧ start ∈ (srv.from newest.time).take (pageOf (limit - sorted.length) true) := by
    intro m
    rw [mem_newerThan_stays (fun m hm => (Server.mem_from.mp (List.mem_of_mem_take hm)).1)
      (fun m hm => (htime m (hsub hm)).trans hnewest.symm) hround.seen, ← hround.perm.mem_iff, hmem, not_and, not_not]
    constructor
    · rintro ⟨hm, heq⟩
      obtain rfl := heq (hsub hm)
      exact ⟨rfl, hm⟩
    · rintro ⟨rfl, hm⟩
      exact ⟨hm, fun _ => rfl⟩
  rcases forwardRounds_succ hshort r newest.time seen' rfl rfl with
    ⟨hnil, heq⟩ | ⟨sorted₂, newest₂, seen₂, hagain, heq⟩
  · have hout : start ∉ (srv.from newest.time).take (pageOf (limit - sorted.length) true) := by
      intro hc
      have := (hsecond start).mpr ⟨rfl, hc⟩
      rw [hnil] at this
      cases this
    rw [heq, if_neg hout, clean_firstPage hhad hpage hround.perm hshort, hnewest]
  · obtain ⟨rfl, hlisted⟩ := (hsecond newest₂).mp hagain.mem
    rw [heq, if_pos hlisted]
    have hone : sorted₂ = [newest₂] := by
      have hall : ∀ m ∈ sorted₂, m = newest₂ := fun m hm => ((hsecond m).mp (hagain.perm.mem_iff.mp hm)).1
      have hnodup₂ : sorted₂.Nodup := by
        rw [hagain.perm.nodup_iff]
        exact ((srv.from_nodup _).sublist (List.take_sublist ..)).filter _
      have hshort₂ : sorted₂.length < 2 := by
        by_contra hlong
        obtain ⟨m, hm, hne⟩ := exists_ne_of_two_le hnodup₂ (by omega) newest₂
        exact hne (hall m hm)
      obtain ⟨x, hx⟩ : ∃ x, sorted₂ = [x] := by
        have := List.length_pos_of_mem (hagain.perm.mem_iff.mpr hagain.mem)
        exact List.length_eq_one_iff.mp (by omega)
      rw [hx, hall x (hx ▸ List.mem_singleton_self x)]
    rw [hone, List.take_of_length_le (by simp; omega)]
    have hlen₂ : (sorted ++ [newest₂]).length = page.length := by
      rw [List.length_append, List.length_singleton, hlen]
    by_cases hend : page.length = limit
    · rw [forwardRounds_done (by omega)]
      refine iff_of_true ⟨List.nodup_append'.mpr ⟨hnodup, List.nodup_singleton _, ?_⟩, fun hlt => ?_⟩ hend
      · intro m hm hs
        exact ((hmem m).mp hm).2 (List.mem_singleton.mp hs)
      · exact absurd (show (sorted ++ [newest₂]).length < limit from hlt) (by omega)
    · refine iff_of_false (fun hclean => ?_) hend
      obtain ⟨fuel, rfl⟩ : ∃ k, fuel = k + 1 := ⟨fuel - 1, by omega⟩
      have hsub₃ : (srv.from newest₂.time).take (pageOf (limit - (sorted ++ [newest₂]).length) true) ⊆
          (srv.from newest.time).take (pageOf (limit - sorted.length) true) := by
        rw [hnewest]
        exact take_pageOf_subset (by omega)
      have hthird : ∀ m, m ∈ newerThan newest₂.time seen₂
          ((srv.from newest₂.time).take (pageOf (limit - (sorted ++ [newest₂]).length) true)) ↔
            m ∈ (srv.from newest₂.time).take (pageOf (limit - (sorted ++ [newest₂]).length) true) ∧ m ≠ newest₂ := by
        intro m
        rw [mem_newerThan_stays (fun m hm => (Server.mem_from.mp (List.mem_of_mem_take hm)).1)
          (fun m hm => htime m (hsub (hsub₃ hm))) hagain.seen, hsecond]
        simp [hlisted]
      have hnodup₃ : ((srv.from newest₂.time).take (pageOf (limit - (sorted ++ [newest₂]).length) true)).Nodup :=
        (srv.from_nodup _).sublist (List.take_sublist ..)
      have hlong₃ : 2 ≤ ((srv.from newest₂.time).take (pageOf (limit - (sorted ++ [newest₂]).length) true)).length := by
        have hfrom : page.length ≤ (srv.from newest₂.time).length := by
          rw [hpage]
          exact List.length_take_le' ..
        rw [List.length_take]
        unfold pageOf pageSize
        simp only [if_true]
        omega
      -- the third page lists the cursor's message and one more, which was on the first
      refine not_nodup_of_known (by omega) fuel (r + 1) rfl ?_ ?_ hclean.1
      · obtain ⟨m, hm, hne⟩ := exists_ne_of_two_le hnodup₃ hlong₃ newest₂
        exact List.ne_nil_of_mem ((hthird m).mpr ⟨hm, hne⟩)
      · intro m hm
        obtain ⟨hm, hne⟩ := (hthird m).mp hm
        exact List.mem_append_left _ ((hmem m).mpr ⟨hsub (hsub₃ hm), hne⟩)

/-! ## Every call -/

/-- A first page that shows nothing but the cursor's message is all there is. -/
theorem forward_iff_nil {k : Nat} {last : Msg} (hhad : start.id ∈ had)
    (hpage : page = (srv.from start.time).take (pageOf (k + 1) true)) (hlast : page.getLast? = some last)
    (hnil : page.filter (unstored start []) = []) :
    Clean srv had (k + 1) start ⟨1, []⟩ ↔
      (if start.time < last.time then
        pagesClean srv had k (k + 1 - (page.length - 1)) last.time
          (page.filter fun m => m.time == last.time).length
      else firstPageClean srv had (k + 1) start page) = true := by
  have hall : ∀ m ∈ page, m = start := by
    intro m hm
    by_contra hne
    have hmem : m ∈ page.filter (unstored start []) := by
      rw [List.mem_filter, unstored, decide_eq_true_eq]
      exact ⟨hm, hne, List.not_mem_nil⟩
    rw [hnil] at hmem
    cases hmem
  have hlastMem := List.mem_of_getLast? hlast
  obtain rfl := hall last hlastMem
  have hnodup : page.Nodup := hpage ▸ (srv.from_nodup _).sublist (List.take_sublist ..)
  have hone : page.length = 1 := by
    have := length_without_start hnodup hlastMem
    rw [hnil] at this
    exact this.symm
  refine iff_of_true ?_ ?_
  · rw [clean_firstPage hhad hpage (by rw [hnil]) (Nat.succ_pos k)]
    have hshort : (srv.from last.time).length ≤ page.length := by
      have hlen := hone
      rw [hpage, List.length_take] at hlen
      unfold pageOf pageSize at hlen
      simp only [if_true] at hlen
      omega
    rw [List.drop_of_length_le hshort]
    intro m hm
    cases hm
  · rw [if_neg (Int.lt_irrefl _)]
    unfold firstPageClean
    simp [hlastMem, hone]

/-- **Forward catch-up.** From the cursor at a stored message of the chat, for every history and limit, a call
    keeps to its bound of requests, stores nothing twice and leaves nothing out, just when the pages of the
    history are clean. -/
theorem forward_iff (srv : Server) (had : List Int) (limit : Nat) (start : Msg) (hstart : start ∈ srv.history)
    (hhad : start.id ∈ had) :
    EndsAndWastesNothing srv had limit start (forward srv limit start) ↔
      forwardClean srv had limit start = true := by
  rw [endsAndWastesNothing_iff]
  cases limit with
  | zero => exact iff_of_true ⟨List.nodup_nil, fun hlt => absurd hlt (by simp [forward, forwardRounds])⟩ rfl
  | succ k =>
      have h : Settled srv start [] start.time [start.id] := settled_start hstart
      obtain ⟨page, hpage⟩ : ∃ page, page = (srv.from start.time).take (pageOf (k + 1) true) := ⟨_, rfl⟩
      have hsorted : page.Pairwise fun a b => a.time ≤ b.time :=
        hpage ▸ (srv.from_sorted _).sublist (List.take_sublist ..)
      have hfrom : start ∈ srv.from start.time := Server.mem_from.mpr ⟨hstart, Int.le_refl _⟩
      have hclean : forwardClean srv had (k + 1) start =
          match page.getLast? with
          | none => true
          | some newest =>
              if start.time < newest.time then
                pagesClean srv had k (k + 1 - (page.length - 1)) newest.time
                  (page.filter fun m => m.time == newest.time).length
              else firstPageClean srv had (k + 1) start page := by
        rw [hpage]
        rfl
      rw [hclean]
      cases hlast : page.getLast? with
      | none =>
          rw [List.getLast?_eq_none_iff.mp hlast] at hpage
          rcases List.take_eq_nil_iff.mp hpage.symm with hzero | hnil
          · have := pageOf_pos (k + 1)
            omega
          · rw [hnil] at hfrom
            cases hfrom
      | some last =>
          have hlatest : ∀ m ∈ page, m.time ≤ last.time := fun m hm => le_of_getLast? hsorted hlast hm
          have hmem : ∀ m, m ∈ page.filter (unstored start []) ↔ m ∈ page ∧ m ≠ start := by
            intro m
            rw [List.mem_filter, unstored, decide_eq_true_eq]
            simp
          have hlastMem := List.mem_of_getLast? hlast
          unfold forward
          rcases forwardRounds_succ (show ([] : List Msg).length < k + 1 by simp) 0 start.time [start.id] hpage
            (h.newer hpage).symm with ⟨hnil, heq⟩ | ⟨sorted, newest, seen', hround, heq⟩
          · rw [heq]
            exact forward_iff_nil hhad hpage hlast hnil
          · have heq := heq k
            rw [List.nil_append, List.length_nil, Nat.sub_zero] at heq
            rw [heq]
            dsimp only
            by_cases hpast : start.time < last.time
            · -- the first page reaches past the millisecond of the cursor
              have htime : newest.time = last.time := by
                refine le_antisymm (hlatest newest (mem_unstored_page hround.mem).1) (hround.latest last ?_)
                exact (hmem last).mpr ⟨hlastMem, fun hc => by rw [hc] at hpast; omega⟩
              have hon : start ∈ page := by
                rw [hpage] at hlastMem ⊢
                exact mem_take_of_lt (srv.from_sorted _) hlastMem hfrom hpast
              have hpast' : start.time < newest.time := by omega
              have hlen := length_without_start (hpage ▸ (srv.from_nodup _).sublist (List.take_sublist ..)) hon
              obtain ⟨hle, -⟩ := h.step hpage hround hpast'
              have hunder := h.under hpage hround hpast'
              rw [List.nil_append] at hunder
              have hsortedLen := hround.perm.length_eq
              have hfuel : k + 1 - sorted.length ≤ k := by
                have := List.length_pos_of_mem hround.mem
                omega
              rw [if_pos hpast, List.take_of_length_le hle, ← htime,
                hunder.clean_iff hhad k _ _ _ _ _ hfuel, hsortedLen,
                show page.length - 1 = (page.filter (unstored start [])).length by omega]
            · have htime : ∀ m ∈ page, m.time = start.time := by
                intro m hm
                have hle := hlatest m hm
                rw [hpage] at hm
                have hge := (Server.mem_from.mp (List.mem_of_mem_take hm)).2
                omega
              rw [if_neg hpast]
              unfold firstPageClean
              by_cases hin : start ∈ page
              · have hlen := length_without_start (hpage ▸ (srv.from_nodup _).sublist (List.take_sublist ..)) hin
                have hpos := List.length_pos_of_mem hround.mem
                have hone : ¬ page.length = 1 := by omega
                refine (clean_with hhad rfl hpage htime hin hround 1).trans ?_
                simp [hin, hone]
              · refine (clean_without hhad (Nat.succ_pos k) rfl hpage htime hin hround 1).trans ?_
                simp [hin]

/-! ## The call as a job of the session -/

variable {cfg : Config} {c : Nat}

/-- `store_message` of the messages of a call, one after the other. -/
def State.storeAll (s : State) (c : Nat) (rest : Rest) (messages : List Msg) : State :=
  messages.foldl (fun s m => s.storeMessage c m rest true) s

theorem storeAll_history (s : State) (c : Nat) (rest : Rest) (messages : List Msg) :
    (s.storeAll c rest messages).history = s.history := by
  induction messages generalizing s with
  | nil => rfl
  | cons m messages ih => exact (ih _).trans (storeMessage_history s c m rest true)

theorem storeAll_append (s : State) (c : Nat) (rest : Rest) (l l' : List Msg) :
    s.storeAll c rest (l ++ l') = (s.storeAll c rest l).storeAll c rest l' := List.foldl_append ..

/-- The steps of the job on the chat `c`. -/
def ownStep (cfg : Config) (c : Nat) (j : State × Job) (a : JobAction) : Option (State × Job) :=
  jobStep cfg j.1 c j.2 a

theorem run_forwardStore (rest : Rest) (newer left : List Msg) : ∀ (s : State) (stored : Nat),
    Run (ownStep cfg c) Always (s, .forwardStore limit stored left newer)
      (s.storeAll c rest left, .forwardStore limit (stored + left.length) [] newer) := by
  induction left with
  | nil => exact fun s stored => .refl _
  | cons m left ih =>
      intro s stored
      have hstep : Run (ownStep cfg c) Always (s, .forwardStore limit stored (m :: left) newer)
          (s.storeMessage c m rest true, .forwardStore limit (stored + 1) left newer) :=
        Run.single (.store rest) trivial rfl
      have hrest := ih (s.storeMessage c m rest true) (stored + 1)
      rw [Nat.add_right_comm, Nat.add_assoc] at hrest
      exact hstep.trans hrest

/-- **The loop is the job.** The job of `_forward` takes the steps of the loop and stores what it stores. -/
theorem run_forwardRounds (rest : Rest) (fuel : Nat) : ∀ (r : Nat) (s : State) (stores : List Msg)
    (cursor : Int) (seen : List Int), s.history c = srv.history → limit - stores.length ≤ fuel →
      ∃ tail, Run (ownStep cfg c) Always
        (s.storeAll c rest stores, forwardLoop limit stores.length cursor seen)
        (s.storeAll c rest (forwardRounds srv limit fuel ⟨r, stores⟩ cursor seen).stores, .ended tail) := by
  induction fuel with
  | zero =>
      intro r s stores cursor seen _ hfuel
      refine ⟨false, ?_⟩
      unfold forwardLoop
      rw [if_neg (by omega), forwardRounds_done (by omega)]
      exact .refl _
  | succ fuel ih =>
      intro r s stores cursor seen hhist hfuel
      by_cases hlt : stores.length < limit
      · let page := srv.listed r (oldestFrom Msg.time srv.history cursor (pageOf (limit - stores.length) true))
        let newer := newerThan cursor seen page
        have hloop : forwardLoop limit stores.length cursor seen = .forward limit stores.length cursor seen := if_pos hlt
        have hround : forwardRounds srv limit (fuel + 1) ⟨r, stores⟩ cursor seen =
            match (sortByTime Msg.time newer).getLast? with
            | none => ⟨r + 1, stores⟩
            | some newest =>
                forwardRounds srv limit fuel
                  ⟨r + 1, stores ++ (sortByTime Msg.time newer).take (limit - stores.length)⟩
                  newest.time ((newer.filter fun m => m.time == newest.time).map Msg.id) := if_pos hlt
        have hpage : page.Perm (oldestFrom Msg.time ((s.storeAll c rest stores).history c) cursor
            (pageOf (limit - stores.length) true)) := by
          rw [storeAll_history, hhist]
          exact srv.listed_perm r _
        have hfetch : ownStep cfg c (s.storeAll c rest stores, .forward limit stores.length cursor seen) (.fetch page) =
            some (s.storeAll c rest stores, if newer.isEmpty then .ended true
              else .forwardStore limit stores.length ((sortByTime Msg.time newer).take (limit - stores.length)) newer) :=
          if_pos hpage
        have hlen := (sortByTime_perm newer : (sortByTime Msg.time newer).Perm newer).length_eq
        rw [hloop, hround]
        cases hlast : (sortByTime Msg.time newer).getLast? with
        | none =>
            have hnil : newer.isEmpty = true := by
              rw [List.getLast?_eq_none_iff.mp hlast] at hlen
              rw [List.isEmpty_iff_length_eq_zero]
              exact hlen.symm
            rw [hnil] at hfetch
            exact ⟨true, Run.single (.fetch page) trivial hfetch⟩
        | some newest =>
            have hpos : 0 < newer.length := by
              have := List.length_pos_of_mem (List.mem_of_getLast? hlast)
              omega
            have hsome : newer.isEmpty = false := by
              rw [Bool.eq_false_iff, ne_eq, List.isEmpty_iff_length_eq_zero]
              omega
            rw [hsome] at hfetch
            -- the page is stored, the cursor goes to its newest message
            let taken := (sortByTime Msg.time newer).take (limit - stores.length)
            let ids := (newer.filter fun m => m.time == newest.time).map Msg.id
            have hstored : Run (ownStep cfg c) Always
                (s.storeAll c rest stores, .forwardStore limit stores.length taken newer)
                (s.storeAll c rest (stores ++ taken), .forwardStore limit (stores ++ taken).length [] newer) := by
              rw [storeAll_append, List.length_append]
              exact run_forwardStore rest newer taken (s.storeAll c rest stores) stores.length
            have hnext : ownStep cfg c
                (s.storeAll c rest (stores ++ taken), .forwardStore limit (stores ++ taken).length [] newer) .next
                  = some (s.storeAll c rest (stores ++ taken),
                    forwardLoop limit (stores ++ taken).length newest.time ids) :=
              congrArg (Option.map _) hlast
            have htaken : (stores ++ taken).length = stores.length + min (limit - stores.length) newer.length := by
              rw [List.length_append, List.length_take, hlen]
            obtain ⟨tail, hrest⟩ := ih (r + 1) s (stores ++ taken) newest.time ids hhist (by omega)
            exact ⟨tail, (Run.single (.fetch page) trivial hfetch).trans
              (hstored.trans ((Run.single .next trivial hnext).trans hrest))⟩
      · refine ⟨false, ?_⟩
        unfold forwardLoop
        rw [if_neg hlt, forwardRounds_done (by omega)]
        exact .refl _

/-- From the cursor of the chat, the job of `_forward` ends with what `forward` stores. -/
theorem run_forward (rest : Rest) (s : State) (hhist : s.history c = srv.history)
    (hcursor : s.newest c = some ⟨start.time, start.id⟩) :
    ∃ tail, Run (ownStep cfg c) Always (s, .forwardRead limit)
      (s.storeAll c rest (forward srv limit start).stores, .ended tail) := by
  have hread : ownStep cfg c (s, .forwardRead limit) .next = some (s, forwardLoop limit 0 start.time [start.id]) :=
    congrArg (Option.map _) hcursor
  obtain ⟨tail, hrun⟩ := run_forwardRounds rest limit 0 s [] start.time [start.id] hhist (Nat.le_refl _)
  exact ⟨tail, (Run.single .next trivial hread).trans hrun⟩

/-! ## Cases -/

def noted (id time : Int) : Msg := ⟨none, id, time, .other, false, withPhoto⟩

/-- A server that lists pages in the order of the history. -/
def Server.ofTimes (history : List Msg) (sorted : history.Pairwise fun a b => a.time ≤ b.time)
    (ids : history.Pairwise fun a b => a.id ≠ b.id) : Server :=
  ⟨history, sorted, ids, fun _ page => page, fun _ _ => List.Perm.refl _⟩

/-- Three messages, the last two of one millisecond. -/
def pairAtTheEnd : Server :=
  .ofTimes [noted 1 10, noted 2 20, noted 3 20] (by decide +kernel) (by decide +kernel)

/-- A cursor before the pair. -/
theorem forward_iff_beforePair :
    EndsAndWastesNothing pairAtTheEnd [1] 10 (noted 1 10) (forward pairAtTheEnd 10 (noted 1 10)) :=
  (forward_iff pairAtTheEnd [1] 10 (noted 1 10) (by decide +kernel) (by decide +kernel)).mpr (by decide +kernel)

/-- With the cursor at one message of the pair the call stores the other one, this one, and the other again,
    up to its limit. -/
theorem forward_wastes :
    ¬ ∀ (srv : Server) (had : List Int) (limit : Nat) (start : Msg), start ∈ srv.history → start.id ∈ had →
      EndsAndWastesNothing srv had limit start (forward srv limit start) := by
  intro hall
  have h := (hall pairAtTheEnd [1, 2] 10 (noted 2 20) (by decide +kernel) (by decide +kernel)).requests
  revert h
  decide +kernel

end MyPerson.MaxSync
