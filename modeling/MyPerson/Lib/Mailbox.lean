import Mathlib.Data.List.Basic

/-!
# `Lib.Mailbox` — a bounded queue that is closed when it overflows

What one subscriber of a broadcast sees: offers go to a queue of at most `cap` items, the reader takes them
one by one, and an offer that finds the queue full closes the box instead of waiting. A closed box still hands
out what it holds.

## Contents
- `Mailbox`, its three actions, `run`;
- `run_kept`: what was taken and what is held are the first offers, and all of them while the box is open;
- `run_overflow`: a box that nobody closed was closed by an offer that found `cap` items.
-/

namespace Lib

variable {α : Type*}

structure Mailbox (α : Type*) where
  isOpen  : Bool
  pending : List α
  taken   : List α
deriving DecidableEq, Repr

namespace Mailbox

inductive Act (α : Type*)
  | offer (x : α)
  | take
  | close
deriving DecidableEq, Repr

def step (cap : Nat) (m : Mailbox α) : Act α → Mailbox α
  | .offer x =>
      if m.isOpen then
        if m.pending.length < cap then { m with pending := m.pending ++ [x] } else { m with isOpen := false }
      else m
  | .take =>
      match m.pending with
      | [] => m
      | x :: rest => { m with pending := rest, taken := m.taken ++ [x] }
  | .close => { m with isOpen := false }

def run (cap : Nat) (m : Mailbox α) (acts : List (Act α)) : Mailbox α := acts.foldl (step cap) m

/-- Everything that came in: taken, or still held. -/
def seen (m : Mailbox α) : List α := m.taken ++ m.pending

/-- What is offered, in order. -/
def offered (acts : List (Act α)) : List α :=
  acts.filterMap fun
    | .offer x => some x
    | _ => none

variable {cap : Nat} {m : Mailbox α} {acts : List (Act α)} {x : α}

@[simp] theorem run_nil : run cap m [] = m := rfl

@[simp] theorem run_cons (a : Act α) : run cap m (a :: acts) = run cap (step cap m a) acts := rfl

@[simp] theorem offered_nil : offered ([] : List (Act α)) = [] := rfl

@[simp] theorem offered_offer : offered (.offer x :: acts) = x :: offered acts := rfl

@[simp] theorem offered_take : offered (.take :: acts) = offered acts := rfl

@[simp] theorem offered_close : offered (.close :: acts) = offered acts := rfl

/-! ## One action -/

theorem step_offer_closed (h : m.isOpen = false) : step cap m (.offer x) = m := by simp [step, h]

theorem step_offer_room (h : m.isOpen = true) (hroom : m.pending.length < cap) :
    step cap m (.offer x) = { m with pending := m.pending ++ [x] } := by simp [step, h, hroom]

theorem step_offer_full (h : m.isOpen = true) (hfull : ¬ m.pending.length < cap) :
    step cap m (.offer x) = { m with isOpen := false } := by simp [step, h, hfull]

theorem seen_take (cap : Nat) : (step cap m .take).seen = m.seen := by
  unfold step seen
  cases h : m.pending with
  | nil => rw [h]
  | cons x rest => simp

theorem isOpen_take (cap : Nat) : (step cap m .take).isOpen = m.isOpen := by
  unfold step
  cases m.pending <;> rfl

/-- A closed box takes nothing in and stays closed. -/
theorem run_closed (cap : Nat) (acts : List (Act α)) (h : m.isOpen = false) :
    (run cap m acts).isOpen = false ∧ (run cap m acts).seen = m.seen := by
  induction acts generalizing m with
  | nil => exact ⟨h, rfl⟩
  | cons a acts ih =>
      rw [run_cons]
      cases a with
      | offer x =>
          rw [step_offer_closed h]
          exact ih h
      | take =>
          have hnext := ih (m := step cap m .take) ((isOpen_take cap).trans h)
          exact ⟨hnext.1, hnext.2.trans (seen_take cap)⟩
      | close => exact ih (m := { m with isOpen := false }) rfl

/-! ## A run -/

/-- **What an open box has seen after a run are the first offers of the run**, and every one of them if it is
    still open. -/
theorem run_kept (cap : Nat) (acts : List (Act α)) (h : m.isOpen = true) :
    ∃ n, (run cap m acts).seen = m.seen ++ (offered acts).take n ∧
      ((run cap m acts).isOpen = true → (run cap m acts).seen = m.seen ++ offered acts) := by
  induction acts generalizing m with
  | nil => exact ⟨0, by simp, fun _ => by simp⟩
  | cons a acts ih =>
      rw [run_cons]
      cases a with
      | offer x =>
          by_cases hroom : m.pending.length < cap
          · rw [step_offer_room h hroom, offered_offer]
            obtain ⟨n, hn, hall⟩ := ih (m := { m with pending := m.pending ++ [x] }) h
            have hseen : seen { m with pending := m.pending ++ [x] } = m.seen ++ [x] := by simp [seen]
            rw [hseen, List.append_assoc] at hn hall
            exact ⟨n + 1, hn, hall⟩
          · rw [step_offer_full h hroom]
            obtain ⟨hclosed, hseen⟩ := run_closed cap acts (m := { m with isOpen := false }) rfl
            refine ⟨0, ?_, fun hopen => ?_⟩
            · rw [hseen, List.take_zero, List.append_nil]
              rfl
            · rw [hclosed] at hopen
              cases hopen
      | take =>
          rw [offered_take]
          have hnext := ih (m := step cap m .take) ((isOpen_take cap).trans h)
          rwa [seen_take] at hnext
      | close =>
          obtain ⟨hclosed, hseen⟩ := run_closed cap acts (m := { m with isOpen := false }) rfl
          refine ⟨0, ?_, fun hopen => ?_⟩
          · show (run cap { m with isOpen := false } acts).seen = _
            rw [hseen, List.take_zero, List.append_nil]
            rfl
          · rw [show run cap (step cap m .close) acts = run cap { m with isOpen := false } acts from rfl] at hopen
            rw [hclosed] at hopen
            cases hopen

/-- **A box that is closed at the end of a run without `close` overflowed**: some offer found no room, and
    the box has seen exactly the offers before that one. -/
theorem run_overflow (cap : Nat) (h : m.isOpen = true) (hclose : .close ∉ acts) (hend : (run cap m acts).isOpen = false) :
    ∃ before x after, acts = before ++ .offer x :: after ∧ (run cap m before).isOpen = true ∧
      cap ≤ (run cap m before).pending.length ∧ (run cap m acts).seen = m.seen ++ offered before := by
  induction acts generalizing m with
  | nil =>
      rw [run_nil, h] at hend
      cases hend
  | cons a acts ih =>
      rw [run_cons] at hend ⊢
      obtain ⟨hne, hrest⟩ := not_or.mp (List.mem_cons.not.mp hclose)
      cases a with
      | offer x =>
          by_cases hroom : m.pending.length < cap
          · rw [step_offer_room h hroom] at hend ⊢
            obtain ⟨before, y, after, rfl, hopen, hfull, hseen⟩ :=
              ih (m := { m with pending := m.pending ++ [x] }) h hrest hend
            refine ⟨.offer x :: before, y, after, rfl, ?_, ?_, ?_⟩
            · rwa [run_cons, step_offer_room h hroom]
            · rwa [run_cons, step_offer_room h hroom]
            · rw [hseen, offered_offer]
              simp [seen]
          · -- the box overflows here
            rw [step_offer_full h hroom] at hend ⊢
            refine ⟨[], x, acts, rfl, h, Nat.le_of_not_lt hroom, ?_⟩
            rw [(run_closed cap acts (m := { m with isOpen := false }) rfl).2, offered_nil, List.append_nil]
            rfl
      | take =>
          obtain ⟨before, y, after, rfl, hopen, hfull, hseen⟩ :=
            ih (m := step cap m .take) ((isOpen_take cap).trans h) hrest hend
          exact ⟨.take :: before, y, after, rfl, hopen, hfull, by rw [hseen, seen_take, offered_take]⟩
      | close => exact absurd rfl hne

theorem step_pending_le (a : Act α) (h : m.pending.length ≤ cap) : (step cap m a).pending.length ≤ cap := by
  cases a with
  | offer x =>
      by_cases hopen : m.isOpen = true
      · by_cases hroom : m.pending.length < cap
        · rw [step_offer_room hopen hroom, List.length_append]
          exact hroom
        · rw [step_offer_full hopen hroom]
          exact h
      · rw [step_offer_closed (Bool.eq_false_iff.mpr hopen)]
        exact h
  | take =>
      simp only [step]
      split
      · exact h
      · rename_i x rest hp
        rw [hp, List.length_cons] at h
        exact Nat.le_of_succ_le h
  | close => exact h

theorem run_pending_le (h : m.pending.length ≤ cap) : (run cap m acts).pending.length ≤ cap := by
  induction acts generalizing m with
  | nil => exact h
  | cons a acts ih => exact ih (step_pending_le a h)

end Mailbox

end Lib
