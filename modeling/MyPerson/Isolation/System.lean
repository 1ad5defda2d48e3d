import MyPerson.Isolation.Steps
import MyPerson.Lib.Run

/-!
# `Isolation.System` — copy and delta, with legacy writes between their statements

`copy` and `delta` of `isolation_copy.py` as a state machine over the legacy tables, the new tables and the
watermark. A legacy transaction may commit between any two statements; a run may stop anywhere, and then keeps
the steps it had committed. Steps A, I, J and K touch no messages and no media.

## Contents
- `Stage`, where a run is, and `RunState`;
- `State`, `Action`;
- `runStage`, one statement of the steps; `advance`, one of the whole run; `step`.
-/

namespace MyPerson.Isolation

open Lib
open WriteLimits (Platform)

/-- The next statement of a run. What `owners` and `chats` have selected is committed with their step. -/
inductive Stage
  | reading (rest : List Source)
  | identities
  | owners (rest : List Rule) (got : List Owner)
  | preconditions
  | chats (got : Option (List (Int × Int)))
  | users
  | messages (p : Platform) (range : Option (Int × Int))
  | media (p : Platform) (range : Option (Int × Int))
  | rest
deriving DecidableEq, Repr

/-- A run of `copy`, or of `delta` since a watermark (`delta_wm`), and the position it read at its start. -/
structure RunState where
  since : Option Mark
  position : Mark
  stage : Stage

/-- `copied`: a copy has come to its end. -/
structure State where
  legacy    : Legacy
  clock     : Nat
  tables    : Tables
  watermark : Option Mark
  copied    : Bool
  run       : Option RunState

/-- Before the first copy, with the legacy tables `L`. -/
def State.start (L : Legacy) (clock : Nat) : State := ⟨L, clock, Tables.empty, none, false, none⟩

/-- `legacy` is a transaction on the legacy tables: any new state of them. -/
inductive Action
  | tick (d : Nat)
  | commit (legacy : Legacy)
  | startCopy
  | startDelta
  | advance
  | abort

/-- `BATCH`. -/
def batch : Int := 50000

/-- The ids of a legacy table. -/
def Legacy.ids (L : Legacy) : Source → List Int
  | .messages p => (L.messages p).map LegacyMessage.id
  | .media p => (L.media p).map LegacyMedia.id

/-- The `min(id) - 1` and `max(id)` of `_batches`; `none` for an empty table. -/
def Legacy.idRange (L : Legacy) (source : Source) : Option (Int × Int) :=
  match (L.ids source).min?, (L.ids source).max? with
  | some lo, some hi => some (lo - 1, hi)
  | _, _ => none

/-- `%(hi)s` of the next statement: a delta takes the whole range at once. -/
def batchEnd (since : Option Mark) (lo hi : Int) : Int :=
  if since.isSome then hi else lo + batch

def afterMessages : Platform → Stage
  | .telegram => .messages .max none
  | .max => .media .telegram none

def afterMedia : Platform → Stage
  | .telegram => .media .max none
  | .max => .rest

/-- The position of a run once the greatest id of `source` is read. -/
def Mark.read (w : Mark) (source : Source) (L : Legacy) : Mark :=
  { w with maxId := Function.update w.maxId source (L.ids source).max? }

/-- The loop of `_batches` goes on. -/
def goesOn (since : Option Mark) (lo hi : Int) : Bool := since.isNone && decide (lo + batch < hi)

/-- What the next statement of the steps does to the tables, and what comes after it; `none`: it raises. -/
def runStage (ctx : Ctx) (L : Legacy) (T : Tables) (since : Option Mark) : Stage → Option (Tables × Stage)
  | .reading _ => none
  | .identities => some (stepBIdentities ctx L T, .owners allRules [])
  | .owners (rule :: rest) got => some (T, .owners rest (insertKeys got (candidatesBy ctx L rule)))
  | .owners [] got =>
      some ({ T with owners := insertKeys T.owners got }, if since.isNone then .preconditions else .chats none)
  | .preconditions => if preconditions ctx L then some (T, .chats none) else none
  | .chats none => some (T, .chats (some (chatsToCopy L since T.owners .telegram)))
  | .chats (some got) =>
      some ({ T with chats := insertKeys T.chats (got ++ chatsToCopy L since T.owners .max) }, .users)
  | .users => some (stepFUsers ctx L T, .messages .telegram none)
  | .messages p none =>
      some (T, (L.idRange (.messages p)).elim (afterMessages p) fun range => .messages p (some range))
  | .messages p (some (lo, hi)) =>
      some (stepGMessages ctx L T since p lo (batchEnd since lo hi),
        if goesOn since lo hi then .messages p (some (lo + batch, hi)) else afterMessages p)
  | .media p none =>
      some (T, (L.idRange (.media p)).elim (afterMedia p) fun range => .media p (some range))
  | .media p (some (lo, hi)) =>
      some (stepHMedia L T since p lo (batchEnd since lo hi),
        if goesOn since lo hi then .media p (some (lo + batch, hi)) else afterMedia p)
  | .rest => none

/-- One statement of the run. -/
def advance (ctx : Ctx) (s : State) (r : RunState) : Option State :=
  match r.stage with
  | .reading (source :: rest) =>
      some { s with run := some { r with position := r.position.read source s.legacy, stage := .reading rest } }
  | .reading [] =>
      -- the first copy sets the watermark before its steps, a delta at its end
      some { s with
        watermark := if r.since.isNone then s.watermark.or (some r.position) else s.watermark
        run := some { r with stage := .identities } }
  | .rest =>
      some { s with
        watermark := if r.since.isNone then s.watermark else some r.position
        copied := r.since.isNone || s.copied
        run := none }
  | stage =>
      (runStage ctx s.legacy s.tables r.since stage).map fun next =>
        { s with tables := next.1, run := some { r with stage := next.2 } }

def step (ctx : Ctx) (s : State) : Action → Option State
  | .tick d => some { s with clock := s.clock + d }
  | .commit legacy => some { s with legacy := legacy }
  | .startCopy =>
      match s.run with
      | none => some { s with run := some ⟨none, ⟨s.clock, fun _ => none⟩, .reading sources⟩ }
      | some _ => none
  | .startDelta =>
      match s.run, s.watermark with
      | none, some w => some { s with run := some ⟨some w, ⟨s.clock, fun _ => none⟩, .reading sources⟩ }
      | _, _ => none
  | .advance => s.run.bind (advance ctx s)
  | .abort => s.run.map fun _ => { s with run := none }

end MyPerson.Isolation
