-- The list of the models under requests that interleave (sender/models.py: `models`). Each refresh
-- replaces one global list when the answer of the broker has come, and each lookup reads it,
-- whatever other requests did to it in between.
import AristoteDispatcher.Lib.Places
import AristoteDispatcher.Lib.Runs
import AristoteDispatcher.ModelList

open runs places
open json (Json PyStr)
open aristote_dispatcher.middleware (Exn Environment get_models hashable found_model)
open aristote_dispatcher.rpc_server (isStr)

namespace aristote_dispatcher.sender_models

/-- Where a task stands: the broker has not answered yet, or it has, with the bindings it had
then; or the task is over, and this is what it returned or raised. -/
inductive Phase
  | asks
  | answered (destinations : List String)
  | lists (models : List String)
  | finds (model : Option String)
  | raises (e : Exn)
  deriving DecidableEq

/-- A `get_model_by_id`, or a `get_models` if there is no id. It started when the bindings at the
place `started` were those of the broker, and its last step was before those at `ended` were. -/
structure Task where
  model_id : Option Json
  started : Nat
  ended : Nat
  phase : Phase

/-- The bindings of the default exchange over time, those of now last; and the global list and
the tasks of a sender. -/
structure Sender where
  history : List (List String)
  models : List String
  tasks : List Task

def Sender.create (destinations : List String) : Sender := ⟨[destinations], [], []⟩

/-- What happens to a sender. The numbers are places of tasks. -/
inductive Event
  | rebind (destinations : List String)
  | start (model_id : Option Json)
  | answer (i : Nat)
  | fail (i : Nat)
  | resume (i : Nat)

/-- Up to the request to the broker: an id that is in memory needs none. -/
def first_phase (models : List String) : Option Json → Phase
  | none => .asks
  | some model_id =>
    if hashable model_id = false then .raises .TypeError
    else match models.find? fun model => isStr model_id model with
      | some model => .finds (some model)
      | none => .asks

/-- What comes behind the refresh. -/
def last_phase (models : List String) : Option Json → Phase
  | none => .lists models
  | some model_id => .finds (models.find? fun model => isStr model_id model)

/-- A task goes on to a phase. -/
def Sender.goOn (s : Sender) (i : Nat) (t : Task) (phase : Phase) : Sender :=
  { s with tasks := s.tasks.set i { t with ended := s.history.length, phase := phase } }

def Sender.step (s : Sender) : Event → Option Sender
  | .rebind destinations => some { s with history := s.history ++ [destinations] }
  | .start model_id => some { s with
      tasks := s.tasks ++ [⟨model_id, s.history.length - 1, s.history.length,
        first_phase s.models model_id⟩] }
  | .answer i => s.tasks[i]?.bind fun t =>
    if t.phase = .asks then
      s.history.getLast?.map fun destinations => s.goOn i t (.answered destinations)
    else none
  | .fail i => s.tasks[i]?.bind fun t =>
    if t.phase = .asks then some (s.goOn i t (.raises .HTTPError)) else none
  | .resume i => s.tasks[i]?.bind fun t =>
    match t.phase with
    | .answered destinations => some
        { s.goOn i t (last_phase (get_models destinations) t.model_id) with
          models := get_models destinations }
    | _ => none

variable {s s' : Sender} {t : Task} {destinations : List String} {name : String}

/-! ## What a task says -/

/-- A task that no other one interrupts is a lookup as a request on its own makes it. -/
theorem get_model_by_id_of_alone {model_id : Json} {model : Option String} {env : Environment}
    (hmodels : env.models = s.models) (hbindings : env.bindings = s.history.getLast?)
    (h : middleware.get_model_by_id env model_id = .ok model) :
    ∃ es s' t, exec Sender.step s (.start (some model_id) :: es) = some s' ∧
      s'.tasks[s.tasks.length]? = some t ∧ t.phase = .finds model := by
  unfold middleware.get_model_by_id at h
  split at h
  · cases h
  · rename_i hhash
    split at h
    · rename_i found hfind
      cases h
      rw [hmodels] at hfind
      refine ⟨[], _, _, rfl, List.getElem?_concat_length .., ?_⟩
      simp only [first_phase, if_neg hhash, hfind]
    · rename_i hfind
      rw [hmodels] at hfind
      split at h
      · cases h
      · rename_i destinations hlast
        cases h
        rw [hbindings] at hlast
        have hasks : first_phase s.models (some model_id) = .asks := by
          simp only [first_phase, if_neg hhash, hfind]
        let t : Task := ⟨some model_id, s.history.length - 1, s.history.length,
          .finds ((get_models destinations).find? fun model => isStr model_id model)⟩
        refine ⟨[.answer s.tasks.length, .resume s.tasks.length],
          { s with models := get_models destinations, tasks := s.tasks ++ [t] }, t, ?_,
          List.getElem?_concat_length .., rfl⟩
        simp [exec, Sender.step, Sender.goOn, hasks, hlast, last_phase, t]

/-! ## The law -/

/-- The first lookup asks before the model is there, and goes on behind the second one. -/
def overtaken : List Event :=
  [.start (some (.str (.ofString "b"))), .answer 0, .rebind ["a", "b"],
    .start (some (.str (.ofString "b"))), .answer 1, .resume 1, .resume 0]

end aristote_dispatcher.sender_models
