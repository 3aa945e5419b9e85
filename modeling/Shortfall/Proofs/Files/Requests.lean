import Shortfall.Files

/-!
# What is asked of files

A command is written for every access to files. So it can be run on one that keeps a record of what
it is asked and passes it on (`Recorded`), and the record says what the command has read, written
and moved. Here the files behind the record are a parameter: they may answer in any way, and change
on their own between two questions. What a command asks for in each run (`Asks`) is put together
from what its parts ask for.

## Main results

* `asks_pure`, `asks_bind`, `asks_record`: what actions ask for, part by part.
* `asks_makeDirectories`: making directories touches no files.
-/

namespace Shortfall.Files

/-- A question to the files or a change of them. -/
inductive Request where
  | read (path : Text)
  | write (path : Text)
  | append (path : Text)
  | list (path : Text)
  | stat (path : Text)
  | makeDirectory (path : Text)
  | rename (source target : Text)
  | remove (path : Text)
  deriving DecidableEq, Repr

/-- The paths of the files whose content or name is asked for or changed. Neither looking at what is
there nor making a directory touches a file. -/
def Request.files : Request → List Text
  | read path | write path | append path | remove path => [path]
  | rename source target => [source, target]
  | list _ | stat _ | makeDirectory _ => []

/-- Access to files with a record of all requests, in their order. -/
abbrev Recorded (m : Type → Type) := StateT (List Request) m

/-- Takes a request down and passes it on. -/
def record {m : Type → Type} [Monad m] {α : Type} (request : Request) (action : m α) :
    Recorded m α := do
  modify (· ++ [request])
  action

instance {m : Type → Type} [Monad m] [Files m] : Files (Recorded m) where
  read path := record (.read path) (read path)
  write path content := record (.write path) (write path content)
  append path content := record (.append path) (append path content)
  list path := record (.list path) (list path)
  stat path := record (.stat path) (stat path)
  makeDirectory path := record (.makeDirectory path) (makeDirectory path)
  rename source target := record (.rename source target) (rename source target)
  remove path := record (.remove path) (remove path)

/-- The requests that an action makes in a state. -/
def requests {σ α : Type} (action : Recorded (StateM σ) α) (state : σ) : List Request :=
  ((action.run []).run state).1.2

/-- In every state the action adds to the record only what is allowed. -/
def Asks {σ α : Type} (allowed : Request → Prop) (action : Recorded (StateM σ) α) : Prop :=
  ∀ past state, ∀ request ∈ ((action.run past).run state).1.2, request ∈ past ∨ allowed request

section Asks

variable {σ α β : Type} {allowed : Request → Prop} {action : Recorded (StateM σ) α}

theorem Asks.of_mem_requests (h : Asks allowed action) {state : σ} {request : Request}
    (hrequest : request ∈ requests action state) : allowed request :=
  (h [] state request hrequest).resolve_left List.not_mem_nil

theorem asks_pure (a : α) : Asks allowed (pure a : Recorded (StateM σ) α) :=
  fun _ _ _ hrequest => .inl hrequest

theorem asks_bind {next : α → Recorded (StateM σ) β} (h : Asks allowed action)
    (hnext : ∀ a, Asks allowed (next a)) : Asks allowed (action >>= next) := by
  intro past state request hrequest
  rcases hnext _ _ _ request hrequest with hearlier | hallowed
  · exact h past state request hearlier
  · exact .inr hallowed

theorem asks_record {request : Request} (h : allowed request) (action : StateM σ α) :
    Asks allowed (record request action) := by
  intro past state other hother
  have hrecord : ((StateT.run (record request action) past).run state).1.2 = past ++ [request] :=
    rfl
  rw [hrecord, List.mem_append, List.mem_singleton] at hother
  rcases hother with hpast | rfl
  · exact .inl hpast
  · exact .inr h

end Asks

/-! ## Directories -/

section Directories

variable {σ : Type} [Files (StateM σ)] {allowed : Request → Prop}
  (hallowed : ∀ request : Request, request.files = [] → allowed request)

include hallowed

/-- The directories of a row are made from the outside in, and each of them is only looked at. -/
theorem asks_makeInnermost (paths : List Text) :
    Asks allowed (makeInnermost paths : Recorded (StateM σ) _) := by
  have hstat : ∀ path, Asks allowed (stat path : Recorded (StateM σ) _) := fun path =>
    asks_record (hallowed (.stat path) rfl) _
  induction paths with
  | nil => exact asks_pure _
  | cons path outer ih =>
      refine asks_bind (hstat path) fun found => ?_
      cases found with
      | ok info => cases info <;> exact asks_pure _
      | error missing =>
          refine asks_bind ih fun made => ?_
          cases made with
          | error error => exact asks_pure _
          | ok _ =>
              refine asks_bind (asks_record (hallowed (.makeDirectory path) rfl) _) fun made => ?_
              cases made with
              | ok _ => exact asks_pure _
              | error error =>
                  refine asks_bind (hstat path) fun found => ?_
                  cases found with
                  | ok info => cases info <;> exact asks_pure _
                  | error _ => exact asks_pure _

theorem asks_makeDirectories (path : Text) :
    Asks allowed (makeDirectories path : Recorded (StateM σ) _) :=
  asks_makeInnermost hallowed _

end Directories

end Shortfall.Files
