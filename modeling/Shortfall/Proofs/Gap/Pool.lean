import Mathlib.Algebra.GroupWithZero.Nat
import Mathlib.Data.List.Basic
import Mathlib.Logic.Relation
import Mathlib.Order.WellFounded
import Shortfall.Gap.Detector

/-!
# Additional strategies side by side

The additional strategies of a detector may run at the same time. What they share is the slots, the
observer and the log; each strategy is otherwise a function of the request. A `Pool` is one moment
of such a run and `Step` is whatever may happen next: some strategy starts, or ends and reports, or
writes its slot. Which strategy it is, and in what order starts, reports and writes follow each
other, is left open; the only rule is that no more strategies than the limit are under way.

The invariant `Consistent` says of each strategy what shows of it at its stage and so describes the
shared data up to the order of the reports. To run the strategies one at a time in some order is one
way to run a pool among others (`exists_finished_fillSlots`), so what the invariant says of a
finished pool holds of each of these ways too.

## Main results

* `wellFounded_step`, `finished_or_exists_step`: a run ends, and only when every slot is written.
* `Consistent.step`, `consistent_of_steps`: the invariant along a run.
* `Consistent.slots_of_finished`: what a finished pool has in its slots.
-/

namespace Shortfall.Gap

/-- How far an additional strategy has come. -/
inductive Stage where
  | waiting
  | working
  /-- It has ended and reported, and holds the gaps that it will write to its slot. -/
  | holding (gaps : List SecurityGap)
  | done

/-- An additional strategy in a pool. -/
structure Worker where
  strategy : Strategy
  stage : Stage

namespace Worker

def isUnderWay (worker : Worker) : Bool :=
  match worker.stage with
  | .waiting | .done => false
  | .working | .holding _ => true

/-- How many steps the worker has before it. -/
def stepsLeft (worker : Worker) : Nat :=
  match worker.stage with
  | .waiting => 3
  | .working => 2
  | .holding _ => 1
  | .done => 0

/-- The gaps that the worker holds, if it does, are those of its strategy. -/
def HoldsOwn (request : Request) (worker : Worker) : Prop :=
  ∀ gaps, worker.stage = .holding gaps →
    gaps = (worker.strategy.runAsAdditional request).value

/-- What the worker has written to its slot. -/
def written (request : Request) (worker : Worker) : List SecurityGap :=
  match worker.stage with
  | .waiting | .working | .holding _ => []
  | .done => (worker.strategy.runAsAdditional request).value

/-- What the worker has reported to the observer. -/
def reported (request : Request) (worker : Worker) : List Observation :=
  match worker.stage with
  | .waiting | .working => []
  | .holding _ | .done => (worker.strategy.runAsAdditional request).observations

end Worker

/-- The additional strategies in the order of registration, and what they share. -/
structure Pool where
  workers : List Worker
  slots : Slots

namespace Pool

def start (strategies : List Strategy) : Pool where
  workers := strategies.map fun strategy => ⟨strategy, .waiting⟩
  slots := { value := strategies.map fun _ => [] }

def underWay (pool : Pool) : Nat := pool.workers.countP Worker.isUnderWay

def Finished (pool : Pool) : Prop := ∀ worker ∈ pool.workers, worker.stage = .done

/-- What may happen next in a pool, to the worker between `front` and `back`. -/
inductive Step (request : Request) (limit : Nat) : Pool → Pool → Prop where
  | start {front back : List Worker} {strategy : Strategy} {slots : Slots}
      (hlimit : underWay ⟨front ++ ⟨strategy, .waiting⟩ :: back, slots⟩ < limit) :
      Step request limit ⟨front ++ ⟨strategy, .waiting⟩ :: back, slots⟩
        ⟨front ++ ⟨strategy, .working⟩ :: back, slots⟩
  | report {front back : List Worker} {strategy : Strategy} {slots : Slots} :
      Step request limit ⟨front ++ ⟨strategy, .working⟩ :: back, slots⟩
        ⟨front ++ ⟨strategy, .holding (strategy.runAsAdditional request).value⟩ :: back,
          { slots with
            entries := slots.entries ++ (strategy.runAsAdditional request).entries
            observations :=
              slots.observations ++ (strategy.runAsAdditional request).observations }⟩
  | write {front back : List Worker} {strategy : Strategy} {slots : Slots}
      {gaps : List SecurityGap} :
      Step request limit ⟨front ++ ⟨strategy, .holding gaps⟩ :: back, slots⟩
        ⟨front ++ ⟨strategy, .done⟩ :: back,
          { slots with value := slots.value.set front.length gaps }⟩

/-- A run of a pool. -/
abbrev Steps (request : Request) (limit : Nat) : Pool → Pool → Prop :=
  Relation.ReflTransGen (Step request limit)

variable {request : Request} {limit : Nat} {pool next : Pool}

/-! ## Runs end -/

def stepsLeft (pool : Pool) : Nat := (pool.workers.map Worker.stepsLeft).sum

theorem Step.stepsLeft_lt (h : Step request limit pool next) : next.stepsLeft < pool.stepsLeft := by
  cases h <;> simp [stepsLeft, Worker.stepsLeft]

/-- No pool runs for ever. -/
theorem wellFounded_step (request : Request) (limit : Nat) :
    WellFounded fun next pool => Step request limit pool next :=
  Subrelation.wf (fun h => Step.stepsLeft_lt h) (measure stepsLeft).wf

private theorem exists_step_of_isUnderWay {worker : Worker} (hworker : worker ∈ pool.workers)
    (hunder : worker.isUnderWay = true) : ∃ next, Step request limit pool next := by
  obtain ⟨workers, slots⟩ := pool
  obtain ⟨front, back, rfl⟩ := List.append_of_mem hworker
  obtain ⟨strategy, stage⟩ := worker
  cases stage with
  | waiting => cases hunder
  | working => exact ⟨_, .report⟩
  | holding gaps => exact ⟨_, .write⟩
  | done => cases hunder

/-- A pool comes to a stop only when it is finished. -/
theorem finished_or_exists_step (hlimit : 0 < limit) (pool : Pool) :
    pool.Finished ∨ ∃ next, Step request limit pool next := by
  by_cases hunder : ∃ worker ∈ pool.workers, worker.isUnderWay = true
  · obtain ⟨worker, hworker, hunder⟩ := hunder
    exact Or.inr (exists_step_of_isUnderWay hworker hunder)
  by_cases hfinished : pool.Finished
  · exact Or.inl hfinished
  -- Nobody is under way and somebody is not done, so somebody waits and has room to start.
  simp only [Finished, not_forall] at hfinished
  obtain ⟨worker, hworker, hstage⟩ := hfinished
  have hzero : pool.underWay = 0 := by
    rw [underWay, List.countP_eq_zero]
    intro other hother hother'
    exact hunder ⟨other, hother, hother'⟩
  obtain ⟨workers, slots⟩ := pool
  obtain ⟨front, back, rfl⟩ := List.append_of_mem hworker
  obtain ⟨strategy, stage⟩ := worker
  cases stage with
  | waiting => exact Or.inr ⟨_, .start (by rw [hzero]; exact hlimit)⟩
  | working => exact absurd ⟨_, hworker, rfl⟩ hunder
  | holding gaps => exact absurd ⟨_, hworker, rfl⟩ hunder
  | done => exact absurd rfl hstage

/-! ## The invariant -/

/-- What shows of each strategy is what its stage says. -/
structure Consistent (strategies : List Strategy) (request : Request) (pool : Pool) : Prop where
  strategies_eq : pool.workers.map Worker.strategy = strategies
  holdsOwn : ∀ worker ∈ pool.workers, worker.HoldsOwn request
  written : pool.slots.value = pool.workers.map (Worker.written request)
  reported : pool.slots.observations.Perm (pool.workers.flatMap (Worker.reported request))

variable {strategies : List Strategy}

private theorem consistent_start (strategies : List Strategy) (request : Request) :
    (start strategies).Consistent strategies request where
  strategies_eq := by simp [start, Function.comp_def]
  holdsOwn := by
    simp only [start, List.forall_mem_map]
    intro strategy _ gaps hstage
    cases hstage
  written := by simp [start, Worker.written, Function.comp_def]
  reported := by simp [start, Worker.reported, List.flatMap_map]

/-- Whatever happens next keeps the invariant. -/
theorem Consistent.step (h : pool.Consistent strategies request)
    (hstep : Step request limit pool next) : next.Consistent strategies request := by
  obtain ⟨hstrategies, hholds, hwritten, hreported⟩ := h
  cases hstep with
  | @start front back strategy slots _ =>
      simp only [List.forall_mem_append, List.forall_mem_cons] at hholds
      refine ⟨by simpa using hstrategies, ?_, ?_, ?_⟩
      · simp only [List.forall_mem_append, List.forall_mem_cons]
        refine ⟨hholds.1, fun gaps hstage => ?_, hholds.2.2⟩
        cases hstage
      · simpa [Worker.written] using hwritten
      · simpa [Worker.reported] using hreported
  | @report front back strategy slots =>
      simp only [List.forall_mem_append, List.forall_mem_cons] at hholds
      refine ⟨by simpa using hstrategies, ?_, ?_, ?_⟩
      · simp only [List.forall_mem_append, List.forall_mem_cons]
        refine ⟨hholds.1, fun gaps hstage => ?_, hholds.2.2⟩
        cases hstage
        rfl
      · simpa [Worker.written] using hwritten
      · -- The report comes last among those made, but in the middle of those in order.
        simp only [List.flatMap_append, List.flatMap_cons, Worker.reported, List.nil_append]
          at hreported ⊢
        refine (hreported.append_right _).trans ?_
        rw [List.append_assoc]
        exact List.perm_append_comm.append_left _
  | @write front back strategy slots gaps =>
      simp only [List.forall_mem_append, List.forall_mem_cons] at hholds
      refine ⟨by simpa using hstrategies, ?_, ?_, ?_⟩
      · simp only [List.forall_mem_append, List.forall_mem_cons]
        refine ⟨hholds.1, fun gaps hstage => ?_, hholds.2.2⟩
        cases hstage
      · have hgaps : gaps = (strategy.runAsAdditional request).value := hholds.2.1 gaps rfl
        simp only [List.map_append, List.map_cons, Worker.written] at hwritten ⊢
        rw [hwritten, List.set_append_right _ _ (by simp), ← hgaps]
        simp
      · simpa [Worker.reported] using hreported

theorem consistent_of_steps (h : Steps request limit (start strategies) pool) :
    pool.Consistent strategies request := by
  induction h with
  | refl => exact consistent_start strategies request
  | tail _ hstep ih => exact ih.step hstep

/-- A finished pool has in its slots what the strategies give, each in its own, and has reported
what they report, in some order. -/
theorem Consistent.slots_of_finished (h : pool.Consistent strategies request)
    (hfinished : pool.Finished) :
    pool.slots.value = strategies.map (fun strategy => (strategy.runAsAdditional request).value) ∧
      pool.slots.observations.Perm
        (strategies.flatMap fun strategy => (strategy.runAsAdditional request).observations) := by
  rw [← h.strategies_eq, List.map_map, List.flatMap_map]
  constructor
  · rw [h.written]
    refine List.map_congr_left fun worker hworker => ?_
    simp only [Worker.written, hfinished worker hworker, Function.comp_apply]
  · refine h.reported.trans (List.Perm.of_eq ?_)
    refine List.flatMap_congr fun worker hworker => ?_
    simp only [Worker.reported, hfinished worker hworker]

/-! ## One at a time -/

/-- One strategy from its start to its slot, with nothing in between. -/
theorem steps_alone {workers : List Worker} {index : Nat} {strategy : Strategy} {slots : Slots}
    (hget : workers[index]? = some ⟨strategy, .waiting⟩)
    (hlimit : underWay ⟨workers, slots⟩ < limit) :
    Steps request limit ⟨workers, slots⟩
      ⟨workers.set index ⟨strategy, .done⟩,
        { value := slots.value.set index (strategy.runAsAdditional request).value
          entries := slots.entries ++ (strategy.runAsAdditional request).entries
          observations :=
            slots.observations ++ (strategy.runAsAdditional request).observations }⟩ := by
  obtain ⟨hindex, hworker⟩ := List.getElem?_eq_some_iff.mp hget
  obtain ⟨front, back, hworkers, rfl, hset⟩ := List.exists_of_set hindex
  rw [hset]
  rw [hworker] at hworkers
  subst hworkers
  exact .head (.start hlimit) (.head .report (.single .write))

/-- The workers between two turns: the strategies with an index in `ended` have had theirs. -/
def workersAfter (strategies : List Strategy) (ended : List Nat) : List Worker :=
  strategies.mapIdx fun index strategy => ⟨strategy, if index ∈ ended then .done else .waiting⟩

private theorem workers_start (strategies : List Strategy) :
    (start strategies).workers = workersAfter strategies [] := by
  simp only [start, workersAfter, List.not_mem_nil, if_false]
  exact (List.mapIdx_eq_iff.mpr fun _ => List.getElem?_map).symm

private theorem underWay_workersAfter (strategies : List Strategy) (ended : List Nat)
    (slots : Slots) : underWay ⟨workersAfter strategies ended, slots⟩ = 0 := by
  rw [underWay, List.countP_eq_zero]
  intro worker hworker
  obtain ⟨index, hindex, rfl⟩ := List.mem_mapIdx.mp hworker
  by_cases hended : index ∈ ended <;> simp [Worker.isUnderWay, hended]

private theorem workersAfter_cons {index : Nat} (h : index < strategies.length) (ended : List Nat) :
    workersAfter strategies (index :: ended) =
      (workersAfter strategies ended).set index ⟨strategies[index], .done⟩ := by
  apply List.ext_getElem?
  intro other
  rw [List.getElem?_set]
  simp only [workersAfter, List.getElem?_mapIdx, List.length_mapIdx]
  by_cases hother : index = other
  · subst hother
    simp [h]
  · have hother' : other ≠ index := fun heq => hother heq.symm
    simp [hother, hother']

/-- In its turn, a strategy fills its slot. -/
theorem steps_fillSlot (hlimit : 0 < limit) {index : Nat} (hrange : index < strategies.length)
    {ended : List Nat} (hended : index ∉ ended) (slots : Slots) :
    Steps request limit ⟨workersAfter strategies ended, slots⟩
      ⟨workersAfter strategies (index :: ended), fillSlot strategies request slots index⟩ := by
  have hget : strategies[index]? = some strategies[index] := List.getElem?_eq_getElem hrange
  have hwaits : (workersAfter strategies ended)[index]? =
      some ⟨strategies[index], .waiting⟩ := by
    simp [workersAfter, hget, hended]
  have hroom : underWay ⟨workersAfter strategies ended, slots⟩ < limit := by
    rw [underWay_workersAfter]
    exact hlimit
  rw [workersAfter_cons hrange, fillSlot, hget]
  exact steps_alone hwaits hroom

private theorem steps_foldl_fillSlot (hlimit : 0 < limit) {order ended : List Nat}
    (hnodup : order.Nodup)
    (hrange : ∀ index ∈ order, index < strategies.length) (hended : ∀ index ∈ order, index ∉ ended)
    (slots : Slots) :
    Steps request limit ⟨workersAfter strategies ended, slots⟩
      ⟨workersAfter strategies (order.reverse ++ ended),
        order.foldl (fillSlot strategies request) slots⟩ := by
  induction order generalizing ended slots with
  | nil => exact .refl
  | cons index rest ih =>
      obtain ⟨hnot, hnodup⟩ := List.nodup_cons.mp hnodup
      obtain ⟨hlt, hrange⟩ := List.forall_mem_cons.mp hrange
      obtain ⟨hindex, hrest⟩ := List.forall_mem_cons.mp hended
      have hended' : ∀ other ∈ rest, other ∉ index :: ended := by
        intro other hother
        rw [List.mem_cons, not_or]
        exact ⟨ne_of_mem_of_not_mem hother hnot, hrest other hother⟩
      rw [List.reverse_cons, List.append_assoc, List.singleton_append, List.foldl_cons]
      exact (steps_fillSlot hlimit hlt hindex slots).trans (ih hnodup hrange hended' _)

/-- Running the strategies one at a time, in whatever order, is one way to run them. -/
theorem exists_finished_fillSlots (hlimit : 0 < limit) (strategies : List Strategy)
    (request : Request) {order : List Nat} (horder : order.Perm (List.range strategies.length)) :
    ∃ pool, Steps request limit (start strategies) pool ∧ pool.Finished ∧
      pool.slots = fillSlots strategies request order := by
  have hsteps : Steps request limit ⟨workersAfter strategies [], (start strategies).slots⟩ _ :=
    steps_foldl_fillSlot hlimit (horder.nodup_iff.mpr List.nodup_range)
      (fun _ hindex => List.mem_range.mp (horder.mem_iff.mp hindex))
      (fun _ _ => List.not_mem_nil) _
  rw [← workers_start] at hsteps
  refine ⟨_, hsteps, ?_, rfl⟩
  intro worker hworker
  obtain ⟨index, hindex, rfl⟩ := List.mem_mapIdx.mp hworker
  have hmem : index ∈ order := horder.mem_iff.mpr (List.mem_range.mpr hindex)
  simp [hmem]

/-- It is not the only way: with both under way, the second strategy may report first. -/
theorem exists_steps_second_first (request : Request) (first second : Strategy) :
    ∃ pool, Steps request 2 (start [first, second]) pool ∧ pool.Finished ∧
      pool.slots.observations = (second.runAsAdditional request).observations ++
        (first.runAsAdditional request).observations := by
  have hsteps : Steps request 2 (start [first, second]) _ :=
    .head (@Step.start _ _ [] [⟨second, .waiting⟩] first _ Nat.two_pos)
      (.head (@Step.start _ _ [⟨first, .working⟩] [] second _ Nat.one_lt_two)
      (.head (@Step.report _ _ [⟨first, .working⟩] [] second _)
      (.head (@Step.write _ _ [⟨first, .working⟩] [] second _ _)
      (.head (@Step.report _ _ [] [⟨second, .done⟩] first _)
      (.single (@Step.write _ _ [] [⟨second, .done⟩] first _ _))))))
  exact ⟨_, hsteps, by simp [Finished], rfl⟩

end Pool

end Shortfall.Gap
