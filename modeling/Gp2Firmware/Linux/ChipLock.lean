import Mathlib.Logic.Function.Basic
import Gp2Firmware.Lib.Run

/-!
# The lock on a chip

`nand_get_device`, `nand_release_device`, `nand_suspend` and `nand_resume`, called by any
number of tasks for any number of chips that share a controller, in any order of their
steps.  What stands between `spin_lock` and `spin_unlock` is one step; what the code reads
behind `spin_unlock` is another one.  Power management calls for one chip come one after
the other.
-/

namespace Gp2Firmware.Linux.ChipLock

/-! ### The code -/

/-- `flstate_t` -/
inductive FlState
  | ready
  | reading
  | writing
  | erasing
  | syncing
  | cachedprg
  | pmSuspended
  deriving DecidableEq

/-- What the operations on a chip call `nand_get_device` with. -/
inductive Access
  | reading
  | writing
  | erasing
  | syncing
  deriving DecidableEq

def Access.newState : Access → FlState
  | .reading => .reading
  | .writing => .writing
  | .erasing => .erasing
  | .syncing => .syncing

/-- `struct nand_hw_control`, with the states of the chips that share it. -/
@[ext] structure Controller (Chip : Type*) where
  active : Option Chip
  state : Chip → FlState

variable {Chip Task : Type*}

section Lock

variable [DecidableEq Chip]

/-- What `nand_get_device` does under the lock, and whether it has got the device. -/
def Controller.nandGetDevice (s : Controller Chip) (chip : Chip) (newState : FlState) :
    Controller Chip × Bool :=
  let active := s.active.getD chip
  if active = chip ∧ s.state chip = .ready then
    (⟨some active, Function.update s.state chip newState⟩, true)
  else (⟨some active, s.state⟩, false)

/-- What `nand_release_device` does under the lock, but for the wake-up. -/
def Controller.nandReleaseDevice (s : Controller Chip) (chip : Chip) : Controller Chip :=
  ⟨none, Function.update s.state chip .ready⟩

end Lock

/-- Where a task stands in an operation on a chip. -/
inductive Place (Chip : Type*)
  | outside
  /-- before `spin_lock` -/
  | retry (chip : Chip) (access : Access)
  /-- on the wait queue, `TASK_UNINTERRUPTIBLE` -/
  | waiting (chip : Chip) (access : Access)
  /-- on the wait queue, behind a `wake_up` -/
  | woken (chip : Chip) (access : Access)
  /-- between `nand_get_device` and `nand_release_device` -/
  | holding (chip : Chip) (access : Access)
  /-- in `nand_release_device`, before `spin_lock` -/
  | releasing (chip : Chip) (access : Access)
  deriving DecidableEq

/-- The chip that a task may use. -/
def Place.owned : Place Chip → Option (Chip × Access)
  | .holding chip access | .releasing chip access => some (chip, access)
  | .outside | .retry _ _ | .waiting _ _ | .woken _ _ => none

/-- The chip that a task is about to get. -/
def Place.wanted : Place Chip → Option (Chip × Access)
  | .retry chip access | .waiting chip access | .woken chip access => some (chip, access)
  | .outside | .holding _ _ | .releasing _ _ => none

/-- Without a wake-up the task does not go on. -/
def Place.Sleeps (place : Place Chip) : Prop :=
  ∃ chip access, place = .waiting chip access

/-- `wake_up` -/
def Place.wakeUp : Place Chip → Place Chip
  | .waiting chip access => .woken chip access
  | place => place

/-- Where the power management stands with a chip. -/
inductive Power
  | awake
  /-- in `nand_suspend`, before `spin_lock` -/
  | suspending
  /-- in `nand_suspend`, before `chip->state` is read behind the lock -/
  | refused
  /-- `nand_suspend` has returned 0 -/
  | suspended
  /-- in `nand_resume`, in `nand_release_device`, before `spin_lock` -/
  | resuming
  deriving DecidableEq

structure System (Chip Task : Type*) where
  controller : Controller Chip
  task : Task → Place Chip
  power : Chip → Power

section Moves

variable [DecidableEq Chip] [DecidableEq Task]

def System.moveTo (s : System Chip Task) (task : Task) (place : Place Chip) :
    System Chip Task :=
  { s with task := Function.update s.task task place }

def System.turn (s : System Chip Task) (chip : Chip) (power : Power) : System Chip Task :=
  { s with power := Function.update s.power chip power }

/-- `nand_release_device` under the lock. -/
def System.release (s : System Chip Task) (chip : Chip) : System Chip Task :=
  { s with
    controller := s.controller.nandReleaseDevice chip
    task := fun task => (s.task task).wakeUp }

/-- One step of a task, or of the power management of a chip. -/
inductive Event (Chip Task : Type*)
  | call (task : Task) (chip : Chip) (access : Access)
  | get (task : Task)
  | schedule (task : Task)
  | deselect (task : Task)
  | release (task : Task)
  | suspend (chip : Chip)
  | getSuspended (chip : Chip)
  | answer (chip : Chip)
  | resume (chip : Chip)
  | releaseSuspended (chip : Chip)

def step (s : System Chip Task) : Event Chip Task → System Chip Task
  | .call task chip access =>
      match s.task task with
      | .outside => s.moveTo task (.retry chip access)
      | _ => s
  | .get task =>
      match s.task task with
      | .retry chip access =>
          let (controller, got) := s.controller.nandGetDevice chip access.newState
          { s with controller := controller }.moveTo task
            (if got then .holding chip access else .waiting chip access)
      | _ => s
  | .schedule task =>
      match s.task task with
      | .woken chip access => s.moveTo task (.retry chip access)
      | _ => s
  | .deselect task =>
      match s.task task with
      | .holding chip access => s.moveTo task (.releasing chip access)
      | _ => s
  | .release task =>
      match s.task task with
      | .releasing chip _ => (s.release chip).moveTo task .outside
      | _ => s
  | .suspend chip =>
      match s.power chip with
      | .awake | .suspended => s.turn chip .suspending
      | _ => s
  | .getSuspended chip =>
      match s.power chip with
      | .suspending =>
          let (controller, got) := s.controller.nandGetDevice chip .pmSuspended
          { s with controller := controller }.turn chip (if got then .suspended else .refused)
      | _ => s
  | .answer chip =>
      match s.power chip with
      -- 0, or -EAGAIN
      | .refused =>
          s.turn chip (if s.controller.state chip = .pmSuspended then .suspended else .awake)
      | _ => s
  | .resume chip =>
      match s.power chip with
      | .awake | .suspended =>
          s.turn chip (if s.controller.state chip = .pmSuspended then .resuming else .awake)
      | _ => s
  | .releaseSuspended chip =>
      match s.power chip with
      | .resuming => (s.release chip).turn chip .awake
      | _ => s

end Moves

/-- As `nand_scan` leaves the chips. -/
def initial : System Chip Task :=
  ⟨⟨none, fun _ => .ready⟩, fun _ => .outside, fun _ => .awake⟩

/-! ### Who has the device -/

/-- The device belongs to nobody, to a task, or to the power management of a chip. -/
inductive Tenure (Chip Task : Type*)
  | free
  | held (task : Task) (chip : Chip) (access : Access)
  | suspended (chip : Chip)

section Owner

variable [DecidableEq Chip]

def Controller.taken (chip : Chip) (state : FlState) : Controller Chip :=
  ⟨some chip, Function.update (fun _ => .ready) chip state⟩

def Tenure.controller : Tenure Chip Task → Controller Chip
  | .free => ⟨none, fun _ => .ready⟩
  | .held _ chip access => .taken chip access.newState
  | .suspended chip => .taken chip .pmSuspended

theorem Access.newState_ne_ready (access : Access) : access.newState ≠ .ready := by
  cases access <;> exact FlState.noConfusion

theorem Access.newState_ne_pmSuspended (access : Access) : access.newState ≠ .pmSuspended := by
  cases access <;> exact FlState.noConfusion

theorem Controller.taken_state_self (chip : Chip) (state : FlState) :
    (Controller.taken chip state).state chip = state := by
  simp [Controller.taken]

theorem nandGetDevice_of_free (chip : Chip) (newState : FlState) :
    (Controller.mk none fun _ => .ready).nandGetDevice chip newState =
      (.taken chip newState, true) :=
  if_pos ⟨rfl, rfl⟩

theorem nandGetDevice_of_taken (owner chip : Chip) {state : FlState} (newState : FlState)
    (busy : state ≠ .ready) :
    (Controller.taken owner state).nandGetDevice chip newState =
      (.taken owner state, false) := by
  refine if_neg ?_
  rintro ⟨same, ready⟩
  have same : owner = chip := same
  subst same
  rw [Controller.taken_state_self] at ready
  exact busy ready

theorem nandReleaseDevice_taken (chip : Chip) (state : FlState) :
    (Controller.taken chip state).nandReleaseDevice chip = ⟨none, fun _ => .ready⟩ := by
  ext other
  · rfl
  · by_cases same : other = chip
    · subst same
      exact Function.update_self _ _ _
    · simp [Controller.nandReleaseDevice, Controller.taken]

theorem nandGetDevice_of_ne_free {tenure : Tenure Chip Task} (owned : tenure ≠ .free)
    (chip : Chip) (newState : FlState) :
    tenure.controller.nandGetDevice chip newState = (tenure.controller, false) := by
  cases tenure with
  | free => exact absurd rfl owned
  | held task owner access => exact nandGetDevice_of_taken _ _ _ access.newState_ne_ready
  | suspended owner => exact nandGetDevice_of_taken _ _ _ FlState.noConfusion

theorem controller_state_pmSuspended_iff {tenure : Tenure Chip Task} {chip : Chip} :
    tenure.controller.state chip = .pmSuspended ↔ tenure = .suspended chip := by
  have taken : ∀ {owner : Chip} {state : FlState},
      (Controller.taken owner state).state chip = .pmSuspended ↔
        owner = chip ∧ state = .pmSuspended := by
    intro owner state
    rcases eq_or_ne chip owner with same | different
    · rw [same, Controller.taken_state_self]
      exact (and_iff_right rfl).symm
    · have ready : (Controller.taken owner state).state chip = .ready := by
        simp [Controller.taken, different]
      rw [ready]
      exact iff_of_false FlState.noConfusion fun taken => different taken.1.symm
  cases tenure with
  | free => simp [Tenure.controller]
  | held task owner access =>
      have awake := access.newState_ne_pmSuspended
      simp [Tenure.controller, taken, awake]
  | suspended owner => simp [Tenure.controller, taken]

end Owner

/-- The code's state stands for a tenure. -/
structure Represents [DecidableEq Chip] (s : System Chip Task) (tenure : Tenure Chip Task) :
    Prop where
  controller : s.controller = tenure.controller
  owned : ∀ task chip access,
    (s.task task).owned = some (chip, access) ↔ tenure = .held task chip access
  sleeps : ∀ task, (s.task task).Sleeps → tenure ≠ .free
  suspended : ∀ chip, s.power chip = .suspended ∨ s.power chip = .resuming →
    tenure = .suspended chip
  told : ∀ chip, tenure = .suspended chip → s.power chip ≠ .awake

/-- What can become of a tenure in one step. -/
inductive Tenure.Moves : Tenure Chip Task → Tenure Chip Task → Prop
  | stays (tenure : Tenure Chip Task) : Moves tenure tenure
  | taken (task : Task) (chip : Chip) (access : Access) : Moves .free (.held task chip access)
  | left (task : Task) (chip : Chip) (access : Access) : Moves (.held task chip access) .free
  | suspends (chip : Chip) : Moves .free (.suspended chip)
  | resumes (chip : Chip) : Moves (.suspended chip) .free

/-! ### Steps -/

section Places

variable {s : System Chip Task} {task : Task} {chip : Chip} {place : Place Chip} {power : Power}

@[simp] theorem owned_wakeUp (place : Place Chip) : place.wakeUp.owned = place.owned := by
  cases place <;> rfl

theorem not_sleeps_wakeUp (place : Place Chip) : ¬place.wakeUp.Sleeps := by
  rintro ⟨chip, access, sleeping⟩
  cases place <;> cases sleeping

@[simp] theorem moveTo_task_self [DecidableEq Task] : (s.moveTo task place).task task = place := by
  simp [System.moveTo]

theorem moveTo_task_of_ne [DecidableEq Task] {other : Task} (different : other ≠ task) :
    (s.moveTo task place).task other = s.task other := by
  simp [System.moveTo, different]

@[simp] theorem turn_power_self [DecidableEq Chip] : (s.turn chip power).power chip = power := by
  simp [System.turn]

theorem turn_power_of_ne [DecidableEq Chip] {other : Chip} (different : other ≠ chip) :
    (s.turn chip power).power other = s.power other := by
  simp [System.turn, different]

end Places

section Steps

variable [DecidableEq Chip] {s : System Chip Task} {tenure : Tenure Chip Task} {task : Task}
  {chip : Chip} {access : Access} {place : Place Chip} {power : Power}

theorem represents_initial : Represents (initial : System Chip Task) .free where
  controller := rfl
  owned _ _ _ := by simp [initial, Place.owned]
  sleeps _ := by simp [initial, Place.Sleeps]
  suspended _ := by simp [initial]
  told _ := by simp

/-- What the power management learns behind the lock. -/
theorem Represents.turn (represents : Represents s tenure)
    (suspended : power = .suspended ∨ power = .resuming → tenure = .suspended chip)
    (told : tenure = .suspended chip → power ≠ .awake) :
    Represents (s.turn chip power) tenure where
  controller := represents.controller
  owned := represents.owned
  sleeps := represents.sleeps
  suspended other := by
    by_cases same : other = chip
    · subst same
      rw [turn_power_self]
      exact suspended
    · rw [turn_power_of_ne same]
      exact represents.suspended other
  told other := by
    by_cases same : other = chip
    · subst same
      rw [turn_power_self]
      exact told
    · rw [turn_power_of_ne same]
      exact represents.told other

theorem Represents.turn_read (represents : Represents s tenure) {read : Power}
    (asleep : read ≠ .awake) :
    Represents
      (s.turn chip (if s.controller.state chip = .pmSuspended then read else .awake)) tenure := by
  have known : s.controller.state chip = .pmSuspended ↔ tenure = .suspended chip := by
    rw [represents.controller]
    exact controller_state_pmSuspended_iff
  by_cases suspended : s.controller.state chip = .pmSuspended
  · rw [if_pos suspended]
    exact represents.turn (fun _ => known.mp suspended) fun _ => asleep
  · rw [if_neg suspended]
    exact represents.turn (by simp) fun other => absurd (known.mpr other) suspended

theorem Represents.getSuspended_of_free (represents : Represents s .free) :
    Represents ({ s with controller := .taken chip .pmSuspended }.turn chip .suspended)
      (.suspended chip) where
  controller := rfl
  owned task chip' access := by
    refine (represents.owned task chip' access).trans ?_
    simp
  sleeps _ _ := by simp
  suspended other asleep := by
    by_cases same : other = chip
    · rw [same]
    · rw [turn_power_of_ne same] at asleep
      cases represents.suspended other asleep
  told other same := by
    cases same
    simp

theorem release_controller (taken : s.controller = .taken chip state) :
    (s.release chip).controller = ⟨none, fun _ => .ready⟩ := by
  rw [System.release, taken, nandReleaseDevice_taken]

theorem Represents.release_of_suspended (represents : Represents s (.suspended chip)) :
    Represents ((s.release chip).turn chip .awake) .free where
  controller := release_controller represents.controller
  owned task chip' access := by
    change (s.task task).wakeUp.owned = _ ↔ _
    rw [owned_wakeUp, represents.owned]
    simp
  sleeps _ sleeping := absurd sleeping (not_sleeps_wakeUp _)
  suspended other asleep := by
    by_cases same : other = chip
    · subst same
      simp at asleep
    · rw [turn_power_of_ne same] at asleep
      cases represents.suspended other asleep
      exact absurd rfl same
  told _ := by simp

variable [DecidableEq Task]

/-- A task goes on without getting or giving up a chip. -/
theorem Represents.moveTo (represents : Represents s tenure)
    (owned : place.owned = (s.task task).owned) (sleeps : place.Sleeps → tenure ≠ .free) :
    Represents (s.moveTo task place) tenure where
  controller := represents.controller
  owned other chip access := by
    by_cases same : other = task
    · subst same
      rw [moveTo_task_self, owned, represents.owned]
    · rw [moveTo_task_of_ne same, represents.owned]
  sleeps other := by
    by_cases same : other = task
    · subst same
      rw [moveTo_task_self]
      exact sleeps
    · rw [moveTo_task_of_ne same]
      exact represents.sleeps other
  suspended := represents.suspended
  told := represents.told

theorem Represents.get_of_free (represents : Represents s .free) :
    Represents ({ s with controller := .taken chip access.newState }.moveTo task
      (.holding chip access)) (.held task chip access) where
  controller := rfl
  owned other chip' access' := by
    by_cases same : other = task
    · subst same
      simp [Place.owned]
    · rw [moveTo_task_of_ne same, represents.owned]
      simp [Ne.symm same]
  sleeps _ _ := by simp
  suspended chip' asleep := by cases represents.suspended chip' asleep
  told _ := by simp

theorem Represents.release_of_held (represents : Represents s (.held task chip access)) :
    Represents ((s.release chip).moveTo task .outside) .free where
  controller := release_controller represents.controller
  owned other chip' access' := by
    by_cases same : other = task
    · subst same
      simp [Place.owned]
    · rw [moveTo_task_of_ne same]
      change (s.task other).wakeUp.owned = _ ↔ _
      rw [owned_wakeUp, represents.owned]
      simp [Ne.symm same]
  sleeps other := by
    by_cases same : other = task
    · subst same
      simp [Place.Sleeps]
    · rw [moveTo_task_of_ne same]
      exact fun sleeping => absurd sleeping (not_sleeps_wakeUp _)
  suspended chip' asleep := by cases represents.suspended chip' asleep
  told _ := by simp

end Steps

/-! ### Runs -/

section Runs

variable [DecidableEq Chip] [DecidableEq Task] {s : System Chip Task}
  {tenure : Tenure Chip Task}

omit [DecidableEq Task] in
/-- Where a step does nothing, nobody gets or loses the device. -/
theorem Represents.stays (represents : Represents s tenure) {t : System Chip Task}
    (same : t = s) : ∃ next, tenure.Moves next ∧ Represents t next :=
  ⟨tenure, .stays tenure, same ▸ represents⟩

/-- Nor where a task goes on with what it has. -/
theorem Represents.goesOn (represents : Represents s tenure) {task : Task} {place : Place Chip}
    {t : System Chip Task} (moved : t = s.moveTo task place)
    (owned : place.owned = (s.task task).owned) (awake : ¬place.Sleeps) :
    ∃ next, tenure.Moves next ∧ Represents t next := by
  rw [moved]
  exact ⟨tenure, .stays tenure, represents.moveTo owned fun asleep => absurd asleep awake⟩

theorem Represents.get (represents : Represents s tenure) (task : Task) :
    ∃ next, tenure.Moves next ∧ Represents (step s (.get task)) next := by
  cases place : s.task task with
  | retry chip access =>
      by_cases free : tenure = .free
      · subst free
        refine ⟨.held task chip access, .taken task chip access, ?_⟩
        have controller : s.controller = ⟨none, fun _ => .ready⟩ := represents.controller
        simp only [step, place, controller, nandGetDevice_of_free, if_true]
        exact represents.get_of_free
      · refine ⟨tenure, .stays tenure, ?_⟩
        have refused := nandGetDevice_of_ne_free free chip access.newState
        rw [← represents.controller] at refused
        simp only [step, place, refused, Bool.false_eq_true, if_false]
        exact represents.moveTo (by rw [place, Place.owned, Place.owned]) fun _ => free
  | _ => exact represents.stays (by simp only [step, place])

theorem Represents.getSuspended (represents : Represents s tenure) (chip : Chip) :
    ∃ next, tenure.Moves next ∧ Represents (step s (.getSuspended chip)) next := by
  cases power : s.power chip with
  | suspending =>
      by_cases free : tenure = .free
      · subst free
        refine ⟨.suspended chip, .suspends chip, ?_⟩
        have controller : s.controller = ⟨none, fun _ => .ready⟩ := represents.controller
        simp only [step, power, controller, nandGetDevice_of_free, if_true]
        exact represents.getSuspended_of_free
      · refine ⟨tenure, .stays tenure, ?_⟩
        have refused := nandGetDevice_of_ne_free free chip .pmSuspended
        rw [← represents.controller] at refused
        simp only [step, power, refused, Bool.false_eq_true, if_false]
        exact represents.turn (by simp) fun _ => by simp
  | _ => exact represents.stays (by simp only [step, power])

/-- Who gives the device up is the one who has it. -/
theorem Represents.release (represents : Represents s tenure) (task : Task) :
    ∃ next, tenure.Moves next ∧ Represents (step s (.release task)) next := by
  cases place : s.task task with
  | releasing chip access =>
      have held := (represents.owned task chip access).mp (by rw [place, Place.owned])
      subst held
      refine ⟨.free, .left task chip access, ?_⟩
      simp only [step, place]
      exact represents.release_of_held
  | _ => exact represents.stays (by simp only [step, place])

theorem Represents.releaseSuspended (represents : Represents s tenure) (chip : Chip) :
    ∃ next, tenure.Moves next ∧ Represents (step s (.releaseSuspended chip)) next := by
  cases power : s.power chip with
  | resuming =>
      have suspended := represents.suspended chip (.inr power)
      subst suspended
      refine ⟨.free, .resumes chip, ?_⟩
      simp only [step, power]
      exact represents.release_of_suspended
  | _ => exact represents.stays (by simp only [step, power])

theorem represents_step (represents : Represents s tenure) (event : Event Chip Task) :
    ∃ next, tenure.Moves next ∧ Represents (step s event) next := by
  cases event with
  | get task => exact represents.get task
  | release task => exact represents.release task
  | getSuspended chip => exact represents.getSuspended chip
  | releaseSuspended chip => exact represents.releaseSuspended chip
  | call task chip access =>
      cases place : s.task task with
      | outside =>
          have moved : step s (.call task chip access) = s.moveTo task (.retry chip access) := by
            simp only [step, place]
          exact represents.goesOn moved (by rw [place, Place.owned, Place.owned])
            (by simp [Place.Sleeps])
      | _ => exact represents.stays (by simp only [step, place])
  | schedule task =>
      cases place : s.task task with
      | woken chip access =>
          have moved : step s (.schedule task) = s.moveTo task (.retry chip access) := by
            simp only [step, place]
          exact represents.goesOn moved (by rw [place, Place.owned, Place.owned])
            (by simp [Place.Sleeps])
      | _ => exact represents.stays (by simp only [step, place])
  | deselect task =>
      cases place : s.task task with
      | holding chip access =>
          have moved : step s (.deselect task) = s.moveTo task (.releasing chip access) := by
            simp only [step, place]
          exact represents.goesOn moved (by rw [place, Place.owned, Place.owned])
            (by simp [Place.Sleeps])
      | _ => exact represents.stays (by simp only [step, place])
  | suspend chip =>
      have asked : Represents (s.turn chip .suspending) tenure :=
        represents.turn (by simp) fun _ => by simp
      cases power : s.power chip with
      | awake | suspended =>
          simp only [step, power]
          exact ⟨tenure, .stays tenure, asked⟩
      | _ => exact represents.stays (by simp only [step, power])
  | answer chip =>
      cases power : s.power chip with
      | refused =>
          simp only [step, power]
          exact ⟨tenure, .stays tenure, represents.turn_read Power.noConfusion⟩
      | _ => exact represents.stays (by simp only [step, power])
  | resume chip =>
      cases power : s.power chip with
      | awake | suspended =>
          simp only [step, power]
          exact ⟨tenure, .stays tenure, represents.turn_read Power.noConfusion⟩
      | _ => exact represents.stays (by simp only [step, power])

theorem represents_run (events : List (Event Chip Task)) :
    ∃ tenure, Represents (events.foldl step (initial : System Chip Task)) tenure := by
  refine List.foldlRecOn (motive := fun s => ∃ tenure, Represents s tenure) events step
    ⟨.free, represents_initial⟩ ?_
  rintro s ⟨tenure, represents⟩ event -
  obtain ⟨next, -, representsNext⟩ := represents_step represents event
  exact ⟨next, representsNext⟩

/-- In every order of the steps at most one task may use the chips of the controller, the
controller and its chips say which one and what for, and none may while a chip is suspended.
Nobody gets the device but when it is free. -/
theorem nand_get_device_excludes (events : List (Event Chip Task)) (event : Event Chip Task) :
    let s := events.foldl step (initial : System Chip Task)
    (∀ task other use use', (s.task task).owned = some use →
        (s.task other).owned = some use' → task = other ∧ use = use') ∧
      (∀ task chip access, (s.task task).owned = some (chip, access) →
        s.controller = .taken chip access.newState) ∧
      (∀ chip, s.power chip = .suspended ∨ s.power chip = .resuming →
        s.controller = .taken chip .pmSuspended ∧ ∀ task, (s.task task).owned = none) ∧
      ∀ task use, ((step s event).task task).owned = some use →
        (s.task task).owned = some use ∨ s.controller = ⟨none, fun _ => .ready⟩ := by
  intro s
  obtain ⟨tenure, represents⟩ : ∃ tenure, Represents s tenure := represents_run events
  obtain ⟨next, moves, representsNext⟩ := represents_step represents event
  refine ⟨?_, ?_, ?_, ?_⟩
  · rintro task other ⟨chip, access⟩ ⟨chip', access'⟩ owned owned'
    have held := (represents.owned task chip access).mp owned
    have held' := (represents.owned other chip' access').mp owned'
    rw [held] at held'
    simpa using held'
  · intro task chip access owned
    rw [represents.controller, (represents.owned task chip access).mp owned]
    rfl
  · intro chip asleep
    have suspended := represents.suspended chip asleep
    subst suspended
    refine ⟨represents.controller, fun task => ?_⟩
    cases owned : (s.task task).owned with
    | none => rfl
    | some use => cases (represents.owned task use.1 use.2).mp owned
  · rintro task ⟨chip, access⟩ owned
    have held := (representsNext.owned task chip access).mp owned
    subst held
    cases moves with
    | stays => exact .inl ((represents.owned task chip access).mpr rfl)
    | taken => exact .inr represents.controller

/-! ### No task waits in vain -/

/-- The device is free for whoever comes. -/
theorem Represents.holding_of_free (represents : Represents s .free) {task : Task} {chip : Chip}
    {access : Access} (wanted : (s.task task).wanted = some (chip, access)) :
    ([Event.schedule task, .get task].foldl step s).task task = .holding chip access := by
  have got : ∀ s : System Chip Task, Represents s .free →
      s.task task = .retry chip access →
        (step s (.get task)).task task = .holding chip access := by
    intro s represents place
    have controller : s.controller = ⟨none, fun _ => .ready⟩ := represents.controller
    simp only [step, place, controller, nandGetDevice_of_free, if_true, moveTo_task_self]
  cases place : s.task task with
  | retry chip' access' =>
      simp only [place, Place.wanted, Option.some.injEq, Prod.mk.injEq] at wanted
      obtain ⟨rfl, rfl⟩ := wanted
      simp only [List.foldl_cons, List.foldl_nil]
      rw [show step s (.schedule task) = s by simp only [step, place]]
      exact got s represents place
  | woken chip' access' =>
      simp only [place, Place.wanted, Option.some.injEq, Prod.mk.injEq] at wanted
      obtain ⟨rfl, rfl⟩ := wanted
      simp only [List.foldl_cons, List.foldl_nil]
      rw [show step s (.schedule task) = s.moveTo task (.retry chip' access') by
        simp only [step, place]]
      refine got _ (represents.moveTo ?_ (by simp [Place.Sleeps])) moveTo_task_self
      rw [place, Place.owned, Place.owned]
  | waiting chip' access' => exact absurd rfl (represents.sleeps task ⟨_, _, place⟩)
  | outside | holding _ _ | releasing _ _ => simp [place, Place.wanted] at wanted

omit [DecidableEq Chip] [DecidableEq Task] in
@[simp] theorem wanted_wakeUp (place : Place Chip) : place.wakeUp.wanted = place.wanted := by
  cases place <;> rfl

omit [DecidableEq Chip] [DecidableEq Task] in
theorem wanted_of_owned {place : Place Chip} {use : Chip × Access}
    (owned : place.owned = some use) : place.wanted = none := by
  cases place with
  | holding _ _ | releasing _ _ => rfl
  | outside | retry _ _ | waiting _ _ | woken _ _ => cases owned

/-- The task that has the device gives it up. -/
theorem Represents.free_of_held {owner : Task} {chip : Chip} {access : Access}
    (represents : Represents s (.held owner chip access)) :
    Represents ([Event.deselect owner, .release owner].foldl step s) .free ∧
      ∀ task, (s.task task).wanted ≠ none →
        (([Event.deselect owner, .release owner].foldl step s).task task).wanted =
          (s.task task).wanted := by
  have given : ∀ s : System Chip Task, Represents s (.held owner chip access) →
      s.task owner = .releasing chip access →
        Represents (step s (.release owner)) .free ∧ ∀ task ≠ owner,
          ((step s (.release owner)).task task).wanted = (s.task task).wanted := by
    intro s represents place
    simp only [step, place]
    refine ⟨represents.release_of_held, fun task different => ?_⟩
    rw [moveTo_task_of_ne different]
    exact wanted_wakeUp _
  have owned := (represents.owned owner chip access).mpr rfl
  have apart : ∀ task, (s.task task).wanted ≠ none → task ≠ owner := by
    rintro task wants rfl
    exact wants (wanted_of_owned owned)
  simp only [List.foldl_cons, List.foldl_nil]
  cases place : s.task owner with
  | holding chip' access' =>
      simp only [place, Place.owned, Option.some.injEq, Prod.mk.injEq] at owned
      obtain ⟨rfl, rfl⟩ := owned
      rw [show step s (.deselect owner) = s.moveTo owner (.releasing chip' access') by
        simp only [step, place]]
      obtain ⟨free, kept⟩ := given _
        (represents.moveTo (by rw [place, Place.owned, Place.owned]) (by simp [Place.Sleeps]))
        moveTo_task_self
      refine ⟨free, fun task wants => ?_⟩
      rw [kept task (apart task wants), moveTo_task_of_ne (apart task wants)]
  | releasing chip' access' =>
      simp only [place, Place.owned, Option.some.injEq, Prod.mk.injEq] at owned
      obtain ⟨rfl, rfl⟩ := owned
      rw [show step s (.deselect owner) = s by simp only [step, place]]
      obtain ⟨free, kept⟩ := given s represents place
      exact ⟨free, fun task wants => kept task (apart task wants)⟩
  | outside | retry _ _ | waiting _ _ | woken _ _ => simp [place, Place.owned] at owned

section Resume

variable {chip : Chip} (represents : Represents s (.suspended chip))

include represents

omit [DecidableEq Task] in
theorem Represents.state_of_suspended : s.controller.state chip = .pmSuspended := by
  rw [represents.controller]
  exact Controller.taken_state_self chip _

theorem Represents.suspended_getSuspended :
    ∃ t, step s (.getSuspended chip) = t ∧ Represents t (.suspended chip) ∧ t.task = s.task ∧
      t.power chip ≠ .suspending := by
  cases power : s.power chip with
  | suspending =>
      have refused : s.controller.nandGetDevice chip .pmSuspended = (s.controller, false) := by
        rw [represents.controller]
        exact nandGetDevice_of_ne_free (by simp) chip .pmSuspended
      refine ⟨s.turn chip .refused, ?_, represents.turn (by simp) (by simp), rfl, by simp⟩
      simp only [step, power, refused, Bool.false_eq_true, if_false]
  | _ => exact ⟨s, by simp only [step, power], represents, rfl, by simp [power]⟩

theorem Represents.suspended_answer (asked : s.power chip ≠ .suspending) :
    ∃ t, step s (.answer chip) = t ∧ Represents t (.suspended chip) ∧ t.task = s.task ∧
      (t.power chip = .suspended ∨ t.power chip = .resuming) := by
  cases power : s.power chip with
  | refused =>
      refine ⟨s.turn chip .suspended, ?_, represents.turn (by simp) (by simp), rfl, by simp⟩
      simp only [step, power, represents.state_of_suspended, if_true]
  | suspending => exact absurd power asked
  | awake => exact absurd power (represents.told chip rfl)
  | _ => exact ⟨s, by simp only [step, power], represents, rfl, by simp [power]⟩

theorem Represents.suspended_resume
    (asleep : s.power chip = .suspended ∨ s.power chip = .resuming) :
    ∃ t, step s (.resume chip) = t ∧ Represents t (.suspended chip) ∧ t.task = s.task ∧
      t.power chip = .resuming := by
  rcases asleep with power | power
  · refine ⟨s.turn chip .resuming, ?_, represents.turn (by simp) (by simp), rfl, by simp⟩
    simp only [step, power, represents.state_of_suspended, if_true]
  · exact ⟨s, by simp only [step, power], represents, rfl, power⟩

/-- The power management takes a chip back that it has suspended. -/
theorem Represents.free_of_suspended :
    Represents ([Event.getSuspended chip, .answer chip, .resume chip,
      .releaseSuspended chip].foldl step s) .free ∧
      ∀ task, (([Event.getSuspended chip, .answer chip, .resume chip,
        .releaseSuspended chip].foldl step s).task task).wanted = (s.task task).wanted := by
  obtain ⟨first, asks, representsFirst, sameFirst, asked⟩ := represents.suspended_getSuspended
  obtain ⟨second, answers, representsSecond, sameSecond, asleep⟩ :=
    representsFirst.suspended_answer asked
  obtain ⟨third, resumes, representsThird, sameThird, power⟩ :=
    representsSecond.suspended_resume asleep
  have wakes : step third (.releaseSuspended chip) = (third.release chip).turn chip .awake := by
    simp only [step, power]
  simp only [List.foldl_cons, List.foldl_nil, asks, answers, resumes, wakes]
  refine ⟨representsThird.release_of_suspended, fun task => ?_⟩
  change (third.task task).wakeUp.wanted = _
  rw [wanted_wakeUp, sameThird, sameSecond, sameFirst]

end Resume

end Runs

end Gp2Firmware.Linux.ChipLock
