import Gittest.Lib.Monitor
import Gittest.Proof.QueueOps
import Gittest.ThreadPool

/-!
# The invariant of the thread pool

`s.Inv ptr nodes`: the queue is the list `nodes` at `ptr`. Whatever holds of the data while the mutex is
free, the owner of the mutex may have broken, by an amount that depends on the statement it has come
to: its `Progress`.
-/

namespace Gittest

open Monitor

variable {W C : Type}

/-! ### Where a thread is -/

def WorkerPc.inside : WorkerPc → Bool
  | .test | .deq | .failed | .count _ | .broadcast _ | .unlock _ => true
  | _ => false

def CallerPc.inside : CallerPc → Bool
  | .test _ | .enq _ | .count _ | .signal _ | .unlock _ => true
  | _ => false

/-- The worker is awake and will take the next task it finds. -/
def WorkerPc.seeking : WorkerPc → Nat
  | .lock | .test | .relock | .deq => 1
  | _ => 0

theorem WorkerPc.seeking_le_one (pc : WorkerPc) : pc.seeking ≤ 1 := by
  cases pc <;> simp [seeking]

/-- What the owner of the mutex has done and knows. -/
structure Progress (C : Type) where
  /-- Tasks that it has put in the queue, or taken out, and not counted yet. -/
  uncounted : Int := 0
  /-- It has seen that many tasks counted. -/
  floor : Int := 0
  /-- It has seen room for that many tasks. -/
  room : Int := 0
  unreturned : List (C × ThreadpoolTask) := []
  unsignalled : Nat := 0
  unbroadcast : Int := 0

def WorkerPc.progress : WorkerPc → Progress C
  | .deq => { floor := 1 }
  | .count _ => { uncounted := -1, floor := 1 }
  | .broadcast _ => { unbroadcast := 1 }
  | _ => {}

def CallerPc.progress (c : C) : CallerPc → Progress C
  | .enq _ => { room := 1 }
  | .count task => { uncounted := 1, room := 1, unreturned := [(c, task)], unsignalled := 1 }
  | .signal task => { unreturned := [(c, task)], unsignalled := 1 }
  | .unlock task => { unreturned := [(c, task)] }
  | _ => {}

namespace Pool

def Inside (s : Pool W C) : Thread W C → Prop
  | .worker w => (s.worker w).inside
  | .caller c => (s.caller c).inside

def progress (s : Pool W C) : Progress C :=
  match s.lock with
  | none => {}
  | some (.worker w) => (s.worker w).progress
  | some (.caller c) => (s.caller c).progress c

/-- The data, where the owner of the mutex has come to `p`; and no worker or thread in `add_task` is
blocked that ought to be awake. -/
structure Data [Fintype W] (s : Pool W C) (ptr : Addr) (nodes : List (Addr × ThreadpoolTask))
    (p : Progress C) : Prop where
  fault : s.fault = none
  taskQueue : s.taskQueue = some ptr
  queueMax : 1 ≤ s.queueMaxSize ∧ s.queueMaxSize ≤ intMax
  failed : ∀ w, s.worker w ≠ .failed
  list : s.mem.IsList ptr 16 nodes
  order : s.accepted.map Prod.snd = s.taken.map Prod.snd ++ nodes.map Prod.snd
  returned : s.accepted = s.returned ++ p.unreturned
  size : (nodes.length : Int) = s.queueSize + p.uncounted
  lower : p.floor ≤ s.queueSize
  upper : s.queueSize + p.room ≤ s.queueMaxSize
  workers : (∃ w, s.worker w = .wait) →
    nodes.length ≤ tally WorkerPc.seeking s.worker + p.unsignalled
  callers : (∃ c task, s.caller c = .wait task) → s.queueMaxSize ≤ s.queueSize + p.unbroadcast

structure Inv [Fintype W] (s : Pool W C) (ptr : Addr) (nodes : List (Addr × ThreadpoolTask)) :
    Prop where
  owner : Guards s.lock s.Inside
  data : s.Data ptr nodes s.progress

theorem Inv.lock_of_worker [Fintype W] {s : Pool W C} {ptr : Addr}
    {nodes : List (Addr × ThreadpoolTask)} {w : W} (hinv : s.Inv ptr nodes) (hpc : (s.worker w).inside) :
    s.lock = some (.worker w) :=
  (hinv.owner (.worker w)).mp hpc

theorem Inv.data_of_worker [Fintype W] {s : Pool W C} {ptr : Addr}
    {nodes : List (Addr × ThreadpoolTask)} {w : W} (hinv : s.Inv ptr nodes)
    (hpc : (s.worker w).inside) : s.Data ptr nodes (s.worker w).progress := by
  have hdata := hinv.data
  rwa [progress, hinv.lock_of_worker hpc] at hdata

theorem Inv.lock_of_caller [Fintype W] {s : Pool W C} {ptr : Addr}
    {nodes : List (Addr × ThreadpoolTask)} {c : C} (hinv : s.Inv ptr nodes)
    (hpc : (s.caller c).inside) : s.lock = some (.caller c) :=
  (hinv.owner (.caller c)).mp hpc

theorem Inv.data_of_caller [Fintype W] {s : Pool W C} {ptr : Addr}
    {nodes : List (Addr × ThreadpoolTask)} {c : C} (hinv : s.Inv ptr nodes)
    (hpc : (s.caller c).inside) : s.Data ptr nodes ((s.caller c).progress c) := by
  have hdata := hinv.data
  rwa [progress, hinv.lock_of_caller hpc] at hdata

section WorkerMoves

variable [DecidableEq W] {s : Pool W C} {w : W} {pc : WorkerPc}

@[simp] theorem worker_setWorker : (s.setWorker w pc).worker = Function.update s.worker w pc := rfl

@[simp] theorem caller_setWorker : (s.setWorker w pc).caller = s.caller := rfl

@[simp] theorem lock_setWorker : (s.setWorker w pc).lock = s.lock := rfl

theorem inside_setWorker_self : (s.setWorker w pc).Inside (.worker w) ↔ pc.inside := by
  rw [Inside, worker_setWorker, Function.update_self]

theorem inside_setWorker_of_ne {t : Thread W C} (hne : t ≠ .worker w) :
    (s.setWorker w pc).Inside t ↔ s.Inside t := by
  cases t with
  | worker v =>
      have hvw : v ≠ w := fun h => hne (congrArg Thread.worker h)
      rw [Inside, worker_setWorker, Function.update_of_ne hvw, Inside]
  | caller d => exact Iff.rfl

theorem progress_setWorker_self (hlock : s.lock = some (.worker w)) :
    (s.setWorker w pc).progress = pc.progress := by
  simp only [progress, lock_setWorker, worker_setWorker, hlock, Function.update_self]

theorem guards_setWorker (howner : Guards s.lock s.Inside) (hinside : s.Inside (.worker w))
    (hpc : pc.inside) : Guards s.lock (s.setWorker w pc).Inside := by
  apply howner.keep
  intro t
  by_cases ht : t = .worker w
  · rw [ht, inside_setWorker_self]
    exact ⟨fun _ => hinside, fun _ => hpc⟩
  · exact inside_setWorker_of_ne ht

theorem failed_setWorker (hfailed : ∀ v, s.worker v ≠ .failed) (hpc : pc ≠ .failed) :
    ∀ v, (s.setWorker w pc).worker v ≠ .failed := by
  intro v
  rw [worker_setWorker]
  by_cases hv : v = w
  · rw [hv, Function.update_self]
    exact hpc
  · rw [Function.update_of_ne hv]
    exact hfailed v

theorem wait_setWorker (hpc : pc ≠ .wait) (hwait : ∃ v, (s.setWorker w pc).worker v = .wait) :
    ∃ v, s.worker v = .wait := by
  obtain ⟨v, hv⟩ := hwait
  rw [worker_setWorker] at hv
  by_cases hvw : v = w
  · rw [hvw, Function.update_self] at hv
    exact absurd hv hpc
  · rw [Function.update_of_ne hvw] at hv
    exact ⟨v, hv⟩

end WorkerMoves

section CallerMoves

variable [DecidableEq C] {s : Pool W C} {c : C} {pc : CallerPc}

@[simp] theorem worker_setCaller : (s.setCaller c pc).worker = s.worker := rfl

@[simp] theorem caller_setCaller : (s.setCaller c pc).caller = Function.update s.caller c pc := rfl

@[simp] theorem lock_setCaller : (s.setCaller c pc).lock = s.lock := rfl

theorem inside_setCaller_self : (s.setCaller c pc).Inside (.caller c) ↔ pc.inside := by
  rw [Inside, caller_setCaller, Function.update_self]

theorem inside_setCaller_of_ne {t : Thread W C} (hne : t ≠ .caller c) :
    (s.setCaller c pc).Inside t ↔ s.Inside t := by
  cases t with
  | worker v => exact Iff.rfl
  | caller d =>
      have hdc : d ≠ c := fun h => hne (congrArg Thread.caller h)
      rw [Inside, caller_setCaller, Function.update_of_ne hdc, Inside]

theorem progress_setCaller_self (hlock : s.lock = some (.caller c)) :
    (s.setCaller c pc).progress = pc.progress c := by
  simp only [progress, lock_setCaller, caller_setCaller, hlock, Function.update_self]

theorem guards_setCaller (howner : Guards s.lock s.Inside) (hinside : s.Inside (.caller c))
    (hpc : pc.inside) : Guards s.lock (s.setCaller c pc).Inside := by
  apply howner.keep
  intro t
  by_cases ht : t = .caller c
  · rw [ht, inside_setCaller_self]
    exact ⟨fun _ => hinside, fun _ => hpc⟩
  · exact inside_setCaller_of_ne ht

theorem wait_setCaller (hpc : ∀ task, pc ≠ .wait task)
    (hwait : ∃ d task, (s.setCaller c pc).caller d = .wait task) :
    ∃ d task, s.caller d = .wait task := by
  obtain ⟨d, task, hd⟩ := hwait
  rw [caller_setCaller] at hd
  by_cases hdc : d = c
  · rw [hdc, Function.update_self] at hd
    exact absurd hd (hpc task)
  · rw [Function.update_of_ne hdc] at hd
    exact ⟨d, task, hd⟩

end CallerMoves

/-! ### The steps of a worker -/

section WorkerSteps

variable [Fintype W] [DecidableEq W] {s : Pool W C} {ptr : Addr}
  {nodes : List (Addr × ThreadpoolTask)} {w : W} {pc : WorkerPc}

theorem tally_setWorker (s : Pool W C) (w : W) (pc : WorkerPc) :
    tally WorkerPc.seeking (s.setWorker w pc).worker + (s.worker w).seeking
      = tally WorkerPc.seeking s.worker + pc.seeking :=
  tally_update s.worker w pc

theorem Data.moveWorker {p : Progress C} (hdata : s.Data ptr nodes p) (w : W) (pc : WorkerPc)
    (hfailed : pc ≠ .failed) (hwait : pc ≠ .wait) (hseeking : (s.worker w).seeking ≤ pc.seeking) :
    (s.setWorker w pc).Data ptr nodes p :=
  { hdata with
    failed := failed_setWorker hdata.failed hfailed
    workers := by
      intro hwaiting
      have hle := hdata.workers (wait_setWorker hwait hwaiting)
      have htally := tally_setWorker s w pc
      omega }

theorem inv_of_worker (howner : Guards s.lock s.Inside) (hin : s.Inside (.worker w))
    (hpc : pc.inside) (hdata : (s.setWorker w pc).Data ptr nodes pc.progress) :
    (s.setWorker w pc).Inv ptr nodes := by
  refine ⟨guards_setWorker howner hin hpc, ?_⟩
  rwa [progress_setWorker_self ((howner _).mp hin)]

theorem inv_acquire_worker (hinv : s.Inv ptr nodes) (hlock : s.lock = none) :
    ((s.setLock (some (.worker w))).setWorker w .test).Inv ptr nodes := by
  have howner := hinv.owner
  have hdata := hinv.data
  rw [hlock] at howner
  rw [progress, hlock] at hdata
  constructor
  case owner => exact howner.acquire (inside_setWorker_self.mpr rfl) fun t => inside_setWorker_of_ne
  case data =>
    have hmoved := hdata.moveWorker w .test (by decide) (by decide)
      (WorkerPc.seeking_le_one _)
    rw [progress_setWorker_self rfl]
    exact { hmoved with }

theorem inv_unlock_worker (hinv : s.Inv ptr nodes) {task : ThreadpoolTask}
    (hpc : s.worker w = .unlock task) : ((s.setLock none).setWorker w (.run task)).Inv ptr nodes := by
  have hin : (s.worker w).inside := by rw [hpc]; rfl
  have howner := hinv.owner
  have hdata := hinv.data_of_worker hin
  rw [hinv.lock_of_worker hin] at howner
  rw [hpc] at hdata
  constructor
  case owner =>
    refine howner.release ?_ fun t => inside_setWorker_of_ne
    rw [inside_setWorker_self]
    exact Bool.false_ne_true
  case data =>
    have hseeking : (s.worker w).seeking ≤ (WorkerPc.run task).seeking := by rw [hpc]; rfl
    have hmoved := hdata.moveWorker w (.run task) (by simp) (by simp) hseeking
    exact { hmoved with }

theorem inv_seek (hinv : s.Inv ptr nodes) (hout : (s.worker w).inside = false)
    (hpc : pc = .lock ∨ pc = .relock) : (s.setWorker w pc).Inv ptr nodes := by
  have hnot : s.lock ≠ some (.worker w) := by
    intro hlock
    have hin : (s.worker w).inside := (hinv.owner (.worker w)).mpr hlock
    rw [hout] at hin
    cases hin
  constructor
  case owner =>
    apply hinv.owner.keep
    intro t
    by_cases ht : t = .worker w
    · rw [ht, inside_setWorker_self, Inside, hout]
      rcases hpc with rfl | rfl <;> rfl
    · exact inside_setWorker_of_ne ht
  case data =>
    have hprogress : (s.setWorker w pc).progress = s.progress := by
      rw [progress, progress, lock_setWorker, worker_setWorker, caller_setWorker]
      rcases hlock : s.lock with _ | ⟨v | c⟩
      · rfl
      · have hv : v ≠ w := fun h => hnot (by rw [hlock, h])
        dsimp only
        rw [Function.update_of_ne hv]
      · rfl
    rw [hprogress]
    rcases hpc with rfl | rfl
    · exact hinv.data.moveWorker w _ (by decide) (by decide) (WorkerPc.seeking_le_one _)
    · exact hinv.data.moveWorker w _ (by decide) (by decide) (WorkerPc.seeking_le_one _)

theorem inv_wait_worker (hinv : s.Inv ptr nodes) (hpc : s.worker w = .test)
    (hempty : s.queueSize ≤ 0) : ((s.setLock none).setWorker w .wait).Inv ptr nodes := by
  have hin : (s.worker w).inside := by rw [hpc]; rfl
  have howner := hinv.owner
  have hdata := hinv.data_of_worker hin
  rw [hinv.lock_of_worker hin] at howner
  rw [hpc] at hdata
  constructor
  case owner =>
    refine howner.release ?_ fun t => inside_setWorker_of_ne
    rw [inside_setWorker_self]
    exact Bool.false_ne_true
  case data =>
    have hsize := hdata.size
    simp only [WorkerPc.progress] at hsize
    exact { hdata with
      failed := failed_setWorker hdata.failed (by decide)
      workers := by
        intro _
        omega }

theorem inv_found (hinv : s.Inv ptr nodes) (hpc : s.worker w = .test) (hsome : ¬s.queueSize ≤ 0) :
    (s.setWorker w .deq).Inv ptr nodes := by
  have hin : (s.worker w).inside := by rw [hpc]; rfl
  have hdata := hinv.data_of_worker hin
  rw [hpc] at hdata
  apply inv_of_worker hinv.owner hin rfl
  have hseeking : (s.worker w).seeking ≤ WorkerPc.deq.seeking := WorkerPc.seeking_le_one _
  have hmoved := hdata.moveWorker w .deq (by decide) (by decide) hseeking
  exact { hmoved with
    lower := by
      change 1 ≤ s.queueSize
      omega }

/-- It takes the task at the front: the queue is not empty. -/
theorem inv_deq (hinv : s.Inv ptr nodes) (hpc : s.worker w = .deq) {s' : Pool W C}
    (hstep : s.workerStep w = some s') : ∃ nodes', s'.Inv ptr nodes' := by
  have hin : (s.worker w).inside := by rw [hpc]; rfl
  have hdata := hinv.data_of_worker hin
  rw [hpc] at hdata
  have hsize := hdata.size
  have hlower := hdata.lower
  simp only [WorkerPc.progress] at hsize hlower
  cases nodes with
  | nil =>
      rw [List.length_nil] at hsize
      omega
  | cons node nodes =>
      obtain ⟨a, task⟩ := node
      obtain ⟨m', hdeq, hlist⟩ := queueDeq_cons hdata.list (by decide)
      have hrun : (do queueDeq (← deref s.taskQueue) : MemM ThreadpoolTask Unit _) s.mem
          = .ok ((0, some task), m') := by
        rw [hdata.taskQueue, run_bind deref_ok, hdeq]
      simp only [workerStep, hpc, onHeap, hrun, Option.some.injEq] at hstep
      rw [if_neg (by decide)] at hstep
      subst hstep
      refine ⟨nodes, inv_of_worker hinv.owner hin rfl ?_⟩
      have htally := tally_setWorker s w (.count task)
      rw [hpc] at htally
      exact { hdata with
        failed := failed_setWorker hdata.failed (by simp)
        list := hlist
        order := by
          have horder := hdata.order
          change s.accepted.map Prod.snd
            = (s.taken ++ [(w, task)]).map Prod.snd ++ nodes.map Prod.snd
          rw [horder, List.map_append, List.append_assoc]
          rfl
        size := by
          rw [List.length_cons] at hsize
          push_cast at hsize
          change (nodes.length : Int) = s.queueSize + -1
          omega
        workers := by
          intro hwaiting
          have hle := hdata.workers (wait_setWorker (by simp) hwaiting)
          simp only [List.length_cons, WorkerPc.progress, WorkerPc.seeking] at hle htally
          change nodes.length ≤ tally WorkerPc.seeking (s.setWorker w (.count task)).worker + 0
          omega }

theorem inv_count_worker (hinv : s.Inv ptr nodes) {task : ThreadpoolTask}
    (hpc : s.worker w = .count task) :
    (s.addSize (-1) fun s => s.setWorker w (.broadcast task)).Inv ptr nodes := by
  have hin : (s.worker w).inside := by rw [hpc]; rfl
  have hdata := hinv.data_of_worker hin
  rw [hpc] at hdata
  have hsize := hdata.size
  have hlower := hdata.lower
  have hupper := hdata.upper
  simp only [WorkerPc.progress] at hsize hlower hupper
  have hmin : intMin ≤ s.queueSize + -1 := le_trans (by decide : intMin ≤ 0) (by omega)
  have hmax := hdata.queueMax.2
  rw [addSize, if_pos ⟨hmin, by omega⟩]
  refine inv_of_worker hinv.owner hin rfl ?_
  have hseeking : (s.worker w).seeking ≤ (WorkerPc.broadcast task).seeking := by rw [hpc]; rfl
  have hmoved := hdata.moveWorker w (.broadcast task) (by simp) (by simp) hseeking
  exact { hmoved with
    size := by
      change (nodes.length : Int) = s.queueSize + -1 + 0
      omega
    lower := by
      change 0 ≤ s.queueSize + -1
      omega
    upper := by
      change s.queueSize + -1 + 0 ≤ s.queueMaxSize
      omega
    callers := by
      intro hwaiting
      have hle := hdata.callers hwaiting
      simp only [WorkerPc.progress] at hle
      change s.queueMaxSize ≤ s.queueSize + -1 + 1
      omega }

theorem CallerPc.awake_ne_wait (pc : CallerPc) (task : ThreadpoolTask) : pc.awake ≠ .wait task := by
  cases pc <;> simp [CallerPc.awake]

theorem CallerPc.inside_awake (pc : CallerPc) : pc.awake.inside = pc.inside := by
  cases pc <;> rfl

theorem inv_broadcast (hinv : s.Inv ptr nodes) {task : ThreadpoolTask}
    (hpc : s.worker w = .broadcast task) :
    ({ s with caller := fun c => (s.caller c).awake }.setWorker w (.unlock task)).Inv ptr nodes := by
  have hin : (s.worker w).inside := by rw [hpc]; rfl
  have hdata := hinv.data_of_worker hin
  rw [hpc] at hdata
  have howner : Guards s.lock ({ s with caller := fun c => (s.caller c).awake } : Pool W C).Inside := by
    apply hinv.owner.keep
    intro t
    cases t with
    | worker v => exact Iff.rfl
    | caller c => rw [Inside, CallerPc.inside_awake, Inside]
  apply inv_of_worker howner hin rfl
  have hseeking : (s.worker w).seeking ≤ (WorkerPc.unlock task).seeking := by rw [hpc]; rfl
  have hmoved := hdata.moveWorker w (.unlock task) (by simp) (by simp) hseeking
  exact { hmoved with
    callers := by
      rintro ⟨c, task', hwait⟩
      exact absurd hwait (CallerPc.awake_ne_wait _ _) }

theorem inv_workerStep (hinv : s.Inv ptr nodes) {s' : Pool W C} (hstep : s.workerStep w = some s') :
    ∃ nodes', s'.Inv ptr nodes' := by
  cases hpc : s.worker w with
  | lock =>
      cases hlock : s.lock with
      | none =>
          simp only [workerStep, hpc, hlock, Option.some.injEq] at hstep
          exact ⟨nodes, hstep ▸ inv_acquire_worker hinv hlock⟩
      | some t => simp [workerStep, hpc, hlock] at hstep
  | test =>
      simp only [workerStep, hpc] at hstep
      split at hstep
      · rename_i hempty
        cases hstep
        exact ⟨nodes, inv_wait_worker hinv hpc hempty⟩
      · rename_i hsome
        cases hstep
        exact ⟨nodes, inv_found hinv hpc hsome⟩
  | wait => simp [workerStep, hpc] at hstep
  | relock =>
      cases hlock : s.lock with
      | none =>
          simp only [workerStep, hpc, hlock, Option.some.injEq] at hstep
          exact ⟨nodes, hstep ▸ inv_acquire_worker hinv hlock⟩
      | some t => simp [workerStep, hpc, hlock] at hstep
  | deq => exact inv_deq hinv hpc hstep
  | failed => exact absurd hpc (hinv.data.failed w)
  | count task =>
      simp only [workerStep, hpc, Option.some.injEq] at hstep
      exact ⟨nodes, hstep ▸ inv_count_worker hinv hpc⟩
  | broadcast task =>
      simp only [workerStep, hpc, Option.some.injEq] at hstep
      exact ⟨nodes, hstep ▸ inv_broadcast hinv hpc⟩
  | unlock task =>
      simp only [workerStep, hpc, Option.some.injEq] at hstep
      exact ⟨nodes, hstep ▸ inv_unlock_worker hinv hpc⟩
  | run task =>
      simp only [workerStep, hpc, Option.some.injEq] at hstep
      exact ⟨nodes, hstep ▸ inv_seek hinv (by rw [hpc]; rfl) (Or.inl rfl)⟩

end WorkerSteps

/-! ### The steps of a thread in `add_task` -/

section CallerSteps

variable [Fintype W] [DecidableEq C] {s : Pool W C} {ptr : Addr}
  {nodes : List (Addr × ThreadpoolTask)} {c : C} {pc : CallerPc} {task : ThreadpoolTask}

theorem Data.moveCaller {p : Progress C} (hdata : s.Data ptr nodes p) (c : C) (pc : CallerPc)
    (hwait : ∀ task, pc ≠ .wait task) : (s.setCaller c pc).Data ptr nodes p :=
  { hdata with callers := fun hwaiting => hdata.callers (wait_setCaller hwait hwaiting) }

theorem inv_of_caller (howner : Guards s.lock s.Inside) (hin : s.Inside (.caller c))
    (hpc : pc.inside) (hdata : (s.setCaller c pc).Data ptr nodes (pc.progress c)) :
    (s.setCaller c pc).Inv ptr nodes := by
  refine ⟨guards_setCaller howner hin hpc, ?_⟩
  rwa [progress_setCaller_self ((howner _).mp hin)]

theorem inv_acquire_caller (hinv : s.Inv ptr nodes) (hlock : s.lock = none) :
    ((s.setLock (some (.caller c))).setCaller c (.test task)).Inv ptr nodes := by
  have howner := hinv.owner
  have hdata := hinv.data
  rw [hlock] at howner
  rw [progress, hlock] at hdata
  constructor
  case owner => exact howner.acquire (inside_setCaller_self.mpr rfl) fun t => inside_setCaller_of_ne
  case data =>
    have hmoved := hdata.moveCaller c (.test task) (by simp)
    rw [progress_setCaller_self rfl]
    exact { hmoved with }

theorem inv_enter (hinv : s.Inv ptr nodes) (hout : (s.caller c).inside = false)
    (hpc : ∃ task, pc = .lock task ∨ pc = .relock task) : (s.setCaller c pc).Inv ptr nodes := by
  have hnot : s.lock ≠ some (.caller c) := by
    intro hlock
    have hin : (s.caller c).inside := (hinv.owner (.caller c)).mpr hlock
    rw [hout] at hin
    cases hin
  constructor
  case owner =>
    apply hinv.owner.keep
    intro t
    by_cases ht : t = .caller c
    · rw [ht, inside_setCaller_self, Inside, hout]
      obtain ⟨_, rfl | rfl⟩ := hpc <;> rfl
    · exact inside_setCaller_of_ne ht
  case data =>
    have hprogress : (s.setCaller c pc).progress = s.progress := by
      rw [progress, progress, lock_setCaller, worker_setCaller, caller_setCaller]
      rcases hlock : s.lock with _ | ⟨v | d⟩
      · rfl
      · rfl
      · have hd : d ≠ c := fun h => hnot (by rw [hlock, h])
        dsimp only
        rw [Function.update_of_ne hd]
    rw [hprogress]
    obtain ⟨_, rfl | rfl⟩ := hpc
    · exact hinv.data.moveCaller c _ (by simp)
    · exact hinv.data.moveCaller c _ (by simp)

theorem inv_wait_caller (hinv : s.Inv ptr nodes) (hpc : s.caller c = .test task)
    (hfull : s.queueSize ≥ s.queueMaxSize) :
    ((s.setLock none).setCaller c (.wait task)).Inv ptr nodes := by
  have hin : (s.caller c).inside := by rw [hpc]; rfl
  have howner := hinv.owner
  have hdata := hinv.data_of_caller hin
  rw [hinv.lock_of_caller hin] at howner
  rw [hpc] at hdata
  constructor
  case owner =>
    refine howner.release ?_ fun t => inside_setCaller_of_ne
    rw [inside_setCaller_self]
    exact Bool.false_ne_true
  case data =>
    exact { hdata with
      callers := by
        intro _
        change s.queueMaxSize ≤ s.queueSize + 0
        omega }

theorem inv_room (hinv : s.Inv ptr nodes) (hpc : s.caller c = .test task)
    (hroom : ¬s.queueSize ≥ s.queueMaxSize) : (s.setCaller c (.enq task)).Inv ptr nodes := by
  have hin : (s.caller c).inside := by rw [hpc]; rfl
  have hdata := hinv.data_of_caller hin
  rw [hpc] at hdata
  apply inv_of_caller hinv.owner hin rfl
  have hmoved := hdata.moveCaller c (.enq task) (by simp)
  exact { hmoved with
    upper := by
      change s.queueSize + 1 ≤ s.queueMaxSize
      omega }

theorem inv_enq (hinv : s.Inv ptr nodes) {alloc : Allocator} {a : Addr}
    (hanswer : s.mem.answer alloc (16 + 16) = some a) (hpc : s.caller c = .enq task) {s' : Pool W C}
    (hstep : s.callerStep alloc c = some s') : ∃ nodes', s'.Inv ptr nodes' := by
  have hin : (s.caller c).inside := by rw [hpc]; rfl
  have hdata := hinv.data_of_caller hin
  rw [hpc] at hdata
  obtain ⟨m', henq, hinserted⟩ := queueEnq_ok hdata.list (by decide) task hanswer
  have hrun : (do queueEnq alloc (← deref s.taskQueue) task : MemM ThreadpoolTask Unit _) s.mem
      = .ok (0, m') := by
    rw [hdata.taskQueue, run_bind deref_ok, henq]
  simp only [callerStep, hpc, onHeap, hrun, Option.some.injEq] at hstep
  rw [if_neg (by decide)] at hstep
  subst hstep
  refine ⟨nodes ++ [(a, task)], inv_of_caller hinv.owner hin rfl ?_⟩
  have hmoved := hdata.moveCaller c (.count task) (by simp)
  exact { hmoved with
    list := hinserted.isList
    order := by
      have horder := hdata.order
      change (s.accepted ++ [(c, task)]).map Prod.snd
        = s.taken.map Prod.snd ++ (nodes ++ [(a, task)]).map Prod.snd
      rw [List.map_append, horder, List.map_append, List.append_assoc]
      rfl
    returned := by
      have hreturned := hdata.returned
      simp only [CallerPc.progress, List.append_nil] at hreturned
      change s.accepted ++ [(c, task)] = s.returned ++ [(c, task)]
      rw [hreturned]
    size := by
      have hsize := hdata.size
      simp only [CallerPc.progress] at hsize
      rw [List.length_append, List.length_singleton]
      push_cast
      change (nodes.length : Int) + 1 = s.queueSize + 1
      omega
    workers := by
      intro hwaiting
      have hle := hdata.workers hwaiting
      simp only [CallerPc.progress] at hle
      rw [List.length_append, List.length_singleton]
      change nodes.length + 1 ≤ tally WorkerPc.seeking s.worker + 1
      omega }

theorem inv_count_caller (hinv : s.Inv ptr nodes) (hpc : s.caller c = .count task) :
    (s.addSize 1 fun s => s.setCaller c (.signal task)).Inv ptr nodes := by
  have hin : (s.caller c).inside := by rw [hpc]; rfl
  have hdata := hinv.data_of_caller hin
  rw [hpc] at hdata
  have hsize := hdata.size
  have hlower := hdata.lower
  have hupper := hdata.upper
  have hmax := hdata.queueMax.2
  simp only [CallerPc.progress] at hsize hlower hupper
  have hmin : intMin ≤ s.queueSize + 1 := le_trans (by decide : intMin ≤ 0) (by omega)
  rw [addSize, if_pos ⟨hmin, by omega⟩]
  refine inv_of_caller hinv.owner hin rfl ?_
  have hmoved := hdata.moveCaller c (.signal task) (by simp)
  exact { hmoved with
    size := by
      change (nodes.length : Int) = s.queueSize + 1 + 0
      omega
    lower := by
      change 0 ≤ s.queueSize + 1
      omega
    upper := by
      change s.queueSize + 1 + 0 ≤ s.queueMaxSize
      omega
    callers := by
      intro hwaiting
      have hle := hmoved.callers hwaiting
      simp only [CallerPc.progress] at hle
      change s.queueMaxSize ≤ s.queueSize + 1 + 0
      change s.queueMaxSize ≤ s.queueSize + 0 at hle
      omega }

theorem inv_return (hinv : s.Inv ptr nodes) (hpc : s.caller c = .unlock task) :
    (({ s with returned := s.returned ++ [(c, task)] }.setLock none).setCaller c .idle).Inv ptr
      nodes := by
  have hin : (s.caller c).inside := by rw [hpc]; rfl
  have howner := hinv.owner
  have hdata := hinv.data_of_caller hin
  rw [hinv.lock_of_caller hin] at howner
  rw [hpc] at hdata
  constructor
  case owner =>
    refine howner.release ?_ fun t => inside_setCaller_of_ne
    rw [inside_setCaller_self]
    exact Bool.false_ne_true
  case data =>
    have hmoved := hdata.moveCaller c .idle (by simp)
    exact { hmoved with
      returned := by
        have hreturned := hdata.returned
        simp only [CallerPc.progress] at hreturned
        change s.accepted = s.returned ++ [(c, task)] ++ []
        rw [hreturned, List.append_nil] }

theorem inv_callerStep (hinv : s.Inv ptr nodes) {alloc : Allocator}
    (henq : ∀ task, s.caller c = .enq task → ∃ a, s.mem.answer alloc (16 + 16) = some a)
    {s' : Pool W C} (hstep : s.callerStep alloc c = some s') : ∃ nodes', s'.Inv ptr nodes' := by
  cases hpc : s.caller c with
  | idle => simp [callerStep, hpc] at hstep
  | lock task =>
      cases hlock : s.lock with
      | none =>
          simp only [callerStep, hpc, hlock, Option.some.injEq] at hstep
          exact ⟨nodes, hstep ▸ inv_acquire_caller hinv hlock⟩
      | some t => simp [callerStep, hpc, hlock] at hstep
  | test task =>
      simp only [callerStep, hpc] at hstep
      split at hstep
      · rename_i hfull
        cases hstep
        exact ⟨nodes, inv_wait_caller hinv hpc hfull⟩
      · rename_i hroom
        cases hstep
        exact ⟨nodes, inv_room hinv hpc hroom⟩
  | wait task => simp [callerStep, hpc] at hstep
  | relock task =>
      cases hlock : s.lock with
      | none =>
          simp only [callerStep, hpc, hlock, Option.some.injEq] at hstep
          exact ⟨nodes, hstep ▸ inv_acquire_caller hinv hlock⟩
      | some t => simp [callerStep, hpc, hlock] at hstep
  | enq task =>
      obtain ⟨a, hanswer⟩ := henq task hpc
      exact inv_enq hinv hanswer hpc hstep
  | count task =>
      simp only [callerStep, hpc, Option.some.injEq] at hstep
      exact ⟨nodes, hstep ▸ inv_count_caller hinv hpc⟩
  | signal task => simp [callerStep, hpc] at hstep
  | unlock task =>
      simp only [callerStep, hpc, Option.some.injEq] at hstep
      exact ⟨nodes, hstep ▸ inv_return hinv hpc⟩

/-- **The signal.** One more worker is awake if one was blocked. -/
theorem inv_signalStep [DecidableEq W] (hinv : s.Inv ptr nodes) {woken : Finset W} {s' : Pool W C}
    (hstep : s.signalStep c woken = some s') : s'.Inv ptr nodes := by
  cases hpc : s.caller c with
  | signal task =>
      have hin : (s.caller c).inside := by rw [hpc]; rfl
      have hdata := hinv.data_of_caller hin
      rw [hpc] at hdata
      simp only [signalStep, hpc] at hstep
      split at hstep
      · rename_i hwoken
        cases hstep
        have howner : Guards s.lock
            ({ s with worker := fun w => if w ∈ woken then .relock else s.worker w } :
              Pool W C).Inside := by
          apply hinv.owner.keep
          intro t
          cases t with
          | worker w =>
              unfold Inside
              dsimp only
              split
              · rename_i hw
                rw [hwoken.1 w hw]
                rfl
              · rfl
          | caller d => exact Iff.rfl
        apply inv_of_caller howner hin rfl
        have hmoved := hdata.moveCaller c (.unlock task) (by simp)
        exact { hmoved with
          failed := by
            intro w
            change (if w ∈ woken then .relock else s.worker w) ≠ .failed
            split
            · decide
            · exact hdata.failed w
          workers := by
            rintro ⟨w, hw⟩
            change (if w ∈ woken then .relock else s.worker w) = .wait at hw
            split at hw
            · cases hw
            · have hle := hdata.workers ⟨w, hw⟩
              obtain ⟨v, hv⟩ := hwoken.2 ⟨w, hw⟩
              have hlt : tally WorkerPc.seeking s.worker
                  < tally WorkerPc.seeking fun w => if w ∈ woken then .relock else s.worker w := by
                refine tally_lt (fun u => ?_) (w := v) ?_
                · split
                  · exact WorkerPc.seeking_le_one _
                  · exact le_rfl
                · rw [if_pos hv, hwoken.1 v hv]
                  decide
              simp only [CallerPc.progress] at hle
              change _ ≤ (tally WorkerPc.seeking fun w => if w ∈ woken then .relock else s.worker w) + 0
              omega }
      · cases hstep
  | _ => simp [signalStep, hpc] at hstep

end CallerSteps

/-! ### Every step -/

section Step

variable [Fintype W] [DecidableEq W] [DecidableEq C] {s s' : Pool W C} {ptr : Addr}
  {nodes : List (Addr × ThreadpoolTask)}

/-- If the step is a `queue_enq`, it gets its memory. -/
def EnqSucceeds (alloc : Allocator) (s : Pool W C) (a : PoolAction W C) : Prop :=
  ∀ c task, a = .caller c → s.caller c = .enq task → ∃ a, s.mem.answer alloc (16 + 16) = some a

omit [Fintype W] [DecidableEq W] [DecidableEq C] in
theorem enqSucceeds_of_total {alloc : Allocator} (htotal : alloc.Total) (s : Pool W C)
    (a : PoolAction W C) : s.EnqSucceeds alloc a :=
  fun _ _ _ _ => Mem.exists_answer htotal (by decide) s.mem

/-- **The invariant is preserved.** -/
theorem inv_step {alloc : Allocator} {a : PoolAction W C} (henq : s.EnqSucceeds alloc a)
    (hinv : s.Inv ptr nodes) (hstep : s.step alloc a = some s') : ∃ nodes', s'.Inv ptr nodes' := by
  have hok : ¬s.fault.isSome = true := by
    rw [hinv.data.fault]
    exact Bool.false_ne_true
  unfold step at hstep
  rw [if_neg hok] at hstep
  cases a with
  | call c task =>
      dsimp only at hstep
      split at hstep
      · rename_i hidle
        cases hstep
        exact ⟨nodes, inv_enter hinv (by rw [hidle]; rfl) ⟨task, Or.inl rfl⟩⟩
      · cases hstep
  | caller c => exact inv_callerStep hinv (fun task => henq c task rfl) hstep
  | signal c woken => exact ⟨nodes, inv_signalStep hinv hstep⟩
  | worker w => exact inv_workerStep hinv hstep
  | wakeWorker w =>
      dsimp only at hstep
      split at hstep
      · rename_i hwait
        cases hstep
        exact ⟨nodes, inv_seek hinv (by rw [hwait]; rfl) (Or.inr rfl)⟩
      · cases hstep
  | wakeCaller c =>
      dsimp only at hstep
      split at hstep
      · rename_i task hwait
        cases hstep
        exact ⟨nodes, inv_enter hinv (by rw [hwait]; rfl) ⟨task, Or.inr rfl⟩⟩
      · cases hstep

end Step

end Pool

end Gittest
