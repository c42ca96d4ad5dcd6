/-
# The action manager (`src/mad/ruby/ActionManager.rb`)

The action manager of the drivers, of the hook manager and of OneFlow has a queue of actions and runs at most
`concurrency` of them at the same time.  A listener takes them from the queue, each in a thread of its own,
and a thread gives its slot back in an `ensure` block.  An action can be cancelled by its identifier, which
callers may use again.

`Sound` says that `num_running` is the number of the threads that have not finished and stays within the
limit, that the actions are started once and in the order of their triggering, and that the listener does not
wait when it could start one.  Everything that is not cancelled is started at last (`Drains`).

This holds as long as no running action is cancelled (`once_of_reach`): `cancel_action` gives the slot of
the thread that it kills back, and so does the `ensure` block of this thread.

Conventions of the embedding:

* The steps that are atomic under the mutex are the events.
* A call with a name that is not registered or with a wrong number of arguments changes nothing; `body` is
  the method of an action with its arguments.
* An action without a thread of its own runs inside of the step of the listener.
* `serial`, `threads`, `started`, `triggered` and `cancelled` are not in the program.
-/
import OpenNebula.Transition

open Transition

namespace ActionManager

variable {ι β : Type*}

/-! ## The manager -/

/-- An action in the queue. -/
structure Action (ι β : Type*) where
  id : ι
  body : β
  threaded : Bool
  serial : ℕ
  deriving DecidableEq

/-- Two actions that are equal for the program. -/
def Action.same [DecidableEq ι] [DecidableEq β] (a b : Action ι β) : Bool :=
  decide (a.id = b.id) && decide (a.body = b.body) && a.threaded == b.threaded

/-- Where the listener is: before its test, in `wait`, after `wait`, or at its end. -/
inductive Listener
  | testing
  | waiting
  | woken
  | stopped
  deriving DecidableEq

/-- A thread that has not finished. -/
structure Worker (ι : Type*) where
  id : ι
  serial : ℕ
  deriving DecidableEq

structure Manager (ι β : Type*) where
  concurrency : ℕ
  numRunning : ℤ
  queue : List (Action ι β)
  running : ι → Option ℕ
  finalize : Bool
  listener : Listener
  threads : List (Worker ι)
  started : List ℕ
  triggered : List ℕ
  cancelled : List ℕ

/-- `initialize` and `start_listener`. -/
def Manager.new (concurrency : ℕ) : Manager ι β :=
  ⟨concurrency, 0, [], fun _ => none, false, .testing, [], [], [], []⟩

namespace Manager

/-- `@threads_cond.signal`. -/
def signal (s : Manager ι β) : Manager ι β :=
  { s with listener := if s.listener = .waiting then .woken else s.listener }

/-- `trigger_action`. -/
def triggerAction (s : Manager ι β) (id : ι) (body : β) (threaded : Bool) : Manager ι β :=
  if s.finalize then s
  else
    let s' := { s with
      queue := s.queue ++ [⟨id, body, threaded, s.triggered.length⟩]
      triggered := s.triggered ++ [s.triggered.length] }
    if s.numRunning < s.concurrency then s'.signal else s'

/-- `trigger_action` of `:FINALIZE`. -/
def triggerFinalize (s : Manager ι β) : Manager ι β :=
  if s.finalize then s
  else
    let s' := { s with finalize := true }
    if s.numRunning = 0 then s'.signal else s'

/-- `delete_running_action`. -/
def deleteRunningAction [DecidableEq ι] (s : Manager ι β) (id : ι) : Manager ι β :=
  { s with running := Function.update s.running id none }

/-- `cancel_action`; the thread that it kills goes on to its `ensure` block. -/
def cancelAction [DecidableEq ι] [DecidableEq β] (s : Manager ι β) (id : ι) : Manager ι β :=
  match s.running id with
  | some _ => ({ s with numRunning := s.numRunning - 1 }.deleteRunningAction id).signal
  | none =>
    match s.queue.find? fun a => a.id = id with
    | none => s
    | some i =>
      { s with
        queue := s.queue.filter fun a => !i.same a
        cancelled := s.cancelled ++ (s.queue.filter i.same).map Action.serial }

/-- `run_action`. -/
def runAction [DecidableEq ι] (s : Manager ι β) : Manager ι β :=
  match s.queue with
  | [] => s
  | action :: queue =>
    if action.threaded then
      { s with
        queue := queue
        numRunning := s.numRunning + 1
        running := Function.update s.running action.id (some action.serial)
        threads := s.threads ++ [⟨action.id, action.serial⟩]
        started := s.started ++ [action.serial] }
    else { s with queue := queue, started := s.started ++ [action.serial] }

/-- One round of `start_listener`. -/
def listen [DecidableEq ι] (s : Manager ι β) : Option (Manager ι β) :=
  match s.listener with
  | .testing =>
    if s.concurrency - s.numRunning = 0 ∨ s.queue = [] then some { s with listener := .waiting }
    else some s.runAction
  | .woken =>
    if s.finalize ∧ s.numRunning = 0 then some { s with listener := .stopped }
    else some { s with listener := .testing }
  | .waiting | .stopped => none

/-- The `ensure` block of a thread. -/
def finish [DecidableEq ι] (s : Manager ι β) (w : Worker ι) : Option (Manager ι β) :=
  if w ∈ s.threads then
    some ({ s with numRunning := s.numRunning - 1, threads := s.threads.erase w }.deleteRunningAction
      w.id).signal
  else none

end Manager

/-- What can happen; a condition variable may also wake without a signal. -/
inductive Event (ι β : Type*)
  | trigger (id : ι) (body : β) (threaded : Bool)
  | finalize
  | cancel (id : ι)
  | listen
  | wake
  | finish (w : Worker ι)

def step [DecidableEq ι] [DecidableEq β] (s : Manager ι β) : Event ι β → Option (Manager ι β)
  | .trigger id body threaded => some (s.triggerAction id body threaded)
  | .finalize => some s.triggerFinalize
  | .cancel id => some (s.cancelAction id)
  | .listen => s.listen
  | .wake => some s.signal
  | .finish w => s.finish w

/-- The slots and the order of the actions. -/
structure Sound (s : Manager ι β) : Prop where
  count : s.numRunning = s.threads.length
  low : 0 ≤ s.numRunning
  high : s.numRunning ≤ s.concurrency
  order : s.started ++ s.queue.map Action.serial = s.triggered.filter fun n => n ∉ s.cancelled
  once : s.triggered.Nodup
  ready : s.listener = .waiting → s.queue = [] ∨ s.numRunning = s.concurrency

/-- The events that need nobody's request. -/
def Own : Manager ι β → Event ι β → Prop
  | _, .listen | _, .finish _ => True
  | _, _ => False

/-- The actions of the queue can all be started, by the listener and by threads that finish. -/
def Drains [DecidableEq ι] [DecidableEq β] (s : Manager ι β) : Prop :=
  ∃ s', Reach step Own s s' ∧ s'.triggered = s.triggered ∧ s'.cancelled = s.cancelled ∧
    s'.started = s.triggered.filter fun n => n ∉ s.cancelled

/-- No running action is cancelled. -/
def Spares (s : Manager ι β) : Event ι β → Prop
  | .cancel id => s.running id = none
  | _ => True

instance (s : Manager ι β) (e : Event ι β) : Decidable (Spares s e) := by
  unfold Spares
  split <;> infer_instance

/-! ## Steps -/

section Steps

variable {s s' : Manager ι β}

/-- What is kept besides `Sound`: the serial numbers that are not used yet are new. -/
structure Inv (s : Manager ι β) : Prop extends Sound s where
  fresh : ∀ n ∈ s.triggered, n < s.triggered.length
  known : ∀ n ∈ s.cancelled, n ∈ s.triggered
  stops : s.listener = .stopped → s.finalize = true

theorem listener_signal : s.signal.listener ≠ .waiting := by
  unfold Manager.signal
  dsimp only
  split
  · decide
  · assumption

theorem stopped_signal (h : s.signal.listener = .stopped) : s.listener = .stopped := by
  unfold Manager.signal at h
  dsimp only at h
  split at h
  · exact absurd h (by decide)
  · exact h

/-- Everything but the test of the listener, for a state that is about to be signalled. -/
theorem Inv.signalled (hcount : s.numRunning = s.threads.length) (hhigh : s.numRunning ≤ s.concurrency)
    (horder : s.started ++ s.queue.map Action.serial = s.triggered.filter fun n => n ∉ s.cancelled)
    (honce : s.triggered.Nodup) (hfresh : ∀ n ∈ s.triggered, n < s.triggered.length)
    (hknown : ∀ n ∈ s.cancelled, n ∈ s.triggered)
    (hstops : s.listener = .stopped → s.finalize = true) : Inv s.signal := by
  have hlow : 0 ≤ s.numRunning := by omega
  refine ⟨⟨hcount, hlow, hhigh, horder, honce, fun hwaiting => ?_⟩, hfresh, hknown,
    fun hstopped => hstops (stopped_signal hstopped)⟩
  exact absurd hwaiting listener_signal

theorem Inv.signal (h : Inv s) : Inv s.signal :=
  Inv.signalled h.count h.high h.order h.once h.fresh h.known h.stops

/-- The queue and the triggered actions after one more. -/
theorem order_trigger (h : Inv s) (a : Action ι β) (ha : a.serial = s.triggered.length) :
    s.started ++ (s.queue ++ [a]).map Action.serial =
      (s.triggered ++ [s.triggered.length]).filter fun n => n ∉ s.cancelled := by
  have hnew : s.triggered.length ∉ s.cancelled := fun hmem =>
    absurd (h.fresh _ (h.known _ hmem)) (lt_irrefl _)
  rw [List.map_append, ← List.append_assoc, h.order, List.filter_append, List.map_singleton, ha]
  simp [hnew]

theorem inv_triggerAction (h : Inv s) (id : ι) (body : β) (threaded : Bool) :
    Inv (s.triggerAction id body threaded) := by
  have horder := order_trigger h ⟨id, body, threaded, s.triggered.length⟩ rfl
  have honce : (s.triggered ++ [s.triggered.length]).Nodup := by
    rw [List.nodup_append]
    refine ⟨h.once, List.nodup_singleton _, fun n hn m hm => ?_⟩
    rw [List.mem_singleton.mp hm]
    exact (h.fresh n hn).ne
  have hfresh : ∀ n ∈ s.triggered ++ [s.triggered.length],
      n < (s.triggered ++ [s.triggered.length]).length := by
    intro n hn
    rw [List.length_append, List.length_singleton]
    rcases List.mem_append.mp hn with hn | hn
    · have := h.fresh n hn
      omega
    · rw [List.mem_singleton.mp hn]
      omega
  have hknown : ∀ n ∈ s.cancelled, n ∈ s.triggered ++ [s.triggered.length] := fun n hn =>
    List.mem_append_left _ (h.known n hn)
  unfold Manager.triggerAction
  split
  · exact h
  · dsimp only
    split
    · exact Inv.signalled h.count h.high horder honce hfresh hknown h.stops
    · rename_i hfull
      refine ⟨⟨h.count, h.low, h.high, horder, honce, fun _ => Or.inr ?_⟩, hfresh, hknown, h.stops⟩
      have := h.high
      dsimp only
      omega

theorem inv_triggerFinalize (h : Inv s) : Inv s.triggerFinalize := by
  have hfinal : Inv { s with finalize := true } :=
    ⟨⟨h.count, h.low, h.high, h.order, h.once, h.ready⟩, h.fresh, h.known, fun _ => rfl⟩
  unfold Manager.triggerFinalize
  split
  · exact h
  · dsimp only
    split
    · exact hfinal.signal
    · exact hfinal

/-- The serial numbers of the actions that were started and of those in the queue are different. -/
theorem Inv.nodup (h : Inv s) : (s.started ++ s.queue.map Action.serial).Nodup := by
  rw [h.order]
  exact h.once.filter _

/-- The queue without the actions that are cancelled. -/
theorem order_cancel (h : Inv s) (p : Action ι β → Bool) :
    s.started ++ (s.queue.filter fun a => !p a).map Action.serial =
      s.triggered.filter fun n => n ∉ s.cancelled ++ (s.queue.filter p).map Action.serial := by
  have hnodup := h.nodup
  have hsplit : (s.triggered.filter fun n => n ∉ s.cancelled ++ (s.queue.filter p).map Action.serial) =
      (s.started ++ s.queue.map Action.serial).filter fun n => n ∉ (s.queue.filter p).map Action.serial := by
    rw [h.order, List.filter_filter]
    refine List.filter_congr fun n _ => ?_
    simp only [List.mem_append, not_or, Bool.decide_and]
    exact Bool.and_comm _ _
  rw [hsplit, List.filter_append]
  have hstarted : (s.started.filter fun n => n ∉ (s.queue.filter p).map Action.serial) = s.started := by
    refine List.filter_eq_self.mpr fun n hn => ?_
    refine decide_eq_true fun hmem => ?_
    obtain ⟨a, ha, rfl⟩ := List.mem_map.mp hmem
    exact (List.nodup_append.mp hnodup).2.2 _ hn _
      (List.mem_map_of_mem (List.mem_of_mem_filter ha)) rfl
  rw [hstarted, List.filter_map]
  congr 2
  refine List.filter_congr fun a ha => ?_
  -- an action of the queue is cancelled if its serial number is one of a cancelled action
  have hinj := List.inj_on_of_nodup_map (List.nodup_append.mp hnodup).2.1
  have hiff : a.serial ∈ (s.queue.filter p).map Action.serial ↔ p a = true := by
    constructor
    · intro hmem
      obtain ⟨b, hb, heq⟩ := List.mem_map.mp hmem
      obtain ⟨hb, hpb⟩ := List.mem_filter.mp hb
      rw [← hinj hb ha heq]
      exact hpb
    · intro hpa
      exact List.mem_map_of_mem (List.mem_filter.mpr ⟨ha, hpa⟩)
  show (!p a) = decide (¬ a.serial ∈ (s.queue.filter p).map Action.serial)
  cases hp : p a with
  | true => exact (decide_eq_false (not_not.mpr (hiff.mpr hp))).symm
  | false =>
    have hnot : ¬ a.serial ∈ (s.queue.filter p).map Action.serial := by
      intro hmem
      rw [hiff.mp hmem] at hp
      exact Bool.false_ne_true hp.symm
    exact (decide_eq_true hnot).symm

variable [DecidableEq ι]

/-- The first action of the queue is started. -/
theorem inv_runAction (h : Inv s) (hlistener : s.listener = .testing)
    (hfree : s.numRunning < s.concurrency) : Inv s.runAction := by
  have hwaits : s.listener ≠ .waiting := by
    rw [hlistener]
    decide
  have hcount := h.count
  unfold Manager.runAction
  split
  · exact h
  · rename_i action queue hqueue
    have horder := h.order
    rw [hqueue, List.map_cons] at horder
    have horder' : (s.started ++ [action.serial]) ++ queue.map Action.serial =
        s.triggered.filter fun n => n ∉ s.cancelled := by
      rw [List.append_assoc, List.singleton_append]
      exact horder
    split
    · refine ⟨⟨?_, ?_, ?_, horder', h.once, fun hwaiting => absurd hwaiting hwaits⟩, h.fresh, h.known,
        h.stops⟩
      · dsimp only
        rw [List.length_append, List.length_singleton, hcount]
        push_cast
        ring
      · have := h.low
        dsimp only
        omega
      · dsimp only
        omega
    · exact ⟨⟨h.count, h.low, h.high, horder', h.once, fun hwaiting => absurd hwaiting hwaits⟩, h.fresh,
        h.known, h.stops⟩

theorem inv_listen (h : Inv s) (hstep : s.listen = some s') : Inv s' := by
  have hhigh := h.high
  have hkeep : ∀ l, (l = .waiting → s.queue = [] ∨ s.numRunning = s.concurrency) →
      (l = .stopped → s.finalize = true) → Inv { s with listener := l } := fun l hready hstops =>
    ⟨⟨h.count, h.low, h.high, h.order, h.once, hready⟩, h.fresh, h.known, hstops⟩
  unfold Manager.listen at hstep
  split at hstep
  · rename_i hlistener
    split at hstep
    · rename_i hblocked
      rw [← Option.some.inj hstep]
      refine hkeep .waiting (fun _ => ?_) fun hstopped => absurd hstopped (by decide)
      rcases hblocked with hfull | hempty
      · right
        omega
      · exact Or.inl hempty
    · rename_i hfree
      rw [← Option.some.inj hstep]
      obtain ⟨hslot, -⟩ := not_or.mp hfree
      exact inv_runAction h hlistener (by omega)
  · split at hstep
    · rename_i hfinal
      rw [← Option.some.inj hstep]
      exact hkeep .stopped (fun hwaiting => absurd hwaiting (by decide)) fun _ => hfinal.1
    · rw [← Option.some.inj hstep]
      exact hkeep .testing (fun hwaiting => absurd hwaiting (by decide))
        fun hstopped => absurd hstopped (by decide)
  · exact absurd hstep (by simp)
  · exact absurd hstep (by simp)

theorem inv_finish (h : Inv s) {w : Worker ι} (hstep : s.finish w = some s') : Inv s' := by
  have hcount := h.count
  have hhigh := h.high
  unfold Manager.finish at hstep
  obtain ⟨hmem, heq⟩ := Option.ite_none_right_eq_some.mp hstep
  rw [← Option.some.inj heq]
  refine Inv.signalled ?_ ?_ h.order h.once h.fresh h.known h.stops
  · have hlength := List.length_erase_of_mem hmem
    have hpos := List.length_pos_of_mem hmem
    show s.numRunning - 1 = ((s.threads.erase w).length : ℤ)
    omega
  · show s.numRunning - 1 ≤ (s.concurrency : ℤ)
    omega

variable [DecidableEq β]

/-- A cancellation that finds no running action. -/
theorem inv_cancelAction (h : Inv s) {id : ι} (hrunning : s.running id = none) :
    Inv (s.cancelAction id) := by
  unfold Manager.cancelAction
  rw [hrunning]
  dsimp only
  split
  · exact h
  · rename_i i _
    refine ⟨⟨h.count, h.low, h.high, order_cancel h i.same, h.once, fun hwaiting => ?_⟩, h.fresh, ?_, h.stops⟩
    · rcases h.ready hwaiting with hempty | hfull
      · left
        dsimp only
        rw [hempty]
        rfl
      · exact Or.inr hfull
    · intro n hn
      rcases List.mem_append.mp hn with hn | hn
      · exact h.known n hn
      · obtain ⟨a, ha, rfl⟩ := List.mem_map.mp hn
        have hmem : a.serial ∈ s.started ++ s.queue.map Action.serial :=
          List.mem_append_right _ (List.mem_map_of_mem (List.mem_of_mem_filter ha))
        rw [h.order] at hmem
        exact List.mem_of_mem_filter hmem

/-- **One event** keeps the slots and the order. -/
theorem Inv.step (h : Inv s) {e : Event ι β} (hok : Spares s e) (hstep : step s e = some s') : Inv s' := by
  cases e with
  | trigger id body threaded =>
    rw [← Option.some.inj hstep]
    exact inv_triggerAction h id body threaded
  | finalize =>
    rw [← Option.some.inj hstep]
    exact inv_triggerFinalize h
  | cancel id =>
    rw [← Option.some.inj hstep]
    exact inv_cancelAction h hok
  | listen => exact inv_listen h hstep
  | wake =>
    rw [← Option.some.inj hstep]
    exact h.signal
  | finish w => exact inv_finish h hstep

end Steps

/-! ## The queue is emptied -/

section Draining

variable {s s' : Manager ι β}

/-- Nobody has requested anything. -/
structure Unrequested (s s' : Manager ι β) : Prop where
  triggered : s'.triggered = s.triggered
  cancelled : s'.cancelled = s.cancelled
  concurrency : s'.concurrency = s.concurrency
  finalize : s'.finalize = s.finalize

theorem Unrequested.trans {s'' : Manager ι β} (h : Unrequested s s') (h' : Unrequested s' s'') :
    Unrequested s s'' :=
  ⟨h'.triggered.trans h.triggered, h'.cancelled.trans h.cancelled, h'.concurrency.trans h.concurrency,
    h'.finalize.trans h.finalize⟩

variable [DecidableEq ι] [DecidableEq β]

/-- All the threads finish. -/
theorem exists_idle (n : ℕ) : ∀ s : Manager ι β, Inv s → s.threads.length = n →
    ∃ s', Reach step Own s s' ∧ Inv s' ∧ s'.threads = [] ∧ s'.queue = s.queue ∧ Unrequested s s' := by
  induction n with
  | zero =>
    intro s h hn
    exact ⟨s, Reach.refl, h, List.length_eq_zero_iff.mp hn, rfl, ⟨rfl, rfl, rfl, rfl⟩⟩
  | succ n ih =>
    intro s h hn
    obtain ⟨w, ws, hthreads⟩ := List.exists_cons_of_length_eq_add_one hn
    have hmem : w ∈ s.threads := by
      rw [hthreads]
      exact List.mem_cons_self
    have hstep : step s (.finish w) = some
        (({ s with numRunning := s.numRunning - 1, threads := s.threads.erase w } : Manager ι β).deleteRunningAction
          w.id).signal := by
      show s.finish w = _
      unfold Manager.finish
      rw [if_pos hmem]
    obtain ⟨s', hreach, hinv, hidle, hqueue, hun⟩ := ih _ (inv_finish h hstep) (by
      show (s.threads.erase w).length = n
      rw [List.length_erase_of_mem hmem, hn]
      rfl)
    exact ⟨s', (Reach.tail Reach.refl trivial hstep).trans hreach, hinv, hidle, hqueue,
      ⟨hun.triggered, hun.cancelled, hun.concurrency, hun.finalize⟩⟩

/-- The listener comes to its test when there is something to do. -/
theorem exists_testing (h : Inv s) (hconcurrency : 0 < s.concurrency) (hfinalize : s.finalize = false)
    (hidle : s.threads = []) (hqueue : s.queue ≠ []) :
    ∃ s', Reach step Own s s' ∧ Inv s' ∧ s'.listener = .testing ∧ s'.queue = s.queue ∧
      s'.numRunning < s'.concurrency ∧ Unrequested s s' := by
  have hzero : s.numRunning = 0 := by
    rw [h.count, hidle]
    rfl
  have hfree : s.numRunning < s.concurrency := by omega
  cases hlistener : s.listener with
  | testing => exact ⟨s, Reach.refl, h, hlistener, rfl, hfree, ⟨rfl, rfl, rfl, rfl⟩⟩
  | waiting =>
    rcases h.ready hlistener with hempty | hfull
    · exact absurd hempty hqueue
    · omega
  | woken =>
    have hstep : step s .listen = some { s with listener := .testing } := by
      show s.listen = _
      unfold Manager.listen
      rw [hlistener, hfinalize]
      rfl
    have hown : Own s (.listen : Event ι β) := trivial
    exact ⟨_, Reach.tail Reach.refl hown hstep, inv_listen h hstep, rfl, rfl, hfree,
      ⟨rfl, rfl, rfl, rfl⟩⟩
  | stopped => exact absurd ((h.stops hlistener).symm.trans hfinalize) (by decide)

/-- One action is started. -/
theorem listen_run (hlistener : s.listener = .testing) (hfree : s.numRunning < s.concurrency)
    {action : Action ι β} {queue : List (Action ι β)} (hqueue : s.queue = action :: queue) :
    step s .listen = some s.runAction ∧ s.runAction.queue = queue ∧ Unrequested s s.runAction := by
  have hblocked : ¬ ((s.concurrency : ℤ) - s.numRunning = 0 ∨ s.queue = []) := by
    rw [not_or, hqueue]
    exact ⟨by omega, List.cons_ne_nil _ _⟩
  refine ⟨?_, ?_⟩
  · show s.listen = _
    unfold Manager.listen
    rw [hlistener]
    dsimp only
    rw [if_neg hblocked]
  · unfold Manager.runAction
    rw [hqueue]
    dsimp only
    split
    · exact ⟨rfl, ⟨rfl, rfl, rfl, rfl⟩⟩
    · exact ⟨rfl, ⟨rfl, rfl, rfl, rfl⟩⟩

/-- **Nothing is forgotten.**  By the steps of the listener and of the threads alone, all that was triggered
and not cancelled is started. -/
theorem drains (n : ℕ) : ∀ s : Manager ι β, Inv s → 0 < s.concurrency → s.finalize = false →
    s.queue.length = n → Drains s := by
  induction n with
  | zero =>
    intro s h _ _ hn
    refine ⟨s, Reach.refl, rfl, rfl, ?_⟩
    have horder := h.order
    rw [List.length_eq_zero_iff.mp hn, List.map_nil, List.append_nil] at horder
    exact horder
  | succ n ih =>
    intro s h hconcurrency hfinalize hn
    obtain ⟨action, queue, hqueue⟩ := List.exists_cons_of_length_eq_add_one hn
    obtain ⟨s₁, hreach₁, h₁, hidle, hqueue₁, hun₁⟩ := exists_idle _ s h rfl
    obtain ⟨s₂, hreach₂, h₂, hlistener, hqueue₂, hfree, hun₂⟩ := exists_testing h₁
      (by rw [hun₁.concurrency]; exact hconcurrency) (hun₁.finalize.trans hfinalize) hidle
      (by rw [hqueue₁, hqueue]; exact List.cons_ne_nil _ _)
    obtain ⟨hstep, hqueue₃, hun₃⟩ := listen_run hlistener hfree (hqueue₂.trans (hqueue₁.trans hqueue))
    have hun := (hun₁.trans hun₂).trans hun₃
    obtain ⟨s', hreach, htriggered, hcancelled, hstarted⟩ := ih s₂.runAction (inv_listen h₂ hstep)
      (by rw [hun.concurrency]; exact hconcurrency) (hun.finalize.trans hfinalize) (by
        rw [hqueue₃]
        rw [hqueue, List.length_cons] at hn
        omega)
    refine ⟨s', hreach₁.trans (hreach₂.trans ((Reach.tail Reach.refl trivial hstep).trans hreach)),
      htriggered.trans hun.triggered, hcancelled.trans hun.cancelled, ?_⟩
    rw [hstarted, hun.triggered, hun.cancelled]

end Draining

/-- **The slots of the action manager.**  In every state reached from a new manager by calls, by the listener and
by threads that finish, in any order, the counter is the number of the threads that have not finished and is
within the limit, the actions are started once and in order, and all those that are not cancelled can be
started until the manager is finalized, as long as no running action is cancelled. -/
theorem once_of_reach [DecidableEq ι] [DecidableEq β] {concurrency : ℕ} {s : Manager ι β}
    (hrun : Reach step Spares (Manager.new concurrency) s) :
    Sound s ∧ (0 < s.concurrency → s.finalize = false → Drains s) := by
  have hnew : Inv (Manager.new concurrency : Manager ι β) :=
    ⟨⟨rfl, le_refl 0, Int.natCast_nonneg _, rfl, List.nodup_nil,
        fun h => Listener.noConfusion (show Listener.testing = .waiting from h)⟩,
      fun _ h => absurd h List.not_mem_nil, fun _ h => absurd h List.not_mem_nil,
      fun h => Listener.noConfusion (show Listener.testing = .stopped from h)⟩
  have hinv := hrun.inv (P := Inv) hnew fun _ _ _ h hok hstep => h.step hok hstep
  exact ⟨hinv.toSound, fun hconcurrency hfinalize => drains _ s hinv hconcurrency hfinalize rfl⟩

/-! ## Runs of a manager -/

/-- Two actions with the same identifier, of which the second is cancelled in the queue. -/
def queuedRun : List (Event ℕ ℕ) :=
  [.trigger 7 0 true, .listen, .trigger 8 1 true, .cancel 8, .trigger 7 2 true, .finish ⟨7, 0⟩, .listen]

/-- An action is cancelled while it runs; its thread goes through its `ensure` block. -/
def killedRun : List (Event ℕ ℕ) :=
  [.trigger 7 0 true, .listen, .cancel 7, .finish ⟨7, 0⟩]

/-- Two more actions are started at once by a manager for one. -/
def crowdedRun : List (Event ℕ ℕ) :=
  killedRun ++ [.trigger 8 1 true, .trigger 9 2 true, .listen, .listen]

theorem values_queuedRun : ((runChecked step Spares (Manager.new 1 : Manager ℕ ℕ) queuedRun).map fun s =>
    (s.numRunning, s.started, s.cancelled, s.finalize, s.concurrency)) = some (1, [0, 2], [1], false, 1) := by
  decide

theorem sound_queuedRun : ∃ s : Manager ℕ ℕ, Reach step Spares (Manager.new 1) s ∧
    s.started = [0, 2] ∧ Sound s ∧ Drains s := by
  obtain ⟨s, hs, hvalues⟩ := Option.map_eq_some_iff.mp values_queuedRun
  have hrun := reach_of_runChecked queuedRun hs
  obtain ⟨-, hstarted, -, hfinalize, hconcurrency⟩ : s.numRunning = 1 ∧ s.started = [0, 2] ∧
      s.cancelled = [1] ∧ s.finalize = false ∧ s.concurrency = 1 := by
    simpa using hvalues
  obtain ⟨hsound, hdrains⟩ := once_of_reach hrun
  exact ⟨s, hrun, hstarted, hsound, hdrains (by rw [hconcurrency]; decide) hfinalize⟩

theorem values_killedRun : ((runEvents step (Manager.new 1 : Manager ℕ ℕ) killedRun).map fun s =>
    (s.numRunning, s.threads)) = some (-1, []) := by
  decide

theorem values_crowdedRun : ((runEvents step (Manager.new 1 : Manager ℕ ℕ) crowdedRun).map fun s =>
    (s.numRunning, s.threads.length, s.concurrency)) = some (1, 2, 1) := by
  decide

/-- **A slot too many.**  After a running action is cancelled and its thread has finished, the counter is
negative, and the manager runs one more action than it should for the rest of its life. -/
theorem not_sound :
    (∃ s : Manager ℕ ℕ, Run step (Manager.new 1) s ∧ s.threads = [] ∧ s.numRunning = -1 ∧ ¬ Sound s) ∧
    ∃ s : Manager ℕ ℕ, Run step (Manager.new 1) s ∧ s.threads.length = 2 ∧ s.concurrency = 1 ∧ ¬ Sound s := by
  have hrun : ∀ es s, runEvents step (Manager.new 1 : Manager ℕ ℕ) es = some s →
      Run step (Manager.new 1 : Manager ℕ ℕ) s := fun es s h =>
    reach_of_runEvents (P := fun _ => True) es (fun _ _ => trivial) h
  constructor
  · obtain ⟨s, hs, hvalues⟩ := Option.map_eq_some_iff.mp values_killedRun
    obtain ⟨hnum, hthreads⟩ : s.numRunning = -1 ∧ s.threads = [] := by simpa using hvalues
    refine ⟨s, hrun _ s hs, hthreads, hnum, fun hsound => ?_⟩
    have := hsound.low
    omega
  · obtain ⟨s, hs, hvalues⟩ := Option.map_eq_some_iff.mp values_crowdedRun
    obtain ⟨hnum, hthreads, hconcurrency⟩ : s.numRunning = 1 ∧ s.threads.length = 2 ∧ s.concurrency = 1 := by
      simpa using hvalues
    refine ⟨s, hrun _ s hs, hthreads, hconcurrency, fun hsound => ?_⟩
    have := hsound.count
    omega

end ActionManager
