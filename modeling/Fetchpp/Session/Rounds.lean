import Fetchpp.Session.GivingUp

/-!
# The rounds of a request

How the `process_queue_op` of a request goes on, step by step: from its entry
to an exchange, from a failed exchange to a close, and from the first close to
its entry again.  Every operation of the queue that a handler starts is the
next one of the request in hand, or the first one of the next request.
-/

namespace Fetchpp.Session

/-- How a `process_queue_op` that is resumed with `ec` goes on. -/
inductive QueueOp.Follows (op : QueueOp) (ec : Option ErrorCode) :
    QueueOp → Prop where
  | connects : op.coro = .entry → Follows op ec { op with coro := .connected }
  | exchanges : op.coro = .entry ∨ op.coro = .connected →
      Follows op ec { op with coro := .exchanged }
  | closes (error : ErrorCode) : op.coro = .exchanged → ec = some error →
      error ≠ .operationAborted →
      Follows op ec { op with lastEc := some error, coro := .closed }
  | retries : op.coro = .closed → op.firstRound = true →
      Follows op ec { op with coro := .entry, firstRound := false }

theorem QueueOp.Follows.task {op next : QueueOp} {ec : Option ErrorCode}
    (follows : op.Follows ec next) : next.task = op.task := by
  cases follows <;> rfl

theorem QueueOp.Follows.of_entry {op next : QueueOp} {ec : Option ErrorCode}
    (follows : op.Follows ec next) (entry : op.coro = .entry) :
    next.firstRound = op.firstRound ∧
      (next.coro = .connected ∨ next.coro = .exchanged) := by
  cases follows with
  | connects => exact ⟨rfl, .inl rfl⟩
  | exchanges => exact ⟨rfl, .inr rfl⟩
  | closes error exchanged => simp [entry] at exchanged
  | retries closed => simp [entry] at closed

theorem QueueOp.call_follows {op : QueueOp} {ec : Option ErrorCode}
    {isOpen : Bool} {c : Core} {effect : Effect}
    (started : effect ∈ (op.call ec isOpen c).2) {next : QueueOp}
    (keeps : effect.queueOp? = some next) : op.Follows ec next := by
  unfold QueueOp.call at started
  split at started
  case isTrue =>
    obtain rfl := List.mem_singleton.mp started
    cases keeps
  case isFalse proceeds =>
    have notAborted : ec ≠ some .operationAborted := by
      rintro rfl
      simp at proceeds
    cases coro : op.coro with
    | entry =>
        simp only [coro] at started
        split at started
        · obtain rfl := List.mem_singleton.mp started
          cases keeps
          exact .connects coro
        · obtain rfl := List.mem_singleton.mp started
          cases keeps
          exact .exchanges (.inl coro)
    | connected =>
        cases ec with
        | some error =>
            simp only [coro] at started
            obtain rfl := List.mem_singleton.mp started
            cases keeps
        | none =>
            simp only [coro] at started
            obtain rfl := List.mem_singleton.mp started
            cases keeps
            exact .exchanges (.inr coro)
    | exchanged =>
        cases ec with
        | some error =>
            simp only [coro] at started
            obtain rfl := List.mem_singleton.mp started
            cases keeps
            exact .closes error coro rfl
              (fun same => notAborted (congrArg some same))
        | none =>
            simp only [coro] at started
            obtain rfl := List.mem_singleton.mp started
            cases keeps
    | closed =>
        simp only [coro] at started
        split at started
        case isTrue first =>
          obtain rfl := List.mem_singleton.mp started
          cases keeps
          exact .retries coro first
        case isFalse =>
          obtain rfl := List.mem_singleton.mp started
          cases keeps

/-- An operation of the queue that a handler starts. -/
inductive Event.Continues (s : State) (event : Event) (next : QueueOp) :
    Prop where
  /-- the next request is taken up -/
  | takes (fresh : next.task ∉ s.core.ran)
      (follows : QueueOp.Follows { task := next.task } none next)
  /-- the request in hand goes on -/
  | goes (op : QueueOp) (ec : Option ErrorCode)
      (drives : .queueOp op ∈ s.drivers)
      (follows : op.Follows ec next)
      (exchanged : op.coro = .exchanged →
        ∃ isOpen, event = .resume (.exchange op) ec isOpen)

theorem Core.processTask_follows {c : Core} {isOpen : Bool} {effect : Effect}
    (started : effect ∈ (c.processTask isOpen).2) {next : QueueOp}
    (keeps : effect.queueOp? = some next) :
    (∃ rest, c.tasks = next.task :: rest) ∧
      QueueOp.Follows { task := next.task } none next := by
  unfold Core.processTask at started
  split at started
  · cases started
  · rename_i front rest tasks
    have follows := QueueOp.call_follows started keeps
    obtain rfl : next.task = front := follows.task
    exact ⟨⟨rest, tasks⟩, follows⟩

private theorem continues_resume {s : State} (points : s.AtPoints)
    {operation : Operation} {ec : Option ErrorCode} {isOpen : Bool}
    (enabled : (Event.resume operation ec isOpen).Enabled s) {effect : Effect}
    (started : effect ∈ ((Event.resume operation ec isOpen).outcome s.core).2)
    {next : QueueOp} (keeps : effect.queueOp? = some next) :
    (Event.resume operation ec isOpen).Continues s next := by
  cases resumes : operation.queueOp? with
  | none =>
      have undriving :=
        (operation.resume_other resumes isOpen ec s.core).2 effect started
      rw [undriving.queueOp?] at keeps
      cases keeps
  | some op =>
      simp only [Event.outcome, operation.resume_queueOp resumes] at started
      refine .goes op ec (State.mem_drivers enabled.1 resumes)
        (QueueOp.call_follows started keeps) ?_
      intro exchanged
      have point := points.operations operation enabled.1
      cases operation with
      | wait stop cancelled => cases resumes
      | exchange other =>
          obtain rfl := Option.some.inj resumes
          exact ⟨isOpen, rfl⟩
      | connect caller =>
          cases caller with
          | start handler => cases resumes
          | queue other =>
              obtain rfl := Option.some.inj resumes
              have connected : other.coro = .connected := point
              simp [exchanged] at connected
      | close graceful caller =>
          cases caller with
          | stop handler => cases resumes
          | queue other =>
              obtain rfl := Option.some.inj resumes
              have closed : other.coro = .closed := point
              simp [exchanged] at closed

private theorem continues_post {s : State} (invariant : s.Invariant)
    (points : s.AtPoints) {handler : Posted} {isOpen : Bool}
    (enabled : (Event.post handler isOpen).Enabled s) {effect : Effect}
    (started : effect ∈ ((Event.post handler isOpen).outcome s.core).2)
    {next : QueueOp} (keeps : effect.queueOp? = some next) :
    (Event.post handler isOpen).Continues s next := by
  obtain ⟨sole, _⟩ := State.drivers_erase_post
    invariant.driven.drivers_length enabled
  cases handler with
  | retry op =>
      have entry : op.coro = .entry := points.posts (.retry op) enabled
      refine .goes op none (by simp [sole, Posted.driver])
        (QueueOp.call_follows started keeps) ?_
      intro exchanged
      simp [entry] at exchanged
  | processTask =>
      obtain ⟨⟨rest, tasks⟩, follows⟩ :=
        Core.processTask_follows started keeps
      refine .takes ?_ follows
      cases invariant.driven with
      | idle _ drivers => simp [drivers] at sole
      | live _ _ _ drivers => simp [drivers, Posted.driver] at sole
      | completed _ _ _ drivers => simp [drivers, Posted.driver] at sole
      | unrun front behind _ _ _ ran =>
          exact fun taken => invariant.numbered.front_not_popped tasks
            (ran next.task taken)
  | advanceTask =>
      obtain ⟨front, behind, queue, _, ran⟩ := invariant.advancing enabled
      simp only [Event.outcome, Posted.run, Core.advanceTask] at started
      split at started
      · obtain ⟨⟨rest, tasks⟩, follows⟩ :=
          Core.processTask_follows started keeps
        have popped : ∀ push ∈ s.core.ran,
            push ∈ s.core.popTask.popped := by
          simpa [Core.popTask, queue] using ran
        exact .takes (fun taken =>
          (invariant.numbered.popTask queue).front_not_popped tasks
            (popped next.task taken)) follows
      · obtain rfl := List.mem_singleton.mp started
        cases keeps

theorem Event.continues {s : State} (invariant : s.Invariant)
    (points : s.AtPoints) {event : Event} (enabled : event.Enabled s)
    {effect : Effect} (started : effect ∈ (event.outcome s.core).2)
    {next : QueueOp} (keeps : effect.queueOp? = some next) :
    event.Continues s next := by
  cases event with
  | push =>
      cases running : s.core.running with
      | false => simp [outcome, pushOp_stopped running] at started
      | true =>
          simp only [outcome, pushOp_running running] at started
          split at started
          · obtain rfl := List.mem_singleton.mp started
            cases keeps
          · cases started
  | start =>
      obtain rfl := List.mem_singleton.mp started
      cases keeps
  | stop graceful =>
      obtain rfl := List.mem_singleton.mp started
      cases keeps
  | resume operation ec isOpen =>
      exact continues_resume points enabled started keeps
  | post handler isOpen =>
      exact continues_post invariant points enabled started keeps

theorem State.drivers_append {s : State} {operation : Operation} {op : QueueOp}
    (drives : .queueOp op ∈
      ({ s with operations := s.operations ++ [operation] } : State).drivers) :
    .queueOp op ∈ s.drivers ∨ operation.queueOp? = some op := by
  rcases List.mem_append.mp drives with posts | live
  · exact .inl (List.mem_append_left _ posts)
  · obtain ⟨other, kept, same⟩ := List.mem_map.mp live
    obtain rfl : other = op := Driver.queueOp.inj same
    simp only [liveOps, List.filterMap_append, List.mem_append] at kept
    rcases kept with old | new
    · exact .inl (List.mem_append_right _ (List.mem_map_of_mem old))
    · right
      obtain ⟨_, single, resumes⟩ := List.mem_filterMap.mp new
      rwa [List.mem_singleton.mp single] at resumes

theorem State.drivers_perform {s : State} {effect : Effect} {op : QueueOp}
    (drives : .queueOp op ∈ (s.perform effect).drivers) :
    .queueOp op ∈ s.drivers ∨ effect.queueOp? = some op := by
  cases effect with
  | connect caller =>
      have appended : _ ∨ (Operation.connect caller).queueOp? = some op :=
        drivers_append drives
      refine appended.imp_right fun new => ?_
      cases caller with
      | start handler => cases new
      | queue other => exact new
  | exchange other => exact drivers_append drives
  | close graceful caller =>
      have appended :
          _ ∨ (Operation.close graceful caller).queueOp? = some op :=
        drivers_append drives
      refine appended.imp_right fun new => ?_
      cases caller with
      | stop handler => cases new
      | queue other => exact new
  | wait stop =>
      have undriving : Effect.Undriving (.wait stop) := trivial
      rw [drivers_perform_undriving undriving] at drives
      exact .inl drives
  | cancelTimer =>
      have undriving : Effect.cancelTimer.Undriving := trivial
      rw [drivers_perform_undriving undriving] at drives
      exact .inl drives
  | post handler =>
      simp only [perform, drivers, List.map_append, List.mem_append] at drives
      rcases drives with (posts | new) | live
      · exact .inl (List.mem_append_left _ posts)
      · right
        cases handler with
        | processTask => simp [Posted.driver] at new
        | advanceTask => simp [Posted.driver] at new
        | retry other =>
            obtain rfl : op = other := by simpa [Posted.driver] using new
            rfl
      · exact .inl (List.mem_append_right _ live)

theorem State.drivers_apply {s : State} {outcome : Outcome} {op : QueueOp}
    (drives : .queueOp op ∈ (s.apply outcome).drivers) :
    .queueOp op ∈ s.drivers ∨
      ∃ effect ∈ outcome.2, effect.queueOp? = some op := by
  obtain ⟨core, effects⟩ := outcome
  have traced : ∀ t : State,
      .queueOp op ∈ (effects.foldl State.perform t).drivers →
      .queueOp op ∈ t.drivers ∨
        ∃ effect ∈ effects, effect.queueOp? = some op := by
    clear drives
    induction effects with
    | nil => exact fun _ drives => .inl drives
    | cons effect rest induction =>
        intro t later
        rcases induction (t.perform effect) later with now |
          ⟨other, member, keeps⟩
        · rcases drivers_perform now with old | keeps
          · exact .inl old
          · exact .inr ⟨effect, List.mem_cons_self, keeps⟩
        · exact .inr ⟨other, List.mem_cons_of_mem _ member, keeps⟩
  exact traced { s with core := core } drives

theorem Event.drivers_taken {s : State} {event : Event} {op : QueueOp}
    (drives : .queueOp op ∈ (event.taken s).drivers) :
    .queueOp op ∈ s.drivers := by
  cases event with
  | push => exact drives
  | start => exact drives
  | stop graceful => exact drives
  | post handler isOpen =>
      rcases List.mem_append.mp drives with posts | live
      · obtain ⟨other, member, same⟩ := List.mem_map.mp posts
        exact List.mem_append_left _ (List.mem_map.mpr
          ⟨other, List.mem_of_mem_erase member, same⟩)
      · exact List.mem_append_right _ live
  | resume operation ec isOpen =>
      rcases List.mem_append.mp drives with posts | live
      · exact List.mem_append_left _ posts
      · obtain ⟨other, kept, same⟩ := List.mem_map.mp live
        obtain ⟨waited, member, resumes⟩ := List.mem_filterMap.mp kept
        obtain rfl : other = op := Driver.queueOp.inj same
        exact State.mem_drivers (List.mem_of_mem_erase member) resumes

end Fetchpp.Session
