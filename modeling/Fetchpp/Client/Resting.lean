import Fetchpp.Lib.Potential
import Fetchpp.Client.Reporting

/-!
# A client comes to rest

A fetch leaves its sessions a bounded amount of work, and a stop asks as many
sessions as there were when it was called.  So a client that is not called any
more comes to rest, if its transports complete what they were asked for; the
handler of every fetch that no exception took along has been posted once then,
and every stop has called its handler, as long as no fetch has added a session
while one was going on.
-/

namespace Fetchpp.Client

open Http Lib

/-- A push or a stop, and its place in the queue of a strand. -/
def Work.rank : Work → Nat
  | .push _ => 10
  | .stop _ _ => 3

def Hosted.potential (hosted : Hosted) : Nat :=
  hosted.session.potential + (hosted.queued.map Work.rank).sum

/-- The sessions the operation has still to ask, and the call of its handler.
-/
def StopOp.rank (op : StopOp) : Nat :=
  4 * (op.end_ - op.begin_ - 1) + 2

def State.potential (s : State) : Nat :=
  (s.sessions.map Hosted.potential).sum + (s.stopping.map StopOp.rank).sum +
    s.stopPosts.length

/-- The event is no call of the interface. -/
def Event.isOwn : Event → Bool
  | .fetch _ _ | .update _ | .stop _ _ => false
  | _ => true

/-- What a call costs, if a fetch costs `push` and a stop `ask` for each of the
sessions there are. -/
def Event.bill (push ask : Nat) (s : State) : Event → Nat
  | .fetch _ _ => push
  | .stop _ _ => ask * s.sessions.length + 1
  | _ => 0

def Event.cost : State → Event → Nat :=
  Event.bill 10 4

def Event.effort (event : Event) : Nat :=
  if event.isOwn then 1 else 0

theorem Event.own_free (s : State) (event : Event) (own : event.isOwn = true) :
    event.cost s < event.effort := by
  cases event <;> simp_all [isOwn, cost, bill, effort]

theorem Hosted.potential_execute (work : Work) (hosted : Hosted) :
    (hosted.execute work).potential + 1 ≤ hosted.potential + work.rank := by
  have paid := Session.potential_pays.pays trivial (hosted.execute_step work)
  rw [potential, potential, Hosted.execute_queued]
  cases work <;>
    simp only [Work.event, Session.Event.cost, Session.Event.pushes,
      Session.Event.starts, Session.Event.stops, Work.rank] at paid ⊢ <;>
    omega

theorem Hosted.potential_dispatch (work : Work) (completed : Bool)
    (hosted : Hosted) :
    (hosted.dispatch completed work).potential ≤
      hosted.potential + work.rank := by
  unfold Hosted.dispatch
  split
  · simp only [potential, List.map_append, List.map_cons, List.map_nil,
      List.sum_append, List.sum_cons, List.sum_nil]
    omega
  · have executed := hosted.potential_execute work
    omega

theorem Hosted.potential_inner {hosted after : Hosted}
    (changed : Hosted.Change (fun _ => False) hosted after) :
    after.potential + 1 ≤ hosted.potential := by
  cases changed with
  | dispatch completed issues => exact issues.elim
  | @work work rest queued =>
      have executed := Hosted.potential_execute work
        { hosted with queued := rest }
      simp only [potential, queued, List.map_cons, List.sum_cons]
        at executed ⊢
      omega
  | @advance event next notPush notStart notStop stepped =>
      have paid := Session.potential_pays.pays trivial stepped
      have own : event.effort = 1 ∧ event.cost = 0 := by
        cases event with
        | push => exact (notPush rfl).elim
        | start => exact (notStart rfl).elim
        | stop graceful => exact (notStop graceful rfl).elim
        | post handler isOpen => exact ⟨rfl, rfl⟩
        | resume operation ec isOpen => exact ⟨rfl, rfl⟩
      simp only [potential]
      omega

theorem StopOp.potential_loop (op : StopOp) (s : State)
    (current : op.begin_ ≤ op.end_) (inside : op.end_ ≤ s.sessions.length)
    (completed : Bool) (ec : Option ErrorCode) :
    (op.loop completed ec s).potential ≤
      s.potential + 4 * (op.end_ - op.begin_) + 1 := by
  have looped : op.Looped completed ec s (op.loop completed ec s) :=
    StopOp.loop_cases (by omega) completed ec
  generalize op.loop completed ec s = after at looped ⊢
  cases looped with
  | ends uses last =>
      simp only [State.potential, List.length_append, List.length_singleton]
      omega
  | asks uses hosted more found =>
      have asked := hosted.potential_dispatch (.stop op.graceful op.op)
        completed
      have exchanged := sum_set Hosted.potential
        (hosted.dispatch completed (.stop op.graceful op.op)) found
      simp only [State.potential, List.map_append, List.map_cons,
        List.map_nil, List.sum_append, List.sum_cons, List.sum_nil, rank,
        Work.rank] at asked ⊢
      omega

theorem State.Fetched.potential {rules : UrlRules} {uri : Url}
    {completed : Bool} {s t : State}
    (fetched : s.Fetched rules uri completed t) :
    t.potential ≤ s.potential + 10 := by
  cases fetched with
  | escaped exception threw => exact Nat.le_add_right _ _
  | known proxy index hosted selected built search found room =>
      have pushed := hosted.potential_dispatch
        (.push ⟨s.fetches, uri, proxy⟩) completed
      have exchanged := sum_set Hosted.potential
        (hosted.dispatch completed (.push ⟨s.fetches, uri, proxy⟩)) found
      simp only [State.potential, Work.rank] at pushed ⊢
      omega
  | created proxy endpoint selected built search =>
      have pushed := ({ endpoint := endpoint } : Hosted).potential_execute
        (.push ⟨s.fetches, uri, proxy⟩)
      have empty : ({ endpoint := endpoint } : Hosted).potential = 0 := rfl
      simp only [State.potential, List.map_append, List.map_cons,
        List.map_nil, List.sum_append, List.sum_cons, List.sum_nil, empty,
        Work.rank] at pushed ⊢
      omega

theorem State.Stepped.pays {rules : UrlRules} {s t : State} {event : Event}
    (stepped : s.Stepped rules event t)
    (walks : ∀ op ∈ s.stopping, op.Walks s.sessions) :
    t.potential + event.effort ≤ s.potential + event.cost s := by
  cases stepped with
  | fetch fetched => exact fetched.potential
  | update update => exact Nat.le_refl _
  | stop graceful completed =>
      exact StopOp.potential_loop
        ⟨s.stops, graceful, 0, s.sessions.length, none⟩
        { s with stops := s.stops + 1 } (Nat.zero_le _) (Nat.le_refl _)
        completed none
  | @stopResumed op ec hosted completed member found called =>
      have current := (walks op member).current
      have inside := (walks op member).inside
      have split := ((List.perm_cons_erase member).map StopOp.rank).sum_nat
      have paid := StopOp.potential_loop
        { op with
          begin_ := op.begin_ + 1
          ec_ := if ec.isSome then ec else op.ec_ }
        { s with stopping := s.stopping.erase op } (Nat.succ_le_of_lt current)
        inside completed ec
      change (op.resume completed ec s).potential ≤ _ at paid
      change (op.resume completed ec s).potential + 1 ≤ s.potential + 0
      simp only [List.map_cons, List.sum_cons, StopOp.rank] at split
      simp only [State.potential] at paid ⊢
      omega
  | @stopCalled op ec posted =>
      have shorter := List.length_erase_of_mem posted
      have some := List.length_pos_of_mem posted
      change (s.callStop op ec).potential + 1 ≤ s.potential + 0
      simp only [State.potential, State.callStop, shorter]
      omega
  | @inner event index hosted after isInner found changed =>
      have took := Hosted.potential_inner changed
      have exchanged := sum_set Hosted.potential after found
      have own : event.effort = 1 ∧ event.cost s = 0 := by
        cases event <;> first | exact ⟨rfl, rfl⟩ | cases isInner
      simp only [State.potential]
      omega

theorem potential_pays {rules : UrlRules} {maxPending : Nat} :
    Machine.Potential (machine rules maxPending)
      (machine rules maxPending).Reached Event.cost Event.effort
      State.potential where
  kept := fun reached stepped => reached.step trivial stepped
  pays := by
    intro before event after reached stepped
    obtain ⟨sizes, walking⟩ := reached_walking reached
    have told : before.Stepped rules event after := stepped_cases stepped
    exact told.pays walking.stopping

theorem State.Stepped.sessions_le {rules : UrlRules} {s t : State}
    {event : Event} (stepped : s.Stepped rules event t)
    (within : s.sessions.length ≤ s.fetches) :
    t.sessions.length ≤ t.fetches := by
  cases stepped with
  | fetch fetched =>
      cases fetched <;>
        simp only [List.length_append, List.length_singleton,
          List.length_set] <;>
        omega
  | update update => exact within
  | stop graceful completed =>
      simp only [State.stop, StopOp.loop]
      split <;> simpa using within
  | stopResumed completed member found called =>
      simp only [StopOp.resume, StopOp.loop]
      split <;> simpa using within
  | stopCalled posted => exact within
  | inner isInner found changed => simpa using within

variable {rules : UrlRules} {maxPending : Nat}

theorem reached_sessions_le {s : State}
    (reached : (machine rules maxPending).Reached s) :
    s.sessions.length ≤ s.fetches := by
  induction reached with
  | start => exact Nat.le_refl 0
  | step _ _ stepped within => exact (stepped_cases stepped).sessions_le within

/-- What the calls there were may have cost. -/
def State.bill (push ask : Nat) (s : State) : Nat :=
  push * s.fetches + s.stops * (ask * s.fetches + 1)

theorem State.Stepped.bills {rules : UrlRules} {s t : State} {event : Event}
    (push ask : Nat) (stepped : s.Stepped rules event t)
    (within : s.sessions.length ≤ s.fetches) :
    s.bill push ask + event.bill push ask s ≤ t.bill push ask := by
  cases stepped with
  | @fetch uri completed t fetched =>
      have counted := fetched.numbers.1
      have stops : t.stops = s.stops := by
        cases fetched <;> rfl
      have more : s.stops * (ask * s.fetches + 1) ≤
          s.stops * (ask * (s.fetches + 1) + 1) :=
        Nat.mul_le_mul_left _ (Nat.succ_le_succ
          (Nat.mul_le_mul_left _ (Nat.le_succ _)))
      simp only [bill, counted, stops, Event.bill, Nat.mul_succ] at more ⊢
      omega
  | update update => exact Nat.le_refl _
  | stop graceful completed =>
      have counted : (s.stop graceful completed).stops = s.stops + 1 ∧
          (s.stop graceful completed).fetches = s.fetches := by
        simp only [State.stop, StopOp.loop]
        split <;> exact ⟨rfl, rfl⟩
      have asked := Nat.mul_le_mul_left ask within
      simp only [bill, counted.1, counted.2, Event.bill, Nat.succ_mul]
      omega
  | @stopResumed op ec hosted completed member found called =>
      have kept : (op.resume completed ec s).stops = s.stops ∧
          (op.resume completed ec s).fetches = s.fetches := by
        simp only [StopOp.resume, StopOp.loop]
        split <;> exact ⟨rfl, rfl⟩
      simp only [bill, kept.1, kept.2, Event.bill]
      exact Nat.le_refl _
  | stopCalled posted => exact Nat.le_refl _
  | inner isInner found changed =>
      cases event <;> first | exact Nat.le_refl _ | cases isInner

theorem reached_potential {s : State}
    (reached : (machine rules maxPending).Reached s) :
    s.potential ≤ s.bill 10 4 := by
  induction reached with
  | start => exact Nat.le_refl 0
  | @step before after event earlier _ stepped within =>
      have paid := potential_pays.pays earlier stepped
      have told : before.Stepped rules event after := stepped_cases stepped
      have bills := told.bills 10 4 (reached_sessions_le earlier)
      rw [Event.cost] at paid
      omega

/-- Nothing is left to run on the strand of the session. -/
structure Hosted.AtRest (hosted : Hosted) : Prop where
  queued : hosted.queued = []
  session : Session.machine.AtRest Session.Event.isOwn hosted.session

theorem session_atRest {s : State}
    (rests : (machine rules maxPending).AtRest Event.isOwn s) :
    ∀ hosted ∈ s.sessions, hosted.AtRest := by
  intro hosted member
  obtain ⟨index, inside, rfl⟩ := List.getElem_of_mem member
  have found : s.sessions[index]? = some s.sessions[index] :=
    List.getElem?_eq_getElem inside
  generalize s.sessions[index] = hosted at found
  constructor
  · cases queued : hosted.queued with
    | nil => rfl
    | cons work rest =>
        have disabled := rests (.work index) rfl
        simp [machine, step, State.work, found, queued] at disabled
  · intro event own
    cases stepped : Session.step hosted.session event with
    | none => exact stepped
    | some next =>
        cases event with
        | push => cases own
        | start => cases own
        | stop graceful => cases own
        | post handler isOpen =>
            have disabled := rests (.post index handler isOpen) rfl
            simp [machine, step, State.advance, found, stepped] at disabled
        | resume operation ec isOpen =>
            have disabled := rests (.resume index operation ec isOpen) rfl
            simp [machine, step, State.advance, found, stepped] at disabled

def State.answers (s : State) : List (Fetch × Option ErrorCode) :=
  s.sessions.flatMap Hosted.answers

/-- Nothing is left; every fetch was answered once, unless an exception took
its handler along, and every stop has called its handler once. -/
structure State.Settled (s : State) : Prop where
  sessions : ∀ hosted ∈ s.sessions,
    hosted.queued = [] ∧ hosted.session.Settled
  stopping : s.stopping = []
  fetches : (s.answers.map (fun answer => answer.1.number) ++
    s.escaped.map Prod.fst).Perm (List.range s.fetches)
  stops : (s.stopCalls.map StopCall.op).Perm (List.range s.stops)

theorem Hosted.stopCalled_of_rest {hosted : Hosted} (rests : hosted.AtRest)
    (counted : hosted.Counted) (settled : hosted.session.Settled) {op : Nat}
    (asked : op ∈ hosted.asked) : ∃ ec, hosted.StopCalled op ec := by
  rw [Hosted.asked, rests.queued, List.filterMap_nil, List.append_nil] at asked
  obtain ⟨stop, inside, known⟩ := List.getElem_of_mem asked
  have called : stop ∈ hosted.session.core.stopCalls.map Prod.fst := by
    rw [settled.stops.mem_iff, List.mem_range, counted.stopped]
    exact inside
  obtain ⟨call, member, rfl⟩ := List.mem_map.mp called
  exact ⟨call.2, call, member,
    List.getElem?_eq_some_iff.mpr ⟨inside, known⟩, rfl⟩

theorem Hosted.answers_of_rest {hosted : Hosted} (rests : hosted.AtRest)
    (counted : hosted.Counted) (settled : hosted.session.Settled)
    (known : (hosted.session.core.posted.map Session.Posting.push).Subperm
      (List.range hosted.session.core.pushes)) :
    (hosted.answers.map Prod.fst).Perm hosted.handed := by
  have posted := settled.posted known
  rw [counted.pushed] at posted
  rw [Hosted.answers_pick, Hosted.handed, rests.queued, List.filterMap_nil,
    List.append_nil]
  exact pick_perm posted

theorem settled_of_rest {s : State}
    (reached : (machine rules maxPending).Reached s)
    (rests : (machine rules maxPending).AtRest Event.isOwn s) : s.Settled := by
  have resting := session_atRest rests
  have sessions : ∀ hosted ∈ s.sessions, hosted.session.Settled :=
    fun hosted member => Session.settled_of_rest
      (reached_runs reached hosted member).reached.reached
      (resting hosted member).session
  obtain ⟨sizes, walking⟩ := reached_walking reached
  have stopping : s.stopping = [] := by
    refine List.eq_nil_iff_forall_not_mem.mpr fun op member => ?_
    have walks := walking.stopping op member
    have current := walks.current
    have inside := walks.inside
    obtain ⟨hosted, found⟩ : ∃ hosted, s.sessions[op.begin_]? = some hosted :=
      ⟨_, List.getElem?_eq_getElem (by omega)⟩
    have inDeque := List.mem_of_getElem? found
    have asked := (walks.asked op.begin_ hosted found).mpr (Nat.lt_succ_self _)
    obtain ⟨ec, called⟩ := Hosted.stopCalled_of_rest (resting hosted inDeque)
      (reached_counted reached hosted inDeque) (sessions hosted inDeque) asked
    have disabled := rests (.stopResumed op ec false) rfl
    simp [machine, step, found, member, called] at disabled
  have posts : s.stopPosts = [] := by
    refine List.eq_nil_iff_forall_not_mem.mpr fun post member => ?_
    have disabled := rests (.stopCalled post.1 post.2) rfl
    simp [machine, step, member] at disabled
  refine ⟨fun hosted member =>
    ⟨(resting hosted member).queued, sessions hosted member⟩, stopping, ?_, ?_⟩
  · refine List.Perm.trans (List.Perm.append_right _ ?_)
      (reached_numbers reached)
    have all : (s.answers.map Prod.fst).Perm s.handed := by
      rw [State.answers, State.handed, List.map_flatMap]
      refine List.Perm.flatMap_left s.sessions fun hosted member => ?_
      exact Hosted.answers_of_rest (resting hosted member)
        (reached_counted reached hosted member) (sessions hosted member)
        (Session.reached_invariant
          (reached_runs reached hosted member).reached.reached).posted_subperm
    have numbers := all.map Fetch.number
    rwa [List.map_map] at numbers
  · have numbers := reached_stopNumbers reached
    simpa [State.stopNumbers, stopping, posts] using numbers

theorem Event.steady_of_isOwn {event : Event} (own : event.isOwn = true)
    (s : State) : event.Steady rules s := by
  have kept : event.creates rules s = false := by
    cases event <;> first | rfl | cases own
  intro creates
  cases kept.symm.trans creates

/-- What becomes of a client that is not called any more. -/
structure Quiesces (rules : UrlRules) (maxPending : Nat) (s : State) :
    Prop where
  /-- it can always go on until it rests -/
  rests : ∃ later final, (∀ event ∈ later, event.isOwn = true) ∧
    (machine rules maxPending).runWhere
      (fun before event => event.Steady rules before) s later = some final ∧
    (machine rules maxPending).AtRest Event.isOwn final
  /-- it never goes on for longer than this -/
  bounded : ∀ later final, (∀ event ∈ later, event.isOwn = true) →
    (machine rules maxPending).run s later = some final →
    later.length ≤ 10 * s.fetches + s.stops * (4 * s.fetches + 1)
  /-- when it rests, every handler has been called -/
  settled : ∀ later final,
    (machine rules maxPending).runWhere
      (fun before event => event.Steady rules before) s later = some final →
    (machine rules maxPending).AtRest Event.isOwn final → final.Settled

/-- As long as no fetch creates a session during a stop, a client comes to rest
once it is not called any more and each operation of a transport is completed.
Every fetch has been answered once then that no exception took along, and every
stop has ended. -/
theorem reached_quiesces {s : State}
    (steady : (machine rules maxPending).ReachedBy
      (fun before event => event.Steady rules before) s) :
    Quiesces rules maxPending s where
  rests := by
    obtain ⟨later, final, own, executed, rests⟩ :=
      potential_pays.exists_rest Event.own_free steady.reached
    exact ⟨later, final, own, Machine.runWhere_of_run
      (fun event member => Event.steady_of_isOwn (own event member))
      executed, rests⟩
  bounded := by
    intro later final own executed
    have length := potential_pays.length_le Event.own_free steady.reached own
      executed
    have within := reached_potential steady.reached
    rw [State.bill] at within
    omega
  settled := fun _ _ executed =>
    settled_of_rest (steady.append_runWhere executed).reached

/-- A client that is stopped while one session waits for its timer and another
one is still queued behind it. -/
def haltingRun : List Event :=
  [.fetch localUrl false, .fetch localUrl false, .stop .yes false, .work 0,
    .resume 0 (.close .yes (.stop 0)) none false]

theorem quiesces_of_haltingRun :
    ∃ s : State, s.stopping = [⟨0, .yes, 0, 2, none⟩] ∧
      Quiesces specialRules 1 s := by
  have executed : ((machine specialRules 1).runWhere
      (fun before event => event.Steady specialRules before)
      (machine specialRules 1).start haltingRun).map State.stopping =
      some [⟨0, .yes, 0, 2, none⟩] := by
    decide +kernel
  obtain ⟨s, ran, stopping⟩ := Option.map_eq_some_iff.mp executed
  exact ⟨s, stopping,
    reached_quiesces (Machine.reachedBy_of_runWhere haltingRun ran)⟩

end Fetchpp.Client
