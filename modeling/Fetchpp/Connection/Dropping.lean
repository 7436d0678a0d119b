import Fetchpp.Connection.Closing

/-!
# An exchange that is closed

One exchange on a transport on which nothing is outstanding, with any closes
before, during and after it.  Its response object is assigned in the step that
completes it with success, and only on a running transport, that is before the
first close; what a read finds after a close is dropped.
-/

namespace Fetchpp

open Http

variable {Byte Response : Type} {codec : Codec Byte Response}
  {endpoint : SessionEndpoint} {request : Session.PushId → Request}

theorem Yield.StaysIn.not_connecting {kind : Kind} {yield : Yield Byte Response}
    (stays : yield.StaysIn kind) (notConnect : kind ≠ .connect) :
    yield ≠ .await .connecting := by
  rintro rfl
  exact notConnect stays.symm

theorem processOne_cases (request : Request) (t : Transport Byte) :
    (processOne request t : Step Byte Response) =
        (t.setupTimer, .await (.exchanging (.writing request))) ∨
    (processOne request t : Step Byte Response) =
        (t.cancelTimer, .complete (some .operationAborted)) := by
  unfold processOne
  split
  · exact .inr rfl
  · exact .inl rfl

/-- How an exchange goes on: it fails, it waits for its response, or it
delivers it. -/
inductive ProcessesOne (codec : Codec Byte Response) (u : Transport Byte) :
    IoResult Byte Response → Step Byte Response → Prop where
  | pending {io : IoPoint Byte Response} {next : Step Byte Response}
      (same : next = (u, .await (.exchanging io))) :
      ProcessesOne codec u (.pending io) next
  | fails {result : IoResult Byte Response} {next : Step Byte Response}
      (error : ErrorCode)
      (why : result = .failed error ∨
        u.running = false ∧ error = .operationAborted)
      (same : next = (u.cancelTimer, .complete (some error))) :
      ProcessesOne codec u result next
  | reads {sent : Request} {next : Step Byte Response}
      (running : u.running = true)
      (same : next =
        ({ u with
            buffer := (startRead codec sent.skipsBody u.buffer).1 },
          .await (.exchanging
            (startRead codec sent.skipsBody u.buffer).2))) :
      ProcessesOne codec u (.wrote sent) next
  | delivers {response : Response} {next : Step Byte Response}
      (running : u.running = true)
      (same : next = (u.cancelTimer, .deliver response)) :
      ProcessesOne codec u (.read response) next

theorem processOneResume_processes (codec : Codec Byte Response)
    (result : IoResult Byte Response) (u : Transport Byte) :
    ProcessesOne codec u result (processOneResume codec result u) := by
  cases result with
  | pending io => exact .pending rfl
  | failed error => exact .fails error (.inl rfl) rfl
  | wrote sent =>
      cases running : u.running with
      | true => exact .reads running (by simp [processOneResume, running])
      | false =>
          exact .fails .operationAborted (.inr ⟨running, rfl⟩)
            (by simp [processOneResume, running])
  | read response =>
      cases running : u.running with
      | true => exact .delivers running (by simp [processOneResume, running])
      | false =>
          exact .fails .operationAborted (.inr ⟨running, rfl⟩)
            (by simp [processOneResume, running])

namespace Connection

open Session Lib

/-- What is recorded of an operation that does not connect. -/
structure State.Wrote (s : State Byte Response) (operation : Operation)
    (next : Step Byte Response) (t : State Byte Response) : Prop where
  responses : t.responses =
    match next.2 with
    | .deliver response => s.respond operation response
    | _ => s.responses
  received : t.received = s.received
  ended : t.ended = s.ended

theorem State.enter_wrote {operation : Operation} {next : Step Byte Response}
    (notConnecting : next.2 ≠ .await .connecting)
    (s : State Byte Response) :
    s.Wrote operation next (s.enter operation next) := by
  have same : (s.setTransport next.1).responses = s.responses ∧
      (s.setTransport next.1).received = s.received ∧
      (s.setTransport next.1).ended = s.ended := by
    unfold setTransport
    split <;> exact ⟨rfl, rfl, rfl⟩
  obtain ⟨responses, received, ended⟩ := same
  obtain ⟨t, yield⟩ := next
  cases yield with
  | await point =>
      simp only [enter]
      unfold record
      split
      · exact (notConnecting rfl).elim
      · exact ⟨responses, received, ended⟩
      · exact ⟨responses, received, ended⟩
  | complete ec => exact ⟨responses, received, ended⟩
  | completeFirst ec => exact ⟨responses, received, ended⟩
  | escape => exact ⟨responses, received, ended⟩
  | deliver response =>
      refine ⟨?_, received, ended⟩
      cases operation with
      | exchange op => exact congrArg _ responses
      | connect caller => exact responses
      | close graceful caller => exact responses
      | wait waiter cancelled => exact responses

theorem State.Wrote.of_before {s u t : State Byte Response}
    {operation : Operation} {next : Step Byte Response}
    (wrote : u.Wrote operation next t) (responses : u.responses = s.responses)
    (received : u.received = s.received) (ended : u.ended = s.ended) :
    s.Wrote operation next t where
  responses := by
    rw [wrote.responses]
    split
    · cases operation <;> simp [respond, responses]
    · exact responses
  received := wrote.received.trans received
  ended := wrote.ended.trans ended

theorem State.Wrote.unassigned {s t : State Byte Response}
    {operation : Operation} {next : Step Byte Response}
    (wrote : s.Wrote operation next t)
    (undelivered : ∀ response, next.2 ≠ .deliver response) :
    t.responses = s.responses := by
  have responses := wrote.responses
  split at responses
  case h_1 response delivers => exact (undelivered response delivers).elim
  case h_2 => exact responses

theorem Answered.wrote {s t : State Byte Response} {index : Nat}
    {answer : Answer Byte}
    (answered : Answered codec endpoint s index answer t)
    (notConnect : answered.flight.point.kind ≠ .connect) :
    (s.hear answered.flight.point answer).Wrote answered.flight.operation
      answered.next t := by
  have notConnecting :=
    (Call.resume_stays answered.resumed).not_connecting notConnect
  have wrote := @State.enter_wrote Byte Response answered.flight.operation
    answered.next notConnecting (State.hear answered.flight.point answer
      { s with flights := s.flights.eraseIdx index, completing := none })
  rw [← answered.after] at wrote
  have same : ∀ u : State Byte Response,
      u.responses = s.responses → u.received = s.received →
      u.ended = s.ended →
      (u.hear answered.flight.point answer).responses =
          (s.hear answered.flight.point answer).responses ∧
        (u.hear answered.flight.point answer).received =
          (s.hear answered.flight.point answer).received ∧
        (u.hear answered.flight.point answer).ended =
          (s.hear answered.flight.point answer).ended := by
    intro u responses received ended
    unfold State.hear
    split <;> simp [responses, received, ended]
  obtain ⟨responses, received, ended⟩ := same
    { s with flights := s.flights.eraseIdx index, completing := none }
    rfl rfl rfl
  exact wrote.of_before responses received ended

theorem State.hear_responses (point : Point Byte Response)
    (answer : Answer Byte) (s : State Byte Response) :
    (s.hear point answer).responses = s.responses := by
  unfold hear
  split <;> rfl

namespace Call

theorem first_undelivered (call : Call) (t : Transport Byte)
    (response : Response) :
    (call.first endpoint request t).2 ≠ .deliver response := by
  rcases @first_suspends Byte Response endpoint request call t with
    ⟨_, point, awaits⟩ | ⟨_, ec, completes | completesFirst⟩
  · rw [awaits]
    nofun
  · rw [completes]
    nofun
  · rw [completesFirst]
    nofun

theorem start_wrote {call : Call} (notConnect : call.kind ≠ .connect)
    (s : State Byte Response) :
    s.Wrote call.operation (call.first endpoint request s.transport)
      (call.start endpoint request s) := by
  have stays : (call.first endpoint request s.transport :
      Step Byte Response).2.StaysIn call.kind := call.first_stays _
  have notConnecting := stays.not_connecting notConnect
  cases call with
  | connect handler => exact (notConnect rfl).elim
  | exchange handler => exact State.enter_wrote notConnecting s
  | close graceful handler =>
      have wrote : s.cancelForClose.Wrote (.close graceful (.stop handler))
          (Fetchpp.close endpoint graceful s.transport) _ :=
        State.enter_wrote notConnecting s.cancelForClose
      have same : s.cancelForClose.responses = s.responses ∧
          s.cancelForClose.received = s.received ∧
          s.cancelForClose.ended = s.ended := by
        unfold State.cancelForClose
        split <;> exact ⟨rfl, rfl, rfl⟩
      exact wrote.of_before same.1 same.2.1 same.2.2

/-- The run makes the exchange of `handler` once, and otherwise closes. -/
def OneExchange (handler : Nat) (s : State Byte Response × List (Note Byte))
    (event : Event Byte) : Prop :=
  ∀ call ∈ event.call?, call.kind = .close ∨
    (call = .exchange handler ∧ .called (.exchange handler) ∉ s.2)

instance [DecidableEq Byte] (handler : Nat)
    (s : State Byte Response × List (Note Byte)) (event : Event Byte) :
    Decidable (OneExchange handler s event) :=
  inferInstanceAs (Decidable (∀ call ∈ event.call?, call.kind = .close ∨
    (call = .exchange handler ∧ .called (.exchange handler) ∉ s.2)))

def CloseCalled (log : List (Note Byte)) : Prop :=
  ∃ graceful handler, .called (.close graceful handler) ∈ log

/-- `response` is the message that begins `data`, or all of it when no more
will come. -/
def Parsed (framing : Lib.Framing Byte Response ErrorCode) (data : List Byte)
    (ended : Bool) (response : Response) : Prop :=
  (∃ used, framing.parse data = .done used response) ∨
    (ended = true ∧ framing.finish data = .ok response)

/-- What was read at a point of an exchange that began with `buffer`. -/
def Reads (codec : Codec Byte Response) (sent : Request) (buffer : List Byte)
    (s : State Byte Response) : IoPoint Byte Response → Prop
  | .writing request =>
      request = sent ∧ s.transport.buffer = buffer ∧ s.received = []
  | .reading skip parsed => skip = sent.skipsBody ∧
      parsed ++ s.transport.buffer = buffer ++ s.received
  | .read result => ∀ response, result = .ok response →
      Parsed (codec.parser sent.skipsBody) (buffer ++ s.received) s.ended
        response

/-- What an exchange that began with `buffer` is told in `s`, when it leaves
`rest` in the buffer. -/
def Told (codec : Codec Byte Response) (sent : Request) (buffer : List Byte)
    (s : State Byte Response) (rest : List Byte) :
    IoResult Byte Response → Prop
  | .pending io => ∀ t : State Byte Response, t.transport.buffer = rest →
      t.received = s.received → Reads codec sent buffer t io
  | .wrote request => request = sent ∧ rest = buffer ∧ s.received = []
  | .read response => Parsed (codec.parser sent.skipsBody)
      (buffer ++ s.received) s.ended response
  | .failed _ => True

theorem told_ofExcept {sent : Request} {buffer rest : List Byte}
    {s : State Byte Response} {result : Except ErrorCode Response}
    (parsed : ∀ response, result = .ok response →
      Parsed (codec.parser sent.skipsBody) (buffer ++ s.received) s.ended
        response) :
    Told codec sent buffer s rest (.ofExcept result) := by
  cases result with
  | error error => trivial
  | ok response => exact parsed response rfl

theorem Reads.told {sent : Request} {buffer rest : List Byte}
    {s : State Byte Response} {io : IoPoint Byte Response}
    {answer : Answer Byte} {result : IoResult Byte Response}
    (reads : Reads codec sent buffer s io)
    (resumed : io.Resumed codec s.transport.buffer answer rest result) :
    Told codec sent buffer (s.hear (.exchanging io) answer) rest result := by
  cases resumed with
  | wrote => exact reads
  | writeFailed => trivial
  | more fed =>
      obtain ⟨skips, kept⟩ := reads
      intro t clean received
      refine ⟨skips, ?_⟩
      rw [clean, received, Framing.feed_append fed, ← List.append_assoc, kept]
      exact List.append_assoc _ _ _
  | @read skip parsed bytes rest result fed =>
      obtain ⟨rfl, kept⟩ := reads
      refine told_ofExcept ?_
      rintro response rfl
      obtain ⟨used, parse, _⟩ := Framing.feed_done fed
      refine .inl ⟨used, ?_⟩
      rw [← List.append_assoc, kept, List.append_assoc] at parse
      exact parse
  | @finished skip parsed closes =>
      obtain ⟨rfl, kept⟩ := reads
      refine told_ofExcept ?_
      intro response finish
      rw [kept] at finish
      exact .inr ⟨rfl, finish⟩
  | readFailed => trivial
  | posted => exact told_ofExcept reads

theorem Reads.start {sent : Request} {buffer : List Byte}
    {t : State Byte Response}
    (clean : t.transport.buffer = (startRead codec sent.skipsBody buffer).1)
    (unheard : t.received = []) :
    Reads codec sent buffer t (startRead codec sent.skipsBody buffer).2 := by
  rcases startRead_cases codec sent.skipsBody buffer with
    ⟨rest, parsed, fed, starts⟩ | ⟨rest, result, fed, starts⟩
  · rw [starts] at clean ⊢
    refine ⟨rfl, ?_⟩
    rw [clean, unheard, Framing.feed_append fed, List.append_nil,
      List.nil_append]
  · rw [starts]
    rintro response rfl
    obtain ⟨used, parse, _⟩ := Framing.feed_done fed
    refine .inl ⟨used, ?_⟩
    rw [unheard, List.append_nil]
    exact parse

/-- The only exchange, or a close. -/
def Ours (handler : Nat) (operation : Operation) : Prop :=
  operation = (Call.exchange handler).operation ∨
    ∃ graceful number, operation = (Call.close graceful number).operation

/-- What the response object holds, and what the caller is told of it. -/
inductive Outcome (codec : Codec Byte Response) (sent : Request)
    (buffer : List Byte) (handler : Nat)
    (s : State Byte Response × List (Note Byte)) : Prop where
  | untouched (responses : s.1.responses = [])
      (ends : ∀ cancelTimer, s.1.completing ≠
        some ⟨(Call.exchange handler).operation, none, cancelTimer⟩)
      (ended : .completed (Call.exchange handler).operation none ∉ s.2)
  | succeeding (response : Response) (cancelTimer : Bool)
      (completing : s.1.completing =
        some ⟨(Call.exchange handler).operation, none, cancelTimer⟩)
      (unclosed : ¬ CloseCalled s.2)
      (responses : s.1.responses = [(handler, response)])
      (parsed : Parsed (codec.parser sent.skipsBody) (buffer ++ s.1.received)
        s.1.ended response)
  | succeeded (response : Response) (before after : List (Note Byte))
      (log : s.2 = before ++
        .completed (Call.exchange handler).operation none :: after)
      (unclosed : ¬ CloseCalled before)
      (failed : ∀ error,
        .completed (Call.exchange handler).operation (some error) ∉ s.2)
      (responses : s.1.responses = [(handler, response)])
      (parsed : Parsed (codec.parser sent.skipsBody) (buffer ++ s.1.received)
        s.1.ended response)

/-- What goes on in a run with one exchange on a transport that held `buffer`
at first. -/
structure Dropping (codec : Codec Byte Response) (sent : Request)
    (buffer : List Byte) (handler : Nat)
    (s : State Byte Response × List (Note Byte)) : Prop where
  fits : Fitting s.1
  balanced : Balanced (Call.exchange handler).operation s
  single : calls (Call.exchange handler).operation s.2 ≤ 1
  ours : ∀ waiting ∈ s.1.waiting, Ours handler waiting.operation
  stopped : CloseCalled s.2 → s.1.transport.running = false
  fresh : ¬ CloseCalled s.2 → .called (.exchange handler) ∉ s.2 →
    s.1.transport.buffer = buffer ∧ s.1.received = []
  reads : ¬ CloseCalled s.2 → ∀ waiting ∈ s.1.waiting,
    ∃ io, waiting.point = .exchanging io ∧ Reads codec sent buffer s.1 io
  outcome : Outcome codec sent buffer handler s

theorem operation_injective {call other : Call}
    (same : call.operation = other.operation) : call = other := by
  cases call <;> cases other <;> cases same <;> rfl

theorem calls_eq_zero {call : Call} {log : List (Note Byte)}
    (uncalled : .called call ∉ log) : calls call.operation log = 0 := by
  refine List.count_eq_zero.mpr ?_
  intro member
  obtain ⟨note, inside, same⟩ := List.mem_filterMap.mp member
  cases note with
  | called other =>
      obtain rfl := operation_injective (Option.some.inj same)
      exact uncalled inside
  | completed operation ec => cases same
  | found buffer => cases same
  | shakes stream => cases same

theorem callbacks_pos {operation : Operation} {ec : Option ErrorCode}
    {log : List (Note Byte)} (member : .completed operation ec ∈ log) :
    0 < callbacks operation log :=
  List.count_pos_iff.mpr (List.mem_filterMap.mpr ⟨_, member, rfl⟩)

theorem closeCalled_append {log notes : List (Note Byte)}
    (unclosed : ∀ graceful handler, .called (.close graceful handler) ∉ notes) :
    CloseCalled (log ++ notes) ↔ CloseCalled log := by
  constructor
  · rintro ⟨graceful, handler, member⟩
    rcases List.mem_append.mp member with earlier | new
    · exact ⟨graceful, handler, earlier⟩
    · exact (unclosed graceful handler new).elim
  · rintro ⟨graceful, handler, member⟩
    exact ⟨graceful, handler, List.mem_append_left _ member⟩

namespace Outcome

variable {sent : Request} {buffer : List Byte} {handler : Nat}
  {s t : State Byte Response} {log notes : List (Note Byte)}

theorem keep (outcome : Outcome codec sent buffer handler (s, log))
    (idle : s.completing = none) (responses : t.responses = s.responses)
    (heard : .completed (Call.exchange handler).operation none ∈ log →
      t.received = s.received ∧ t.ended = s.ended)
    (ends : ∀ cancelTimer, t.completing ≠
      some ⟨(Call.exchange handler).operation, none, cancelTimer⟩)
    (quiet : ∀ operation ec, .completed operation ec ∉ notes) :
    Outcome codec sent buffer handler (t, log ++ notes) := by
  cases outcome with
  | untouched untouched _ ended =>
      refine .untouched (responses.trans untouched) ends ?_
      intro member
      rcases List.mem_append.mp member with earlier | new
      · exact ended earlier
      · exact quiet _ _ new
  | succeeding response cancelTimer completing =>
      simp [idle] at completing
  | succeeded response before after split unclosed failed held parsed =>
      have done : .completed (Call.exchange handler).operation none ∈ log := by
        rw [show log = _ from split]
        simp
      obtain ⟨received, ended⟩ := heard done
      refine .succeeded response before (after ++ notes) ?_ unclosed ?_
        (responses.trans held) ?_
      · rw [show log = _ from split]
        simp
      · intro error member
        rcases List.mem_append.mp member with earlier | new
        · exact failed error earlier
        · exact quiet _ _ new
      · rw [received, ended]
        exact parsed

theorem completed (outcome : Outcome codec sent buffer handler (s, log))
    {completing : Completing} (some : s.completing = some completing)
    (once : completing.operation = (Call.exchange handler).operation →
      ∀ ec, .completed (Call.exchange handler).operation ec ∉ log) :
    Outcome codec sent buffer handler ({ s with completing := none },
      log ++ [.completed completing.operation completing.ec]) := by
  obtain ⟨operation, ec, cancelTimer⟩ := completing
  cases outcome with
  | untouched untouched ends ended =>
      refine .untouched untouched nofun ?_
      intro member
      rcases List.mem_append.mp member with earlier | new
      · exact ended earlier
      · cases List.mem_singleton.mp new
        exact ends cancelTimer some
  | succeeding response cancelTimer' completing unclosed held parsed =>
      cases some.symm.trans completing
      refine .succeeded response log [] rfl unclosed ?_ held parsed
      intro error member
      rcases List.mem_append.mp member with earlier | new
      · exact once rfl _ earlier
      · simp at new
  | succeeded response before after split unclosed failed held parsed =>
      refine .succeeded response before
        (after ++ [.completed operation ec]) ?_ unclosed ?_ held parsed
      · rw [show log = _ from split]
        simp
      · intro error member
        rcases List.mem_append.mp member with earlier | new
        · exact failed error earlier
        · cases List.mem_singleton.mp new
          refine once rfl none ?_
          rw [show log = _ from split]
          simp

theorem handled (outcome : Outcome codec sent buffer handler (s, log))
    (cancelTimer : Bool) :
    Outcome codec sent buffer handler (s.handled cancelTimer, log) := by
  unfold State.handled
  split
  · cases outcome with
    | untouched responses ends ended => exact .untouched responses ends ended
    | succeeding response later completing unclosed responses parsed =>
        exact .succeeding response later completing unclosed responses parsed
    | succeeded response before after split unclosed failed responses parsed =>
        exact .succeeded response before after split unclosed failed responses
          parsed
  · exact outcome

end Outcome

namespace Dropping

variable {sent : Request} {buffer : List Byte} {handler : Nat}
  {s : State Byte Response} {log : List (Note Byte)}

theorem start (codec : Codec Byte Response) (sent : Request)
    (transport : Transport Byte) (handler : Nat) :
    Dropping codec sent transport.buffer handler
      (({ transport } : State Byte Response), []) where
  fits := by simp [Fitting, State.waiting]
  balanced := rfl
  single := Nat.zero_le 1
  ours := by simp [State.waiting]
  stopped := by simp [CloseCalled]
  fresh _ _ := ⟨rfl, rfl⟩
  reads _ := by simp [State.waiting]
  outcome := .untouched rfl nofun nofun

theorem not_completed (dropping : Dropping codec sent buffer handler (s, log))
    (outstanding : (Call.exchange handler).operation ∈ s.outstanding)
    (ec : Option ErrorCode) :
    .completed (Call.exchange handler).operation ec ∉ log := by
  intro member
  have waits := List.count_pos_iff.mpr outstanding
  have called := callbacks_pos member
  have balanced := dropping.balanced
  have single := dropping.single
  unfold Balanced at balanced
  dsimp only at balanced single
  omega

theorem not_outstanding (dropping : Dropping codec sent buffer handler (s, log))
    (uncalled : .called (.exchange handler) ∉ log) :
    (Call.exchange handler).operation ∉ s.outstanding := by
  intro outstanding
  have waits := List.count_pos_iff.mpr outstanding
  have none := calls_eq_zero uncalled
  have balanced := dropping.balanced
  unfold Balanced at balanced
  dsimp only at balanced
  omega

theorem waits_exchange (dropping : Dropping codec sent buffer handler (s, log))
    (unclosed : ¬ CloseCalled log) {waiting : Waiting Byte Response}
    (member : waiting ∈ s.waiting) :
    waiting.operation = (Call.exchange handler).operation := by
  rcases dropping.ours waiting member with exchange | ⟨graceful, number, closes⟩
  · exact exchange
  · obtain ⟨io, point, _⟩ := dropping.reads unclosed waiting member
    obtain ⟨call, operation, kind⟩ := dropping.fits waiting member
    obtain rfl := operation_injective (operation.symm.trans closes)
    rw [point] at kind
    cases kind

theorem waiting_nil (dropping : Dropping codec sent buffer handler (s, log))
    (unclosed : ¬ CloseCalled log)
    (uncalled : .called (.exchange handler) ∉ log) : s.waiting = [] := by
  refine List.eq_nil_iff_forall_not_mem.mpr ?_
  intro waiting member
  refine dropping.not_outstanding uncalled ?_
  rw [← dropping.waits_exchange unclosed member]
  exact List.mem_append_left _ (List.mem_map_of_mem member)

theorem rest_nil (dropping : Dropping codec sent buffer handler (s, log))
    (unclosed : ¬ CloseCalled log) {index : Nat}
    {flight : Flight Byte Response} (member : s.flights[index]? = some flight) :
    (s.flights.eraseIdx index).map Flight.toWaiting = [] := by
  have perm := State.waiting_perm member
  refine List.eq_nil_iff_forall_not_mem.mpr ?_
  intro waiting rest
  have own := dropping.waits_exchange unclosed
    (perm.symm.subset List.mem_cons_self)
  have other := dropping.waits_exchange unclosed
    (perm.symm.subset (List.mem_cons_of_mem _ rest))
  have counted := (perm.map Waiting.operation).count_eq
    (Call.exchange handler).operation
  have more : 0 < (((s.flights.eraseIdx index).map Flight.toWaiting).map
      Waiting.operation).count (Call.exchange handler).operation := by
    refine List.count_pos_iff.mpr ?_
    rw [← other]
    exact List.mem_map_of_mem rest
  have balanced := dropping.balanced
  have single := dropping.single
  unfold Balanced State.outstanding at balanced
  rw [List.map_cons, own, List.count_cons_self] at counted
  simp only [List.count_append] at balanced
  dsimp only at single
  omega

theorem ours_entered {t : State Byte Response} {operation : Operation}
    {next : Step Byte Response} (entered : s.Entered operation next t)
    (ours : ∀ waiting ∈ s.waiting, Ours handler waiting.operation)
    (own : Ours handler operation) :
    ∀ waiting ∈ t.waiting, Ours handler waiting.operation := by
  intro waiting member
  rcases entered.waits member with earlier | ⟨_, _, rfl⟩
  · exact ours waiting earlier
  · exact own

theorem completing_entered {t : State Byte Response} {operation : Operation}
    {next : Step Byte Response} (entered : s.Entered operation next t)
    (idle : s.completing = none) {completing : Completing}
    (some : t.completing = some completing) :
    completing.operation = operation ∧
      State.completion operation next = .some completing := by
  rw [entered.completing, idle, Option.or_none] at some
  exact ⟨State.completion_operation some, some⟩

theorem close_ne_exchange (graceful : GracefulShutdown) (number : Nat) :
    (Call.close graceful number).operation ≠
      (Call.exchange handler).operation := nofun

theorem close_called (dropping : Dropping codec sent buffer handler (s, log))
    (idle : s.completing = none) (graceful : GracefulShutdown) (number : Nat) :
    Dropping codec sent buffer handler
      ((Call.close graceful number).start endpoint request s,
        log ++ [.called (.close graceful number)]) := by
  have entered := @start_entered Byte Response endpoint request
    (.close graceful number) s
  have wrote := @start_wrote Byte Response endpoint request
    (.close graceful number) nofun s
  have closed : CloseCalled (log ++
      [.called (.close graceful number)] : List (Note Byte)) :=
    ⟨graceful, number, by simp⟩
  exact
    { fits := fits_of_entered entered (first_stays _ _) dropping.fits
      balanced := dropping.balanced.call idle _
      single := by
        have single := dropping.single
        simpa [calls, Note.called?, close_ne_exchange] using single
      ours := ours_entered entered dropping.ours (.inr ⟨_, _, rfl⟩)
      stopped := fun _ => by
        rw [entered.transport]
        exact close_running endpoint graceful s.transport
      fresh := fun unclosed => (unclosed closed).elim
      reads := fun unclosed => (unclosed closed).elim
      outcome := dropping.outcome.keep idle
        (wrote.unassigned (first_undelivered _ _))
        (fun _ => ⟨wrote.received, wrote.ended⟩)
        (fun cancelTimer some => close_ne_exchange _ _
          (completing_entered entered idle some).1.symm)
        (by simp) }

theorem exchange_called
    (dropping : Dropping codec (request handler) buffer handler (s, log))
    (idle : s.completing = none)
    (uncalled : .called (.exchange handler) ∉ log) :
    Dropping codec (request handler) buffer handler
      ((Call.exchange handler).start endpoint request s,
        log ++ [.called (.exchange handler)]) := by
  have entered := @start_entered Byte Response endpoint request
    (.exchange handler) s
  have wrote := @start_wrote Byte Response endpoint request
    (.exchange handler) nofun s
  have closes : CloseCalled (log ++ [.called (.exchange handler)]) ↔
      CloseCalled log := closeCalled_append (by simp)
  refine
    { fits := fits_of_entered entered (first_stays _ _) dropping.fits
      balanced := dropping.balanced.call idle _
      single := ?_
      ours := ours_entered entered dropping.ours (.inl rfl)
      stopped := ?_
      fresh := fun _ fresh => (fresh (by simp)).elim
      reads := ?_
      outcome := dropping.outcome.keep idle
        (wrote.unassigned (first_undelivered _ _))
        (fun _ => ⟨wrote.received, wrote.ended⟩) ?_ (by simp) }
  · have none := calls_eq_zero uncalled
    simp only [calls] at none
    simp [calls, Note.called?, none]
  · intro closed
    rw [entered.transport]
    exact (Transport.Shrinks.processOne _ _).running
      (dropping.stopped (closes.mp closed))
  · intro unclosed waiting member
    rw [closes] at unclosed
    obtain ⟨clean, unheard⟩ := dropping.fresh unclosed uncalled
    rw [entered.waiting, dropping.waiting_nil unclosed uncalled,
      List.nil_append] at member
    have transport := entered.transport
    rcases @processOne_cases Byte Response (request handler) s.transport with
      waits | refused
    · simp only [State.entering, first, waits, List.mem_singleton] at member
      simp only [first, waits] at transport
      obtain rfl := member
      refine ⟨.writing (request handler), rfl, rfl, ?_, ?_⟩
      · rw [transport]
        exact clean
      · exact wrote.received.trans unheard
    · simp only [State.entering, first, refused, List.not_mem_nil] at member
  · intro cancelTimer some
    obtain ⟨_, completion⟩ := completing_entered entered idle some
    rcases @processOne_cases Byte Response (request handler) s.transport with
      waits | refused
    · simp [State.completion, first, waits] at completion
    · simp [State.completion, first, refused] at completion

theorem answered_of
    (dropping : Dropping codec (request handler) buffer handler (s, log))
    {t : State Byte Response} {index : Nat} {answer : Answer Byte}
    (answered : Answered codec endpoint s index answer t)
    (stays : answered.next.2 ≠ .escape)
    (reads : ¬ CloseCalled log → ∀ waiting ∈ t.waiting,
      ∃ io, waiting.point = .exchanging io ∧
        Reads codec (request handler) buffer t io)
    (outcome : Outcome codec (request handler) buffer handler
      (t, log ++ goingOn s.transport answered.flight.point answered.next)) :
    Dropping codec (request handler) buffer handler
      (t, log ++ goingOn s.transport answered.flight.point answered.next) := by
  have closes : CloseCalled (log ++ goingOn s.transport answered.flight.point
      answered.next) ↔ CloseCalled log :=
    closeCalled_append fun _ _ => called_not_mem_goingOn _ _ _ _
  have perm := State.waiting_perm answered.member
  refine
    { fits := fits_answered dropping.fits answered
      balanced := (dropping.balanced.answered answered).mpr ?_
      single := ?_
      ours := ?_
      stopped := ?_
      fresh := ?_
      reads := fun unclosed => reads (mt closes.mpr unclosed)
      outcome := outcome }
  · rintro ⟨flight, next, member, _, resumed, escapes⟩
    obtain rfl := Option.some.inj (answered.member.symm.trans member)
    obtain rfl := Option.some.inj (answered.resumed.symm.trans resumed)
    exact stays escapes
  · have single := dropping.single
    unfold calls at single ⊢
    rw [List.filterMap_append, filterMap_goingOn (fun _ => rfl) (fun _ => rfl),
      List.append_nil]
    exact single
  · refine ours_entered answered.entered ?_ (dropping.ours
      answered.flight.toWaiting (perm.symm.subset List.mem_cons_self))
    intro waiting member
    exact dropping.ours waiting
      (perm.symm.subset (List.mem_cons_of_mem _ member))
  · intro closed
    rw [answered.entered.transport]
    exact (Point.resume_running answered.resumed).trans
      (dropping.stopped (closes.mp closed))
  · intro unclosed uncalled
    have waiting := dropping.waiting_nil (mt closes.mpr unclosed)
      (fun member => uncalled (List.mem_append_left _ member))
    have member := perm.symm.subset List.mem_cons_self
    rw [waiting] at member
    cases member

theorem close_answered
    (dropping : Dropping codec (request handler) buffer handler (s, log))
    {t : State Byte Response} {index : Nat} {answer : Answer Byte}
    (answered : Answered codec endpoint s index answer t)
    (kind : answered.flight.point.kind = .close)
    (other : answered.flight.operation ≠ (Call.exchange handler).operation) :
    Dropping codec (request handler) buffer handler
      (t, log ++ goingOn s.transport answered.flight.point answered.next) := by
  have notConnect : answered.flight.point.kind ≠ .connect := by
    rw [kind]
    nofun
  have wrote := answered.wrote notConnect
  obtain ⟨ec, u, _, closes⟩ := Point.closes answered.resumed kind
  have completes : answered.next.2 = .complete ec := by
    rw [closes]
    exact closed_completes endpoint ec u
  have unheard : s.hear answered.flight.point answer = s := by
    unfold State.hear
    split
    case h_1 same =>
      rw [same] at kind
      cases kind
    case h_2 same =>
      rw [same] at kind
      cases kind
    case h_3 => rfl
  rw [unheard] at wrote
  refine dropping.answered_of answered ?_ ?_ (dropping.outcome.keep
    answered.idle (wrote.unassigned ?_)
    (fun _ => ⟨wrote.received, wrote.ended⟩) ?_
    (fun _ _ => completed_not_mem_goingOn _ _ _ _ _))
  · rw [completes]
    nofun
  · intro unclosed
    obtain ⟨io, point, _⟩ := dropping.reads unclosed _ answered.waited
    rw [point] at kind
    cases kind
  · intro response
    rw [completes]
    nofun
  · intro cancelTimer some
    exact other (completing_entered answered.entered rfl some).1.symm

theorem undone (dropping : Dropping codec sent buffer handler (s, log))
    {t : State Byte Response} {index : Nat} {answer : Answer Byte}
    (answered : Answered codec endpoint s index answer t)
    (own : answered.flight.operation = (Call.exchange handler).operation)
    (ec : Option ErrorCode) :
    .completed (Call.exchange handler).operation ec ∉ log := by
  refine dropping.not_completed ?_ ec
  rw [← own]
  exact List.mem_append_left _ (List.mem_map_of_mem answered.waited)

theorem awaited (dropping : Dropping codec sent buffer handler (s, log))
    (unclosed : ¬ CloseCalled log) {t : State Byte Response} {index : Nat}
    {answer : Answer Byte}
    (answered : Answered codec endpoint s index answer t)
    {waiting : Waiting Byte Response} (member : waiting ∈ t.waiting) :
    answered.next.2 = .await waiting.point := by
  rcases answered.entered.waits member with rest | ⟨point, awaits, rfl⟩
  · have none := dropping.rest_nil unclosed answered.member
    simp only [State.waiting, none, List.not_mem_nil] at rest
  · exact awaits

theorem kept (dropping : Dropping codec (request handler) buffer handler
      (s, log)) {t : State Byte Response} {index : Nat} {answer : Answer Byte}
    (answered : Answered codec endpoint s index answer t)
    (notConnect : answered.flight.point.kind ≠ .connect)
    (own : answered.flight.operation = (Call.exchange handler).operation)
    (undelivered : ∀ response, answered.next.2 ≠ .deliver response)
    (unended : ∀ cancelTimer,
      State.completion answered.flight.operation answered.next ≠
        some ⟨(Call.exchange handler).operation, none, cancelTimer⟩) :
    Outcome codec (request handler) buffer handler
      (t, log ++ goingOn s.transport answered.flight.point answered.next) := by
  have wrote := answered.wrote notConnect
  refine dropping.outcome.keep answered.idle
    ((wrote.unassigned undelivered).trans (s.hear_responses _ _))
    (fun done => (dropping.undone answered own none done).elim) ?_
    (fun _ _ => completed_not_mem_goingOn _ _ _ _ _)
  intro cancelTimer some
  exact unended cancelTimer
    (completing_entered answered.entered rfl some).2

theorem responses_nil (dropping : Dropping codec sent buffer handler (s, log))
    (idle : s.completing = none)
    (undone : .completed (Call.exchange handler).operation none ∉ log) :
    s.responses = [] := by
  cases dropping.outcome with
  | untouched responses => exact responses
  | succeeding response cancelTimer completing =>
      simp [idle] at completing
  | succeeded response before after split =>
      refine (undone ?_).elim
      rw [show log = _ from split]
      simp

theorem delivered
    (dropping : Dropping codec (request handler) buffer handler (s, log))
    {t : State Byte Response} {index : Nat} {answer : Answer Byte}
    (answered : Answered codec endpoint s index answer t)
    {io : IoPoint Byte Response}
    (point : answered.flight.point = .exchanging io)
    (own : answered.flight.operation = (Call.exchange handler).operation)
    (unclosed : ¬ CloseCalled log) {u : Transport Byte} {response : Response}
    (told : Told codec (request handler) buffer
      (s.hear (.exchanging io) answer) u.buffer (.read response))
    (same : answered.next = (u.cancelTimer, .deliver response)) :
    Outcome codec (request handler) buffer handler
      (t, log ++ goingOn s.transport answered.flight.point answered.next) := by
  have wrote := answered.wrote (by rw [point]; nofun)
  have completes := answered.entered.completing
  have assigned := wrote.responses
  rw [same, own] at assigned completes
  refine .succeeding response false completes ?_ ?_ ?_
  · exact mt (closeCalled_append
      fun _ _ => called_not_mem_goingOn _ _ _ _).mp unclosed
  · refine assigned.trans ?_
    simp only [State.respond, operation, s.hear_responses,
      dropping.responses_nil answered.idle (dropping.undone answered own none)]
  · rw [wrote.received, wrote.ended, point]
    exact told

theorem exchange_answered
    (dropping : Dropping codec (request handler) buffer handler (s, log))
    {t : State Byte Response} {index : Nat} {answer : Answer Byte}
    (answered : Answered codec endpoint s index answer t)
    {io : IoPoint Byte Response}
    (point : answered.flight.point = .exchanging io)
    (own : answered.flight.operation = (Call.exchange handler).operation) :
    Dropping codec (request handler) buffer handler
      (t, log ++ goingOn s.transport answered.flight.point answered.next) := by
  have notConnect : answered.flight.point.kind ≠ .connect := by
    rw [point]
    nofun
  have wrote := answered.wrote notConnect
  have resumed := answered.resumed
  have transport := answered.entered.transport
  rw [point] at wrote resumed
  obtain ⟨result, u, arrived, running, _, _, next⟩ :=
    Point.resume_exchanging resumed
  have told : ¬ CloseCalled log → Told codec (request handler) buffer
      (s.hear (.exchanging io) answer) u.buffer result := by
    intro unclosed
    obtain ⟨other, same, reads⟩ := dropping.reads unclosed _ answered.waited
    cases point.symm.trans same
    exact reads.told arrived
  have processes := processOneResume_processes codec result u
  rw [← next] at processes
  cases processes with
  | @pending later _ same =>
      refine dropping.answered_of answered (by simp [same]) ?_
        (dropping.kept answered notConnect own (by simp [same])
          (by simp [same, State.completion]))
      intro unclosed waiting member
      have awaits := dropping.awaited unclosed answered member
      rw [same] at awaits transport
      refine ⟨later, (Yield.await.inj awaits).symm, ?_⟩
      exact told unclosed t (by rw [transport]) wrote.received
  | fails error why same =>
      refine dropping.answered_of answered (by simp [same]) ?_
        (dropping.kept answered notConnect own (by simp [same])
          (by simp [same, State.completion]))
      intro unclosed waiting member
      have awaits := dropping.awaited unclosed answered member
      rw [same] at awaits
      cases awaits
  | @reads sent _ running' same =>
      refine dropping.answered_of answered (by simp [same]) ?_
        (dropping.kept answered notConnect own (by simp [same])
          (by simp [same, State.completion]))
      intro unclosed waiting member
      have awaits := dropping.awaited unclosed answered member
      obtain ⟨rfl, clean, unheard⟩ := told unclosed
      rw [same] at awaits transport
      refine ⟨_, (Yield.await.inj awaits).symm, ?_⟩
      rw [clean] at transport ⊢
      exact .start (by rw [transport]) (wrote.received.trans unheard)
  | @delivers response _ running' same =>
      have unclosed : ¬ CloseCalled log := by
        intro closed
        have stopped := dropping.stopped closed
        rw [← running, running'] at stopped
        cases stopped
      refine dropping.answered_of answered (by simp [same]) ?_
        (dropping.delivered answered point own unclosed (told unclosed) same)
      intro unclosed waiting member
      have awaits := dropping.awaited unclosed answered member
      rw [same] at awaits
      cases awaits

theorem completed (dropping : Dropping codec sent buffer handler (s, log))
    {completing : Completing} (some : s.completing = some completing) :
    Dropping codec sent buffer handler ({ s with completing := none },
      log ++ [.completed completing.operation completing.ec]) := by
  have closes : CloseCalled (log ++
      [.completed completing.operation completing.ec]) ↔ CloseCalled log :=
    closeCalled_append (by simp)
  refine
    { fits := dropping.fits
      balanced := dropping.balanced.completed some
      single := ?_
      ours := dropping.ours
      stopped := fun closed => dropping.stopped (closes.mp closed)
      fresh := fun unclosed uncalled => dropping.fresh (mt closes.mpr unclosed)
        (fun member => uncalled (List.mem_append_left _ member))
      reads := fun unclosed waiting member => ?_
      outcome := dropping.outcome.completed some ?_ }
  · have single := dropping.single
    unfold calls at single ⊢
    simp only [List.filterMap_append, Note.called?, List.filterMap_cons,
      List.filterMap_nil, List.append_nil]
    exact single
  · obtain ⟨io, point, reads⟩ :=
      dropping.reads (mt closes.mpr unclosed) waiting member
    refine ⟨io, point, ?_⟩
    cases io <;> exact reads
  · intro own
    refine dropping.not_completed ?_
    rw [← own]
    refine List.mem_append_right _ ?_
    simp [some]

theorem handled (dropping : Dropping codec sent buffer handler (s, log))
    (cancelTimer : Bool) :
    Dropping codec sent buffer handler (s.handled cancelTimer, log) := by
  have outcome := dropping.outcome.handled cancelTimer
  unfold State.handled at outcome ⊢
  split
  case isFalse => exact dropping
  case isTrue timed =>
    rw [if_pos timed] at outcome
    refine
      { fits := dropping.fits
        balanced := dropping.balanced
        single := dropping.single
        ours := dropping.ours
        stopped := dropping.stopped
        fresh := dropping.fresh
        reads := fun unclosed waiting member => ?_
        outcome := outcome }
    obtain ⟨io, point, reads⟩ := dropping.reads unclosed waiting member
    refine ⟨io, point, ?_⟩
    cases io <;> exact reads

theorem call
    (dropping : Dropping codec (request handler) buffer handler (s, log))
    (idle : s.completing = none) {call : Call}
    (one : call.kind = .close ∨
      (call = .exchange handler ∧ .called (.exchange handler) ∉ log)) :
    Dropping codec (request handler) buffer handler
      (call.start endpoint request s, log ++ [.called call]) := by
  rcases one with closes | ⟨rfl, uncalled⟩
  · cases call with
    | connect number => cases closes
    | exchange number => cases closes
    | close graceful number => exact dropping.close_called idle _ _
  · exact dropping.exchange_called idle uncalled

theorem answered
    (dropping : Dropping codec (request handler) buffer handler (s, log))
    {t : State Byte Response} {index : Nat} {answer : Answer Byte}
    (answered : Answered codec endpoint s index answer t) :
    Dropping codec (request handler) buffer handler
      (t, log ++ goingOn s.transport answered.flight.point answered.next) := by
  obtain ⟨call, operation, kind⟩ := dropping.fits _ answered.waited
  rcases dropping.ours _ answered.waited with exchange | ⟨graceful, number, closes⟩
  · obtain rfl := operation_injective (operation.symm.trans exchange)
    obtain ⟨io, point⟩ := Point.exchanging_of_kind kind
    exact dropping.exchange_answered answered point exchange
  · obtain rfl := operation_injective (operation.symm.trans closes)
    refine dropping.close_answered answered kind ?_
    rw [show answered.flight.operation = _ from closes]
    exact close_ne_exchange graceful number

theorem step {s t : State Byte Response × List (Note Byte)}
    (dropping : Dropping codec (request handler) buffer handler s)
    {event : Event Byte} (one : OneExchange handler s event)
    {transport : Transport Byte}
    (stepped : (machine codec endpoint request transport).step s event =
      some t) :
    Dropping codec (request handler) buffer handler t := by
  obtain ⟨before, log⟩ := s
  obtain ⟨after, notes⟩ := t
  obtain ⟨underlying, rfl⟩ := Machine.logged_step stepped
  rcases step_cases underlying with ⟨call, rfl, idle, rfl⟩ |
    ⟨index, answer, rfl, ⟨answered⟩⟩ | ⟨completing, next, rfl, ends, rfl⟩
  · exact dropping.call idle (one call rfl)
  · rw [answered.notes]
    exact dropping.answered answered
  · have completed := dropping.completed ends
    rw [notes_complete ends, ← List.append_assoc]
    cases next with
    | none =>
        rw [Option.toList_none, List.map_nil, List.append_nil]
        exact completed.handled _
    | some call =>
        refine (completed.call rfl ?_).handled _
        rcases one call rfl with closes | ⟨same, uncalled⟩
        · exact .inl closes
        · exact .inr ⟨same, by simpa using uncalled⟩

end Dropping

/-- How many answers an exchange still waits for, not counting those of a read
that goes on. -/
def answersLeft : IoPoint Byte Response → Nat
  | .writing _ => 2
  | .reading _ _ => 1
  | .read _ => 1

/-- An exchange that is answered completes or comes to its read, unless it goes
on reading. -/
def Proceeds (io : IoPoint Byte Response) (yield : Yield Byte Response) :
    Prop :=
  (∃ ec, yield = .complete ec) ∨ (∃ response, yield = .deliver response) ∨
  ∃ later, yield = .await (.exchanging later) ∧
    (answersLeft later < answersLeft io ∨
      ∃ skip parsed parsed', io = .reading skip parsed ∧
        later = .reading skip parsed')

theorem proceeds_of_ofExcept (io : IoPoint Byte Response)
    (read : Except ErrorCode Response) (u : Transport Byte) :
    Proceeds io (processOneResume codec (.ofExcept read) u).2 := by
  have processes := processOneResume_processes codec (.ofExcept read) u
  cases read with
  | error error => exact .inl ⟨error, rfl⟩
  | ok response =>
      cases processes with
      | fails error why same =>
          rw [same]
          exact .inl ⟨_, rfl⟩
      | delivers running same =>
          rw [same]
          exact .inr (.inl ⟨_, rfl⟩)

theorem proceeds_of_resumed {io : IoPoint Byte Response} {answer : Answer Byte}
    {buffer rest : List Byte} {result : IoResult Byte Response}
    (resumed : io.Resumed codec buffer answer rest result)
    (u : Transport Byte) :
    Proceeds io (processOneResume codec result u).2 := by
  cases resumed with
  | @wrote sent closes =>
      cases processOneResume_processes codec (.wrote sent) u with
      | fails error why same =>
          rw [same]
          exact .inl ⟨_, rfl⟩
      | reads running same =>
          rw [same]
          refine .inr (.inr ⟨_, rfl, .inl ?_⟩)
          rcases startRead_cases codec sent.skipsBody u.buffer with
            ⟨rest, parsed, _, starts⟩ | ⟨rest, result, _, starts⟩
          · rw [starts]
            exact Nat.lt_succ_self 1
          · rw [starts]
            exact Nat.lt_succ_self 1
  | writeFailed => exact .inl ⟨_, rfl⟩
  | more fed => exact .inr (.inr ⟨_, rfl, .inr ⟨_, _, _, rfl, rfl⟩⟩)
  | read fed => exact proceeds_of_ofExcept _ _ u
  | finished => exact proceeds_of_ofExcept _ _ u
  | readFailed => exact .inl ⟨_, rfl⟩
  | posted => exact proceeds_of_ofExcept _ _ u

theorem exists_resume (codec : Codec Byte Response)
    (endpoint : SessionEndpoint) (stream : Nat) (t : Transport Byte)
    (io : IoPoint Byte Response) :
    ∃ answer : Answer Byte, ((Point.exchanging io).resume codec endpoint stream
      t answer).isSome = true := by
  cases io with
  | writing sent => exact ⟨.ended none false, rfl⟩
  | reading skip parsed => exact ⟨.ended (some .eof) false, rfl⟩
  | read result => exact ⟨.ended none false, rfl⟩

/-- One exchange with any number of closes: it is called back once; what it is
told, and what its response object holds then. -/
structure Dropped (codec : Codec Byte Response) (endpoint : SessionEndpoint)
    (request : PushId → Request) (transport : Transport Byte) (handler : Nat)
    (s : State Byte Response × List (Note Byte)) : Prop where
  balanced : Balanced (Call.exchange handler).operation s
  once : calls (Call.exchange handler).operation s.2 ≤ 1
  proceeds : ∀ flight ∈ s.1.flights,
    flight.operation = (Call.exchange handler).operation →
    (∃ answer, (flight.point.resume codec endpoint flight.stream s.1.transport
      answer).isSome = true) ∧
    ∃ io, flight.point = .exchanging io ∧ ∀ answer next,
      flight.point.resume codec endpoint flight.stream s.1.transport answer =
        some next → Proceeds io next.2
  failed : ∀ error,
    .completed (Call.exchange handler).operation (some error) ∈ s.2 →
    s.1.responses = []
  succeeded : .completed (Call.exchange handler).operation none ∈ s.2 →
    (∃ before after, s.2 = before ++
        .completed (Call.exchange handler).operation none :: after ∧
      ¬ CloseCalled before) ∧
    ∃ response, s.1.responses = [(handler, response)] ∧
      Parsed (codec.parser (request handler).skipsBody)
        (transport.buffer ++ s.1.received) s.1.ended response
  unfinished : (∀ ec,
      .completed (Call.exchange handler).operation ec ∉ s.2) →
    (∀ cancelTimer, s.1.completing ≠
      some ⟨(Call.exchange handler).operation, none, cancelTimer⟩) →
    s.1.responses = []
  dropped : CloseCalled s.2 →
    ∀ flight index io answer rest response t,
      s.1.flights[index]? = some flight → flight.point = .exchanging io →
      io.resume codec s.1.transport.buffer answer =
        some (rest, .read response) →
      (machine codec endpoint request transport).step s
        (.answer index answer) = some t →
      t.1.completing = some ⟨(Call.exchange handler).operation,
        some .operationAborted, false⟩ ∧ t.1.responses = s.1.responses

namespace Dropping

variable {transport : Transport Byte} {handler : Nat}
  {s : State Byte Response × List (Note Byte)}

theorem dropped
    (dropping : Dropping codec (request handler) transport.buffer handler s)
    (closed : CloseCalled s.2) {flight : Flight Byte Response} {index : Nat}
    {io : IoPoint Byte Response} {answer : Answer Byte} {rest : List Byte}
    {response : Response} {t : State Byte Response × List (Note Byte)}
    (member : s.1.flights[index]? = some flight)
    (point : flight.point = .exchanging io)
    (read : io.resume codec s.1.transport.buffer answer =
      some (rest, .read response))
    (stepped : (machine codec endpoint request transport).step s
      (.answer index answer) = some t) :
    t.1.completing = some ⟨(Call.exchange handler).operation,
        some .operationAborted, false⟩ ∧ t.1.responses = s.1.responses := by
  rcases step_cases (Machine.logged_step stepped).1 with ⟨_, other, _⟩ |
    ⟨_, _, same, ⟨answered⟩⟩ | ⟨_, _, other, _⟩
  · cases other
  · cases same
    obtain rfl := Option.some.inj (answered.member.symm.trans member)
    have resumed := answered.resumed
    obtain ⟨call, operation, kind⟩ := dropping.fits _ answered.waited
    have own : answered.flight.operation =
        (Call.exchange handler).operation := by
      rcases dropping.ours _ answered.waited with exchange |
        ⟨graceful, number, closes⟩
      · exact exchange
      · obtain rfl := operation_injective (operation.symm.trans closes)
        rw [point] at kind
        cases kind
    have stopped := dropping.stopped closed
    have aborts : answered.next.2 = .complete (some .operationAborted) := by
      rw [point] at resumed
      simp only [Point.resume, Transport.afterAnswer_buffer, read,
        Option.some.injEq] at resumed
      rw [← resumed]
      simp [processOneResume, stopped]
    have notConnect : answered.flight.point.kind ≠ .connect := by
      rw [point]
      intro connects
      cases connects
    have completing := answered.entered.completing
    constructor
    · rw [completing, own]
      simp [State.completion, aborts]
    · refine ((answered.wrote notConnect).unassigned ?_).trans
        (s.1.hear_responses _ _)
      intro response
      simp [aborts]
  · cases other

end Dropping

/-- The response is read when a close has been called and its socket is not yet
closed. -/
def interruptedRun : List (Event Char) :=
  [.call (.exchange 0), .answer 0 (.ended none false), .call (.close .yes 1),
    .answer 0 (.chunk "HTTP/1.1 200 OK\r\nContent-Length: 0\r\n\r\n".toList),
    .complete none, .answer 0 (.ended none false), .complete none]

end Call

end Connection

end Fetchpp
