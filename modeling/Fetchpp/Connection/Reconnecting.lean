import Fetchpp.Connection.Calls
import Fetchpp.Transport.Sequence

/-!
# Connecting again

Connects and closes that are called one after the other.  A basic transport
renews its stream at the connect that follows a close, a tunnel at the end of a
close.  A connect that fails without a close after it leaves its stream, and
what the proxy sent, to the next connect.
-/

namespace Fetchpp

open Http

variable {Byte Response : Type}

theorem tunnelProxied_not_fresh {codec : Codec Byte Response}
    {t : Transport Byte} {io : IoPoint Byte Response} {answer : Answer Byte}
    {rest : List Byte} {result : IoResult Byte Response}
    {later : Point Byte Response}
    (resumed : io.Resumed codec t.buffer answer rest result)
    (awaits : (tunnelProxied codec result { t with buffer := rest }).2 =
      .await later) : later.isFresh = false := by
  cases result with
  | pending io' =>
      obtain rfl := Yield.await.inj awaits
      obtain ⟨skip, parsed, rfl⟩ := resumed.reads rfl
      rfl
  | failed error => cases awaits
  | wrote sent =>
      have reads : later = .proxying (startRead codec sent.skipsBody rest).2 :=
        (Yield.await.inj awaits).symm
      rcases startRead_cases codec sent.skipsBody rest with
        ⟨left, parsed, _, started⟩ | ⟨left, result, _, started⟩
      · rw [reads, started]
        rfl
      · rw [reads, started]
        rfl
  | read response =>
      by_cases accepted : codec.status response = 200
      · simp only [tunnelProxied, accepted, ne_eq, not_true_eq_false,
          if_false] at awaits
        obtain rfl := Yield.await.inj awaits
        rfl
      · simp only [tunnelProxied, accepted, ne_eq, not_false_eq_true,
          if_true] at awaits
        cases awaits

/-- How a connect goes on from one point to another. -/
structure Point.Connects.Leads (endpoint : SessionEndpoint) (t : Transport Byte)
    (point : Point Byte Response) (next : Step Byte Response) : Prop where
  stream : next.1.stream = t.stream
  basic : endpoint.isTunnel = false → next.1.buffer = t.buffer
  kind : ∀ later, next.2 = .await later → later.kind = .connect
  /-- nothing comes after the handshake -/
  before : ∀ later, next.2 = .await later → point ≠ .handshaking
  fresh : ∀ later, next.2 = .await later → later.isFresh = true →
    point.isFresh = true ∧ next.1.buffer = t.buffer

theorem Point.Connects.leads {codec : Codec Byte Response}
    {endpoint : SessionEndpoint} {t : Transport Byte}
    {point : Point Byte Response} {answer : Answer Byte}
    {next : Step Byte Response}
    (connects : point.Connects codec endpoint t answer next) :
    Connects.Leads endpoint t point next := by
  have keeps := connects.keeps
  have kind : ∀ later, next.2 = .await later → later.kind = .connect := by
    intro later awaits
    have stays := keeps.stays
    rw [awaits] at stays
    exact stays
  refine ⟨keeps.stream, ?_, kind, ?_, ?_⟩
  · intro basic
    cases connects with
    | fails error ends like => exact like.buffer
    | opens => exact t.setOpen_buffer _ _
    | connects => rfl
    | shakes => rfl
    | asks => rfl
    | escapes => rfl
    | shaken => rfl
    | proxies tunnels =>
        rw [tunnels] at basic
        cases basic
  · intro later awaits
    cases connects with
    | fails error ends like =>
        rw [awaits] at ends
        rcases ends with other | other
        · cases other
        · cases other
    | opens => nofun
    | connects => cases awaits
    | shakes => nofun
    | asks => nofun
    | escapes => cases awaits
    | shaken => cases awaits
    | proxies => nofun
  · intro later awaits fresh
    cases connects with
    | fails error ends like =>
        rw [awaits] at ends
        rcases ends with other | other
        · cases other
        · cases other
    | opens => exact ⟨rfl, t.setOpen_buffer _ _⟩
    | connects => cases awaits
    | shakes =>
        obtain rfl := Yield.await.inj awaits
        cases fresh
    | asks => exact ⟨rfl, rfl⟩
    | escapes => cases awaits
    | shaken => cases awaits
    | @proxies tunnel io answer rest result tunnels resumed =>
        simp [tunnelProxied_not_fresh resumed awaits] at fresh

namespace Connection

open Session Http Lib

variable {codec : Codec Byte Response} {endpoint : SessionEndpoint}
  {request : PushId → Request}

namespace Call

def Note.shakes? : Note Byte → Option Nat
  | .shakes stream => some stream
  | _ => none

/-- A handshake was started since the last close. -/
def shaken (log : List (Note Byte)) : Bool :=
  log.foldl (fun shaken note =>
    match note with
    | .shakes _ => true
    | .called (.close _ _) => false
    | _ => shaken) false

/-- No handshake is started on a stream that has seen one, and none and no read
finds anything in the buffer. -/
structure Unused (log : List (Note Byte)) : Prop where
  streams : (log.filterMap Note.shakes?).Nodup
  buffers : ∀ buffer, .found buffer ∈ log → buffer = []

/-- Connects and closes, each called when nothing is under way. -/
def InSequence (s : State Byte Response × List (Note Byte)) :
    Call.Event Byte → Prop
  | .call (.exchange _) => False
  | .call _ => s.1.flights = []
  | .complete (some (.exchange _)) => False
  | _ => True

/-- A connect is called when no handshake was started since the last close and,
on a tunnel, the proxy left nothing in the buffer. -/
def Renews (endpoint : SessionEndpoint)
    (s : State Byte Response × List (Note Byte)) : Call.Event Byte → Prop
  | .call (.connect _) | .complete (some (.connect _)) =>
      shaken s.2 = false ∧
        (endpoint.isTunnel = true → s.1.transport.buffer = [])
  | _ => True

instance (s : State Byte Response × List (Note Byte)) :
    (event : Call.Event Byte) → Decidable (InSequence s event)
  | .call (.exchange _) | .complete (some (.exchange _)) =>
      inferInstanceAs (Decidable False)
  | .call (.connect _) | .call (.close _ _) =>
      inferInstanceAs (Decidable (s.1.flights = []))
  | .answer _ _ | .complete none | .complete (some (.connect _))
  | .complete (some (.close _ _)) => inferInstanceAs (Decidable True)

instance (s : State Byte Response × List (Note Byte)) :
    (event : Call.Event Byte) → Decidable (Renews endpoint s event)
  | .call (.connect _) | .complete (some (.connect _)) =>
      inferInstanceAs (Decidable (shaken s.2 = false ∧
        (endpoint.isTunnel = true → s.1.transport.buffer = [])))
  | .call (.exchange _) | .call (.close _ _) | .answer _ _ | .complete none
  | .complete (some (.exchange _)) | .complete (some (.close _ _)) =>
      inferInstanceAs (Decidable True)

theorem shaken_append_shakes (log : List (Note Byte)) (stream : Nat) :
    shaken (log ++ [.shakes stream]) = true := by
  simp [shaken]

theorem shaken_append_completed (log : List (Note Byte))
    (operation : Operation) (ec : Option ErrorCode) :
    shaken (log ++ [.completed operation ec]) = shaken log := by
  simp [shaken]

theorem shakes_not_mem_goingOn {t : Transport Byte}
    {point : Point Byte Response} {next : Step Byte Response}
    (other : next.2 ≠ .await .handshaking) (stream : Nat) :
    .shakes stream ∉ goingOn t point next := by
  unfold goingOn
  split
  · simp
  · split <;> simp
  · contradiction
  · simp

theorem found_of_mem_goingOn {t : Transport Byte}
    {point : Point Byte Response} {next : Step Byte Response}
    {buffer : List Byte} (member : .found buffer ∈ goingOn t point next) :
    point.isFresh = true ∧ buffer = t.buffer := by
  cases fresh : point.isFresh with
  | true =>
      refine ⟨rfl, ?_⟩
      unfold goingOn at member
      split at member
      · cases member
      · simpa [fresh] using member
      · simpa [fresh] using member
      · cases member
  | false =>
      exfalso
      unfold goingOn at member
      split at member
      · cases member
      · simp [fresh] at member
      · simp [fresh] at member
      · cases member

theorem goingOn_handshaking {t : Transport Byte} {point : Point Byte Response}
    {next : Step Byte Response} (awaits : next.2 = .await .handshaking) :
    ∃ found : List (Note Byte),
      goingOn t point next = found ++ [.shakes next.1.stream] ∧
      ∀ stream, .shakes stream ∉ found := by
  unfold goingOn
  rw [awaits]
  refine ⟨_, rfl, ?_⟩
  intro stream
  split <;> simp

theorem shakes_mem_goingOn {t : Transport Byte} {point : Point Byte Response}
    {next : Step Byte Response} {stream : Nat}
    (member : .shakes stream ∈ goingOn t point next) :
    next.2 = .await .handshaking ∧ stream = next.1.stream := by
  by_cases awaits : next.2 = .await .handshaking
  · obtain ⟨found, notes, quiet⟩ := @goingOn_handshaking _ _ t point _ awaits
    rw [notes] at member
    rcases List.mem_append.mp member with earlier | last
    · exact (quiet stream earlier).elim
    · exact ⟨awaits, Note.shakes.inj (List.mem_singleton.mp last)⟩
  · exact (shakes_not_mem_goingOn awaits stream member).elim

theorem goingOn_ended {t : Transport Byte} {point : Point Byte Response}
    {next : Step Byte Response} (ended : ∀ later, next.2 ≠ .await later) :
    goingOn t point next = ([] : List (Note Byte)) := by
  unfold goingOn
  split
  case h_1 awaits => exact (ended _ awaits).elim
  case h_2 awaits => exact (ended _ awaits).elim
  case h_3 awaits => exact (ended _ awaits).elim
  case h_4 => rfl

theorem mem_shakes {log : List (Note Byte)} {stream : Nat} :
    stream ∈ log.filterMap Note.shakes? ↔ .shakes stream ∈ log := by
  constructor
  · intro member
    obtain ⟨note, earlier, shakes⟩ := List.mem_filterMap.mp member
    cases note with
    | called call => cases shakes
    | completed operation ec => cases shakes
    | found buffer => cases shakes
    | shakes other =>
        obtain rfl := Option.some.inj shakes
        exact earlier
  · intro member
    exact List.mem_filterMap.mpr ⟨_, member, rfl⟩

theorem Unused.append {log notes : List (Note Byte)} (unused : Unused log)
    (shakes : ∀ stream, .shakes stream ∉ notes)
    (found : ∀ buffer, .found buffer ∉ notes) : Unused (log ++ notes) := by
  have none : notes.filterMap Note.shakes? = [] := by
    refine List.eq_nil_iff_forall_not_mem.mpr ?_
    intro stream member
    exact shakes stream (mem_shakes.mp member)
  constructor
  · rw [List.filterMap_append, none, List.append_nil]
    exact unused.streams
  · intro buffer member
    rcases List.mem_append.mp member with earlier | new
    · exact unused.buffers buffer earlier
    · exact (found buffer new).elim

theorem Unused.goingOn {log : List (Note Byte)} (unused : Unused log)
    {t : Transport Byte} {point : Point Byte Response}
    {next : Step Byte Response} (fresh : point.isFresh = true → t.buffer = [])
    (renewed : next.2 = .await .handshaking → .shakes next.1.stream ∉ log) :
    Unused (log ++ Call.goingOn t point next) := by
  constructor
  · rw [List.filterMap_append]
    by_cases awaits : next.2 = .await .handshaking
    · obtain ⟨found, notes, quiet⟩ := goingOn_handshaking awaits
      have none : found.filterMap Note.shakes? = [] := by
        refine List.eq_nil_iff_forall_not_mem.mpr ?_
        intro stream member
        exact quiet stream (mem_shakes.mp member)
      have one : (Call.goingOn t point next).filterMap Note.shakes? =
          [next.1.stream] := by
        rw [notes, List.filterMap_append, none]
        rfl
      rw [one]
      refine List.nodup_append.mpr ⟨unused.streams, by simp, ?_⟩
      intro earlier member new last same
      rw [same, List.mem_singleton.mp last] at member
      exact renewed awaits (mem_shakes.mp member)
    · have none : (Call.goingOn t point next).filterMap Note.shakes? = [] := by
        refine List.eq_nil_iff_forall_not_mem.mpr ?_
        intro stream member
        exact shakes_not_mem_goingOn awaits stream (mem_shakes.mp member)
      rw [none, List.append_nil]
      exact unused.streams
  · intro buffer member
    rcases List.mem_append.mp member with earlier | new
    · exact unused.buffers buffer earlier
    · obtain ⟨isFresh, same⟩ := found_of_mem_goingOn new
      rw [same]
      exact fresh isFresh

/-- The one operation under way, and what it may rely on. -/
inductive Phase (endpoint : SessionEndpoint)
    (s : State Byte Response × List (Note Byte)) : Prop where
  | idle (waiting : s.1.waiting = [])
      (stale : .shakes s.1.transport.stream ∈ s.2 → shaken s.2 = true ∨
        (endpoint.isTunnel = false ∧ s.1.transport.running = false))
  | connecting (waiting : Waiting Byte Response)
      (only : s.1.waiting = [waiting]) (kind : waiting.point.kind = .connect)
      (completing : s.1.completing = none)
      (unshaken : waiting.point ≠ .handshaking →
        .shakes s.1.transport.stream ∉ s.2)
      (shaking : waiting.point = .handshaking → shaken s.2 = true)
      (fresh : waiting.point.isFresh = true → s.1.transport.buffer = [])
  | closing (waiting : Waiting Byte Response)
      (only : s.1.waiting = [waiting]) (kind : waiting.point.kind = .close)
      (completing : s.1.completing = none)
      (stopped : s.1.transport.running = false)

/-- The streams that have seen a handshake come before the current one, up to
it, and only a tunnel reads into the buffer. -/
structure Renewed (endpoint : SessionEndpoint)
    (s : State Byte Response × List (Note Byte)) : Prop where
  unused : Unused s.2
  bounded : ∀ stream, .shakes stream ∈ s.2 → stream ≤ s.1.transport.stream
  basic : endpoint.isTunnel = false → s.1.transport.buffer = []
  phase : Phase endpoint s

theorem Renewed.unshaken {s : State Byte Response × List (Note Byte)}
    (renewed : Renewed endpoint s) {stream : Nat}
    (later : s.1.transport.stream < stream) : .shakes stream ∉ s.2 := by
  intro member
  have bounded := renewed.bounded stream member
  omega

theorem connect_renews (endpoint : SessionEndpoint) (t : Transport Byte) :
    ∃ (domain service : String) (u : Transport Byte),
      Fetchpp.connect endpoint t =
        ((u, .await (.resolving domain service)) : Step Byte Response) ∧
      t.stream ≤ u.stream ∧
      (endpoint.isTunnel = true → u.buffer = t.buffer) ∧
      (endpoint.isTunnel = false → t.buffer = [] → u.buffer = []) ∧
      (u.stream = t.stream →
        endpoint.isTunnel = true ∨ t.running = true) := by
  have basic : ∀ {isSecure : Bool} (target : Endpoint isSecure),
      ∃ u : Transport Byte, basicConnect target t =
        ((u, .await (.resolving target.domain (toString target.port))) :
          Step Byte Response) ∧
      t.stream ≤ u.stream ∧ (t.buffer = [] → u.buffer = []) ∧
      (u.stream = t.stream → t.running = true) := by
    intro isSecure target
    refine ⟨_, rfl, ?_⟩
    cases running : t.running with
    | true => exact ⟨Nat.le_refl _, id, fun _ => rfl⟩
    | false =>
        refine ⟨Nat.le_succ _, fun _ => rfl, ?_⟩
        intro same
        exact absurd same (Nat.succ_ne_self _)
  cases endpoint with
  | plain target =>
      obtain ⟨u, connects, later, buffer, same⟩ := basic target
      exact ⟨_, _, u, connects, later, nofun, fun _ => buffer,
        fun stream => .inr (same stream)⟩
  | secure target =>
      obtain ⟨u, connects, later, buffer, same⟩ := basic target
      exact ⟨_, _, u, connects, later, nofun, fun _ => buffer,
        fun stream => .inr (same stream)⟩
  | tunnel tunnel =>
      exact ⟨_, _, _, rfl, Nat.le_refl _, fun _ => rfl, nofun,
        fun _ => .inl rfl⟩

theorem Renewed.connect {s : State Byte Response × List (Note Byte)}
    (renewed : Renewed endpoint s) (idle : s.1.completing = none)
    (empty : s.1.waiting = []) {handler : Nat}
    (unshaken : shaken s.2 = false)
    (buffer : endpoint.isTunnel = true → s.1.transport.buffer = []) :
    Renewed endpoint (start endpoint request s.1 (.connect handler),
      s.2 ++ [.called (.connect handler)]) := by
  have entered : s.1.Entered (.connect (.start handler))
      (Fetchpp.connect endpoint s.1.transport)
      (start endpoint request s.1 (.connect handler)) :=
    start_entered (.connect handler) s.1
  obtain ⟨domain, service, u, connects, later, kept, cleared, same⟩ :=
    @connect_renews Byte Response endpoint s.1.transport
  rw [connects] at entered
  have transport := entered.transport
  have waiting := entered.waiting
  have completing := entered.completing
  rw [empty, List.nil_append] at waiting
  have shakes : ∀ stream, .shakes stream ∈
      s.2 ++ [.called (.connect handler)] → .shakes stream ∈ s.2 := by
    intro stream member
    simpa using member
  have cleared' : u.buffer = [] := by
    cases tunnel : endpoint.isTunnel with
    | true => exact (kept tunnel).trans (buffer tunnel)
    | false => exact cleared tunnel (renewed.basic tunnel)
  refine
    { unused := renewed.unused.append (by simp) (by simp)
      bounded := ?_
      basic := ?_
      phase := .connecting _ waiting rfl (completing.trans idle) ?_ nofun ?_ }
  · intro stream member
    rw [transport]
    exact Nat.le_trans (renewed.bounded stream (shakes stream member)) later
  · intro _
    rw [transport]
    exact cleared'
  · intro _ member
    have earlier := shakes _ member
    rw [transport] at earlier
    by_cases current : u.stream = s.1.transport.stream
    · cases renewed.phase with
      | idle _ stale =>
          rw [current] at earlier
          rcases stale earlier with shaking | ⟨basic, stopped⟩
          · simp [unshaken] at shaking
          · rcases same current with tunnel | running
            · simp [tunnel] at basic
            · simp [running] at stopped
      | connecting _ only => simp [empty] at only
      | closing _ only => simp [empty] at only
    · have after := Nat.lt_of_le_of_ne later (Ne.symm current)
      exact renewed.unshaken after earlier
  · intro _
    rw [transport]
    exact cleared'

theorem Renewed.closed {s : State Byte Response × List (Note Byte)}
    (renewed : Renewed endpoint s) {t : State Byte Response}
    {u : Transport Byte} {ec : Option ErrorCode}
    (stopped : u.running = false) (stream : u.stream = s.1.transport.stream)
    (buffer : u.buffer = s.1.transport.buffer)
    (transport : t.transport =
      (Fetchpp.closed endpoint ec u : Step Byte Response).1)
    (waiting : t.waiting = []) {log : List (Note Byte)} (unused : Unused log)
    (shakes : ∀ stream, .shakes stream ∈ log → .shakes stream ∈ s.2) :
    Renewed endpoint (t, log) := by
  have running : t.transport.running = false := by
    rw [transport, closed_running]
    exact stopped
  have later : s.1.transport.stream ≤ t.transport.stream := by
    rw [transport]
    cases tunnel : endpoint.isTunnel with
    | true =>
        rw [closed_renews tunnel]
        omega
    | false =>
        rw [(closed_closes endpoint ec rfl).basic tunnel]
        omega
  refine ⟨unused, ?_, ?_, .idle waiting ?_⟩
  · intro other member
    exact Nat.le_trans (renewed.bounded other (shakes other member)) later
  · intro basic
    rw [transport, closed_buffer basic, buffer]
    exact renewed.basic basic
  · intro member
    right
    cases tunnel : endpoint.isTunnel with
    | false => exact ⟨rfl, running⟩
    | true =>
        have earlier := shakes _ member
        rw [transport, closed_renews tunnel] at earlier
        exact (renewed.unshaken (by omega) earlier).elim

theorem Renewed.close {s : State Byte Response × List (Note Byte)}
    (renewed : Renewed endpoint s) (idle : s.1.completing = none)
    (empty : s.1.waiting = []) {graceful : GracefulShutdown} {handler : Nat} :
    Renewed endpoint (start endpoint request s.1 (.close graceful handler),
      s.2 ++ [.called (.close graceful handler)]) := by
  have entered : s.1.Entered (.close graceful (.stop handler))
      (Fetchpp.close endpoint graceful s.1.transport)
      (start endpoint request s.1 (.close graceful handler)) :=
    start_entered (.close graceful handler) s.1
  have unused : Unused (s.2 ++ [.called (.close graceful handler)]) :=
    renewed.unused.append (by simp) (by simp)
  have shakes : ∀ stream, .shakes stream ∈
      s.2 ++ [.called (.close graceful handler)] → .shakes stream ∈ s.2 := by
    intro stream member
    simpa using member
  rcases @close_waits Byte Response endpoint graceful s.1.transport with
    ⟨point, closing, _, step⟩ | ⟨_, _, step⟩
  · rw [step] at entered
    have waiting := entered.waiting
    rw [empty, List.nil_append] at waiting
    have transport := entered.transport
    refine
      { unused := unused
        bounded := ?_
        basic := ?_
        phase := .closing _ waiting closing
          (entered.completing.trans idle) ?_ }
    · intro stream member
      rw [transport]
      exact renewed.bounded stream (shakes stream member)
    · intro basic
      rw [transport]
      exact renewed.basic basic
    · rw [transport]
      rfl
  · have none : (start endpoint request s.1
        (.close graceful handler)).waiting = [] := by
      rw [entered.waiting, empty, step, List.nil_append]
      refine State.entering_ended ?_
      intro later awaits
      rw [closed_completes] at awaits
      cases awaits
    have transport := entered.transport
    rw [step] at transport
    have stopped : ((s.1.transport.setRunning false).setupTimer).running =
        false := rfl
    exact renewed.closed stopped rfl rfl transport none unused shakes

theorem Renewed.connect_answered {s : State Byte Response × List (Note Byte)}
    (renewed : Renewed endpoint s) {t : State Byte Response} {index : Nat}
    {answer : Answer Byte}
    (answered : Answered codec endpoint s.1 index answer t)
    (others : State.waiting { s.1 with
      flights := s.1.flights.eraseIdx index
      completing := none } = [])
    (kind : answered.flight.point.kind = .connect)
    (unshaken : answered.flight.point ≠ .handshaking →
      .shakes s.1.transport.stream ∉ s.2)
    (shaking : answered.flight.point = .handshaking → shaken s.2 = true)
    (fresh : answered.flight.point.isFresh = true →
      s.1.transport.buffer = []) :
    Renewed endpoint (t, s.2 ++ goingOn s.1.transport answered.flight.point
      answered.next) := by
  have entered := answered.entered
  have leads := (Point.connects answered.resumed kind).leads
  have transport := entered.transport
  have stream : t.transport.stream = s.1.transport.stream := by
    rw [transport, leads.stream, Transport.afterAnswer_stream]
  have unused : Unused (s.2 ++ goingOn s.1.transport answered.flight.point
      answered.next) := by
    refine renewed.unused.goingOn fresh ?_
    intro awaits
    rw [leads.stream, Transport.afterAnswer_stream]
    exact unshaken (leads.before _ awaits)
  have shakes : ∀ other, .shakes other ∈ goingOn s.1.transport
      answered.flight.point answered.next →
      answered.next.2 = .await .handshaking ∧
        other = s.1.transport.stream := by
    intro other member
    obtain ⟨awaits, rfl⟩ := shakes_mem_goingOn member
    exact ⟨awaits, leads.stream.trans (Transport.afterAnswer_stream _ _ _)⟩
  refine ⟨unused, ?_, ?_, ?_⟩
  · intro other member
    rw [stream]
    rcases List.mem_append.mp member with earlier | new
    · exact renewed.bounded other earlier
    · exact Nat.le_of_eq (shakes other new).2
  · intro basic
    rw [transport, leads.basic basic, Transport.afterAnswer_buffer]
    exact renewed.basic basic
  · rcases entered.cases rfl with ⟨later, awaits, completing, waiting⟩ |
      ⟨ended, waiting⟩
    · rw [others, List.nil_append] at waiting
      refine .connecting _ waiting (leads.kind later awaits) completing ?_ ?_ ?_
      · intro other member
        rw [stream] at member
        rcases List.mem_append.mp member with earlier | new
        · exact unshaken (leads.before later awaits) earlier
        · obtain ⟨handshaking, _⟩ := shakes _ new
          rw [awaits] at handshaking
          exact other (Yield.await.inj handshaking)
      · intro handshaking
        obtain rfl : later = .handshaking := handshaking
        obtain ⟨found, notes, _⟩ :=
          @goingOn_handshaking _ _ s.1.transport answered.flight.point _ awaits
        rw [notes, ← List.append_assoc]
        exact shaken_append_shakes _ _
      · intro isFresh
        obtain ⟨before, buffer⟩ := leads.fresh later awaits isFresh
        rw [transport, buffer, Transport.afterAnswer_buffer]
        exact fresh before
    · refine .idle (waiting.trans others) ?_
      intro member
      left
      rw [goingOn_ended ended, List.append_nil] at member ⊢
      rw [stream] at member
      by_cases handshaking : answered.flight.point = .handshaking
      · exact shaking handshaking
      · exact (unshaken handshaking member).elim

theorem Renewed.close_answered {s : State Byte Response × List (Note Byte)}
    (renewed : Renewed endpoint s) {t : State Byte Response} {index : Nat}
    {answer : Answer Byte}
    (answered : Answered codec endpoint s.1 index answer t)
    (others : State.waiting { s.1 with
      flights := s.1.flights.eraseIdx index
      completing := none } = [])
    (kind : answered.flight.point.kind = .close)
    (stopped : s.1.transport.running = false) :
    Renewed endpoint (t, s.2 ++ goingOn s.1.transport answered.flight.point
      answered.next) := by
  have entered := answered.entered
  obtain ⟨ec, u, closing, step⟩ := Point.closes answered.resumed kind
  have ended : ∀ later, answered.next.2 ≠ .await later := by
    intro later awaits
    rw [step, closed_completes] at awaits
    cases awaits
  have waiting : t.waiting = [] := by
    rw [entered.waiting, others, State.entering_ended ended]
    rfl
  have quiet : goingOn s.1.transport answered.flight.point answered.next = [] :=
    goingOn_ended ended
  rw [quiet, List.append_nil]
  have stopped' : u.running = false := by
    rw [closing.running, Transport.afterAnswer_running]
    exact stopped
  have stream : u.stream = s.1.transport.stream := by
    rw [closing.stream_eq, Transport.afterAnswer_stream]
  have buffer : u.buffer = s.1.transport.buffer := by
    rw [closing.buffer, Transport.afterAnswer_buffer]
  have transport := entered.transport
  rw [step] at transport
  exact renewed.closed stopped' stream buffer transport waiting renewed.unused
    (fun _ member => member)

theorem Renewed.answered {s : State Byte Response × List (Note Byte)}
    (renewed : Renewed endpoint s) {t : State Byte Response} {index : Nat}
    {answer : Answer Byte}
    (answered : Answered codec endpoint s.1 index answer t) :
    Renewed endpoint (t, s.2 ++ goingOn s.1.transport answered.flight.point
      answered.next) := by
  have perm := State.waiting_perm answered.member
  cases renewed.phase with
  | idle waiting =>
      rw [waiting] at perm
      exact (List.not_perm_nil_cons _ _ perm).elim
  | connecting waiting only kind completing unshaken shaking fresh =>
      rw [only] at perm
      obtain ⟨rfl, rest⟩ := List.cons.inj (List.singleton_perm.mp perm)
      exact renewed.connect_answered answered rest.symm kind unshaken shaking
        fresh
  | closing waiting only kind completing stopped =>
      rw [only] at perm
      obtain ⟨rfl, rest⟩ := List.cons.inj (List.singleton_perm.mp perm)
      exact renewed.close_answered answered rest.symm kind stopped

theorem Renewed.waiting_of_completing
    {s : State Byte Response × List (Note Byte)}
    (renewed : Renewed endpoint s) {completing : Completing}
    (ends : s.1.completing = some completing) : s.1.waiting = [] := by
  cases renewed.phase with
  | idle waiting => exact waiting
  | connecting _ _ _ none => simp [ends] at none
  | closing _ _ _ none => simp [ends] at none

theorem Renewed.completed {s : State Byte Response × List (Note Byte)}
    (renewed : Renewed endpoint s) {completing : Completing}
    (ends : s.1.completing = some completing) :
    Renewed endpoint ({ s.1 with completing := none },
      s.2 ++ [.completed completing.operation completing.ec]) := by
  have waiting := renewed.waiting_of_completing ends
  have shakes : ∀ stream, .shakes stream ∈
      s.2 ++ [.completed completing.operation completing.ec] →
      .shakes stream ∈ s.2 := by
    intro stream member
    simpa using member
  refine
    { unused := renewed.unused.append (by simp) (by simp)
      bounded := fun stream member => renewed.bounded stream
        (shakes stream member)
      basic := renewed.basic
      phase := .idle waiting ?_ }
  intro member
  rw [shaken_append_completed]
  cases renewed.phase with
  | idle _ stale => exact stale (shakes _ member)
  | connecting _ only => simp [waiting] at only
  | closing _ only => simp [waiting] at only

theorem Renewed.call {s : State Byte Response × List (Note Byte)}
    (renewed : Renewed endpoint s) (idle : s.1.completing = none)
    (empty : s.1.waiting = []) {call : Call}
    (sequence : ∀ handler, call ≠ .exchange handler)
    (renews : ∀ handler, call = .connect handler → shaken s.2 = false ∧
      (endpoint.isTunnel = true → s.1.transport.buffer = [])) :
    Renewed endpoint (call.start endpoint request s.1,
      s.2 ++ [.called call]) := by
  cases call with
  | connect handler =>
      obtain ⟨unshaken, buffer⟩ := renews handler rfl
      exact renewed.connect idle empty unshaken buffer
  | exchange handler => exact (sequence handler rfl).elim
  | close graceful handler => exact renewed.close idle empty

theorem Renewed.handled {s : State Byte Response × List (Note Byte)}
    (renewed : Renewed endpoint s) (cancelTimer : Bool) :
    Renewed endpoint (s.1.handled cancelTimer, s.2) := by
  cases cancelTimer with
  | false => exact renewed
  | true =>
      refine ⟨renewed.unused, renewed.bounded, renewed.basic, ?_⟩
      cases renewed.phase with
      | idle waiting stale => exact .idle waiting stale
      | connecting waiting only kind completing unshaken shaking fresh =>
          exact .connecting waiting only kind completing unshaken shaking fresh
      | closing waiting only kind completing stopped =>
          exact .closing waiting only kind completing stopped

theorem Renewed.step {s t : State Byte Response × List (Note Byte)}
    {transport : Transport Byte} {event : Call.Event Byte}
    (renewed : Renewed endpoint s) (sequence : InSequence s event)
    (renews : Renews endpoint s event)
    (stepped : (machine codec endpoint request transport).step s event =
      some t) : Renewed endpoint t := by
  obtain ⟨underlying, log⟩ := Machine.logged_step stepped
  obtain ⟨after, notes⟩ := t
  dsimp only at underlying log
  subst log
  rcases step_cases underlying with ⟨call, rfl, idle, rfl⟩ |
    ⟨index, answer, rfl, ⟨answered⟩⟩ | ⟨completing, next, rfl, ends, rfl⟩
  · have empty : s.1.waiting = [] := by
      cases call with
      | connect handler => simp [State.waiting, show s.1.flights = [] from sequence]
      | exchange handler => exact sequence.elim
      | close graceful handler =>
          simp [State.waiting, show s.1.flights = [] from sequence]
    refine renewed.call idle empty ?_ ?_
    · rintro handler rfl
      exact sequence
    · rintro handler rfl
      exact renews
  · rw [answered.notes]
    exact renewed.answered answered
  · have empty := renewed.waiting_of_completing ends
    have completed := renewed.completed ends
    cases next with
    | none =>
        have notes : Call.notes codec endpoint s.1
            (.complete none : Call.Event Byte) =
            [.completed completing.operation completing.ec] := by
          simp [Call.notes, ends]
        rw [notes]
        exact completed.handled _
    | some call =>
        have notes : Call.notes codec endpoint s.1
            (.complete (some call) : Call.Event Byte) =
            [.completed completing.operation completing.ec] ++
              [.called call] := by
          simp [Call.notes, ends]
        rw [notes, ← List.append_assoc]
        refine (completed.call rfl empty ?_ ?_).handled _
        · rintro handler rfl
          exact sequence
        · rintro handler rfl
          rw [shaken_append_completed]
          exact renews

/-- Connects and closes that are called in sequence use no stream for two
handshakes and no buffer twice, as long as a close comes between a connect that
has started a handshake or has left what it read, and the next one. -/
theorem reached_unused {s : State Byte Response × List (Note Byte)}
    (reached : (machine codec endpoint request {}).ReachedBy
      (fun before event =>
        InSequence before event ∧ Renews endpoint before event) s) :
    Unused s.2 := by
  have renewed : Renewed endpoint s := by
    refine reached.invariant ?_ ?_
    · exact
        { unused := ⟨List.nodup_nil, nofun⟩
          bounded := nofun
          basic := fun _ => rfl
          phase := .idle rfl nofun }
    · intro before event after _ renewed allowed stepped
      exact renewed.step allowed.1 allowed.2 stepped
  exact renewed.unused

/-- The proxy refuses, with more than a header; the handler closes, and the one
of the close connects again. -/
def closedRun : List (Event Char) :=
  [.call (.connect 0), .answer 0 (.resolved none none true),
    .answer 0 (.connected none none true), .answer 0 (.ended none false),
    .answer 0 (.chunk "HTTP/1.1 407 Refused\r\n\r\nno".toList),
    .complete (some (.close .yes 1)), .answer 0 (.ended none false),
    .complete (some (.connect 2)), .answer 0 (.resolved none none true),
    .answer 0 (.connected none none true), .answer 0 (.ended none false),
    .answer 0 (.chunk "HTTP/1.1 200 OK\r\n\r\n".toList)]

theorem unused_of_closedRun :
    ∃ s, (machine textCodec (.tunnel ⟨⟨"proxy", 3128⟩, ⟨"target", 443⟩⟩)
          (fun _ => exampleRequest) {}).runWhere (fun before event =>
            InSequence before event ∧
              Renews (.tunnel ⟨⟨"proxy", 3128⟩, ⟨"target", 443⟩⟩) before event)
          ({}, []) closedRun = some s ∧
      .shakes 1 ∈ s.2 ∧ Unused s.2 := by
  have executed : ((machine textCodec
        (.tunnel ⟨⟨"proxy", 3128⟩, ⟨"target", 443⟩⟩) (fun _ => exampleRequest)
        {}).runWhere (fun before event => InSequence before event ∧
          Renews (.tunnel ⟨⟨"proxy", 3128⟩, ⟨"target", 443⟩⟩) before event)
        ({}, []) closedRun).map (fun s => s.2) =
      some [.called (.connect 0), .found [],
        .completed (.connect (.start 0)) (some .connectionRefused),
        .called (.close .yes 1), .completed (.close .yes (.stop 1)) none,
        .called (.connect 2), .found [], .shakes 1] := by
    decide +kernel
  obtain ⟨s, run, log⟩ := Option.map_eq_some_iff.mp executed
  refine ⟨s, run, by simp [log], ?_⟩
  exact reached_unused (Machine.reachedBy_of_runWhere closedRun run)

/-- The handshake fails, and its handler connects again. -/
def unclosedRun : List (Event Char) :=
  [.call (.connect 0), .answer 0 (.resolved none none true),
    .answer 0 (.connected none none true),
    .answer 0 (.ended (some (.other 0)) false), .complete (some (.connect 1)),
    .answer 0 (.resolved none none true), .answer 0 (.connected none none true)]

theorem unclosedRun_not_unused :
    ¬∀ (endpoint : SessionEndpoint) (s : State Char TextResponse ×
        List (Note Char)),
      (machine textCodec endpoint (fun _ => exampleRequest) {}).ReachedBy
        InSequence s → Unused s.2 := by
  intro unused
  have executed : ((machine textCodec (.secure ⟨"target", 443⟩)
        (fun _ => exampleRequest) {}).runWhere InSequence ({}, [])
        unclosedRun).map (fun s => s.2.filterMap Note.shakes?) =
      some [0, 0] := by
    decide +kernel
  obtain ⟨s, run, streams⟩ := Option.map_eq_some_iff.mp executed
  have streams' := (unused _ s
    (Machine.reachedBy_of_runWhere unclosedRun run)).streams
  rw [streams] at streams'
  simp at streams'

end Call

end Connection

end Fetchpp
