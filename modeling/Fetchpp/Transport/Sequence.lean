import Fetchpp.Http.TextCodec
import Fetchpp.Transport.Core

/-!
# A tunnel and the exchanges that go through it

A transport that does one operation after the other, with nothing else at
work, against a list of answers.  The exchange of the CONNECT request, which is
in clear, and the exchanges inside TLS read through one buffer.  It is empty
when the connect succeeds exactly when the proxy's header was the last thing
that was read in clear, and then the exchanges see what is inside TLS only.
-/

namespace Fetchpp

open Http

variable {Byte Response : Type}

/-- What the handler of an operation is given, with the response stored. -/
structure Finished (Response : Type) where
  ec : Option ErrorCode
  response : Option Response
  deriving DecidableEq, Repr

def Point.isPosted : Point Byte Response → Bool
  | .proxying (.read _) => true
  | .exchanging (.read _) => true
  | .closePosted => true
  | .tcpClosing => true
  | _ => false

/-- Runs the continuation that an operation has posted. -/
def runPosted (codec : Codec Byte Response) (endpoint : SessionEndpoint)
    (step : Step Byte Response) : Step Byte Response :=
  match step with
  | (t, .await point) =>
      if point.isPosted then
        (point.resume codec endpoint t.stream t
          (.ended none false)).getD step
      else step
  | _ => step

/-- Resumes an operation until it completes.  There is no result if the answers
do not suffice or an exception leaves the operation. -/
def drive (codec : Codec Byte Response) (endpoint : SessionEndpoint) :
    List (Answer Byte) → Step Byte Response →
      Option (Finished Response × Transport Byte × List (Answer Byte))
  | answers, (t, .complete ec) => some (⟨ec, none⟩, t, answers)
  | answers, (t, .completeFirst ec) => some (⟨ec, none⟩, t.cancelTimer, answers)
  | answers, (t, .deliver response) => some (⟨none, some response⟩, t, answers)
  | _, (_, .escape) => none
  | [], (_, .await _) => none
  | answer :: answers, (t, .await point) =>
      match point.resume codec endpoint t.stream t answer with
      | none => none
      | some next =>
          drive codec endpoint answers (runPosted codec endpoint next)

/-- `async_process_one` for one request after the other; the list ends where an
exchange does not. -/
def processAll (codec : Codec Byte Response) (endpoint : SessionEndpoint) :
    List Request → Transport Byte → List (Answer Byte) →
      List (Finished Response)
  | [], _, _ => []
  | request :: requests, t, answers =>
      match drive codec endpoint answers (processOne request t) with
      | none => []
      | some (finished, next, rest) =>
          finished :: processAll codec endpoint requests next rest

/-- `async_connect` of a tunnel succeeds, and leaves `rest` to be answered. -/
def Tunnelled (codec : Codec Byte Response) (endpoint : TunnelEndpoint)
    (t : Transport Byte) (answers : List (Answer Byte))
    (after : Transport Byte) (rest : List (Answer Byte)) : Prop :=
  drive codec (.tunnel endpoint) answers (tunnelConnect endpoint t) =
    some (⟨none, none⟩, after, rest)

def leadingBytes : List (Answer Byte) → List Byte
  | .chunk bytes :: answers => bytes ++ leadingBytes answers
  | _ => []

/-- What is read from the proxy behind the answers to the resolve, to the
connect and to the write of the CONNECT request. -/
def clearBytes (answers : List (Answer Byte)) : List Byte :=
  leadingBytes (answers.drop 3)

/-- The header of the proxy's response ends with the last byte that is there:
neither what was in the buffer nor what is read goes beyond it. -/
def HeaderEndsRead (codec : Codec Byte Response) (buffer : List Byte)
    (answers : List (Answer Byte)) : Prop :=
  ∃ response, (codec.parser true).parse (buffer ++ clearBytes answers) =
    .done (buffer ++ clearBytes answers).length response

variable {codec : Codec Byte Response} {endpoint : TunnelEndpoint}
  {request : Request} {t after : Transport Byte}
  {answers rest : List (Answer Byte)}

private theorem drive_await {endpoint : SessionEndpoint}
    {point : Point Byte Response}
    {out : Finished Response × Transport Byte × List (Answer Byte)}
    (driven : drive codec endpoint answers (t, .await point) =
      some out) :
    ∃ answer later next, answers = answer :: later ∧
      point.resume codec endpoint t.stream t answer = some next ∧
      drive codec endpoint later
        (runPosted codec endpoint next) = some out := by
  cases answers with
  | nil => simp [drive] at driven
  | cons answer later =>
      cases resumed : point.resume codec endpoint t.stream t answer with
      | none => simp [drive, resumed] at driven
      | some next =>
          simp only [drive, resumed] at driven
          exact ⟨answer, later, next, rfl, resumed, driven⟩

@[simp] theorem resume_proxying (stream : Nat) (io : IoPoint Byte Response)
    (answer : Answer Byte) :
    Point.resume codec (.tunnel endpoint) stream t (.proxying io)
        answer =
      (io.resume codec t.buffer answer).map (fun resumed =>
        tunnelProxied codec resumed.2
          { t.afterAnswer stream answer with buffer := resumed.1 }) := by
  simp only [Point.resume, Transport.afterAnswer_buffer]
  cases io.resume codec t.buffer answer <;> rfl

@[simp] theorem resume_exchanging (endpoint : SessionEndpoint) (stream : Nat)
    (io : IoPoint Byte Response) (answer : Answer Byte) :
    Point.resume codec endpoint stream t (.exchanging io) answer =
      (io.resume codec t.buffer answer).map (fun resumed =>
        processOneResume codec resumed.2
          { t.afterAnswer stream answer with buffer := resumed.1 }) := by
  simp only [Point.resume, Transport.afterAnswer_buffer]
  cases io.resume codec t.buffer answer <;> rfl

private theorem drive_complete {endpoint : SessionEndpoint}
    {ec : Option ErrorCode}
    {out : Finished Response × Transport Byte × List (Answer Byte)}
    (driven : drive codec endpoint answers (t, .complete ec) =
      some out) : out = (⟨ec, none⟩, t, answers) := by
  cases answers <;> simpa [drive] using driven.symm

private theorem drive_completeFirst {endpoint : SessionEndpoint}
    {ec : Option ErrorCode}
    {out : Finished Response × Transport Byte × List (Answer Byte)}
    (driven : drive codec endpoint answers (t, .completeFirst ec) =
      some out) : out = (⟨ec, none⟩, t.cancelTimer, answers) := by
  cases answers <;> simpa [drive] using driven.symm

theorem drive_handshaking
    (driven : drive codec (.tunnel endpoint) answers
      (t, .await .handshaking) = some (⟨none, none⟩, after, rest)) :
    leadingBytes answers = [] ∧ after.buffer = t.buffer ∧
      after.running = t.running := by
  obtain ⟨answer, later, next, rfl, resumed, driven⟩ := drive_await driven
  cases answer with
  | resolved ec sni opens => simp [Point.resume] at resumed
  | connected ec noDelay leavesOpen => simp [Point.resume] at resumed
  | chunk bytes => simp [Point.resume] at resumed
  | ended ec closes =>
      have shaken : next =
          tunnelShaken ec (t.afterAnswer t.stream (.ended ec closes)) := by
        simpa [Point.resume] using resumed.symm
      subst shaken
      have completed := drive_complete driven
      simp only [Prod.mk.injEq] at completed
      obtain ⟨_, rfl, _⟩ := completed
      exact ⟨rfl, by simp [Transport.cancelTimer],
        by simp [Transport.cancelTimer]⟩

theorem drive_proxyRead {response : Response}
    (driven : drive codec (.tunnel endpoint) answers
      (tunnelProxied codec (.read response) t) =
        some (⟨none, none⟩, after, rest)) :
    leadingBytes answers = [] ∧ after.buffer = t.buffer ∧
      after.running = t.running := by
  unfold tunnelProxied at driven
  dsimp only at driven
  split at driven
  · have completed := drive_completeFirst driven
    simp at completed
  · exact drive_handshaking driven

private theorem drive_proxyFailed {error : ErrorCode}
    (driven : drive codec (.tunnel endpoint) answers
      (tunnelProxied codec (.failed error) t) =
        some (⟨none, none⟩, after, rest)) : False := by
  have completed := drive_complete driven
  simp at completed

/-- What a tunnel finds of the clear bytes when it is established. -/
def ClearRead (codec : Codec Byte Response) (data : List Byte)
    (t after : Transport Byte) : Prop :=
  after.running = t.running ∧ ∃ used response,
    (codec.parser true).parse data = .done used response ∧
      after.buffer = data.drop used

@[simp] theorem runPosted_proxied (result : IoResult Byte Response)
    (notPosted : ∀ ended, result ≠ .pending (.read ended))
    (notWrote : ∀ request, result ≠ .wrote request) :
    runPosted codec (.tunnel endpoint)
        (tunnelProxied codec result t) =
      tunnelProxied codec result t := by
  cases result with
  | pending io =>
      cases io with
      | writing other => rfl
      | reading skip parsed => rfl
      | read ended => exact (notPosted ended rfl).elim
  | wrote request => exact (notWrote request rfl).elim
  | read response =>
      simp only [tunnelProxied]
      split <;> rfl
  | failed error => rfl

/-- A read of the proxy's response that ends has failed: with `skip(true)` the
end of the stream completes no response. -/
theorem readingProxy_ended (lawful : codec.Lawful) {parsed buffer : List Byte}
    {ec : Option ErrorCode} {closes : Bool}
    {ended : List Byte × IoResult Byte Response}
    (incomplete : ∃ used,
      (codec.parser true).parse (parsed ++ buffer) = .more used)
    (resumed : (IoPoint.reading true parsed).resume codec buffer
      (.ended ec closes) = some ended) :
    ∃ error, ended.2 = .failed error := by
  obtain ⟨used, parse⟩ := incomplete
  cases ec with
  | none => simp [IoPoint.resume] at resumed
  | some error =>
      by_cases isEof : error = .eof
      · subst isEof
        simp only [IoPoint.resume, Option.some.injEq] at resumed
        subst resumed
        cases finish : (codec.parser true).finish (parsed ++ buffer) with
        | ok response => exact (lawful.skip_finish parse finish).elim
        | error error => exact ⟨error, rfl⟩
      · have failed : (buffer, IoResult.failed error) = ended := by
          simpa [IoPoint.resume, isEof] using resumed
        exact ⟨error, by rw [← failed]⟩

theorem drive_proxyReading (lawful : codec.Lawful) {parsed : List Byte}
    (driven : drive codec (.tunnel endpoint) answers
      (t, .await (.proxying (.reading true parsed))) =
        some (⟨none, none⟩, after, rest))
    (incomplete : ∃ used,
      (codec.parser true).parse (parsed ++ t.buffer) = .more used) :
    ClearRead codec (parsed ++ t.buffer ++ leadingBytes answers) t after := by
  induction answers generalizing t parsed with
  | nil => simp [drive] at driven
  | cons answer later induction =>
      obtain ⟨answer', later', next, same, resumed, driven⟩ :=
        drive_await driven
      obtain ⟨rfl, rfl⟩ := List.cons.inj same
      rw [resume_proxying] at resumed
      obtain ⟨⟨buffer, result⟩, ioResumed, rfl⟩ :=
        Option.map_eq_some_iff.mp resumed
      cases answer with
      | resolved ec sni opens => simp [IoPoint.resume] at ioResumed
      | connected ec noDelay leavesOpen => simp [IoPoint.resume] at ioResumed
      | ended ec closes =>
          obtain ⟨error, failed⟩ :=
            readingProxy_ended lawful incomplete ioResumed
          dsimp only at failed
          subst failed
          rw [runPosted_proxied _ (by simp) (by simp)] at driven
          exact (drive_proxyFailed driven).elim
      | chunk bytes =>
          have joined : parsed ++ t.buffer ++ leadingBytes (.chunk bytes :: later)
              = parsed ++ (t.buffer ++ bytes) ++ leadingBytes later := by
            simp [leadingBytes]
          cases fed : (codec.parser true).feed parsed (t.buffer ++ bytes) with
          | mk buffer' outcome =>
              cases outcome with
              | more parsed' =>
                  simp only [IoPoint.resume, fed, Option.some.injEq,
                    Prod.mk.injEq] at ioResumed
                  obtain ⟨rfl, rfl⟩ := ioResumed
                  rw [runPosted_proxied _ (by simp) (by simp)] at driven
                  have kept := Lib.Framing.feed_append fed
                  obtain ⟨used, parse, _⟩ := Lib.Framing.feed_more fed
                  obtain ⟨running, cleared⟩ := induction driven
                    ⟨used, by rw [kept]; exact parse⟩
                  rw [joined, ← kept]
                  exact ⟨by simpa using running, cleared⟩
              | ended ended =>
                  simp only [IoPoint.resume, fed, Option.some.injEq,
                    Prod.mk.injEq] at ioResumed
                  obtain ⟨rfl, rfl⟩ := ioResumed
                  cases ended with
                  | error error =>
                      rw [IoResult.ofExcept,
                        runPosted_proxied _ (by simp) (by simp)] at driven
                      exact (drive_proxyFailed driven).elim
                  | ok response =>
                      rw [IoResult.ofExcept,
                        runPosted_proxied _ (by simp) (by simp)] at driven
                      obtain ⟨noMore, buffer, running⟩ := drive_proxyRead driven
                      obtain ⟨used, parse, drop⟩ := Lib.Framing.feed_done fed
                      rw [joined, noMore, List.append_nil]
                      exact ⟨by simpa using running, used, response, parse,
                        buffer.trans drop⟩

theorem drive_proxyWrote (lawful : codec.Lawful)
    (driven : drive codec (.tunnel endpoint) answers
      (runPosted codec (.tunnel endpoint)
        (tunnelProxied codec (.wrote (connectRequest endpoint)) t)) =
          some (⟨none, none⟩, after, rest)) :
    ClearRead codec (t.buffer ++ leadingBytes answers) t after := by
  have skips : (connectRequest endpoint).skipsBody = true := rfl
  cases fed : (codec.parser true).feed [] t.buffer with
  | mk buffer outcome =>
      cases outcome with
      | more parsed =>
          have kept := Lib.Framing.feed_append fed
          rw [List.nil_append] at kept
          obtain ⟨used, parse, _⟩ := Lib.Framing.feed_more fed
          have reading : drive codec (.tunnel endpoint) answers
              ({ t with buffer := buffer },
                .await (.proxying (.reading true parsed))) =
              some (⟨none, none⟩, after, rest) := by
            simpa [tunnelProxied, startRead, skips, fed, runPosted,
              Point.isPosted] using driven
          have cleared := drive_proxyReading lawful reading
            ⟨used, by rw [kept]; exact parse⟩
          rw [← kept]
          exact cleared
      | ended ended =>
          have posted : runPosted codec (.tunnel endpoint)
              (tunnelProxied codec (.wrote (connectRequest endpoint)) t) =
              tunnelProxied codec (.ofExcept ended)
                { t with buffer := buffer } := by
            simp [tunnelProxied, startRead, skips, fed, runPosted,
              Point.isPosted, IoPoint.resume, Transport.afterAnswer,
              Answer.closes]
          rw [posted] at driven
          cases ended with
          | error error => exact (drive_proxyFailed driven).elim
          | ok response =>
              obtain ⟨noMore, buffer', running⟩ := drive_proxyRead driven
              obtain ⟨used, parse, drop⟩ := Lib.Framing.feed_done fed
              rw [noMore, List.append_nil]
              exact ⟨running, used, response, parse, buffer'.trans drop⟩

theorem drive_tunnelResolving {domain service : String}
    (driven : drive codec (.tunnel endpoint) answers
      (t, .await (.resolving domain service)) =
        some (⟨none, none⟩, after, rest)) :
    ∃ answer later next, answers = answer :: later ∧
      next.buffer = t.buffer ∧ next.running = t.running ∧
      drive codec (.tunnel endpoint) later
        (next, .await .connecting) = some (⟨none, none⟩, after, rest) := by
  obtain ⟨answer, later, next, rfl, resumed, driven⟩ := drive_await driven
  cases answer with
  | connected ec noDelay leavesOpen => simp [Point.resume] at resumed
  | ended ec closes => simp [Point.resume] at resumed
  | chunk bytes => simp [Point.resume] at resumed
  | resolved ec sni opens =>
      simp only [Point.resume, Option.some.injEq] at resumed
      subst resumed
      cases ec with
      | some error =>
          have completed := drive_completeFirst driven
          simp at completed
      | none =>
          cases sni with
          | some error =>
              have completed := drive_complete driven
              simp at completed
          | none => exact ⟨_, later, _, rfl, by simp, by simp, driven⟩

theorem drive_tunnelConnecting
    (driven : drive codec (.tunnel endpoint) answers
      (t, .await .connecting) = some (⟨none, none⟩, after, rest)) :
    ∃ answer later next, answers = answer :: later ∧
      next.buffer = t.buffer ∧ next.running = t.running ∧
      drive codec (.tunnel endpoint) later
        (next, .await (.proxying (.writing (connectRequest endpoint)))) =
          some (⟨none, none⟩, after, rest) := by
  obtain ⟨answer, later, next, rfl, resumed, driven⟩ := drive_await driven
  cases answer with
  | resolved ec sni opens => simp [Point.resume] at resumed
  | ended ec closes => simp [Point.resume] at resumed
  | chunk bytes => simp [Point.resume] at resumed
  | connected ec noDelay leavesOpen =>
      simp only [Point.resume, Option.some.injEq] at resumed
      subst resumed
      cases ec with
      | some error =>
          have completed := drive_complete driven
          simp at completed
      | none =>
          cases noDelay with
          | some error =>
              cases later <;> simp [tunnelConnected, runPosted, drive] at driven
          | none => exact ⟨_, later, _, rfl, by simp, by simp, driven⟩

theorem drive_proxyWriting
    (driven : drive codec (.tunnel endpoint) answers
      (t, .await (.proxying (.writing (connectRequest endpoint)))) =
        some (⟨none, none⟩, after, rest)) :
    ∃ answer later next, answers = answer :: later ∧
      next.buffer = t.buffer ∧ next.running = t.running ∧
      drive codec (.tunnel endpoint) later
        (runPosted codec (.tunnel endpoint)
          (tunnelProxied codec (.wrote (connectRequest endpoint)) next)) =
            some (⟨none, none⟩, after, rest) := by
  obtain ⟨answer, later, next, rfl, resumed, driven⟩ := drive_await driven
  rw [resume_proxying] at resumed
  obtain ⟨⟨buffer, result⟩, ioResumed, rfl⟩ :=
    Option.map_eq_some_iff.mp resumed
  cases answer with
  | resolved ec sni opens => simp [IoPoint.resume] at ioResumed
  | connected ec noDelay leavesOpen => simp [IoPoint.resume] at ioResumed
  | chunk bytes => simp [IoPoint.resume] at ioResumed
  | ended ec closes =>
      cases ec with
      | some error =>
          simp only [IoPoint.resume, Option.some.injEq, Prod.mk.injEq]
            at ioResumed
          obtain ⟨rfl, rfl⟩ := ioResumed
          exact (drive_proxyFailed driven).elim
      | none =>
          simp only [IoPoint.resume, Option.some.injEq, Prod.mk.injEq]
            at ioResumed
          obtain ⟨rfl, rfl⟩ := ioResumed
          exact ⟨_, later, _, rfl, rfl, by simp, driven⟩

/-- A connect that succeeds has read one header in clear; what it read beyond
is in the buffer. -/
theorem Tunnelled.clearRead (lawful : codec.Lawful)
    (connected : Tunnelled codec endpoint t answers after rest) :
    after.running = true ∧ ∃ used response,
      (codec.parser true).parse (t.buffer ++ clearBytes answers) =
        .done used response ∧
      after.buffer = (t.buffer ++ clearBytes answers).drop used := by
  unfold Tunnelled tunnelConnect at connected
  obtain ⟨_, answers₁, t₁, rfl, buffer₁, running₁, driven₁⟩ :=
    drive_tunnelResolving connected
  obtain ⟨_, answers₂, t₂, rfl, buffer₂, running₂, driven₂⟩ :=
    drive_tunnelConnecting driven₁
  obtain ⟨_, answers₃, t₃, rfl, buffer₃, running₃, driven₃⟩ :=
    drive_proxyWriting driven₂
  obtain ⟨running, cleared⟩ := drive_proxyWrote lawful driven₃
  have buffer : t₃.buffer = t.buffer :=
    ((buffer₃.trans buffer₂).trans buffer₁).trans rfl
  rw [buffer] at cleared
  exact ⟨((running.trans running₃).trans running₂).trans running₁, cleared⟩

theorem Tunnelled.buffer_eq_nil_iff (lawful : codec.Lawful)
    (connected : Tunnelled codec endpoint t answers after rest) :
    after.buffer = [] ↔ HeaderEndsRead codec t.buffer answers := by
  obtain ⟨_, used, response, parse, buffer⟩ := connected.clearRead lawful
  have bounded := (lawful.parser true).done_le parse
  rw [buffer, List.drop_eq_nil_iff]
  constructor
  · intro all
    exact ⟨response, by rw [parse, Nat.le_antisymm bounded all]⟩
  · rintro ⟨other, whole⟩
    rw [parse] at whole
    simp only [Lib.Progress.done.injEq] at whole
    exact Nat.le_of_eq whole.1.symm

/-- Two transports between which no exchange can tell. -/
structure Transport.Alike (t u : Transport Byte) : Prop where
  buffer : t.buffer = u.buffer
  running : t.running = u.running

/-- Two steps of an exchange that agree on all but the stream. -/
def Step.Alike (step other : Step Byte Response) : Prop :=
  step.1.Alike other.1 ∧ step.2 = other.2

theorem processOneResume_alike (result : IoResult Byte Response)
    {t u : Transport Byte} (alike : t.Alike u) :
    Step.Alike (processOneResume codec result t)
      (processOneResume codec result u) := by
  obtain ⟨buffer, running⟩ := alike
  cases result with
  | pending io => exact ⟨⟨buffer, running⟩, rfl⟩
  | failed error => exact ⟨⟨buffer, running⟩, rfl⟩
  | wrote request =>
      simp only [processOneResume, running, buffer]
      split
      · exact ⟨⟨buffer, running⟩, rfl⟩
      · exact ⟨⟨rfl, rfl⟩, rfl⟩
  | read response =>
      simp only [processOneResume, running]
      split
      · exact ⟨⟨buffer, running⟩, rfl⟩
      · exact ⟨⟨buffer, running⟩, rfl⟩

theorem Transport.Alike.symm {t u : Transport Byte} (alike : t.Alike u) :
    u.Alike t :=
  ⟨alike.buffer.symm, alike.running.symm⟩

/-- What a `transport_op` yields. -/
def Yield.OfExchange : Yield Byte Response → Prop
  | .await (.exchanging _) | .complete _ | .deliver _ => True
  | _ => False

theorem processOne_ofExchange (t : Transport Byte) :
    (processOne request t : Step Byte Response).2.OfExchange := by
  unfold processOne
  split <;> trivial

theorem processOneResume_ofExchange (result : IoResult Byte Response)
    (t : Transport Byte) :
    (processOneResume codec result t).2.OfExchange := by
  cases result with
  | pending io => trivial
  | failed error => trivial
  | wrote request =>
      simp only [processOneResume]
      split <;> trivial
  | read response =>
      simp only [processOneResume]
      split <;> trivial

private theorem resume_exchanging_alike {endpoint : SessionEndpoint}
    {io : IoPoint Byte Response} {answer : Answer Byte}
    {t u : Transport Byte} (alike : t.Alike u) {next : Step Byte Response}
    (resumed : Point.resume codec endpoint t.stream t (.exchanging io)
      answer = some next) :
    next.2.OfExchange ∧ ∃ other, Point.resume codec endpoint u.stream u
      (.exchanging io) answer = some other ∧ next.Alike other := by
  rw [resume_exchanging] at resumed
  obtain ⟨⟨buffer, result⟩, ioResumed, rfl⟩ :=
    Option.map_eq_some_iff.mp resumed
  refine ⟨processOneResume_ofExchange _ _, ?_⟩
  rw [alike.buffer] at ioResumed
  rw [resume_exchanging, ioResumed]
  exact ⟨_, rfl, processOneResume_alike result
    ⟨rfl, by simpa using alike.running⟩⟩

theorem runPosted_alike {endpoint : SessionEndpoint}
    {step other : Step Byte Response} (exchange : step.2.OfExchange)
    (alike : step.Alike other) :
    (runPosted codec endpoint step).2.OfExchange ∧
      Step.Alike (runPosted codec endpoint step)
        (runPosted codec endpoint other) := by
  obtain ⟨t, yield⟩ := step
  obtain ⟨u, yield'⟩ := other
  obtain ⟨transports, same⟩ := alike
  dsimp only at transports same exchange
  subst same
  cases yield with
  | complete ec => exact ⟨trivial, transports, rfl⟩
  | completeFirst ec => exact exchange.elim
  | deliver response => exact ⟨trivial, transports, rfl⟩
  | escape => exact exchange.elim
  | await point =>
      cases point with
      | exchanging io =>
          cases io with
          | writing other => exact ⟨trivial, transports, rfl⟩
          | reading skip parsed => exact ⟨trivial, transports, rfl⟩
          | read result =>
              have resumes : ∀ v : Transport Byte,
                  runPosted codec endpoint
                    (v, .await (.exchanging (.read result))) =
                  processOneResume codec (.ofExcept result) v := by
                intro v
                simp [runPosted, Point.isPosted, IoPoint.resume,
                  Transport.afterAnswer, Answer.closes]
              rw [resumes t, resumes u]
              exact ⟨processOneResume_ofExchange _ _,
                processOneResume_alike _ transports⟩
      | resolving domain service => exact exchange.elim
      | connecting => exact exchange.elim
      | proxying io => exact exchange.elim
      | handshaking => exact exchange.elim
      | closePosted => exact exchange.elim
      | tcpClosing => exact exchange.elim
      | shuttingDown => exact exchange.elim

theorem drive_alike {endpoint : SessionEndpoint}
    {step other : Step Byte Response} (exchange : step.2.OfExchange)
    (alike : step.Alike other) {finished : Finished Response}
    (driven : drive codec endpoint answers step =
      some (finished, after, rest)) :
    ∃ after', drive codec endpoint answers other =
      some (finished, after', rest) ∧ after.Alike after' := by
  induction answers generalizing step other with
  | nil =>
      obtain ⟨t, yield⟩ := step
      obtain ⟨u, yield'⟩ := other
      obtain ⟨transports, same⟩ := alike
      dsimp only at transports same exchange
      subst same
      cases yield with
      | await point => simp [drive] at driven
      | completeFirst ec => exact exchange.elim
      | escape => exact exchange.elim
      | complete ec =>
          simp only [drive, Option.some.injEq, Prod.mk.injEq] at driven ⊢
          obtain ⟨rfl, rfl, rfl⟩ := driven
          exact ⟨u, ⟨rfl, rfl, rfl⟩, transports⟩
      | deliver response =>
          simp only [drive, Option.some.injEq, Prod.mk.injEq] at driven ⊢
          obtain ⟨rfl, rfl, rfl⟩ := driven
          exact ⟨u, ⟨rfl, rfl, rfl⟩, transports⟩
  | cons answer later induction =>
      obtain ⟨t, yield⟩ := step
      obtain ⟨u, yield'⟩ := other
      obtain ⟨transports, same⟩ := alike
      dsimp only at transports same exchange
      subst same
      cases yield with
      | completeFirst ec => exact exchange.elim
      | escape => exact exchange.elim
      | complete ec =>
          simp only [drive, Option.some.injEq, Prod.mk.injEq] at driven ⊢
          obtain ⟨rfl, rfl, rfl⟩ := driven
          exact ⟨u, ⟨rfl, rfl, rfl⟩, transports⟩
      | deliver response =>
          simp only [drive, Option.some.injEq, Prod.mk.injEq] at driven ⊢
          obtain ⟨rfl, rfl, rfl⟩ := driven
          exact ⟨u, ⟨rfl, rfl, rfl⟩, transports⟩
      | await point =>
          have isExchange : ∃ io, point = .exchanging io := by
            cases point with
            | exchanging io => exact ⟨io, rfl⟩
            | _ => exact exchange.elim
          obtain ⟨io, rfl⟩ := isExchange
          obtain ⟨answer', later', next, same, resumed, driven⟩ :=
            drive_await driven
          obtain ⟨rfl, rfl⟩ := List.cons.inj same
          obtain ⟨nextExchange, next', resumed', nextAlike⟩ :=
            resume_exchanging_alike transports resumed
          have posted : (runPosted codec endpoint next).2.OfExchange ∧
              Step.Alike (runPosted codec endpoint next)
                (runPosted codec endpoint next') :=
            runPosted_alike nextExchange nextAlike
          obtain ⟨postedExchange, postedAlike⟩ := posted
          simp only [drive, resumed']
          exact induction postedExchange postedAlike driven

theorem processAll_alike (endpoint : SessionEndpoint)
    (requests : List Request) {t u : Transport Byte} (alike : t.Alike u)
    (answers : List (Answer Byte)) :
    processAll codec endpoint requests t answers =
      processAll codec endpoint requests u answers := by
  induction requests generalizing t u answers with
  | nil => rfl
  | cons request requests induction =>
      have started : ∀ {v w : Transport Byte}, v.Alike w →
          Step.Alike (processOne request v : Step Byte Response)
            (processOne request w) := by
        rintro v w ⟨buffer, running⟩
        simp only [processOne, running]
        split <;> exact ⟨⟨buffer, running⟩, rfl⟩
      simp only [processAll]
      cases driven : drive codec endpoint answers
          (processOne request t) with
      | none =>
          cases other : drive codec endpoint answers
              (processOne request u) with
          | none => rfl
          | some out =>
              obtain ⟨finished, next, rest⟩ := out
              obtain ⟨_, contra, _⟩ := drive_alike (processOne_ofExchange u)
                (started alike.symm) other
              simp [driven] at contra
      | some out =>
          obtain ⟨finished, next, rest⟩ := out
          obtain ⟨next', other, nextAlike⟩ :=
            drive_alike (processOne_ofExchange t) (started alike) driven
          rw [other]
          exact congrArg (finished :: ·) (induction nextAlike rest)

/-- The buffer is empty when a tunnel is connected exactly when the proxy's
header was the last thing read in clear, and then the results of the exchanges
through the tunnel are those that the answers inside TLS give on a fresh
transport. -/
theorem tunnelled_function_of_tls (lawful : codec.Lawful)
    (connected : Tunnelled codec endpoint t answers after rest) :
    (after.buffer = [] ↔ HeaderEndsRead codec t.buffer answers) ∧
    (HeaderEndsRead codec t.buffer answers → ∀ requests,
      processAll codec (.tunnel endpoint) requests after rest =
        processAll codec (.tunnel endpoint) requests {} rest) := by
  have clean := connected.buffer_eq_nil_iff lawful
  refine ⟨clean, ?_⟩
  intro ends requests
  exact processAll_alike _ requests
    ⟨clean.mpr ends, (connected.clearRead lawful).1⟩ rest

def exampleTunnel : TunnelEndpoint :=
  ⟨⟨"proxy", 3128⟩, ⟨"target", 443⟩⟩

def exampleRequest : Request where
  method := .other "GET"
  target := "/"

/-- The answers to a connect whose read from the proxy brings `clear`, and to
an exchange inside TLS. -/
def tunnelAnswers (clear : String) : List (Answer Char) :=
  [.resolved none none true, .connected none none true, .ended none false,
    .chunk clear.toList, .ended none false]

def tlsAnswers : List (Answer Char) :=
  [.ended none false,
    .chunk "HTTP/1.1 200 OK\r\nContent-Length: 2\r\n\r\nok".toList]

theorem tunnelled_function_of_tls_example :
    ∃ after, after.buffer = [] ∧
      (processAll textCodec (.tunnel exampleTunnel) [exampleRequest] after
        tlsAnswers).map Finished.ec = [none] ∧
      processAll textCodec (.tunnel exampleTunnel) [exampleRequest] after
          tlsAnswers =
        processAll textCodec (.tunnel exampleTunnel) [exampleRequest] {}
          tlsAnswers := by
  have connected : Tunnelled textCodec exampleTunnel {}
      (tunnelAnswers "HTTP/1.1 200 OK\r\n\r\n" ++ tlsAnswers)
      { isOpen := true } tlsAnswers := by
    rfl
  have ends : HeaderEndsRead textCodec []
      (tunnelAnswers "HTTP/1.1 200 OK\r\n\r\n" ++ tlsAnswers) :=
    ⟨_, rfl⟩
  obtain ⟨clean, responses⟩ :=
    tunnelled_function_of_tls textCodec_lawful connected
  exact ⟨_, clean.mpr ends, rfl, responses ends [exampleRequest]⟩

/-- Two runs that differ only in what the proxy appends to its header. -/
theorem injected_response :
    ¬∀ (extra : String) (after after' : Transport Char),
      Tunnelled textCodec exampleTunnel {}
        (tunnelAnswers "HTTP/1.1 200 OK\r\n\r\n" ++ tlsAnswers) after
        tlsAnswers →
      Tunnelled textCodec exampleTunnel {}
        (tunnelAnswers ("HTTP/1.1 200 OK\r\n\r\n" ++ extra) ++ tlsAnswers)
        after' tlsAnswers →
      processAll textCodec (.tunnel exampleTunnel) [exampleRequest] after
          tlsAnswers =
        processAll textCodec (.tunnel exampleTunnel) [exampleRequest] after'
          tlsAnswers := by
  intro same
  have injected := same "HTTP/1.1 200 OK\r\nContent-Length: 4\r\n\r\nevil"
    { isOpen := true }
    { isOpen := true
      buffer :=
        "HTTP/1.1 200 OK\r\nContent-Length: 4\r\n\r\nevil".toList } rfl rfl
  have bodies := congrArg
    (List.map (fun finished => finished.response.map TextResponse.body)) injected
  have different : [some "ok".toList] = [some "evil".toList] := bodies
  simp at different

end Fetchpp
