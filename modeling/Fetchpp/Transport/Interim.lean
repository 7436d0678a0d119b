import Fetchpp.Transport.Sequence

/-!
# Interim responses

A server may send responses with a status of the class 1xx before the final
one.  An exchange does not look at the status: it delivers the first message
that arrives and leaves the others in the stream, where they are read as the
responses to the requests that follow.
-/

namespace Fetchpp

open Http Lib

variable {Byte Response : Type} {codec : Codec Byte Response}
  {endpoint : SessionEndpoint} {request : Request} {t : Transport Byte}

theorem runPosted_ofExcept (codec : Codec Byte Response)
    (endpoint : SessionEndpoint) (result : Except ErrorCode Response)
    (t : Transport Byte) :
    runPosted codec endpoint (processOneResume codec (.ofExcept result) t) =
      processOneResume codec (.ofExcept result) t := by
  cases result with
  | error error => rfl
  | ok response =>
      simp only [IoResult.ofExcept, processOneResume]
      split <;> rfl

/-- The read of an exchange takes one chunk after the other. -/
theorem drive_reading (codec : Codec Byte Response)
    (endpoint : SessionEndpoint) (skip : Bool) (parsed : List Byte)
    (t : Transport Byte) (chunks : List (List Byte))
    (ending : List (Answer Byte)) :
    drive codec endpoint (chunks.map .chunk ++ ending)
      (t, .await (.exchanging (.reading skip parsed))) =
    match (codec.parser skip).read parsed t.buffer chunks with
    | (rest, .more parsed', _) =>
        drive codec endpoint ending ({ t with buffer := rest },
          .await (.exchanging (.reading skip parsed')))
    | (rest, .ended result, unread) =>
        drive codec endpoint (unread.map .chunk ++ ending)
          (processOneResume codec (.ofExcept result)
            { t with buffer := rest }) := by
  induction chunks generalizing t parsed with
  | nil => rfl
  | cons chunk chunks induction =>
      rw [List.map_cons, List.cons_append]
      simp only [drive, resume_exchanging, IoPoint.resume, Framing.read]
      rcases (codec.parser skip).feed parsed (t.buffer ++ chunk) with
        ⟨rest, parsed' | result⟩
      · exact induction parsed' { t with buffer := rest }
      · exact congrArg (drive codec endpoint (chunks.map .chunk ++ ending))
          (runPosted_ofExcept codec endpoint result { t with buffer := rest })

theorem drive_processOne (codec : Codec Byte Response)
    (endpoint : SessionEndpoint) {request : Request} {t : Transport Byte}
    (running : t.running = true) (closes : Bool) (chunks : List (List Byte))
    (ending : List (Answer Byte)) :
    drive codec endpoint (.ended none closes :: (chunks.map .chunk ++ ending))
      (processOne request t) =
    match (codec.parser request.skipsBody).read [] [] (t.buffer :: chunks) with
    | (rest, .more parsed, _) =>
        drive codec endpoint ending ({ t.setupTimer with buffer := rest },
          .await (.exchanging (.reading request.skipsBody parsed)))
    | (rest, .ended result, unread) =>
        drive codec endpoint (unread.map .chunk ++ ending)
          (processOneResume codec (.ofExcept result)
            { t.setupTimer with buffer := rest }) := by
  have starts : (processOne request t : Step Byte Response) =
      (t.setupTimer, .await (.exchanging (.writing request))) := by
    simp [processOne, running]
  have wrote : processOneResume codec (.wrote request) t.setupTimer =
      ({ t.setupTimer with
          buffer := (startRead codec request.skipsBody t.buffer).1 },
        .await (.exchanging
          (startRead codec request.skipsBody t.buffer).2)) := by
    simp [processOneResume, Transport.setupTimer, running]
  have resumed : (Point.exchanging (.writing request)).resume codec endpoint
      t.setupTimer.stream t.setupTimer (.ended none closes) =
        some (processOneResume codec (.wrote request) t.setupTimer) := rfl
  simp only [starts, drive, resumed, wrote, startRead, Framing.read,
    List.nil_append]
  rcases (codec.parser request.skipsBody).feed [] t.buffer with
    ⟨rest, parsed | result⟩
  · exact drive_reading codec endpoint request.skipsBody parsed
      { t.setupTimer with buffer := rest } chunks ending
  · rfl

/-- A message of a stream: its bytes, and the response they are parsed to. -/
abbrev Sent (Byte Response : Type) := List Byte × Response

/-- A response of the class 1xx other than the one that switches protocols. -/
structure Interim (codec : Codec Byte Response) (skip : Bool)
    (sent : Sent Byte Response) : Prop where
  message : (codec.parser skip).Message sent.1 sent.2
  informs : 100 ≤ codec.status sent.2 ∧ codec.status sent.2 < 200
  notSwitching : codec.status sent.2 ≠ 101

/-- A final response with `later` behind it; it may end with the stream. -/
structure Final (codec : Codec Byte Response) (skip : Bool)
    (sent : Sent Byte Response) (later : List Byte)
    (ending : List (Answer Byte)) : Prop where
  status : 200 ≤ codec.status sent.2
  message : (codec.parser skip).Message sent.1 sent.2 ∨
    ((codec.parser skip).OpenMessage sent.1 sent.2 ∧ later = [] ∧
      ∃ closes rest, ending = .ended (some .eof) closes :: rest)

/-- What a server sends in reply to a request. -/
structure Replies (codec : Codec Byte Response) (skip : Bool)
    (interims : List (Sent Byte Response)) (final : Sent Byte Response)
    (later : List Byte) (ending : List (Answer Byte)) : Prop where
  interims : ∀ interim ∈ interims, Interim codec skip interim
  final : Final codec skip final later ending

/-- However the write ends, the exchange delivers `sent`, has `later` still to
come, and leaves in the buffer what it has read behind `sent`. -/
def Delivers (codec : Codec Byte Response) (endpoint : SessionEndpoint)
    (request : Request) (t : Transport Byte) (chunks : List (List Byte))
    (ending : List (Answer Byte)) (sent : Sent Byte Response)
    (later : List Byte) : Prop :=
  ∀ closes, ∃ after read unread rest, chunks = read ++ unread ∧
    drive codec endpoint (.ended none closes :: (chunks.map .chunk ++ ending))
        (processOne request t) =
      some (⟨none, some sent.2⟩, after, unread.map .chunk ++ rest) ∧
    rest <:+ ending ∧ after.running = true ∧
    t.buffer ++ read.flatten = sent.1 ++ after.buffer ∧
    after.buffer ++ unread.flatten = later

theorem drive_deliver {t : Transport Byte} (running : t.running = true)
    (response : Response) (answers : List (Answer Byte)) :
    drive codec endpoint answers
        (processOneResume codec (.read response) t) =
      some (⟨none, some response⟩, t.cancelTimer, answers) := by
  have delivers : processOneResume codec (.read response) t =
      (t.cancelTimer, .deliver response) := by
    simp [processOneResume, running]
  rw [delivers]
  cases answers <;> rfl

/-- A message that is complete in itself is delivered when it is first in the
stream. -/
theorem delivers_message (lawful : codec.Lawful) (running : t.running = true)
    {sent : Sent Byte Response}
    (message : (codec.parser request.skipsBody).Message sent.1 sent.2)
    {chunks : List (List Byte)} {later : List Byte}
    (arrives : t.buffer ++ chunks.flatten = sent.1 ++ later)
    (ending : List (Answer Byte)) :
    Delivers codec endpoint request t chunks ending sent later := by
  have parser := lawful.parser request.skipsBody
  have nonempty : ([] ++ [] : List Byte).length < sent.1.length := by
    refine List.length_pos_iff.mpr ?_
    intro empty
    have parse := message.parse
    rw [empty, parser.parse_nil] at parse
    cases parse
  have arrives' : [] ++ [] ++ (t.buffer :: chunks).flatten =
      sent.1 ++ later := arrives
  obtain ⟨done, rest, unread, split, reads, taken⟩ :=
    message.read_eq parser arrives' nonempty
  intro closes
  cases done with
  | nil =>
      have lengths := congrArg List.length taken
      simp only [List.flatten_nil, List.append_nil, List.length_append,
        List.length_nil] at lengths nonempty
      omega
  | cons first read =>
      rw [List.cons_append] at split
      obtain ⟨rfl, rfl⟩ := List.cons.inj split
      refine ⟨{ t.setupTimer with buffer := rest }.cancelTimer, read, unread,
        ending, rfl, ?_, List.suffix_refl _, running, ?_, ?_⟩
      · rw [drive_processOne codec endpoint running, reads]
        exact drive_deliver (by exact running) sent.2 _
      · exact taken
      · have whole : sent.1 ++ (rest ++ unread.flatten) = sent.1 ++ later := by
          rw [← List.append_assoc, ← taken, ← arrives']
          simp only [List.nil_append, List.flatten_cons, List.flatten_append,
            List.append_assoc]
        exact List.append_cancel_left whole

/-- A message that ends with the stream is delivered when it is all of it. -/
theorem delivers_openMessage (lawful : codec.Lawful)
    (running : t.running = true) {sent : Sent Byte Response}
    (message : (codec.parser request.skipsBody).OpenMessage sent.1 sent.2)
    {chunks : List (List Byte)}
    (arrives : t.buffer ++ chunks.flatten = sent.1)
    (closes' : Bool) (rest : List (Answer Byte)) :
    Delivers codec endpoint request t chunks
      (.ended (some .eof) closes' :: rest) sent [] := by
  have parser := lawful.parser request.skipsBody
  have reads := message.read_eq parser parser.feed_nil
    (show [] ++ [] ++ (t.buffer :: chunks).flatten = sent.1 from arrives)
  intro closes
  let before : Transport Byte := { t.setupTimer with buffer := [] }
  let after := before.afterAnswer before.stream (.ended (some .eof) closes')
  have afterRunning : after.running = true :=
    (before.afterAnswer_running _ _).trans running
  have afterBuffer : after.buffer = [] := before.afterAnswer_buffer _ _
  have resumed : (Point.exchanging
      (.reading request.skipsBody sent.1)).resume codec endpoint before.stream
        before (.ended (some .eof) closes') =
      some (processOneResume codec (.read sent.2) after) := by
    have same : { after with buffer := [] } = after := by
      rw [← afterBuffer]
    simp only [resume_exchanging, IoPoint.resume, Option.map_some]
    rw [show before.buffer = [] from rfl, List.append_nil, message.finish]
    exact congrArg (fun u => some (processOneResume codec (.read sent.2) u))
      same
  refine ⟨after.cancelTimer, chunks, [], rest, (List.append_nil _).symm, ?_,
    List.suffix_cons _ _, afterRunning, ?_, ?_⟩
  · rw [drive_processOne codec endpoint running, reads]
    simp only [drive]
    rw [resumed]
    simp only
    have posted := runPosted_ofExcept codec endpoint (.ok sent.2) after
    rw [IoResult.ofExcept] at posted
    rw [posted]
    exact drive_deliver afterRunning sent.2 rest
  · rw [arrives]
    exact (List.append_nil _).symm.trans
      (congrArg (sent.1 ++ ·) afterBuffer.symm)
  · rw [List.flatten_nil, List.append_nil]
    exact afterBuffer

theorem Delivers.unique {chunks : List (List Byte)}
    {ending : List (Answer Byte)} {sent other : Sent Byte Response}
    {later later' : List Byte}
    (delivers : Delivers codec endpoint request t chunks ending sent later)
    (delivers' : Delivers codec endpoint request t chunks ending other later') :
    sent.2 = other.2 := by
  obtain ⟨_, _, _, _, _, driven, _⟩ := delivers false
  obtain ⟨_, _, _, _, _, driven', _⟩ := delivers' false
  rw [driven] at driven'
  have same := congrArg Prod.fst (Option.some.inj driven')
  exact Option.some.inj (congrArg Finished.response same)

/-- In whatever chunks the replies to a request arrive, its exchange delivers
the first message of the stream, has the others still to come, and leaves in
the buffer what it has read of them.  That is the final response exactly if no
interim response comes before it. -/
theorem delivers_first (lawful : codec.Lawful) (running : t.running = true)
    {interims : List (Sent Byte Response)} {final : Sent Byte Response}
    {later : List Byte} {ending : List (Answer Byte)}
    (replies : Replies codec request.skipsBody interims final later ending)
    {chunks : List (List Byte)}
    (arrives : t.buffer ++ chunks.flatten =
      interims.flatMap Prod.fst ++ final.1 ++ later) :
    (∀ first others, interims ++ [final] = first :: others →
      Delivers codec endpoint request t chunks ending first
        (others.flatMap Prod.fst ++ later)) ∧
    (Delivers codec endpoint request t chunks ending final later ↔
      interims = []) := by
  cases interims with
  | nil =>
      have delivers : Delivers codec endpoint request t chunks ending final
          later := by
        rcases replies.final.message with message | ⟨message, rfl, closes, rest,
          rfl⟩
        · exact delivers_message lawful running message arrives ending
        · rw [List.append_nil] at arrives
          exact delivers_openMessage lawful running message arrives closes rest
      refine ⟨?_, iff_of_true delivers rfl⟩
      rintro first others same
      obtain ⟨rfl, rfl⟩ := List.cons.inj same
      exact delivers
  | cons interim interims =>
      have informs := replies.interims interim List.mem_cons_self
      have delivers : Delivers codec endpoint request t chunks ending interim
          ((interims ++ [final]).flatMap Prod.fst ++ later) := by
        refine delivers_message lawful running informs.message ?_ ending
        rw [arrives]
        simp only [List.flatMap_cons, List.flatMap_append, List.flatMap_nil,
          List.append_nil, List.append_assoc]
      constructor
      · rintro first others same
        obtain ⟨rfl, rfl⟩ := List.cons.inj same
        exact delivers
      · refine iff_of_false ?_ nofun
        intro wrong
        have same := delivers.unique wrong
        have final := replies.final.status
        rw [← same] at final
        exact absurd informs.informs.2 (Nat.not_lt.mpr final)

def continued : Sent Char TextResponse :=
  ("HTTP/1.1 100 Continue\r\n\r\n".toList,
    ⟨100, "HTTP/1.1 100 Continue\r\n\r\n".toList, []⟩)

def answered : Sent Char TextResponse :=
  ("HTTP/1.1 200 OK\r\nContent-Length: 2\r\n\r\nok".toList,
    ⟨200, "HTTP/1.1 200 OK\r\nContent-Length: 2\r\n\r\n".toList,
      "ok".toList⟩)

theorem continued_replies (ending : List (Answer Char)) :
    Replies textCodec exampleRequest.skipsBody [continued] answered []
      ending where
  interims interim member := by
    obtain rfl := List.mem_singleton.mp member
    exact
      { message := ⟨by decide +kernel, fun _ _ _ _ => parseText_accepts _ _ _ _⟩
        informs := by decide
        notSwitching := by decide }
  final :=
    { status := by decide
      message := .inl
        ⟨by decide +kernel, fun _ _ _ _ => parseText_accepts _ _ _ _⟩ }

/-- Half of the first status line is in the buffer when the exchange begins. -/
theorem delivers_first_continued :
    Delivers textCodec (.plain ⟨"target", 80⟩) exampleRequest
      { buffer := continued.1.take 10 }
      [continued.1.drop 10 ++ answered.1.take 3, answered.1.drop 3] []
      continued answered.1 :=
  (delivers_first textCodec_lawful rfl (continued_replies [])
    (by decide +kernel)).1 continued [answered] rfl

/-- The exchange delivers the interim response. -/
theorem continued_not_final :
    ¬∀ (request : Request) (t : Transport Char)
      (interims : List (Sent Char TextResponse))
      (final : Sent Char TextResponse) (later : List Char)
      (chunks : List (List Char)) (ending : List (Answer Char)),
      request.method ≠ .connect → t.running = true →
      Replies textCodec request.skipsBody interims final later ending →
      t.buffer ++ chunks.flatten =
        interims.flatMap Prod.fst ++ final.1 ++ later →
      Delivers textCodec (.plain ⟨"target", 80⟩) request t chunks ending final
        later := by
  intro delivers
  have wrong := delivers exampleRequest {} [continued] answered []
    [continued.1 ++ answered.1] [] nofun rfl (continued_replies [])
    (by decide +kernel)
  have message := (continued_replies []).interims continued
    (List.mem_singleton.mpr rfl)
  have right : Delivers textCodec (.plain ⟨"target", 80⟩) exampleRequest {}
      [continued.1 ++ answered.1] [] continued answered.1 :=
    delivers_message textCodec_lawful rfl message.message (by decide +kernel) []
  exact absurd (wrong.unique right) (by decide)

end Fetchpp
