import Fetchpp.Connection.Calls
import Fetchpp.Transport.Sequence

/-!
# Calls that suspend

The first part of an operation runs inside the call that initiates it, so an
operation that does not wait for anything calls its handler before the call
returns.  A connect always waits for its resolve, a close for its post or for
its shutdown unless it is forced on an open socket, and an exchange for its
write unless the transport is stopped.
-/

namespace Fetchpp

namespace Connection

open Session Http Lib

variable {Byte Response : Type} {codec : Codec Byte Response}
  {endpoint : SessionEndpoint} {request : PushId → Request}

namespace Call

/-- The operation has completed when the call that initiates it returns. -/
def Inline (call : Call) (t : State Byte Response) : Prop :=
  ∃ ec cancelTimer, t.completing = some ⟨call.operation, ec, cancelTimer⟩

/-- The operation waits in the call that initiates it. -/
def Suspends (t : Transport Byte) : Call → Prop
  | .connect _ => True
  | .exchange _ => t.running = true
  | .close .yes _ => True
  | .close .no _ => t.isOpen = false

theorem not_inline_of_awaits {s t : State Byte Response} {call : Call}
    (entered : s.Entered call.operation
      (call.first endpoint request s.transport) t)
    (idle : s.completing = none) {point : Point Byte Response}
    (awaits : (call.first endpoint request s.transport).2 = .await point) :
    ¬ call.Inline t := by
  rintro ⟨ec, cancelTimer, some⟩
  have none := (entered.awaits idle awaits).1
  simp [none] at some

theorem inline_of_ends {s t : State Byte Response} {call : Call}
    (entered : s.Entered call.operation
      (call.first endpoint request s.transport) t) {ec : Option ErrorCode}
    (ends : (call.first endpoint request s.transport :
      Step Byte Response).2.Ends ec) :
    call.Inline t := by
  obtain ⟨⟨cancelTimer, some⟩, _⟩ := entered.ends ends
  exact ⟨ec, cancelTimer, some⟩

theorem first_suspends (call : Call) (t : Transport Byte) :
    (call.Suspends t ∧ ∃ point : Point Byte Response,
      (call.first endpoint request t).2 = .await point) ∨
    (¬ call.Suspends t ∧ ∃ ec,
      (call.first endpoint request t : Step Byte Response).2.Ends ec) := by
  cases call with
  | connect handler =>
      obtain ⟨domain, service, awaits⟩ :=
        @connect_resolves Byte Response endpoint t
      exact .inl ⟨trivial, _, awaits⟩
  | exchange handler =>
      cases running : t.running with
      | true =>
          refine .inl ⟨running, .exchanging (.writing (request handler)), ?_⟩
          simp [first, processOne, running]
      | false =>
          refine .inr ⟨by simp [Suspends, running],
            some .operationAborted, .inl ?_⟩
          simp [first, processOne, running]
  | close graceful handler =>
      rcases @close_cases Byte Response endpoint graceful t with
        ⟨isOpen, waits⟩ | ⟨isOpen, point, kind, notPosted, _, waits⟩ |
        ⟨isOpen, rfl, ends⟩
      · refine .inl ⟨?_, .closePosted, by simp only [first, waits]⟩
        cases graceful with
        | yes => trivial
        | no => exact isOpen
      · refine .inl ⟨?_, point, by simp only [first, waits]⟩
        cases graceful with
        | yes => trivial
        | no =>
            have forced : (Fetchpp.close endpoint .no t :
                Step Byte Response).2 = .complete none := by
              simp [Fetchpp.close, Transport.setRunning, Transport.setupTimer,
                isOpen, closed_completes]
            rw [waits] at forced
            cases forced
      · refine .inr ⟨by simp [Suspends, isOpen], none, .inl ?_⟩
        rw [first, ends, closed_completes]

/-- The handler of an operation is not called from inside the call that
initiates it, exactly if the operation waits there. -/
theorem not_inline_iff {s t : State Byte Response} {event : Event Byte}
    {call : Call} (stepped : Call.step codec endpoint request s event = some t)
    (makes : event.call? = some call) :
    ¬ call.Inline t ↔ call.Suspends s.transport := by
  obtain ⟨cancelTimer, rfl⟩ := step_call stepped makes
  have entered := @start_entered _ _ endpoint request call
    { s with completing := none }
  have same : call.Inline ((call.start endpoint request
      { s with completing := none }).handled cancelTimer) ↔
      call.Inline (call.start endpoint request
        { s with completing := none }) := by
    unfold Inline
    rw [State.handled_completing]
  rw [same]
  rcases first_suspends call s.transport with
    ⟨suspends, point, awaits⟩ | ⟨runs, ec, ends⟩
  · exact ⟨fun _ => suspends, fun _ => not_inline_of_awaits entered rfl awaits⟩
  · exact ⟨fun later => absurd (inline_of_ends entered ends) later,
      fun suspends => absurd suspends runs⟩

/-- A handler that is called on a closed socket closes once more. -/
theorem not_inline_of_closedSocket :
    ∃ s t : State Char TextResponse, s.transport.isOpen = false ∧
      Call.step textCodec (.plain ⟨"localhost", 80⟩) (fun _ => exampleRequest)
        s (.complete (some (.close .no 1))) = some t ∧
      ¬ Call.Inline (.close .no 1) t := by
  let s : State Char TextResponse :=
    { completing := some ⟨.close .yes (.stop 0), none, false⟩ }
  have stepped : Call.step textCodec (.plain ⟨"localhost", 80⟩)
      (fun _ => exampleRequest) s (.complete (some (.close .no 1))) =
        some _ := rfl
  exact ⟨s, _, rfl, stepped, (not_inline_iff stepped rfl).mpr rfl⟩

/-- A forced close of an open socket calls its handler at once, and so does an
exchange on a transport that is stopped. -/
theorem inline_of_openSocket :
    (∃ t : State Char TextResponse,
      Call.step textCodec (.plain ⟨"localhost", 80⟩) (fun _ => exampleRequest)
        { transport := { isOpen := true } } (.call (.close .no 0)) = some t ∧
      Call.Inline (.close .no 0) t) ∧
    ∃ t : State Char TextResponse,
      Call.step textCodec (.plain ⟨"localhost", 80⟩) (fun _ => exampleRequest)
        { transport := { running := false } } (.call (.exchange 0)) = some t ∧
      Call.Inline (.exchange 0) t :=
  ⟨⟨_, rfl, none, false, rfl⟩, ⟨_, rfl, some .operationAborted, false, rfl⟩⟩

end Call

end Connection

end Fetchpp
