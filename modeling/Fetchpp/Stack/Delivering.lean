import Fetchpp.Client.Tunnelling
import Fetchpp.Connection.Answering
import Fetchpp.Stack.Refinement

/-!
# From a fetch to its response

The handler of a fetch is called once at most, whatever session the fetch went
to, and with the response that its own exchange read if and only if it is called
without an error.
-/

namespace Fetchpp

open Http Lib

namespace Session

theorem State.Invariant.live_not_posted {s : State} (invariant : s.Invariant)
    {op : QueueOp} (live : op ∈ s.liveOps) :
    op.task ∉ s.core.posted.map Posting.push := by
  intro posted
  rcases List.mem_append.mp (invariant.posted_perm.subset posted) with
    served | refused
  · exact invariant.live_not_served live served
  · have accepted : op.task ∈ s.core.accepted := invariant.driver_accepted
      (List.mem_append_right _ (List.mem_map_of_mem live))
    exact (List.nodup_append.mp invariant.numbered.nodup).2.2 _ accepted _
      refused rfl

end Session

namespace Connection

open Session

variable {Byte Response : Type} {codec : Codec Byte Response}
  {endpoint : SessionEndpoint} {request : PushId → Request}

/-- The handler of a request is posted without an error if and only if its
response has been assigned. -/
theorem reached_posted {s : State Byte Response}
    (reached : (machine codec endpoint request).Reached s) {posting : Posting}
    (posted : posting ∈ s.session.core.posted) :
    posting.ec = none ↔
      ∃ response, s.responses.lookup posting.push = some response := by
  have session := reached_session reached
  have invariant := reached_invariant session
  have assigned : posting.push ∈ s.responses.map Prod.fst ↔
      posting.push ∈ s.session.core.successes ++ s.delivered := by
    rw [← (reached_assigned reached).responses, List.mem_reverse]
  have found : (∃ response, s.responses.lookup posting.push = some response) ↔
      posting.push ∈ s.responses.map Prod.fst := by
    rw [← Option.isSome_iff_exists, List.lookup_isSome_iff]
    simp
  have once : ∀ other ∈ s.session.core.posted, other.push = posting.push →
      other = posting := by
    have nodup := nodup_of_subperm invariant.posted_subperm List.nodup_range
    exact fun other member same =>
      List.inj_on_of_nodup_map nodup member posted same
  rw [found, assigned, List.mem_append]
  constructor
  · intro success
    refine .inl (List.mem_map_of_mem (List.mem_filter.mpr ⟨posted, ?_⟩))
    have answers : posting.poster ≠ .refusal := by
      intro refusal
      have refused : posting ∈ s.session.core.refusals :=
        List.mem_filter.mpr ⟨posted, by simp [refusal]⟩
      rw [invariant.numbered.refusals] at refused
      obtain ⟨push, _, same⟩ := List.mem_map.mp refused
      simp [← same] at success
    simp [success, answers]
  · rintro (success | delivered)
    · obtain ⟨other, member, same⟩ := List.mem_map.mp success
      obtain ⟨inPosted, without⟩ := List.mem_filter.mp member
      rw [← once other inPosted same]
      simp only [Bool.and_eq_true, decide_eq_true_eq] at without
      exact without.1
    · rcases (reached_linked reached).delivered_cases with
        none | ⟨op, waits, one⟩
      · simp [none] at delivered
      · rw [one, List.mem_singleton] at delivered
        have live : op ∈ s.session.liveOps :=
          List.mem_filterMap.mpr ⟨_, waits, rfl⟩
        exact (invariant.live_not_posted live
          (delivered ▸ List.mem_map_of_mem posted)).elim

end Connection

namespace Stack

open Client

variable {Byte Response : Type} {codec : Codec Byte Response}
  {rules : UrlRules} {requests : Nat → Request} {maxPending : Nat}

/-- What the handler of a fetch is called with by `client_fetch_op`; without a
response it is given a default one. -/
structure Result (Response : Type) where
  fetch : Fetch
  ec : Option ErrorCode
  response : Option Response

/-- The calls made for the handlers that a session has posted. -/
def results (hosted : Hosted) (connection : Connection.State Byte Response) :
    List (Result Response) :=
  hosted.session.core.posted.filterMap fun posting =>
    hosted.pushed[posting.push]?.map fun fetch =>
      ⟨fetch, posting.ec, connection.responses.lookup posting.push⟩

def State.results (s : State Byte Response) : List (Result Response) :=
  (s.client.sessions.zip s.connections).flatMap fun pair =>
    Stack.results pair.1 pair.2

structure State.Delivers (s : State Byte Response) : Prop where
  once : (s.results.map fun result => result.fetch.number).Nodup
  answered : ∀ result ∈ s.results,
    result.ec = none ↔ ∃ response, result.response = some response

theorem results_fetches (hosted : Hosted)
    (connection : Connection.State Byte Response) :
    (results hosted connection).map Result.fetch =
      hosted.answers.map Prod.fst := by
  simp [results, Hosted.answers, List.map_filterMap, Function.comp_def]

theorem State.Wired.results_fetches {s : State Byte Response}
    {Allowed : SessionEndpoint → Connection.Event Byte → Prop}
    (wired : s.Wired codec requests Allowed) :
    s.results.map Result.fetch =
      s.client.sessions.flatMap fun hosted => hosted.answers.map Prod.fst := by
  have first : (s.client.sessions.zip s.connections).map Prod.fst =
      s.client.sessions := List.map_fst_zip (List.Forall₂.length_eq wired).le
  simp only [State.results, List.map_flatMap, Stack.results_fetches]
  conv_rhs => rw [← first, List.flatMap_map]

/-- However the steps of a client, of its sessions and of their transports are
ordered, no handler of a fetch is called twice, and a handler is called with
the response its own exchange read if and only if it is called without an error.
-/
theorem reached_delivers {s : State Byte Response}
    (reached : (machine codec rules requests maxPending).Reached s) :
    s.Delivers := by
  have client := reached_client reached
  have wired := reached_wired reached
  refine ⟨?_, ?_⟩
  · have within : (s.results.map Result.fetch).Subperm s.client.handed := by
      rw [wired.results_fetches, Client.State.handed]
      refine flatMap_subperm fun hosted member => ?_
      refine (Hosted.answers_subperm (reached_counted client hosted member)
        (reached_runs client hosted member).reached.reached).trans ?_
      exact (List.sublist_append_left _ _).subperm
    have numbers : (s.client.handed.map Fetch.number).Nodup :=
      (List.nodup_append.mp ((reached_numbers client).nodup_iff.mpr
        List.nodup_range)).1
    obtain ⟨ordered, perm, sublist⟩ := within
    have mapped := nodup_of_subperm
      ⟨_, perm.map Fetch.number, sublist.map Fetch.number⟩ numbers
    rwa [List.map_map] at mapped
  · intro result member
    obtain ⟨⟨hosted, connection⟩, pair, inPair⟩ := List.mem_flatMap.mp member
    obtain ⟨posting, posted, called⟩ := List.mem_filterMap.mp inPair
    obtain ⟨fetch, _, rfl⟩ := Option.map_eq_some_iff.mp called
    have wire := List.forall₂_zip wired pair
    rw [← wire.session] at posted
    exact Connection.reached_posted wire.reached.reached posted

/-- Another fetch, whose host is not found. -/
def losingRun : List (Event Char) :=
  loadingRun ++ [.client (.fetch remoteUrl false),
    .session 1 (.post .processTask),
    .session 1 (.answer 0 (.resolved (some (.other 1)) none false)),
    .session 1 .complete]

theorem delivers_of_losingRun :
    ∃ s : State Char TextResponse,
      s.results.map (fun result =>
          (result.fetch.number, result.ec, result.response.isSome)) =
        [(0, none, true), (1, some (.other 1), false)] ∧
      s.Delivers := by
  have executed : ((machine textCodec specialRules
        (fun _ => exampleRequest) 10).run (machine textCodec specialRules
        (fun _ => exampleRequest) 10).start losingRun).map
        (fun s => s.results.map (fun result =>
          (result.fetch.number, result.ec, result.response.isSome))) =
      some [(0, none, true), (1, some (.other 1), false)] := by
    decide +kernel
  obtain ⟨s, ran, results⟩ := Option.map_eq_some_iff.mp executed
  exact ⟨s, results, reached_delivers (Machine.reached_of_run losingRun ran)⟩

end Stack

end Fetchpp
