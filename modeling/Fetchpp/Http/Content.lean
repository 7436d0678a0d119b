import Fetchpp.Http.ContentType
import Fetchpp.Http.Message

/-!
# The content of a message

The functions of `message.hpp` that give a message its content and its content
type, and `async_post`, which gives a request both.  `content` appends to the
body and adds a field, where the functions for the type replace the field.
-/

namespace Fetchpp.Http

namespace Message

/-- `fields::insert` adds a field, also where there is one of its name. -/
def insert (name value : String) (message : Message) : Message :=
  { message with fields := message.fields ++ [(name, value)] }

/-- `fields::erase` -/
def erase (name : String) (message : Message) : Message :=
  { message with fields :=
      message.fields.filter (fun field => !sameName field.1 name) }

/-- The values of all fields of a name. -/
def values (name : String) (message : Message) : List String :=
  (message.fields.filter (fun field => sameName field.1 name)).map Prod.snd

variable {name other value : String} (message : Message)

theorem values_insert (same : sameName name other = true) :
    (message.insert name value).values other =
      message.values other ++ [value] := by
  simp [values, insert, same]

theorem values_insert_ne (different : sameName name other = false) :
    (message.insert name value).values other = message.values other := by
  simp [values, insert, different]

@[simp] theorem values_erase : (message.erase name).values name = [] := by
  simp [values, erase, List.filter_filter]

theorem values_erase_ne (different : sameName name other = false) :
    (message.erase name).values other = message.values other := by
  have kept : ∀ field : String × String,
      (sameName field.1 other && !sameName field.1 name) =
        sameName field.1 other := by
    intro field
    cases named : sameName field.1 other with
    | false => rfl
    | true =>
        simp only [sameName, decide_eq_true_eq, decide_eq_false_iff_not] at *
        simpa [named] using fun same => different same.symm
  simp only [values, erase, List.filter_filter, kept]

theorem set_eq : message.set name value =
    (message.erase name).insert name value :=
  rfl

@[simp] theorem values_set :
    (message.set name value).values name = [value] := by
  rw [set_eq, values_insert _ (by simp [sameName]), values_erase]
  rfl

theorem values_set_ne (different : sameName name other = false) :
    (message.set name value).values other = message.values other := by
  rw [set_eq, values_insert_ne _ different, values_erase_ne _ different]

end Message

/-- `message`, with its start line and the bytes of its body. -/
structure BodyMessage (Head : Type) extends Message where
  head : Head
  body : String := ""
  deriving DecidableEq, Repr

/-- `prepare_payload`, as far as it depends on the start line and on the size
of the body: where it throws no exception, and where it declares the size. -/
structure PayloadRules (Head : Type) where
  allows : Head → Nat → Bool
  declares : Head → Nat → Bool

/-- `field_arg`; its `field` is the one of the name. -/
structure FieldArg where
  fieldName : String
  value : String
  deriving DecidableEq, Repr

variable {Head : Type} (rules : PayloadRules Head)

namespace BodyMessage

/-- The size is that of the body; no transfer encoding is in use. -/
def preparePayload (message : BodyMessage Head) : Option (BodyMessage Head) :=
  let size := message.body.length
  if rules.allows message.head size then
    if rules.declares message.head size then
      some { message with
        toMessage := message.set "Content-Length" (toString size) }
    else some { message with toMessage := message.erase "Content-Length" }
  else none

/-- The two overloads of `content`, which differ in the type they insert. -/
def contentAs (type value : String) (message : BodyMessage Head) :
    Option (BodyMessage Head) :=
  preparePayload rules { message with
    toMessage := message.insert "Content-Type" type
    body := message.body ++ value }

/-- `content(string_view)` -/
def content (value : String) (message : BodyMessage Head) :
    Option (BodyMessage Head) :=
  message.contentAs rules "text/plain" value

/-- `content(net::const_buffer)` -/
def contentBuffer (buffer : String) (message : BodyMessage Head) :
    Option (BodyMessage Head) :=
  message.contentAs rules "application/octet-stream" buffer

/-- `content_type(string_view)` -/
def setType (ctype : String) (message : BodyMessage Head) : BodyMessage Head :=
  { message with toMessage := message.set "Content-Type" ctype }

/-- `set(http::content_type const&)` -/
def setContentType (ctype : ContentType) (message : BodyMessage Head) :
    BodyMessage Head :=
  { message with toMessage := message.toMessage.setContentType ctype }

def text (message : BodyMessage Head) : String :=
  message.body

/-- `set_options` -/
def setOptions (host : String) (message : BodyMessage Head) :
    BodyMessage Head :=
  let named := message.set "Host" host
  let named := named.set "User-Agent" "fetchpp/dev"
  { message with toMessage := named.set "Cache-Control" "no-cache" }

/-- The constructor of `basic_request` -/
def request (head : Head) (host : String) : BodyMessage Head :=
  setOptions host { head := head }

/-- The loop of `async_post` over the fields. -/
def insertFields (fields : List FieldArg) (request : BodyMessage Head) :
    BodyMessage Head :=
  fields.foldl (fun request field =>
    { request with
      toMessage := request.insert field.fieldName field.value }) request

/-- `async_post`, up to the request that it sends; `head` is that of a `POST`
to the target of the URL. -/
def asyncPost (head : Head) (host body : String) (fields : List FieldArg) :
    Option (BodyMessage Head) :=
  ((request head host).contentBuffer rules body).map (insertFields fields)

/-- A message as the library makes one. -/
inductive Made : BodyMessage Head → Prop where
  | request (head : Head) (host : String) : Made (request head host)
  | response (head : Head) : Made { head := head }

end BodyMessage

/-- A call that gives a message its content or its content type. -/
inductive Setter where
  | content (value : String)
  | contentType (ctype : String)
  | setContentType (ctype : ContentType)
  deriving DecidableEq, Repr

def Setter.apply : Setter → BodyMessage Head → Option (BodyMessage Head)
  | .content value, message => message.content rules value
  | .contentType ctype, message => some (message.setType ctype)
  | .setContentType ctype, message => some (message.setContentType ctype)

/-- What a message has become after calls none of which threw. -/
def BodyMessage.build (setters : List Setter) (message : BodyMessage Head) :
    Option (BodyMessage Head) :=
  setters.foldlM (fun message setter => setter.apply rules message) message

namespace BodyMessage

variable {rules} {message prepared built : BodyMessage Head}

/-- The size that a message declares is the one of its body. -/
def Sized (message : BodyMessage Head) : Prop :=
  ∀ length ∈ message.values "Content-Length",
    length = toString message.body.length

theorem preparePayload_spec
    (prepares : preparePayload rules message = some prepared) :
    prepared.Sized ∧ prepared.body = message.body ∧
      prepared.values "Content-Type" = message.values "Content-Type" := by
  have different : sameName "Content-Length" "Content-Type" = false := by
    decide +kernel
  simp only [preparePayload] at prepares
  split at prepares
  case isTrue =>
    split at prepares
    case isTrue =>
      obtain rfl := Option.some.inj prepares
      refine ⟨?_, rfl, Message.values_set_ne _ different⟩
      intro length member
      simpa using member
    case isFalse =>
      obtain rfl := Option.some.inj prepares
      refine ⟨?_, rfl, Message.values_erase_ne _ different⟩
      intro length member
      simp at member
  case isFalse => cases prepares

theorem contentAs_spec {type value : String}
    (set : message.contentAs rules type value = some built) :
    built.Sized ∧ built.body = message.body ++ value ∧
      built.values "Content-Type" =
        message.values "Content-Type" ++ [type] := by
  obtain ⟨sized, body, types⟩ := preparePayload_spec set
  exact ⟨sized, body,
    types.trans (Message.values_insert _ (by decide +kernel))⟩

theorem Made.bare (made : message.Made) :
    message.body = "" ∧ message.values "Content-Type" = [] := by
  cases made with
  | request head host =>
      refine ⟨rfl, ?_⟩
      simp only [BodyMessage.request, setOptions]
      rw [Message.values_set_ne _ (by decide +kernel),
        Message.values_set_ne _ (by decide +kernel),
        Message.values_set_ne _ (by decide +kernel)]
      rfl
  | response head => exact ⟨rfl, rfl⟩

theorem apply_typed {setter : Setter}
    (applied : setter.apply rules message = some built) :
    built.values "Content-Type" ≠ [] := by
  cases setter with
  | content value =>
      obtain ⟨_, _, types⟩ := contentAs_spec applied
      simp [types]
  | contentType ctype =>
      obtain rfl := Option.some.inj applied
      simp [setType]
  | setContentType ctype =>
      obtain rfl := Option.some.inj applied
      simp [setContentType, Message.setContentType]

theorem build_concat {setters : List Setter} {setter : Setter}
    (run : message.build rules (setters ++ [setter]) = some built) :
    ∃ between, message.build rules setters = some between ∧
      setter.apply rules between = some built := by
  rw [build, List.foldlM_append] at run
  obtain ⟨between, before, applied⟩ := Option.bind_eq_some_iff.mp run
  refine ⟨between, before, ?_⟩
  simpa using applied

theorem build_typed {setters : List Setter} (called : setters ≠ [])
    (run : message.build rules setters = some built) :
    built.values "Content-Type" ≠ [] := by
  rcases List.eq_nil_or_concat' setters with rfl | ⟨before, last, rfl⟩
  · exact (called rfl).elim
  · obtain ⟨_, _, applied⟩ := build_concat run
    exact apply_typed applied

/-- One content type, the last content and its size. -/
structure HasContent (message : BodyMessage Head) (value : String) : Prop where
  type : (message.values "Content-Type").length = 1
  text : message.text = value
  sized : message.Sized

/-- One content type, the caller's if there is one among the fields. -/
structure HasType (request : BodyMessage Head) (fields : List FieldArg) :
    Prop where
  type : (request.values "Content-Type").length = 1
  named : ∀ field ∈ fields, sameName field.fieldName "Content-Type" = true →
    request.values "Content-Type" = [field.value]

theorem hasContent_iff {setters : List Setter} {value : String}
    (made : message.Made)
    (run : message.build rules (setters ++ [.content value]) = some built) :
    built.HasContent value ↔ setters = [] := by
  obtain ⟨between, before, applied⟩ := build_concat run
  obtain ⟨sized, body, types⟩ := contentAs_spec applied
  constructor
  · intro has
    by_contra called
    have typed := List.length_pos_iff.mpr (build_typed called before)
    have one := has.type
    rw [types, List.length_append, List.length_singleton] at one
    omega
  · rintro rfl
    obtain rfl := Option.some.inj before
    obtain ⟨empty, untyped⟩ := made.bare
    refine ⟨?_, ?_, sized⟩
    · rw [types, untyped]
      rfl
    · rw [text, body, empty, String.empty_append]

theorem values_insertFields (fields : List FieldArg) (name : String)
    (message : BodyMessage Head) :
    (message.insertFields fields).values name = message.values name ++
      (fields.filter (fun field => sameName field.fieldName name)).map
        FieldArg.value := by
  induction fields generalizing message with
  | nil => simp [insertFields]
  | cons field fields induction =>
      rw [insertFields, List.foldl_cons, ← insertFields, induction]
      cases same : sameName field.fieldName name with
      | true => simp [Message.values_insert _ same, same]
      | false => simp [Message.values_insert_ne _ same, same]

theorem hasType_iff {head : Head} {host body : String}
    {fields : List FieldArg}
    (posted : asyncPost rules head host body fields = some built) :
    built.HasType fields ↔
      ∀ field ∈ fields, sameName field.fieldName "Content-Type" = false := by
  obtain ⟨request, set, rfl⟩ := Option.map_eq_some_iff.mp posted
  obtain ⟨_, _, types⟩ := contentAs_spec set
  rw [(Made.request head host).bare.2, List.nil_append] at types
  have all := values_insertFields fields "Content-Type" request
  rw [types] at all
  constructor
  · intro has field member
    have one := has.type
    rw [all, List.length_append, List.length_singleton] at one
    have none_ := List.length_eq_zero_iff.mp (Nat.add_eq_left.mp one)
    simpa using List.filter_eq_nil_iff.mp (List.map_eq_nil_iff.mp none_) field
      member
  · intro unnamed
    have none_ : fields.filter
        (fun field => sameName field.fieldName "Content-Type") = [] := by
      rw [List.filter_eq_nil_iff]
      intro field member
      simp [unnamed field member]
    rw [none_, List.map_nil, List.append_nil] at all
    refine ⟨by simp [all], ?_⟩
    intro field member same
    rw [unnamed field member] at same
    cases same

/-- A message has one content type and the last content exactly if no call
came before the one of `content`, and a posted request has one content type
exactly if the caller names none. -/
theorem content_iff (rules : PayloadRules Head) :
    (∀ (message built : BodyMessage Head) (setters : List Setter)
        (value : String), message.Made →
      message.build rules (setters ++ [.content value]) = some built →
      (built.HasContent value ↔ setters = [])) ∧
    (∀ (head : Head) (host body : String) (fields : List FieldArg)
        (request : BodyMessage Head),
      asyncPost rules head host body fields = some request →
      (request.HasType fields ↔
        ∀ field ∈ fields,
          sameName field.fieldName "Content-Type" = false)) := by
  constructor
  · intro message built setters value made run
    exact hasContent_iff made run
  · intro head host body fields request posted
    exact hasType_iff posted

/-- The rules for requests. -/
def verbRules : PayloadRules Verb where
  allows verb size := !(verb = .other "TRACE" && 0 < size)
  declares verb size := 0 < size ||
    ["OPTIONS", "PUT", "POST"].any (fun name => verb = .other name)

theorem content_of_firstCall :
    (∃ built, (request (.other "PUT") "host").build verbRules
        [.content "text"] = some built ∧ built.HasContent "text") ∧
      ∃ posted, asyncPost verbRules (.other "POST") "host" "body"
        [⟨"Accept", "text/plain"⟩] = some posted ∧
        posted.HasType [⟨"Accept", "text/plain"⟩] := by
  have builds : ((request (.other "PUT") "host").build verbRules
      [.content "text"]).isSome = true := by
    decide +kernel
  have posts : (asyncPost verbRules (.other "POST") "host" "body"
      [⟨"Accept", "text/plain"⟩]).isSome = true := by
    decide +kernel
  obtain ⟨built, run⟩ := Option.isSome_iff_exists.mp builds
  obtain ⟨posted, sent⟩ := Option.isSome_iff_exists.mp posts
  refine ⟨⟨built, run, ?_⟩, ⟨posted, sent, ?_⟩⟩
  · rw [← List.nil_append [Setter.content "text"]] at run
    exact ((content_iff verbRules).1 _ built [] "text" (.request _ _) run).mpr
      rfl
  · exact ((content_iff verbRules).2 _ _ _ _ posted sent).mpr
      (by decide +kernel)

/-- A content set twice, and a content type that the caller names. -/
theorem secondContent_not_sole :
    (∃ built, (request (.other "PUT") "host").build verbRules
        [.content "first", .content "second"] = some built ∧
        built.values "Content-Type" = ["text/plain", "text/plain"] ∧
        built.text = "firstsecond" ∧ ¬ built.HasContent "second") ∧
      ∃ posted, asyncPost verbRules (.other "POST") "host" "body"
        [⟨"Content-Type", "application/json"⟩] = some posted ∧
        posted.values "Content-Type" =
          ["application/octet-stream", "application/json"] ∧
        ¬ posted.HasType [⟨"Content-Type", "application/json"⟩] := by
  have builds : ((request (.other "PUT") "host").build verbRules
      [.content "first", .content "second"]).map
      (fun built => (built.values "Content-Type", built.text)) =
        some (["text/plain", "text/plain"], "firstsecond") := by
    decide +kernel
  have posts : (asyncPost verbRules (.other "POST") "host" "body"
      [⟨"Content-Type", "application/json"⟩]).map
      (fun posted => posted.values "Content-Type") =
        some ["application/octet-stream", "application/json"] := by
    decide +kernel
  obtain ⟨built, run, shown⟩ := Option.map_eq_some_iff.mp builds
  obtain ⟨posted, sent, types⟩ := Option.map_eq_some_iff.mp posts
  obtain ⟨types', text⟩ := Prod.mk.inj shown
  refine ⟨⟨built, run, types', text, ?_⟩, ⟨posted, sent, types, ?_⟩⟩
  · intro has
    have one := has.type
    simp [types'] at one
  · intro has
    have one := has.type
    simp [types] at one

end BodyMessage

end Fetchpp.Http
