import Fetchpp.Http.Content
import Fetchpp.Http.Proxy
import Fetchpp.Lib.Base64
import Fetchpp.Lib.Percent

/-!
# The credentials of a proxy

`proxy::parse` makes a `Proxy-Authorization` field of the user name and the
password in the URL of a proxy, where the parser of URLs keeps them
percent-encoded.  The proxy compares what it decodes from the field with the
credentials in clear.
-/

namespace Fetchpp.Http

open Lib

def percentDecoded (text : String) : String :=
  String.ofList (Percent.decode text.toList)

/-- What is relied on of the base64 encoder: what it encodes is decoded. -/
def Decodes (base64 : String → String)
    (decode64 : String → Option String) : Prop :=
  ∀ text, Base64.IsBytes text → decode64 (base64 text) = some text

/-- The URL of a proxy, as it is parsed. -/
structure ParsesTo (parseUrl : String → Option UrlRecord) (sv : String)
    (record : UrlRecord) : Prop where
  parsed : parseUrl sv = some record
  host : record.host.isSome = true
  scheme : record.scheme ≠ ""
  username : Base64.IsBytes record.username
  password : Base64.IsBytes record.password

/-- The values of the fields that authorize a client to the proxy. -/
def Proxy.authorizations (proxy : Proxy) : List String :=
  Message.values "Proxy-Authorization" ⟨proxy.fields⟩

/-- The one authorization says the user name and the password in clear. -/
def Proxy.Authorizes (decode64 : String → Option String)
    (user password : String) (proxy : Proxy) : Prop :=
  ∃ text, proxy.authorizations = ["Basic " ++ text] ∧
    decode64 text = some (user ++ ":" ++ password)

variable {parseUrl : String → Option UrlRecord} {base64 : String → String}
  {decode64 : String → Option String} {sv : String} {record : UrlRecord}

theorem ParsesTo.parse_eq (parses : ParsesTo parseUrl sv record) :
    Proxy.parse parseUrl base64 sv = .ok ⟨record.url,
      if record.username ≠ "" ∧ record.password ≠ "" then
        [("Proxy-Authorization",
          Basic.toString base64 ⟨record.username, record.password⟩)]
      else []⟩ := by
  have host : record.host.isNone = false := by
    simpa using parses.host
  simp only [Proxy.parse, parses.parsed, host, parses.scheme]
  rfl

theorem ParsesTo.authorizations_nil (parses : ParsesTo parseUrl sv record)
    (missing : record.username = "" ∨ record.password = "") {proxy : Proxy}
    (parsed : Proxy.parse parseUrl base64 sv = .ok proxy) :
    proxy.authorizations = [] := by
  have absent : ¬ (record.username ≠ "" ∧ record.password ≠ "") := by
    rintro ⟨username, password⟩
    rcases missing with empty | empty
    · exact username empty
    · exact password empty
  rw [parses.parse_eq, if_neg absent] at parsed
  obtain rfl := Except.ok.inj parsed
  rfl

theorem ParsesTo.authorizations_eq (parses : ParsesTo parseUrl sv record)
    (username : record.username ≠ "") (password : record.password ≠ "")
    {proxy : Proxy} (parsed : Proxy.parse parseUrl base64 sv = .ok proxy) :
    proxy.authorizations = ["Basic " ++
      base64 (record.username ++ ":" ++ record.password)] := by
  rw [parses.parse_eq, if_pos ⟨username, password⟩] at parsed
  obtain rfl := Except.ok.inj parsed
  simp [Proxy.authorizations, Message.values, sameName, Basic.toString]

theorem colon_unique {first second first' second' : String}
    (noColon : ':' ∉ first.toList) (noColon' : ':' ∉ first'.toList)
    (same : first ++ ":" ++ second = first' ++ ":" ++ second') :
    first = first' ∧ second = second' := by
  have lists : first.toList ++ ':' :: second.toList =
      first'.toList ++ ':' :: second'.toList := by
    simpa using congrArg String.toList same
  have others : ∀ s : List Char, ':' ∉ s → ∀ c ∈ s, (c != ':') = true := by
    intro s absent c member
    rw [bne_iff_ne]
    rintro rfl
    exact absent member
  have stops : ∀ rest, Regex.Stops (fun c => c != ':') (':' :: rest) := by
    rintro rest c later ⟨rfl⟩
    rfl
  obtain ⟨names, behind⟩ := Regex.run_unique (others _ noColon)
    (others _ noColon') (stops _) (stops _) lists
  exact ⟨String.toList_inj.mp names,
    String.toList_inj.mp (List.cons.inj behind).2⟩

theorem percentDecoded_eq_self_iff {text : String} :
    percentDecoded text = text ↔ Percent.isPlain text.toList = true := by
  rw [← Percent.decode_eq_self_iff, percentDecoded, ← String.toList_inj,
    String.toList_ofList]

theorem percentDecoded_eq_empty_iff {text : String} :
    percentDecoded text = "" ↔ text = "" := by
  rw [percentDecoded, ← String.toList_inj, String.toList_ofList,
    ← String.toList_inj]
  exact Percent.decode_eq_nil_iff

/-- There is a password and nothing in the credentials is percent-encoded. -/
structure UrlRecord.Verbatim (record : UrlRecord) : Prop where
  password : record.password ≠ ""
  plainUsername : Percent.isPlain record.username.toList = true
  plainPassword : Percent.isPlain record.password.toList = true

/-- The proxy can decode the credentials in clear exactly if there is a
password and the URL has both verbatim. -/
theorem ParsesTo.authorizes_iff (decodes : Decodes base64 decode64)
    (parses : ParsesTo parseUrl sv record)
    (named : percentDecoded record.username ≠ "")
    (noColon : ':' ∉ (percentDecoded record.username).toList) {proxy : Proxy}
    (parsed : Proxy.parse parseUrl base64 sv = .ok proxy) :
    proxy.Authorizes decode64 (percentDecoded record.username)
      (percentDecoded record.password) ↔ record.Verbatim := by
  have username : record.username ≠ "" :=
    fun empty => named (percentDecoded_eq_empty_iff.mpr empty)
  have bytes : Base64.IsBytes
      (record.username ++ ":" ++ record.password) := by
    intro c member
    simp only [String.toList_append, List.mem_append] at member
    rcases member with (inName | colon) | inPassword
    · exact parses.username c inName
    · obtain rfl : c = ':' := by simpa using colon
      decide
    · exact parses.password c inPassword
  constructor
  · rintro ⟨text, value, decoded⟩
    by_cases password : record.password = ""
    · rw [parses.authorizations_nil (.inr password) parsed] at value
      cases value
    · rw [parses.authorizations_eq username password parsed] at value
      have same : base64 (record.username ++ ":" ++ record.password) =
          text := by
        simpa using value
      rw [← same, decodes _ bytes] at decoded
      have noColon' : ':' ∉ record.username.toList := by
        intro member
        apply noColon
        rw [percentDecoded, String.toList_ofList]
        exact Percent.mem_decode (by decide) (by decide) member
      obtain ⟨names, passwords⟩ :=
        colon_unique noColon' noColon (Option.some.inj decoded)
      exact ⟨password, percentDecoded_eq_self_iff.mp names.symm,
        percentDecoded_eq_self_iff.mp passwords.symm⟩
  · intro verbatim
    rw [percentDecoded_eq_self_iff.mpr verbatim.plainUsername,
      percentDecoded_eq_self_iff.mpr verbatim.plainPassword]
    exact ⟨_, parses.authorizations_eq username verbatim.password parsed,
      decodes _ bytes⟩

/-- `proxy::parse` authorizes a client with the credentials in clear exactly if
there is a password and the URL has both verbatim; and without credentials it
makes no field. -/
theorem parse_authorizes_iff (decodes : Decodes base64 decode64)
    (parses : ParsesTo parseUrl sv record) :
    (∀ user password, user ≠ "" → ':' ∉ user.toList →
      percentDecoded record.username = user →
      percentDecoded record.password = password →
      ((∃ proxy, Proxy.parse parseUrl base64 sv = .ok proxy ∧
        proxy.Authorizes decode64 user password) ↔ record.Verbatim)) ∧
    (record.username = "" → record.password = "" →
      ∃ proxy, Proxy.parse parseUrl base64 sv = .ok proxy ∧
        proxy.authorizations = []) := by
  constructor
  · rintro user password named noColon rfl rfl
    constructor
    · rintro ⟨proxy, parsed, authorizes⟩
      exact (parses.authorizes_iff decodes named noColon parsed).mp authorizes
    · intro verbatim
      exact ⟨_, parses.parse_eq, (parses.authorizes_iff decodes named noColon
        parses.parse_eq).mpr verbatim⟩
  · intro username _
    exact ⟨_, parses.parse_eq,
      parses.authorizations_nil (.inl username) parses.parse_eq⟩

theorem base64_decodes : Decodes Base64.encodeText Base64.decodeText :=
  fun _ bytes => Base64.decodeText_encodeText bytes

def daveUrl (password : String) : String :=
  "http://dave:" ++ password ++ "@localhost"

/-- What is parsed of it. -/
def daveRecord (password : String) : UrlRecord where
  scheme := "http"
  username := "dave"
  password := password
  host := some "localhost"
  url := localUrl

theorem dave_parsesTo {password : String} (bytes : Base64.IsBytes password) :
    ParsesTo (fun _ => some (daveRecord password)) (daveUrl password)
      (daveRecord password) := by
  have name : Base64.IsBytes "dave" := Base64.isBytes_of_all rfl
  have http : "http" ≠ "" := by decide
  exact ⟨rfl, rfl, http, name, bytes⟩

theorem dave_authorizes :
    ∃ proxy, Proxy.parse (fun _ => some (daveRecord "mustaine"))
      Base64.encodeText (daveUrl "mustaine") = .ok proxy ∧
      proxy.Authorizes Base64.decodeText "dave" "mustaine" := by
  have bytes : Base64.IsBytes "mustaine" := Base64.isBytes_of_all rfl
  have verbatim : (daveRecord "mustaine").Verbatim :=
    ⟨by decide, by decide, by decide⟩
  exact ((parse_authorizes_iff base64_decodes (dave_parsesTo bytes)).1 "dave"
    "mustaine" (by decide) (by decide) (by decide) (by decide)).mpr verbatim

/-- The escape gets into the field, and an empty password suppresses it. -/
theorem escaped_not_authorizes :
    percentDecoded "a%40b" = "a@b" ∧
      (∃ proxy, Proxy.parse (fun _ => some (daveRecord "a%40b"))
        Base64.encodeText (daveUrl "a%40b") = .ok proxy ∧
        proxy.authorizations = ["Basic " ++ Base64.encodeText "dave:a%40b"] ∧
        ¬ proxy.Authorizes Base64.decodeText "dave" "a@b") ∧
      ∃ proxy, Proxy.parse (fun _ => some (daveRecord ""))
        Base64.encodeText (daveUrl "") = .ok proxy ∧
        proxy.authorizations = [] := by
  have bytes : Base64.IsBytes "a%40b" := Base64.isBytes_of_all rfl
  have noBytes : Base64.IsBytes "" := Base64.isBytes_of_all rfl
  have decoded : percentDecoded "a%40b" = "a@b" := by decide
  have parses := dave_parsesTo bytes
  refine ⟨decoded, ⟨_, parses.parse_eq, ?_, ?_⟩,
    ⟨_, (dave_parsesTo noBytes).parse_eq, ?_⟩⟩
  · exact parses.authorizations_eq (by decide) (by decide) parses.parse_eq
  · intro authorizes
    have verbatim := (parses.authorizes_iff base64_decodes (by decide)
      (by decide) parses.parse_eq).mp (by
        rw [show (daveRecord "a%40b").password = "a%40b" from rfl, decoded]
        exact authorizes)
    have plain := verbatim.plainPassword
    revert plain
    decide
  · exact (dave_parsesTo noBytes).authorizations_nil (.inr rfl)
      (dave_parsesTo noBytes).parse_eq

end Fetchpp.Http
