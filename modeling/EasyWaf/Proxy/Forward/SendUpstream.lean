import EasyWaf.Proxy.Forward.Headers
import EasyWaf.Proxy.SiteTable
import EasyWaf.Upstream.Choice

/-!
# Sending a request to a backend, and to another if that is safe

A request is sent to at most three backends.  What the backends, the client and
the other requests do meanwhile is the world's: it says of each attempt how far
the body was read, what came back, and how the rotation then stood.
-/

namespace EasyWaf.Proxy.Forward

open Forwarded Http Upstream

/-- `ATTEMPTS`: the client has then waited long enough to be told. -/
def attempts : ℕ := 3

/-- The start of a request's body, and what is still to come of it: chunks, and
perhaps the client's failure to send one. -/
structure Prefix where
  head : List UInt8
  /-- The body ended within what was read. -/
  complete : Bool
  rest : List (Option (List UInt8))

namespace Prefix

/-- What arrives while this much of the rest is read. -/
def arriving (body : Prefix) (polled : ℕ) : List UInt8 :=
  ((body.rest.take polled).takeWhile Option.isSome).flatMap fun chunk => chunk.getD []

/-- The client fails to send on while this much of the rest is read. -/
def fails (body : Prefix) (polled : ℕ) : Bool := (body.rest.take polled).any Option.isNone

end Prefix

inductive Response
  | answered (status : ℕ)
  | error (isConnect : Bool)

/-- What the world makes of one attempt. -/
structure Attempt where
  /-- How far the rest of a streamed body is read. -/
  polled : ℕ
  response : Response
  health : Health
  turns : Turns
  now : ℕ

/-- A request on its way to one backend. -/
structure Sending where
  upstream : Backend
  /-- The client that does not check the backend's certificate. -/
  unverified : Bool
  method : Text
  url : Text
  headers : HeaderMap
  body : List UInt8

/-- How sending a request upstream went. -/
structure Sent where
  response : Response
  /-- The backend that answered, or the last one tried. -/
  upstream : Backend
  tried : ℕ
  clientGaveUp : Bool

/-- The methods RFC 9110 defines as idempotent. -/
def isIdempotent (method : Text) : Bool :=
  (["GET", "HEAD", "OPTIONS", "TRACE", "PUT", "DELETE"].map String.toList).contains method

def maySendAgain (method : Text) (isConnect : Bool) : Bool := isConnect || isIdempotent method

/-- `to_reqwest_method`: a method is a token. -/
def toReqwestMethod (method : Text) : Text :=
  let isToken := method.all fun c => c.isAlphanum || "!#$%&'*+-.^_\x60|~".toList.contains c
  if !method.isEmpty && isToken then method else "GET".toList

/-- What the loop carries from one attempt to the next. -/
structure Loop where
  upstream : Backend
  tried : List ℤ
  /-- The stream of the body has not been taken. -/
  streamed : Bool
  clientFailed : Bool

/-- What one pass of the loop leads to, with the failures it counted. -/
inductive Pass
  | done (counted : List ℤ) (sent : Sent)
  | again (counted : List ℤ) (next : Loop)

/-- Everything a request led to. -/
structure Course where
  sendings : List Sending
  /-- The backends a failure was counted against. -/
  counted : List ℤ
  sent : Sent

variable (trusted : List Cidr) (site : SiteRow) (incoming : Incoming) (body : Prefix)
variable (world : ℕ → Attempt)

/-- The request that goes to the backend in hand. -/
def Loop.sending (loop : Loop) : Sending where
  upstream := loop.upstream
  unverified := site.backendTlsInsecure
  method := toReqwestMethod incoming.method
  url := loop.upstream.url.trimEndMatches (· == '/') ++ incoming.pathAndQuery
  headers := upstreamHeaders trusted incoming
  body :=
    if loop.streamed then body.head ++ body.arriving (world loop.tried.length).polled
    else body.head

/-- One pass of the loop of `send_upstream`. -/
def Loop.pass (loop : Loop) : Pass :=
  let attempt := world loop.tried.length
  let clientFailed := loop.clientFailed || (loop.streamed && body.fails attempt.polled)
  let sent (tried : List ℤ) (clientGaveUp : Bool) : Sent :=
    { response := attempt.response, upstream := loop.upstream, tried := tried.length, clientGaveUp }
  let tried := loop.tried ++ [loop.upstream.id]
  match attempt.response with
  | .answered _ => .done [] (sent tried false)
  | .error isConnect =>
      if clientFailed then .done [] (sent tried true)
      -- could not be reached: that is the backend's fault
      else if body.complete = false ∨ maySendAgain incoming.method isConnect = false ∨
          attempts ≤ tried.length then
        .done [loop.upstream.id] (sent tried false)
      else
        match (chooseExcept attempt.health attempt.turns site.id site.upstreams tried
            attempt.now).1 with
        | none => .done [loop.upstream.id] (sent tried false)
        | some next =>
            .again [loop.upstream.id]
              { upstream := next.upstream, tried, streamed := false, clientFailed }

/-- The loop, for as many passes as there is fuel. -/
def Loop.run : ℕ → Loop → Option Course
  | 0, _ => none
  | fuel + 1, loop =>
      match loop.pass site incoming body world with
      | .done counted sent =>
          some { sendings := [loop.sending trusted site incoming body world], counted, sent }
      | .again counted next =>
          (Loop.run fuel next).map fun course =>
            { sendings := loop.sending trusted site incoming body world :: course.sendings
              counted := counted ++ course.counted
              sent := course.sent }

/-- Send the request to `first`, and to another backend if that is safe. -/
def sendUpstream (first : Backend) (fuel : ℕ) : Option Course :=
  Loop.run trusted site incoming body world fuel
    { upstream := first, tried := [], streamed := !body.complete, clientFailed := false }

/-- The client's own body made an attempt fail. -/
def FailedByClient (body : Prefix) (attempt : Attempt) : Prop :=
  body.complete = false ∧ body.fails attempt.polled = true ∧
    ∃ isConnect, attempt.response = .error isConnect

/-- After this attempt the request may be sent again: it is held whole, and it was
not sent or is safe to repeat. -/
def MayRepeat (incoming : Incoming) (body : Prefix) (attempt : Attempt) : Prop :=
  body.complete = true ∧ ∃ isConnect, attempt.response = .error isConnect ∧
    (isConnect = true ∨ isIdempotent incoming.method = true)

/-- A sending carries the request. -/
structure Sending.Carries (sending : Sending) (bytes : List UInt8) : Prop where
  method : sending.method = toReqwestMethod incoming.method
  url : sending.url = sending.upstream.url.trimEndMatches (· == '/') ++ incoming.pathAndQuery
  headers : sending.headers = upstreamHeaders trusted incoming
  body : sending.body = bytes

/-- A request is not carried out twice. -/
structure Course.CarriedOutOnce (course : Course) : Prop where
  few : course.sendings.length ≤ attempts
  apart : (course.sendings.map (·.upstream.id)).Nodup
  same : ∃ bytes, ∀ sending ∈ course.sendings, sending.Carries trusted incoming bytes
  again : ∀ k, k + 1 < course.sendings.length → MayRepeat incoming body (world k)
  client : ∀ k, ∀ sending ∈ course.sendings[k]?, FailedByClient body (world k) →
    k + 1 = course.sendings.length ∧ sending.upstream.id ∉ course.counted

section Pass

variable {trusted site incoming body world} {loop next : Loop} {counted : List ℤ} {sent : Sent}

/-- What holds whenever the loop begins a pass. -/
structure Loop.Fits (body : Prefix) (loop : Loop) : Prop where
  apart : (loop.tried ++ [loop.upstream.id]).Nodup
  room : loop.tried.length < attempts
  streamed : loop.streamed = !body.complete
  unfailed : loop.clientFailed = false

/-- The loop goes on only where the request may be repeated, with a backend that was
not tried. -/
theorem pass_again (hfits : loop.Fits body)
    (hpass : loop.pass site incoming body world = .again counted next) :
    counted = [loop.upstream.id] ∧ next.tried = loop.tried ++ [loop.upstream.id] ∧
      next.Fits body ∧ MayRepeat incoming body (world loop.tried.length) := by
  rw [Loop.pass] at hpass
  cases hresponse : (world loop.tried.length).response with
  | answered status =>
      rw [hresponse] at hpass
      contradiction
  | error isConnect =>
      rw [hresponse] at hpass
      dsimp only at hpass
      split_ifs at hpass with hclient hstop
      rw [not_or, not_or, Bool.not_eq_false, Bool.not_eq_false, not_le] at hstop
      obtain ⟨hcomplete, hagain, hroom⟩ := hstop
      split at hpass
      · contradiction
      · rename_i chosen hchosen
        obtain ⟨rfl, rfl⟩ := Pass.again.inj hpass
        have huntried := (chosen_of_chooseExcept hchosen).2.1
        refine ⟨rfl, rfl, ?_, hcomplete, isConnect, hresponse, ?_⟩
        · constructor
          · rw [List.nodup_append_comm, List.singleton_append, List.nodup_cons]
            exact ⟨huntried, hfits.apart⟩
          · exact hroom
          · rw [hcomplete]
            rfl
          · exact Bool.eq_false_iff.mpr hclient
        · exact Bool.or_eq_true_iff.mp hagain

/-- The loop ends without counting what the client's body made fail. -/
theorem pass_done (hfits : loop.Fits body)
    (hpass : loop.pass site incoming body world = .done counted sent)
    (hclient : FailedByClient body (world loop.tried.length)) : counted = [] := by
  obtain ⟨hcomplete, hfails, isConnect, hresponse⟩ := hclient
  have hflag : (loop.clientFailed ||
      (loop.streamed && body.fails (world loop.tried.length).polled)) = true := by
    rw [hfits.streamed, hcomplete, hfails]
    exact Bool.or_true _
  rw [Loop.pass, hresponse] at hpass
  dsimp only at hpass
  rw [if_pos hflag] at hpass
  exact (Pass.done.inj hpass).1.symm

theorem carries_sending (loop : Loop) :
    (loop.sending trusted site incoming body world).Carries trusted incoming
      (loop.sending trusted site incoming body world).body := by
  constructor <;> rfl

/-- A body that is held whole is sent whole. -/
theorem body_sending (hfits : loop.Fits body) (hcomplete : body.complete = true) :
    (loop.sending trusted site incoming body world).body = body.head := by
  rw [Loop.sending, hfits.streamed, hcomplete]
  rfl

end Pass

section Run

variable {trusted site incoming body world} {loop next : Loop} {counted : List ℤ} {sent : Sent}
variable {course : Course} {fuel : ℕ}

/-- The course of the loop from some pass on. -/
structure Course.Follows (trusted : List Cidr) (site : SiteRow) (incoming : Incoming)
    (body : Prefix) (world : ℕ → Attempt) (loop : Loop) (course : Course) : Prop where
  few : loop.tried.length + course.sendings.length ≤ attempts
  apart : (loop.tried ++ course.sendings.map (·.upstream.id)).Nodup
  same : ∀ sending ∈ course.sendings, sending.Carries trusted incoming
    (loop.sending trusted site incoming body world).body
  again : ∀ k, k + 1 < course.sendings.length →
    MayRepeat incoming body (world (loop.tried.length + k))
  client : ∀ k, ∀ sending ∈ course.sendings[k]?,
    FailedByClient body (world (loop.tried.length + k)) →
      k + 1 = course.sendings.length ∧ sending.upstream.id ∉ course.counted

theorem follows_of_done (hfits : loop.Fits body)
    (hpass : loop.pass site incoming body world = .done counted sent) :
    Course.Follows trusted site incoming body world loop
      { sendings := [loop.sending trusted site incoming body world], counted, sent } := by
  constructor
  · exact hfits.room
  · exact hfits.apart
  · intro sending hsending
    rw [List.mem_singleton.mp hsending]
    exact carries_sending loop
  · intro k hk
    exact absurd hk (by simp)
  · intro k sending hsending hclient
    cases k with
    | zero =>
        refine ⟨rfl, ?_⟩
        rw [pass_done hfits hpass hclient]
        exact List.not_mem_nil
    | succ k => contradiction

theorem follows_of_again (hfits : loop.Fits body)
    (hpass : loop.pass site incoming body world = .again counted next)
    (hfollows : Course.Follows trusted site incoming body world next course) :
    Course.Follows trusted site incoming body world loop
      { sendings := loop.sending trusted site incoming body world :: course.sendings
        counted := counted ++ course.counted
        sent := course.sent } := by
  obtain ⟨hcounted, htried, hnext, hrepeat⟩ := pass_again hfits hpass
  have hlength : next.tried.length = loop.tried.length + 1 := by
    rw [htried, List.length_append, List.length_singleton]
  have hapart := hfollows.apart
  rw [htried, List.append_assoc, List.singleton_append] at hapart
  constructor
  · have hfew := hfollows.few
    rw [List.length_cons]
    omega
  · exact hapart
  · intro sending hsending
    rcases List.mem_cons.mp hsending with rfl | hsending
    · exact carries_sending loop
    · rw [body_sending hfits hrepeat.1, ← @body_sending trusted site incoming body world _ hnext
        hrepeat.1]
      exact hfollows.same sending hsending
  · intro k hk
    cases k with
    | zero => exact hrepeat
    | succ k =>
        rw [List.length_cons] at hk
        have hagain := hfollows.again k (by omega)
        rwa [hlength, Nat.add_right_comm, Nat.add_assoc] at hagain
  · intro k sending hsending hclient
    -- a request that is repeated was held whole
    have hcomplete := hclient.1
    rw [hrepeat.1] at hcomplete
    contradiction

/-- The loop comes to an end, having carried the request out no more than once. -/
theorem exists_run (hfits : loop.Fits body) (hfuel : attempts ≤ loop.tried.length + fuel) :
    ∃ course, loop.run trusted site incoming body world fuel = some course ∧
      Course.Follows trusted site incoming body world loop course := by
  induction fuel generalizing loop with
  | zero =>
      have hroom := hfits.room
      omega
  | succ fuel ih =>
      rw [Loop.run]
      cases hpass : loop.pass site incoming body world with
      | done counted sent => exact ⟨_, rfl, follows_of_done hfits hpass⟩
      | again counted next =>
          obtain ⟨-, htried, hnext, -⟩ := pass_again hfits hpass
          have hroom : attempts ≤ next.tried.length + fuel := by
            rw [htried, List.length_append, List.length_singleton]
            omega
          obtain ⟨course, hrun, hfollows⟩ := ih hnext hroom
          refine ⟨_, ?_, follows_of_again hfits hpass hfollows⟩
          dsimp only
          rw [hrun, Option.map_some]

/-- More fuel changes nothing. -/
theorem run_succ (hrun : loop.run trusted site incoming body world fuel = some course) :
    loop.run trusted site incoming body world (fuel + 1) = some course := by
  induction fuel generalizing loop course with
  | zero => contradiction
  | succ fuel ih =>
      rw [Loop.run] at hrun ⊢
      cases hpass : loop.pass site incoming body world with
      | done counted sent => rwa [hpass] at hrun
      | again counted next =>
          rw [hpass] at hrun
          obtain ⟨rest, hrest, hcourse⟩ := Option.map_eq_some_iff.mp hrun
          dsimp only
          rw [ih hrest, ← hcourse, Option.map_some]

theorem run_of_le {fuel' : ℕ} (hle : fuel ≤ fuel')
    (hrun : loop.run trusted site incoming body world fuel = some course) :
    loop.run trusted site incoming body world fuel' = some course := by
  induction hle with
  | refl => exact hrun
  | step hle ih => exact run_succ ih

end Run

/-- Sending a request comes to an end, and the request is not carried out twice. -/
theorem sendUpstream_carriedOutOnce (first : Backend) :
    ∃ course, (∀ fuel, attempts ≤ fuel →
        sendUpstream trusted site incoming body world first fuel = some course) ∧
      course.CarriedOutOnce trusted incoming body world := by
  have hfits : Loop.Fits body
      { upstream := first, tried := [], streamed := !body.complete, clientFailed := false } :=
    ⟨List.nodup_singleton _, Nat.succ_pos 2, rfl, rfl⟩
  obtain ⟨course, hrun, hfollows⟩ :=
    @exists_run trusted site incoming body world _ attempts hfits (Nat.le_add_left _ _)
  refine ⟨course, fun fuel hfuel => run_of_le hfuel hrun, ?_⟩
  have hworld (k : ℕ) : world (0 + k) = world k := congrArg world (Nat.zero_add k)
  constructor
  · exact (Nat.le_add_left _ _).trans hfollows.few
  · exact hfollows.apart
  · exact ⟨_, hfollows.same⟩
  · intro k hk
    exact hworld k ▸ hfollows.again k hk
  · intro k sending hsending hclient
    exact hfollows.client k sending hsending ((hworld k).symm ▸ hclient)

end EasyWaf.Proxy.Forward
