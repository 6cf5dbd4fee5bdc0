import QkPack.FanOut.Writes
import QkPack.Parser.WriteJson
import QkPack.Retry.Asking

/-!
# The answer in the buffer of the upstream

`ngx_http_qkupstream_process_response` copies the answer to the beginning of the buffer into which the reply was
received, without a look at its end.
-/

namespace QkPack
open Wire CString Resp Json

/-- What is copied to `u->buffer.pos`. -/
def copied (request : Request) : Bytes :=
  if request.responseBuffer = [] then text "OK" else request.responseBuffer

section Lengths

variable (cost : Int)

/-- The length of what `ParseResponseBody` leaves in the request. -/
def bodyLength (request : Request) : Nat :=
  if request.isSubrequest then request.responseBuffer.length
  else if request.code ≠ .ok then commonLength cost request
  else match request.commandType with
    | .get => commonLength cost request + 26 + shownLength request.key + shownLength request.value
    | .set | .ttl | .del | .incr | .incrby | .sadd | .srem | .scard | .sismember =>
      commonLength cost request + 14 + dataLength request
    | .smembers => commonLength cost request + 34 + shownLength request.key + membersLength request.vectorMbs
    | _ => request.responseBuffer.length

def errorLength (request : Request) : Nat :=
  commonLength cost { request with code := if request.code = .ok then .unknown else request.code }

def answerLength (d : Decoded) : Nat :=
  match d.rc with
  | .ok => bodyLength cost d.request
  | .error => errorLength cost d.request
  | _ => errorLength cost { d.request with code := .redisStorageError }

end Lengths

section Answer

variable {proto : RedisProto} {backupServer : Bytes} {cost : Int} {printDouble : Double → Bytes}

theorem length_copied {request : Request} {n : Nat} (hlen : request.responseBuffer.length = n) (hpos : 0 < n) :
    (copied request).length = n := by
  have hne : request.responseBuffer ≠ [] := by
    intro hnil
    rw [hnil, List.length_nil] at hlen
    omega
  rw [copied, if_neg hne, hlen]

theorem commonLength_pos (request : Request) : 0 < commonLength cost request := by
  unfold commonLength
  omega

theorem answerLength_redirected {d : Decoded} (hredirects : d.rc.redirects = true) {r : Request}
    (hdesc : r.desc = d.request.desc) :
    errorLength cost { r with code := .redisStorageError } = answerLength cost d := by
  unfold answerLength
  cases hrc : d.rc <;> rw [hrc] at hredirects
  case ok | error => cases hredirects
  all_goals simp only [errorLength, commonLength, hdesc]

variable (proto backupServer cost printDouble)

theorem copied_error (request : Request) :
    (copied (parseResponseError (yajlHandler proto backupServer cost printDouble) request)).length =
      errorLength cost request :=
  length_copied (writerJson_mset_length cost _ printDouble) (commonLength_pos _)

theorem parseResponseBody_length {request : Request} (hne : request.responseBuffer ≠ []) :
    ∃ request', parseResponseBody (yajlHandler proto backupServer cost printDouble) request = (.ok,request') ∧
      (copied request').length = bodyLength cost request := by
  have hraw : (copied request).length = request.responseBuffer.length := by rw [copied, if_neg hne]
  have hcommon : 0 < commonLength cost request := commonLength_pos request
  unfold parseResponseBody bodyLength
  split_ifs with hsub hcode
  · exact ⟨request,rfl,hraw⟩
  · exact ⟨_,rfl,length_copied (writerJson_mset_length cost request printDouble) hcommon⟩
  · have hget := writerJson_get_length cost request printDouble
    have httl := writerJson_ttl_length cost request printDouble
    have hsmembers := writerJson_smembers_length cost request printDouble
    cases request.commandType <;> dsimp only
    case get => exact ⟨_,rfl,length_copied hget (by omega)⟩
    case smembers => exact ⟨_,rfl,length_copied hsmembers (by omega)⟩
    case mget | mset | zadd | zbatchadd | zrangebyscore | zrange | batchzrangebyscore | unknown =>
      exact ⟨request,rfl,hraw⟩
    all_goals exact ⟨_,rfl,length_copied httl (by omega)⟩

variable {proto backupServer cost printDouble}

theorem copied_length {stack : Nat → Bytes} {shared : Shared} {parent : Option Request} {request : Request}
    {p : Processed} (hne : request.responseBuffer ≠ [])
    (hp : processReply (yajlHandler proto backupServer cost printDouble) stack shared parent request = .ok p)
    (hrc : p.rc = .ok) :
    ∃ d, redisProtoDecode proto stack shared.scripts parent request = .ok d ∧
      (copied p.request).length = answerLength cost d := by
  obtain ⟨d,hd,hend⟩ := processReply_cases hp
  refine ⟨d,hd,?_⟩
  have hbuffer : d.request.responseBuffer ≠ [] := by
    rw [(redisProtoDecode_keeps hd).responseBuffer]
    exact hne
  obtain ⟨request',hbody,hlen⟩ := parseResponseBody_length proto backupServer cost printDouble hbuffer
  cases hend with
  | taken hok =>
    rw [answerLength, hok, hbody]
    exact hlen
  | refused hok hnot => exact absurd (congrArg Prod.fst hbody) hnot
  | failed herror =>
    rw [answerLength, herror]
    exact copied_error proto backupServer cost printDouble d.request
  | lost hredirects flag nodeIp =>
    rw [← answerLength_redirected hredirects rfl]
    exact copied_error proto backupServer cost printDouble _
  | redirected => cases hrc

end Answer

/-- The length of the answer to what has arrived so far, as it is decoded. -/
def responseLength (proto : RedisProto) (cost : Int) (world : World) (u : Upstream) (bytes : Bytes) : Nat :=
  match redisProtoDecode proto world.stack world.shared.scripts world.parent
    { u.request with
      responseBuffer := (headerCheck u.movedAsk (u.buffer ++ bytes)).response.getD []
      movedAsk := u.movedAsk } with
  | .ok d => answerLength cost d
  | .error _ => 0

theorem response_ne_nil {movedAsk : MovedAsk} {buffer response : Bytes}
    (h : (headerCheck movedAsk buffer).response = some response) : response ≠ [] := by
  unfold headerCheck at h
  split at h
  · cases h
  · generalize (if movedAsk = .askingEnd then 5 else 0) = skip at h
    simp only [Option.ite_none_right_eq_some] at h
    obtain ⟨hrc,hresponse⟩ := h
    rintro rfl
    have hnil : buffer.drop skip = [] := Option.some.inj hresponse
    simp [ngxRedisProtoDecode, peek_of_nat, hnil] at hrc

section Read

variable {h : Handler} {conf : UpstreamConf} {world : World} {bytes : Bytes} {u v : Upstream}

theorem upstreamNext_ne_response (ft : FtType) (u : Upstream) :
    (upstreamNext conf ft u).stage ≠ .done .response := by
  obtain ⟨hasPeer,peerTries,usTries,stage,hnext,hstage⟩ := upstreamNext_cases conf ft u
  rw [hnext]
  rcases hstage with rfl | rfl
  · exact Stage.noConfusion
  · intro hdone
    cases hdone

theorem read_response (hstep : step h conf u (.read world bytes) = some v) (hdone : v.stage = .done .response) :
    ∃ response p, (headerCheck u.movedAsk (u.buffer ++ bytes)).response = some response ∧
      processReply h world.stack world.shared world.parent
        { u.request with responseBuffer := response, movedAsk := u.movedAsk } = .ok p ∧
      p.rc = .ok ∧ v.request = p.request := by
  cases step_upstreamStep hstep with
  | failed _ hfailure => cases hfailure
  | read hsent hread =>
    cases hread with
    | waits => cases hsent.symm.trans hdone
    | malformed => exact absurd hdone (upstreamNext_ne_response _ _)
    | broken houtcome => rcases houtcome with rfl | rfl <;> cases hdone
    | redirected _ _ => exact absurd hdone (upstreamNext_ne_response _ _)
    | @answered p hreplied hrc =>
      obtain ⟨response,hresponse,hp⟩ := hreplied
      exact ⟨response,p,hresponse,hp,hrc,rfl⟩
    | refused _ => cases hdone

end Read

/-- The answer fits the buffer exactly if it is no longer than the buffer; the length of the answer is counted from
the reply as it is decoded, each string with its escapes. -/
theorem response_fits_iff (proto : RedisProto) (backupServer : Bytes) (cost : Int) (printDouble : Double → Bytes)
    (conf : UpstreamConf) {world : World} {bytes : Bytes} {u v : Upstream} (bufferSize : Nat)
    (hstep : step (yajlHandler proto backupServer cost printDouble) conf u (.read world bytes) = some v)
    (hdone : v.stage = .done .response) :
    (copied v.request).length ≤ bufferSize ↔ responseLength proto cost world u bytes ≤ bufferSize := by
  obtain ⟨response,p,hresponse,hp,hrc,hrequest⟩ := read_response hstep hdone
  have hne : ({ u.request with responseBuffer := response, movedAsk := u.movedAsk } : Request).responseBuffer ≠ [] :=
    response_ne_nil hresponse
  obtain ⟨d,hd,hlen⟩ := copied_length hne hp hrc
  rw [hrequest, hlen, responseLength, hresponse, Option.getD_some, hd]

def jsonHandler : Handler := yajlHandler literalProto (text "127.0.0.1:8010") 2 fun _ => []

/-- A `GET` that has been sent. -/
def sentGet : Option Upstream :=
  Machine.run (step jsonHandler (tableConf 3 3)) (Upstream.start (tableConf 3 3) (getRequest 3))
    [.connect emptyWorld [] .ok]

theorem answered_get (reply : Bytes)
    (hrun : ((sentGet.bind fun u => step jsonHandler (tableConf 3 3) u (.read emptyWorld reply)).map (·.stage)) =
      some (.done .response)) :
    ∃ u v, sentGet = some u ∧ step jsonHandler (tableConf 3 3) u (.read emptyWorld reply) = some v ∧
      v.stage = .done .response := by
  obtain ⟨v,hv,hdone⟩ := Option.map_eq_some_iff.mp hrun
  obtain ⟨u,hu,hstep⟩ := Option.bind_eq_some_iff.mp hv
  exact ⟨u,v,hu,hstep,hdone⟩

theorem response_fits_short :
    ∃ u v, sentGet = some u ∧
      step jsonHandler (tableConf 3 3) u (.read emptyWorld (encBulk (text "1"))) = some v ∧
      v.stage = .done .response ∧ (copied v.request).length ≤ 4096 := by
  obtain ⟨u,v,hu,hstep,hdone⟩ := answered_get (encBulk (text "1")) (by decide +kernel)
  refine ⟨u,v,hu,hstep,hdone,?_⟩
  apply (response_fits_iff literalProto (text "127.0.0.1:8010") 2 (fun _ => []) (tableConf 3 3) 4096 hstep hdone).mpr
  have hlen : sentGet.map (responseLength literalProto 2 emptyWorld · (encBulk (text "1"))) = some 102 := by
    decide +kernel
  rw [hu, Option.map_some, Option.some_inj] at hlen
  rw [hlen]
  decide

/-- A value of 700 control characters arrives in a buffer of 4096 bytes, and leaves it as six times as many. -/
theorem response_overruns :
    ∃ u v, sentGet = some u ∧
      step jsonHandler (tableConf 3 3) u (.read emptyWorld (encBulk (List.replicate 700 1))) = some v ∧
      v.stage = .done .response ∧ (encBulk (List.replicate 700 1)).length ≤ 4096 ∧
      4096 < (copied v.request).length := by
  obtain ⟨u,v,hu,hstep,hdone⟩ := answered_get (encBulk (List.replicate 700 1)) (by decide +kernel)
  refine ⟨u,v,hu,hstep,hdone,by decide +kernel,?_⟩
  have hlen : ((sentGet.bind fun u => step jsonHandler (tableConf 3 3) u
      (.read emptyWorld (encBulk (List.replicate 700 1)))).map fun v => (copied v.request).length) = some 4301 := by
    decide +kernel
  rw [hu, Option.bind_some, hstep, Option.map_some, Option.some_inj] at hlen
  rw [hlen]
  decide

end QkPack
