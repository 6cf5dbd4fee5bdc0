import QkPack.FanOut.ParentWrites
import QkPack.Retry.Ping

/-!
# What a request is about

Whatever happens to a request on its way, it stays one for the same command and the same key.
-/

namespace QkPack
open Wire CString Resp

section Handler

variable {h : Handler}

theorem write_purpose (writer : Writer) (request : Request) : SamePurpose request (h.write writer request).2 := by
  unfold Handler.write
  split
  · exact .refl _
  · exact ⟨rfl,rfl⟩

theorem parseResponseBody_purpose (request : Request) : SamePurpose request (parseResponseBody h request).2 := by
  unfold parseResponseBody
  split
  · exact .refl _
  · split
    · exact write_purpose .mset request
    · split
      · exact write_purpose .get request
      iterate 9
        · exact write_purpose .ttl request
      · exact write_purpose .smembers request
      · exact .refl _

theorem parseResponseError_purpose (request : Request) : SamePurpose request (parseResponseError h request) :=
  SamePurpose.trans ⟨rfl,rfl⟩ (write_purpose .mset _)

theorem redisProtoEncode_purpose {proto : RedisProto} {scripts : ScriptCache} {parent : Option Request}
    {request r : Request} (hencode : (redisProtoEncode proto scripts parent request).1 = .ok r) :
    SamePurpose request r := by
  by_cases hbatch : request.commandType = .zbatchadd
  · by_cases hcode : request.code = .ok
    · obtain ⟨-,-,hcommand,hkey,-⟩ := redisProtoEncode_sameOrigin request hcode hencode
      exact ⟨hcommand,hkey⟩
    · simp only [redisProtoEncode, ne_eq, hcode, not_false_eq_true, if_true, redisProtoEncodePing] at hencode
      rw [build_short request (by rfl) (by decide)] at hencode
      cases hencode
      exact ⟨rfl,rfl⟩
  · obtain ⟨⟨-,-,hcommand,hkey,-⟩,-⟩ := redisProtoEncode_frame hbatch hencode
    exact ⟨hcommand,hkey⟩

theorem createRequestError_purpose (scripts : ScriptCache) (parent : Option Request) (request : Request) :
    SamePurpose request (createRequestError h scripts parent request).2.1 := by
  unfold createRequestError
  simp only
  split
  · exact parseResponseError_purpose request
  · split
    · rename_i hencode
      have hbackup : SamePurpose request { request with nodeIp := h.backupServer } := ⟨rfl,rfl⟩
      exact hbackup.trans (redisProtoEncode_purpose hencode)
    · exact ⟨rfl,rfl⟩

theorem reinitRequest_purpose (scripts : ScriptCache) (parent : Option Request) (request : Request) :
    SamePurpose request (reinitRequest h scripts parent request).2.1 := by
  unfold reinitRequest
  split
  · exact SamePurpose.trans ⟨rfl,rfl⟩ (createRequestError_purpose scripts parent _)
  · split
    · exact ⟨rfl,rfl⟩
    · exact .refl _

theorem processReply_purpose {stack : Nat → Bytes} {shared : Shared} {parent : Option Request} {request : Request}
    {p : Processed} (hp : processReply h stack shared parent request = .ok p) : SamePurpose request p.request := by
  obtain ⟨d,hd,hend⟩ := processReply_cases hp
  have hdecoded := (redisProtoDecode_keeps hd).purpose
  have hbody := hdecoded.trans (parseResponseBody_purpose (h := h) d.request)
  cases hend with
  | taken => exact hbody
  | refused => exact hbody.trans (parseResponseError_purpose _)
  | failed | lost => exact hdecoded.trans (parseResponseError_purpose _)
  | redirected => exact hdecoded

end Handler

section Steps

variable {h : Handler} {conf : UpstreamConf} {u v : Upstream}

theorem processReinitRequest_purpose {world : World} (hv : processReinitRequest h world u = some v) :
    SamePurpose u.request v.request := by
  have hreinit := reinitRequest_purpose (h := h) world.shared.scripts world.parent { u.request with
    nodeIp := u.upstreamIp, nowTries := u.hpTries % 2 ^ 32, movedAsk := u.movedAsk }
  unfold processReinitRequest at hv
  simp only at hv
  split at hv
  · rename_i heq
    cases hv
    rw [heq] at hreinit
    exact hreinit
  · cases hv

theorem getPeer_purpose {world : World} {randomIp : Bytes} (hv : getPeer h world randomIp u = some v) :
    SamePurpose u.request v.request := by
  unfold getPeer at hv
  simp only at hv
  split at hv
  · cases hv
    exact .refl _
  · obtain ⟨w,hw,hv⟩ := Option.map_eq_some_iff.mp hv
    cases hv
    split at hw
    · unfold updateNodes at hw
      split at hw
      · have hsame := processReinitRequest_purpose hw
        exact hsame
      · have hsame := processReinitRequest_purpose hw
        exact hsame
    · cases hw
      exact .refl _

theorem upstreamNext_request (ft : FtType) (u : Upstream) : (upstreamNext conf ft u).request = u.request := by
  obtain ⟨hasPeer,peerTries,usTries,stage,hnext,-⟩ := upstreamNext_cases conf ft u
  rw [hnext]

theorem connected_request (result : ConnectResult) (u : Upstream) : (connected result u).request = u.request := by
  rcases connected_cases (u := u) result with hends | ⟨flag,bufs,hgoes⟩
  · rw [hends]
    rfl
  · rw [hgoes]
    split
    · rfl
    · rfl

theorem Upstream.Replied.purpose {world : World} {bytes : Bytes} {p : Processed}
    (hreplied : u.Replied h world bytes p) : SamePurpose u.request p.request := by
  obtain ⟨response,-,hp⟩ := hreplied
  have hreply := processReply_purpose hp
  exact hreply

theorem HeaderStep.purpose {world : World} {bytes : Bytes} (hread : HeaderStep h conf world bytes u v) :
    SamePurpose u.request v.request := by
  cases hread with
  | waits => exact .refl _
  | malformed =>
    rw [upstreamNext_request]
    exact .refl _
  | broken _ => exact .refl _
  | redirected hreplied _ =>
    rw [upstreamNext_request]
    exact hreplied.purpose
  | answered hreplied _ => exact hreplied.purpose
  | refused hreplied => exact hreplied.purpose

theorem step_purpose {e : Event} (hstep : step h conf u e = some v) : SamePurpose u.request v.request := by
  cases step_upstreamStep hstep with
  | noPeer _ => exact .refl _
  | connect _ hpeer hresult =>
    have hpurpose := getPeer_purpose hpeer
    cases hresult with
    | error => exact hpurpose
    | busy _ =>
      rw [upstreamNext_request]
      exact hpurpose
    | declined =>
      rw [upstreamNext_request]
      exact hpurpose
    | connected _ =>
      rw [connected_request]
      exact hpurpose
  | established _ => exact .refl _
  | failed _ _ =>
    rw [upstreamNext_request]
    exact .refl _
  | read _ hread => exact hread.purpose

end Steps

end QkPack
