import QkPack.Parser.SingleAnswers
import QkPack.Protocol.KeyScripts
import QkPack.Retry.Upstream

/-!
# One request and its node

A request for a single key is encoded, sent on a connection to the node of its key, carried out there, and answered when
the reply has been read. The request goes through the machine of `QkPack.Retry.Upstream`, here without failures.
-/

namespace QkPack
open Wire CString Resp Json

section Exchange

variable (h : Handler) (conf : UpstreamConf) (world : World) (server : KeyServer.Server)

/-- A built request is sent, the node carries out what it reads, and its reply arrives in one piece. -/
def exchange (store : KeyServer.Store) (r : Request) : Option (Bytes × KeyServer.Store) := do
  let u ← Machine.run (step h conf) (Upstream.start conf r) [.connect world [] .ok]
  let sent ← u.written.getLast?
  let (argv,rest) ← parseCommand sent.2
  if rest ≠ [] then none
  else
    let (reply,store) := server.exec store argv
    let u ← Machine.run (step h conf) u [.read world (encode reply)]
    if u.stage = .done .response then some (u.request.responseBuffer,store) else none

structure Service where
  store : KeyServer.Store
  scripts : ScriptCache

def serve (s : Service) (request : Request) : Option (Bytes × Service) :=
  match redisProtoEncode h.proto s.scripts none request with
  | (.ok r,scripts) => (exchange h conf world server s.store r).map fun (body,store) => (body,⟨store,scripts⟩)
  | _ => none

end Exchange

section Sent

theorem headerCheck_reply {reply : Reply} (hnull : NoInnerNull reply) (hsize : (encode reply).length ≤ 2 ^ 30) :
    (headerCheck .ok (encode reply)).response = some (encode reply) := by
  obtain ⟨hrc,-⟩ := frameBehind_complete [] hnull (by simpa using hsize)
  have hframe : (ngxRedisProtoDecode (encode reply) 0 (encode reply).length).rc = .ok := hrc
  simp [headerCheck, hframe]

theorem run_connect (conf : UpstreamConf) (h : Handler) (world : World) (r : Request) :
    ∃ u, Machine.run (step h conf) (Upstream.start conf r) [.connect world [] .ok] = some u ∧
      u.stage = .sent ∧ u.request = r ∧ u.movedAsk = .ok ∧ u.buffer = [] ∧ u.written = [(r.code,r.protoStr)] := by
  refine ⟨_,rfl,rfl,rfl,rfl,rfl,rfl⟩

/-- The encoder has built the command and changed no more than the request's command and value. -/
def EncodedAs (proto : RedisProto) (scripts : ScriptCache) (request : Request) (argv : List Bytes)
    (scripts' : ScriptCache) : Prop :=
  ∃ command value, redisProtoEncode proto scripts none request =
    (.ok { request with command := command, value := value, protoStr := encCommand argv },scripts')

end Sent

end QkPack
