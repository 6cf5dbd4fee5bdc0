import QkPack.Core.Handler
import QkPack.Protocol.Decoding

/-!
# When a reply redirects a request

Only the first line of an error reply to a request without a code makes `ProcessBody` return
`QKPACK_UPSTREAM_INVALID_HEADER`, and it changes no more than the flag and the node.
-/

namespace QkPack
open Wire CString Resp

/-- The return values that `ProcessBody` takes for a redirection. -/
def RedisRc.redirects : RedisRc → Bool
  | .moved | .ask | .tryagain => true
  | .ok | .error => false

theorem ttlCheck_redirects {d : Decoded} (h : d.rc.redirects = false) :
    (ttlCheck d).rc.redirects = false := by
  rcases ttlCheck_rc d with hrc | hrc
  · rw [hrc]
    exact h
  · rw [hrc]
    rfl

/-- A redirection comes from an error line and leaves the request as it was. -/
theorem redisProtoDecode_redirects {proto : RedisProto} {stack : Nat → Bytes} {scripts : ScriptCache}
    {parent : Option Request} {request : Request} {d : Decoded}
    (h : redisProtoDecode proto stack scripts parent request = .ok d) (hrc : d.rc.redirects = true) :
    request.code = .ok ∧ request.responseBuffer.head? = some 45 ∧ d.request = request := by
  cases redisProtoDecode_cases h with
  | redirection _ hcode hline _ => exact ⟨hcode,hline,rfl⟩
  | nothing | complaint | status | integer => cases hrc
  | bulk | nullArray | array =>
    rw [ttlCheck_redirects rfl] at hrc
    cases hrc

def Processed.givenUp (h : Handler) (shared : Shared) (d : Decoded) (r : Request) : Processed :=
  ⟨.ok,parseResponseError h r,d.parent.map (copyCode r),{ shared with scripts := d.scripts }⟩

/-- All that `ProcessBody` can do with a decoded reply. -/
inductive ReplyEnd (h : Handler) (shared : Shared) (d : Decoded) : Processed → Prop
  | taken (hdecoded : d.rc = .ok) (hbody : (parseResponseBody h d.request).1 = .ok) :
      ReplyEnd h shared d ⟨.ok,(parseResponseBody h d.request).2,d.parent,{ shared with scripts := d.scripts }⟩
  | refused (hdecoded : d.rc = .ok) (hbody : (parseResponseBody h d.request).1 ≠ .ok) :
      ReplyEnd h shared d (.givenUp h shared d (parseResponseBody h d.request).2)
  | failed (hdecoded : d.rc = .error) : ReplyEnd h shared d (.givenUp h shared d d.request)
  | lost (hredirects : d.rc.redirects = true) (flag : MovedAsk) (nodeIp : Bytes) :
      ReplyEnd h shared d (.givenUp h shared d
        { d.request with movedAsk := flag, nodeIp := nodeIp, code := .redisStorageError })
  | redirected (hredirects : d.rc.redirects = true) (hasking : d.request.movedAsk ≠ .askingEnd) {flag : MovedAsk}
      (hflag : flag = .moved ∨ flag = .ask) (nodeIp : Bytes) (cluster : ClusterMap) :
      ReplyEnd h shared d ⟨.upstreamInvalidHeader,{ d.request with movedAsk := flag, nodeIp := nodeIp },d.parent,
        { shared with scripts := d.scripts, cluster := cluster }⟩

theorem processReply_cases {h : Handler} {stack : Nat → Bytes} {shared : Shared} {parent : Option Request}
    {request : Request} {p : Processed} (hp : processReply h stack shared parent request = .ok p) :
    ∃ d, redisProtoDecode h.proto stack shared.scripts parent request = .ok d ∧ ReplyEnd h shared d p := by
  obtain ⟨d,hd,hp⟩ := bind_eq_ok.mp hp
  refine ⟨d,hd,?_⟩
  simp only at hp
  split at hp
  · rename_i hok
    split at hp
    · rename_i hbody
      cases hp
      exact .taken hok hbody
    · rename_i hbody
      cases hp
      exact .refused hok hbody
  · rename_i herror
    cases hp
    exact .failed herror
  · rename_i rc hok herror
    have hredirects : d.rc.redirects = true := by
      cases hdrc : d.rc with
      | ok => exact absurd hdrc hok
      | error => exact absurd hdrc herror
      | moved => rfl
      | ask => rfl
      | tryagain => rfl
    split at hp
    · cases hp
      exact .lost hredirects _ _
    · rename_i hasking
      obtain ⟨⟨rc',nodeIp,cluster⟩,-,hp⟩ := bind_eq_ok.mp hp
      simp only at hp
      split at hp
      · cases hp
        refine .redirected hredirects hasking ?_ nodeIp cluster
        split
        · exact .inr rfl
        · exact .inl rfl
      · cases hp
        exact .lost hredirects _ nodeIp

/-- What a redirected request is: without a code before, with a new flag and a new node after. -/
structure Redirected (request request' : Request) : Prop where
  code : request.code = .ok
  notAsking : request.movedAsk ≠ .askingEnd
  flag : request'.movedAsk = .moved ∨ request'.movedAsk = .ask
  rest : request' = { request with movedAsk := request'.movedAsk, nodeIp := request'.nodeIp }

theorem processReply_redirected {h : Handler} {stack : Nat → Bytes} {shared : Shared}
    {parent : Option Request} {request : Request} {p : Processed}
    (hp : processReply h stack shared parent request = .ok p)
    (hrc : p.rc = .upstreamInvalidHeader) : Redirected request p.request := by
  obtain ⟨d,hd,hend⟩ := processReply_cases hp
  cases hend with
  | redirected hredirects hasking hflag nodeIp cluster =>
    obtain ⟨hcode,-,hreq⟩ := redisProtoDecode_redirects hd hredirects
    rw [hreq] at hasking ⊢
    exact ⟨hcode,hasking,hflag,rfl⟩
  | taken | refused | failed | lost => cases hrc

/-- A `MOVED` line that names a node. -/
structure MovedTo (reply node : Bytes) : Prop where
  moved : text "-MOVED" <+: reply
  node : movedNode (split reply (text " ")) = .ok (.ok,node)

theorem MovedTo.cons {reply node : Bytes} (hm : MovedTo reply node) :
    ∃ rest, reply = 45 :: (text "MOVED" ++ rest) := by
  obtain ⟨rest,hrest⟩ := hm.moved
  exact ⟨rest,hrest.symm⟩

theorem MovedTo.processMoved {reply node : Bytes} (hm : MovedTo reply node)
    (clusterName nodeIp : Bytes) (cluster : ClusterMap) : ∃ cluster',
      QkPack.processMoved reply clusterName nodeIp .moved cluster = .ok (.ok,node,cluster') := by
  have hlength : ¬ (split reply (text " ")).length < 3 := by
    intro hshort
    have hnode := hm.node
    rw [movedNode, List.getElem?_eq_none (by omega)] at hnode
    cases hnode
  simp only [QkPack.processMoved, hm.node, if_neg hlength]
  exact ⟨_,rfl⟩

theorem processReply_moved (h : Handler) (stack : Nat → Bytes) (shared : Shared)
    (parent : Option Request) (request : Request) {node : Bytes} (hcode : request.code = .ok)
    (hflag : request.movedAsk = .ok) (hm : MovedTo request.responseBuffer node) :
    ∃ p, processReply h stack shared parent request = .ok p ∧ p.rc = .upstreamInvalidHeader ∧
      p.request = { request with movedAsk := .moved, nodeIp := node } := by
  obtain ⟨rest,hrest⟩ := hm.cons
  have hhead : request.responseBuffer.head? = some 45 := by rw [hrest]; rfl
  have hword : startsWith (peek request.responseBuffer 1) "MOVED" = true := by
    have hpeek : peek request.responseBuffer 1 = text "MOVED" ++ rest := by
      rw [hrest]
      exact peek_of_nat _ 1
    rw [hpeek, startsWith, List.isPrefixOf_iff_prefix]
    exact List.prefix_append _ _
  have hdecode : redisProtoDecode h.proto stack shared.scripts parent request =
      .ok ⟨.moved,request,parent,shared.scripts⟩ := by
    simp only [redisProtoDecode, hcode, ne_eq, not_true_eq_false, if_false, hhead,
      redisProtoDecodeGetError, hword, if_true]
    rfl
  obtain ⟨cluster',hcluster⟩ := hm.processMoved request.clusterName request.nodeIp
    shared.cluster
  have hflag' : ¬ request.movedAsk = .askingEnd := by
    rw [hflag]
    decide
  refine ⟨⟨.upstreamInvalidHeader,{ request with movedAsk := .moved, nodeIp := node },parent,
    ⟨cluster',shared.scripts⟩⟩,?_,rfl,rfl⟩
  simp only [processReply, hdecode, bind, Except.bind, if_neg hflag', hcluster]
  rfl

end QkPack
