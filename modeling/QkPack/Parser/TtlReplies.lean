import QkPack.Parser.IntegerReplies

/-!
# The answers to TTL

Redis answers `TTL` with -1 for a key that does not expire and with -2 for one that does not exist. The test for
these numbers stands behind the switch of `RedisProtoDecode`, which an integer leaves before.
-/

namespace QkPack
open Wire CString Resp Json

structure TtlReply (request : Request) (n : Int) : Prop where
  command : request.commandType = .ttl
  client : request.isSubrequest = false
  code : request.code = .ok
  reply : request.responseBuffer = encode (.integer n)

def ttlMiss (n : Int) : Option Bytes :=
  if n = -1 then some (text "kvpair the key exists but has no associated expire")
  else if n = -2 then some (text "kvpair the key does not exist")
  else none

def shownCode (doc : Doc) : Option Doc := (doc.member (text "e")).bind (·.member (text "code"))

section Ttl

variable (h : Handler) (stack : Nat → Bytes) (shared : Shared) (parent : Option Request) (request : Request) (n : Int)

/-- The decoder makes an error of a miss and keeps a time. -/
structure TtlDecoded (d : Decoded) : Prop where
  miss : ∀ desc, ttlMiss n = some desc → d.request.code = .redisStorageError ∧ d.request.desc = desc
  time : ttlMiss n = none → d.request.code = .ok ∧ d.request.num = n

/-- The answer is written, and for a key that does not exist it shows an error of the storage. -/
def TtlShown (p : Processed) : Prop :=
  ∃ doc : Doc, p.request.responseBuffer = gen true doc.calls ∧
    (n = -2 → shownCode doc = some (.word (text "5000")))

/-- A reply to `TTL` is decoded and answered as the interface says. -/
def TtlAnswered : Prop :=
  ∃ d p, redisProtoDecode h.proto stack shared.scripts parent request = .ok d ∧ TtlDecoded n d ∧
    processReply h stack shared parent request = .ok p ∧ TtlShown n p

end Ttl

section Replies

variable {request : Request} {n : Int}

theorem ttlMiss_eq_none_iff : ttlMiss n = none ↔ n ≠ -1 ∧ n ≠ -2 := by
  unfold ttlMiss
  split <;> simp_all

theorem ttl_mem_integerCommands : CommandType.ttl ∈ integerCommands := by decide

theorem int32_clampLong_eq_iff (n : Int) : int32 (clampLong n) = n ↔ -2 ^ 31 ≤ n ∧ n < 2 ^ 31 := by
  constructor
  · intro heq
    have hl := int32_ge (clampLong n)
    have hu := int32_lt (clampLong n)
    exact ⟨by omega,by omega⟩
  · rintro ⟨hl,hu⟩
    rw [clampLong_of_range (by omega) (by omega), int32_of_range hl hu]

theorem ttl_reply_shown (proto : RedisProto) (backupServer : Bytes) (cost : Int) (printDouble : Double → Bytes)
    (stack : Nat → Bytes) (shared : Shared) (parent : Option Request) (hreply : TtlReply request n) :
    ∃ p, processReply (yajlHandler proto backupServer cost printDouble) stack shared parent request = .ok p ∧
      p.request.responseBuffer = gen true (writerJsonTtl cost p.request).calls ∧
      shownCode (writerJsonTtl cost p.request) = some (.word (text "0")) ∧
      (writerJsonTtl cost p.request).member (text "data") = some (.word (intText (int32 (clampLong n)))) := by
  let h := yajlHandler proto backupServer cost printDouble
  let decoded : Request := { request with num := int32 (clampLong n) }
  let answered : Request := { decoded with responseBuffer := gen true (writerJsonTtl cost decoded).calls }
  have hcommand : decoded.commandType ∈ integerCommands := by
    rw [show decoded.commandType = .ttl from hreply.command]
    exact ttl_mem_integerCommands
  have hbody : parseResponseBody h decoded = (.ok,answered) :=
    parseResponseBody_integer h hcommand hreply.client hreply.code
  have hdecode := redisProtoDecode_integer proto stack shared.scripts parent hreply.code hreply.reply
  have hprocess := processReply_answered (h := h) hdecode rfl hbody
  refine ⟨_,hprocess,rfl,?_,?_⟩
  · have hcode : shownCode (writerJsonTtl cost answered) = some (.word (decimal answered.code.value)) := rfl
    rw [hcode, show answered.code = .ok from hreply.code]
    rfl
  · have hdata : writtenData answered = .word (intText answered.num) := writtenData_integer hcommand
    rw [writerJsonTtl_data, hdata]

/-- Just the times that an `int` can hold are answered as the interface says. -/
theorem ttl_answered_iff (proto : RedisProto) (backupServer : Bytes) (cost : Int) (printDouble : Double → Bytes)
    (stack : Nat → Bytes) (shared : Shared) (parent : Option Request) (hreply : TtlReply request n) :
    TtlAnswered (yajlHandler proto backupServer cost printDouble) stack shared parent request n ↔
      n ≠ -1 ∧ n ≠ -2 ∧ -2 ^ 31 ≤ n ∧ n < 2 ^ 31 := by
  have hdecode := redisProtoDecode_integer proto stack shared.scripts parent hreply.code hreply.reply
  constructor
  · rintro ⟨d,-,hd,hdecoded,-⟩
    obtain rfl := Except.ok.inj (hdecode.symm.trans hd)
    cases hmiss : ttlMiss n with
    | none =>
      obtain ⟨hone,htwo⟩ := ttlMiss_eq_none_iff.mp hmiss
      exact ⟨hone,htwo,(int32_clampLong_eq_iff n).mp (hdecoded.time hmiss).2⟩
    | some desc =>
      -- The decoder has not touched the code.
      have hcode : request.code = .redisStorageError := (hdecoded.miss desc hmiss).1
      rw [hreply.code] at hcode
      cases hcode
  · rintro ⟨hone,htwo,hrange⟩
    have hmiss : ttlMiss n = none := ttlMiss_eq_none_iff.mpr ⟨hone,htwo⟩
    obtain ⟨p,hprocess,hshown,-,-⟩ := ttl_reply_shown proto backupServer cost printDouble stack shared parent hreply
    refine ⟨_,p,hdecode,⟨?_,?_⟩,hprocess,⟨_,hshown,fun h => absurd h htwo⟩⟩
    · intro desc hdesc
      rw [hmiss] at hdesc
      cases hdesc
    · exact fun _ => ⟨hreply.code,(int32_clampLong_eq_iff n).mpr hrange⟩

def asked (n : Int) : Request :=
  { Request.fresh with commandType := .ttl, responseBuffer := encode (.integer n) }

theorem ttlReply_asked (n : Int) : TtlReply (asked n) n := ⟨rfl,rfl,rfl,rfl⟩

theorem ttl_answered_day : TtlAnswered (yajlHandler literalProto [] 0 fun _ => []) (fun _ => [])
    ⟨fun _ _ => none,fun _ _ => []⟩ none (asked 86400) 86400 :=
  (ttl_answered_iff literalProto [] 0 (fun _ => []) (fun _ => []) ⟨fun _ _ => none,fun _ _ => []⟩ none
    (ttlReply_asked 86400)).mpr (by decide)

/-- The key does not exist, and the client sees the time -2 and no error. -/
theorem ttl_missing_key :
    ∃ p, processReply (yajlHandler literalProto [] 0 fun _ => []) (fun _ => []) ⟨fun _ _ => none,fun _ _ => []⟩ none
        (asked (-2)) = .ok p ∧
      p.request.responseBuffer = gen true (writerJsonTtl 0 p.request).calls ∧
      shownCode (writerJsonTtl 0 p.request) = some (.word (text "0")) ∧
      (writerJsonTtl 0 p.request).member (text "data") = some (.word (text "-2")) := by
  obtain ⟨p,hprocess,hbody,hcode,hdata⟩ := ttl_reply_shown literalProto [] 0 (fun _ => []) (fun _ => [])
    ⟨fun _ _ => none,fun _ _ => []⟩ none (ttlReply_asked (-2))
  have hshown : intText (int32 (clampLong (-2))) = text "-2" := by decide +kernel
  rw [hshown] at hdata
  exact ⟨p,hprocess,hbody,hcode,hdata⟩

end Replies

end QkPack
