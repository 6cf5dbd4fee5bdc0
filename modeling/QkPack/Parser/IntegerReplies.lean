import QkPack.Parser.WriteJson
import QkPack.Protocol.CommandArgs

/-!
# Replies that are integers

The number of a reply has 64 bits, and it is kept in an `int` until `WriterJsonTtl` shows it.
-/

namespace QkPack
open Wire CString Resp Json

def integerCommands : List CommandType := [.incr,.incrby,.del,.sadd,.srem,.scard,.ttl]

theorem strtol_intText (n : Int) {tail : Bytes} (htail : Stops tail) :
    (strtol (intText n ++ tail)).value = clampLong n := by
  rw [intText]
  split
  · rename_i hneg
    have habs : -(n.natAbs : Int) = n := by omega
    rw [List.cons_append, strtol_minus (isNumeral_decimal _) htail, digitsValue_decimal, habs]
  · rename_i hneg
    have habs : (n.natAbs : Int) = n := by omega
    rw [strtol_numeral (isNumeral_decimal _) htail, digitsValue_decimal, habs]

structure IntegerReply (request : Request) (n : Int) : Prop where
  command : request.commandType ∈ integerCommands
  client : request.isSubrequest = false
  code : request.code = .ok
  lower : -2 ^ 63 ≤ n
  upper : n < 2 ^ 63
  reply : request.responseBuffer = encode (.integer n)

section Integers

variable {request : Request} {n : Int}

theorem redisProtoDecode_integer (proto : RedisProto) (stack : Nat → Bytes) (scripts : ScriptCache)
    (parent : Option Request) (hcode : request.code = .ok) (hreply : request.responseBuffer = encode (.integer n)) :
    redisProtoDecode proto stack scripts parent request =
      .ok ⟨.ok,{ request with num := int32 (clampLong n) },parent,scripts⟩ := by
  have hhead : request.responseBuffer.head? = some 58 := by
    rw [hreply]
    rfl
  have hnum : (strtol (peek request.responseBuffer 1)).value = clampLong n := by
    rw [hreply]
    exact strtol_intText n (stops_crlf _)
  unfold redisProtoDecode
  simp only [if_neg (not_not.mpr hcode), hhead, redisProtoDecodeGetInteger, hnum]

theorem processReply_answered {h : Handler} {stack : Nat → Bytes} {shared : Shared} {parent : Option Request}
    {r : Request} {d : Decoded} (hdecode : redisProtoDecode h.proto stack shared.scripts parent request = .ok d)
    (hrc : d.rc = .ok) (hbody : parseResponseBody h d.request = (.ok,r)) :
    processReply h stack shared parent request = .ok ⟨.ok,r,d.parent,{ shared with scripts := d.scripts }⟩ := by
  unfold processReply
  rw [hdecode]
  simp only [ok_bind, hrc, hbody]
  rfl

theorem writerJsonTtl_data (cost : Int) (request : Request) :
    (writerJsonTtl cost request).member (text "data") = some (writtenData request) := rfl

theorem writtenData_integer (hcommand : request.commandType ∈ integerCommands) :
    writtenData request = .word (intText request.num) := by
  unfold writtenData
  simp only [integerCommands, List.mem_cons, List.not_mem_nil, or_false] at hcommand
  rcases hcommand with hc | hc | hc | hc | hc | hc | hc <;> rw [hc]

theorem parseResponseBody_integer (h : Handler) (hcommand : request.commandType ∈ integerCommands)
    (hclient : request.isSubrequest = false) (hcode : request.code = .ok) :
    parseResponseBody h request = h.write .ttl request := by
  unfold parseResponseBody
  simp only [hclient, Bool.false_eq_true, if_false, hcode, ne_eq, not_true_eq_false]
  simp only [integerCommands, List.mem_cons, List.not_mem_nil, or_false] at hcommand
  rcases hcommand with hc | hc | hc | hc | hc | hc | hc <;> rw [hc]

theorem integer_reply_shown (proto : RedisProto) (backupServer : Bytes) (cost : Int)
    (printDouble : Double → Bytes) (stack : Nat → Bytes) (shared : Shared) (parent : Option Request)
    (hreply : IntegerReply request n) :
    ∃ p, processReply (yajlHandler proto backupServer cost printDouble) stack shared parent request = .ok p ∧
      p.rc = .ok ∧ p.request.responseBuffer = gen true (writerJsonTtl cost p.request).calls ∧
      (writerJsonTtl cost p.request).member (text "data") = some (.word (toString32 n)) := by
  let h := yajlHandler proto backupServer cost printDouble
  let decoded : Request := { request with num := int32 n }
  let answer : Bytes := gen true (writerJsonTtl cost decoded).calls
  have hbody : parseResponseBody h decoded = (.ok,{ decoded with responseBuffer := answer }) :=
    parseResponseBody_integer h hreply.command hreply.client hreply.code
  have hdecode := redisProtoDecode_integer proto stack shared.scripts parent hreply.code hreply.reply
  rw [clampLong_of_range hreply.lower hreply.upper] at hdecode
  have hprocess := processReply_answered (h := h) hdecode rfl hbody
  refine ⟨_,hprocess,rfl,rfl,?_⟩
  have hdata : writtenData { decoded with responseBuffer := answer } = .word (toString32 n) :=
    writtenData_integer hreply.command
  rw [writerJsonTtl_data, hdata]

/-- The number in the answer to a client is the one of the reply exactly where an `int` can hold it. -/
theorem integer_reply_exact_iff (proto : RedisProto) (backupServer : Bytes) (cost : Int)
    (printDouble : Double → Bytes) (stack : Nat → Bytes) (shared : Shared) (parent : Option Request)
    (hreply : IntegerReply request n) :
    ∃ p, processReply (yajlHandler proto backupServer cost printDouble) stack shared parent request = .ok p ∧
      p.rc = .ok ∧ p.request.responseBuffer = gen true (writerJsonTtl cost p.request).calls ∧
      ((writerJsonTtl cost p.request).member (text "data") = some (.word (intText n)) ↔
        -2 ^ 31 ≤ n ∧ n < 2 ^ 31) := by
  obtain ⟨p,hprocess,hrc,hbody,hdata⟩ :=
    integer_reply_shown proto backupServer cost printDouble stack shared parent hreply
  refine ⟨p,hprocess,hrc,hbody,?_⟩
  rw [hdata, Option.some.injEq, Doc.word.injEq]
  exact toString32_eq_iff n

def counted (n : Int) : Request :=
  { Request.fresh with commandType := .incr, responseBuffer := encode (.integer n) }

theorem integerReply_counted {n : Int} (hl : -2 ^ 63 ≤ n) (hu : n < 2 ^ 63) : IntegerReply (counted n) n :=
  ⟨List.mem_cons_self,rfl,rfl,hl,hu,rfl⟩

theorem integer_reply_exact_five :
    ∃ p, processReply (yajlHandler literalProto [] 0 fun _ => []) (fun _ => []) ⟨fun _ _ => none,fun _ _ => []⟩ none
        (counted 5) = .ok p ∧
      (writerJsonTtl 0 p.request).member (text "data") = some (.word (text "5")) := by
  obtain ⟨p,hprocess,-,-,hdata⟩ := integer_reply_exact_iff literalProto [] 0 (fun _ => []) (fun _ => [])
    ⟨fun _ _ => none,fun _ _ => []⟩ none (integerReply_counted (n := 5) (by decide) (by decide))
  exact ⟨p,hprocess,hdata.mpr (by decide)⟩

/-- The counter goes from 2147483647 to 2147483648, and the client sees a negative number. -/
theorem integer_reply_wraps :
    ∃ p, processReply (yajlHandler literalProto [] 0 fun _ => []) (fun _ => []) ⟨fun _ _ => none,fun _ _ => []⟩ none
        (counted 2147483648) = .ok p ∧
      (writerJsonTtl 0 p.request).member (text "data") = some (.word (text "-2147483648")) ∧
      intText 2147483648 = text "2147483648" := by
  obtain ⟨p,hprocess,-,-,hdata⟩ := integer_reply_shown literalProto [] 0 (fun _ => []) (fun _ => [])
    ⟨fun _ _ => none,fun _ _ => []⟩ none (integerReply_counted (n := 2147483648) (by decide) (by decide))
  have hshown : toString32 2147483648 = text "-2147483648" := by decide +kernel
  rw [hshown] at hdata
  exact ⟨p,hprocess,hdata,by decide +kernel⟩

end Integers

end QkPack
