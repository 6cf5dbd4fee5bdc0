import QkPack.Core.TenantStore
import QkPack.Parser.IntegerReplies
import QkPack.Protocol.ReadBack

/-!
# The answers to commands on single keys

What a client is shown for each kind of reply: the reply is decoded into the request, and the writer of the command
makes a document of it.
-/

namespace QkPack
open Wire CString Resp Json

/-- The document of a request with this code and description, with `members` behind what all answers have. -/
def answerDoc (cost : Int) (code : ResponseCode) (desc : Bytes) (members : List (Bytes × Doc)) : Doc :=
  .map ([(text "e",.map [(text "code",.word (decimal code.value)),(text "desc",.string desc)]),
    (text "cost",.word (intText cost))] ++ members)

/-- What is shown for an answer. A value that is not there is shown as the text `null`, and the members of a set in any
order. -/
def ShownMembers (key : Bytes) : Answer → List (Bytes × Doc) → Prop
  | .value v, ms => ms = [(text "k",.string key),(text "v",.string (v.getD null))]
  | .stored, ms => ms = [(text "data",.string (text "OK"))]
  | .count n, ms => ms = [(text "data",.word (intText n))]
  | .test b, ms => ms = [(text "data",.word (if b then text "true" else text "false"))]
  | .members s, ms => ∃ l : List Bytes, l.Nodup ∧ l.toFinset = s ∧
      ms = [(text "k",.string key),(text "mbs",.array (l.map .string))]
  | .refused, _ => False

/-- The body of a response says what the answer is; a refusal has code 5000 and some description, in UTF-8. -/
def Shows (cost : Int) (key : Bytes) (a : Answer) (body : Bytes) : Prop :=
  (∃ ms, ShownMembers key a ms ∧ body = gen true (answerDoc cost .ok [] ms).calls) ∨
    a = .refused ∧ ∃ desc, IsUtf8 desc ∧ body = gen true (answerDoc cost .redisStorageError desc []).calls

section Lines

theorem crlfScan_line (l : Line) : crlfScan (l.bytes ++ crlf) = some l.bytes.length := by
  obtain ⟨bytes,hline⟩ := l
  induction bytes with
  | nil => rfl
  | cons c bytes ih =>
    have hc := (hline c List.mem_cons_self).1
    have hrest := ih fun d hd => hline d (List.mem_cons_of_mem _ hd)
    simp only [List.cons_append, crlfScan, hc, false_and, if_false, List.length_cons]
    simp only at hrest
    rw [hrest]
    rfl

theorem readLine_line (c : UInt8) (l : Line) : readLine (c :: (l.bytes ++ crlf)) 1 = .ok l.bytes := by
  have hpeek : peek (c :: (l.bytes ++ crlf)) 1 = l.bytes ++ crlf := @peek_append [c] _ _ rfl
  rw [readLine, hpeek, crlfScan_line]
  simp

/-- A line that is no redirection and does not ask for the scripts. -/
def PlainError (l : Line) : Prop :=
  ∀ word ∈ ["MOVED","ASK","TRYAGAIN","NOSCRIPT"], startsWith (l.bytes ++ crlf) word = false

theorem plainError_of_head {l : Line} (hhead : l.bytes.head? = some 69 ∨ l.bytes.head? = some 87) : PlainError l := by
  obtain ⟨bytes,hline⟩ := l
  intro word hword
  cases bytes with
  | nil => rcases hhead with hhead | hhead <;> cases hhead
  | cons c bytes =>
    simp only [List.head?_cons, Option.some.injEq] at hhead
    simp only [List.mem_cons, List.not_mem_nil, or_false] at hword
    rcases hhead with rfl | rfl <;> rcases hword with rfl | rfl | rfl | rfl <;> rfl

theorem redisProtoDecode_error (proto : RedisProto) (stack : Nat → Bytes) (scripts : ScriptCache)
    (parent : Option Request) {request : Request} {l : Line} (hcode : request.code = .ok) (hplain : PlainError l)
    (hreply : request.responseBuffer = encode (.error l)) :
    redisProtoDecode proto stack scripts parent request =
      .ok ⟨.ok,{ request with desc := l.bytes, code := .redisStorageError },parent,scripts⟩ := by
  have hpeek : peek (encode (.error l)) 1 = l.bytes ++ crlf := @peek_append [45] _ _ rfl
  have hnot := fun word hword => Bool.eq_false_iff.mp (hplain word hword)
  have hline : readLine (encode (.error l)) 1 = .ok l.bytes := readLine_line 45 l
  simp only [redisProtoDecode, hcode, ne_eq, not_true_eq_false, if_false, hreply, redisProtoDecodeGetError,
    hpeek, hnot "MOVED" (by decide), hnot "ASK" (by decide), hnot "TRYAGAIN" (by decide), hnot "NOSCRIPT" (by decide),
    hline]
  rfl

theorem redisProtoDecode_status (proto : RedisProto) (stack : Nat → Bytes) (scripts : ScriptCache)
    (parent : Option Request) {request : Request} {l : Line} (hcode : request.code = .ok)
    (hreply : request.responseBuffer = encode (.status l)) :
    redisProtoDecode proto stack scripts parent request =
      .ok ⟨.ok,{ request with value := l.bytes },parent,scripts⟩ := by
  have hline : readLine (encode (.status l)) 1 = .ok l.bytes := readLine_line 43 l
  simp only [redisProtoDecode, hcode, ne_eq, not_true_eq_false, if_false, hreply, redisProtoDecodeGetStatus,
    hline]
  rfl

end Lines

section Answers

variable (proto : RedisProto) (backupServer : Bytes) (cost : Int) (printDouble : Double → Bytes)
variable (stack : Nat → Bytes) (shared : Shared)

/-- `ProcessBody` ends the request, and the response is this document. -/
def AnsweredWith (request : Request) (doc : Doc) : Prop :=
  ∃ p, processReply (yajlHandler proto backupServer cost printDouble) stack shared none request = .ok p ∧
    p.rc = .ok ∧ p.request.responseBuffer = gen true doc.calls

/-- What a request has that may be answered: it is one of a client and has not failed. -/
structure Unanswered (request : Request) : Prop where
  code : request.code = .ok
  client : request.isSubrequest = false
  desc : request.desc = []

variable {request decoded : Request}

theorem answered_by (writer : Writer) (hwriter : writer ≠ .mget)
    (hdecode : redisProtoDecode proto stack shared.scripts none request = .ok ⟨.ok,decoded,none,shared.scripts⟩)
    (hbody : parseResponseBody (yajlHandler proto backupServer cost printDouble) decoded =
      (yajlHandler proto backupServer cost printDouble).write writer decoded) :
    AnsweredWith proto backupServer cost printDouble stack shared request
      (writerDoc cost decoded printDouble writer) := by
  have hwrite : (yajlHandler proto backupServer cost printDouble).write writer decoded =
      (.ok,{ decoded with responseBuffer := writerJson cost decoded printDouble writer }) := rfl
  have hprocess := processReply_answered (h := yajlHandler proto backupServer cost printDouble) hdecode rfl
    (hbody.trans hwrite)
  refine ⟨_,hprocess,rfl,?_⟩
  rw [writerJson, decide_eq_true hwriter]

theorem answered_error {l : Line} (hr : Unanswered request) (hplain : PlainError l)
    (hreply : request.responseBuffer = encode (.error l)) :
    AnsweredWith proto backupServer cost printDouble stack shared request
      (answerDoc cost .redisStorageError l.bytes []) := by
  have hdecode := redisProtoDecode_error proto stack shared.scripts none hr.code hplain hreply
  have hbody := answered_by proto backupServer cost printDouble stack shared .mset (by decide) hdecode (by
    simp only [parseResponseBody, hr.client, Bool.false_eq_true, if_false, ne_eq, reduceCtorEq, not_false_eq_true,
      if_true])
  exact hbody

theorem answered_bulk {e : Elem} {v : Bytes} (hr : Unanswered request) (hcommand : request.commandType = .get)
    (hreply : request.responseBuffer = encode (.bulk e)) (hread : readElem proto.compress (stack 0) e = .ok v) :
    AnsweredWith proto backupServer cost printDouble stack shared request
      (answerDoc cost .ok [] [(text "k",.string request.key),(text "v",.string v)]) := by
  have hdecode : redisProtoDecode proto stack shared.scripts none request =
      .ok ⟨.ok,{ request with value := v },none,shared.scripts⟩ := by
    rw [redisProtoDecode_encElem none request hr.code (by rw [hcommand]; decide) hreply, hread]
    rfl
  have hbody := answered_by proto backupServer cost printDouble stack shared .get (by decide) hdecode (by
    simp only [parseResponseBody, hr.client, hr.code, hcommand, Bool.false_eq_true, if_false, ne_eq,
      not_true_eq_false])
  have hdoc : writerDoc cost { request with value := v } printDouble .get =
      answerDoc cost .ok [] [(text "k",.string request.key),(text "v",.string v)] := by
    rw [← hr.desc, ← hr.code]
    rfl
  rwa [hdoc] at hbody

theorem answered_status {l : Line} (hr : Unanswered request) (hcommand : request.commandType = .set)
    (hreply : request.responseBuffer = encode (.status l)) :
    AnsweredWith proto backupServer cost printDouble stack shared request
      (answerDoc cost .ok [] [(text "data",.string l.bytes)]) := by
  have hdecode := redisProtoDecode_status proto stack shared.scripts none hr.code hreply
  have hbody := answered_by proto backupServer cost printDouble stack shared .ttl (by decide) hdecode (by
    simp only [parseResponseBody, hr.client, hr.code, hcommand, Bool.false_eq_true, if_false, ne_eq,
      not_true_eq_false])
  have hdoc : writerDoc cost { request with value := l.bytes } printDouble .ttl =
      answerDoc cost .ok [] [(text "data",.string l.bytes)] := by
    rw [writerDoc, writerJsonTtl, writtenData]
    simp only [hcommand]
    rw [← hr.desc, ← hr.code]
    rfl
  rwa [hdoc] at hbody

theorem answered_integer {n : Int} (hr : Unanswered request)
    (hcommand : request.commandType ∈ CommandType.sismember :: integerCommands)
    (hreply : request.responseBuffer = encode (.integer n)) :
    AnsweredWith proto backupServer cost printDouble stack shared request (answerDoc cost .ok []
      [(text "data",.word (if request.commandType = .sismember then
        if int32 (clampLong n) ≠ 0 then text "true" else text "false" else intText (int32 (clampLong n))))]) := by
  have hdecode := redisProtoDecode_integer proto stack shared.scripts none hr.code hreply
  generalize int32 (clampLong n) = m at hdecode ⊢
  have hbody := answered_by proto backupServer cost printDouble stack shared .ttl (by decide) hdecode (by
    simp only [integerCommands, List.mem_cons, List.not_mem_nil, or_false] at hcommand
    simp only [parseResponseBody, hr.client, hr.code, Bool.false_eq_true, if_false, ne_eq, not_true_eq_false]
    rcases hcommand with hc | hc | hc | hc | hc | hc | hc | hc <;> rw [hc])
  have hdata : writtenData { request with num := m } = .word (if request.commandType = .sismember then
      if m ≠ 0 then text "true" else text "false" else intText m) := by
    rcases List.mem_cons.mp hcommand with hc | hc
    · simp only [writtenData, hc, if_true]
    · have hword : writtenData { request with num := m } = .word (intText m) := writtenData_integer hc
      rw [hword, if_neg]
      intro hs
      rw [hs] at hc
      revert hc
      decide
  have hdoc : writerDoc cost { request with num := m } printDouble .ttl = answerDoc cost .ok []
      [(text "data",.word (if request.commandType = .sismember then
        if m ≠ 0 then text "true" else text "false" else intText m))] := by
    rw [writerDoc, writerJsonTtl, hdata, ← hr.desc, ← hr.code]
    rfl
  rwa [hdoc] at hbody

theorem answered_count {n : Int} (hr : Unanswered request) (hcommand : request.commandType ∈ integerCommands)
    (hn : -2 ^ 31 ≤ n ∧ n < 2 ^ 31) (hreply : request.responseBuffer = encode (.integer n)) :
    AnsweredWith proto backupServer cost printDouble stack shared request
      (answerDoc cost .ok [] [(text "data",.word (intText n))]) := by
  have hanswer := answered_integer proto backupServer cost printDouble stack shared hr
    (List.mem_cons_of_mem _ hcommand) hreply
  have hshown : int32 (clampLong n) = n := by
    have hclamp : clampLong n = n := by
      unfold clampLong
      omega
    rw [hclamp, int32_of_range (by omega) (by omega)]
  have hnot : request.commandType ≠ .sismember := by
    intro hs
    rw [hs] at hcommand
    revert hcommand
    decide
  rwa [if_neg hnot, hshown] at hanswer

theorem answered_test {b : Bool} (hr : Unanswered request) (hcommand : request.commandType = .sismember)
    (hreply : request.responseBuffer = encode (.integer (if b then 1 else 0))) :
    AnsweredWith proto backupServer cost printDouble stack shared request
      (answerDoc cost .ok [] [(text "data",.word (if b then text "true" else text "false"))]) := by
  have hanswer := answered_integer proto backupServer cost printDouble stack shared hr
    (by rw [hcommand]; exact List.mem_cons_self) hreply
  rw [if_pos hcommand] at hanswer
  cases b
  · exact hanswer
  · exact hanswer

theorem answered_members {t : Int} {vs : List Value} (hr : Unanswered request)
    (hcommand : request.commandType = .smembers) (hempty : request.vectorMbs = [])
    (hvs : ∀ v ∈ vs, v.bytes ≠ snappyWord) (hsize : vs.length < 2 ^ 31)
    (hreply : request.responseBuffer = encode (.array (storedArray proto t vs))) :
    AnsweredWith proto backupServer cost printDouble stack shared request (answerDoc cost .ok []
      [(text "k",.string request.key),(text "mbs",.array ((vs.map (·.bytes)).map .string))]) := by
  have hlength : (storedArray proto t vs).length < 2 ^ 31 := by rwa [storedArray, List.length_map]
  have hdecode : redisProtoDecode proto stack shared.scripts none request =
      .ok ⟨.ok,{ request with vectorMbs := vs.map (·.bytes) },none,shared.scripts⟩ := by
    rw [redisProtoDecode_encArray proto stack _ _ _ _ hr.code (by rw [hcommand]; decide) hreply,
      arraySize_of_lt hlength,
      if_neg (by omega), Int.toNat_natCast, List.take_length, takeElems_smembers proto t hvs 0 hcommand,
      foldl_pushMember, hempty, List.nil_append]
    simp only [Except.map, ttlCheck, hcommand, reduceCtorEq, false_and, if_false]
  have hbody := answered_by proto backupServer cost printDouble stack shared .smembers (by decide) hdecode (by
    simp only [parseResponseBody, hr.client, hr.code, hcommand, Bool.false_eq_true, if_false, ne_eq,
      not_true_eq_false])
  have hdoc : writerDoc cost { request with vectorMbs := vs.map (·.bytes) } printDouble .smembers =
      answerDoc cost .ok []
        [(text "k",.string request.key),(text "mbs",.array ((vs.map (·.bytes)).map .string))] := by
    rw [← hr.desc, ← hr.code]
    rfl
  rwa [hdoc] at hbody

end Answers

end QkPack
